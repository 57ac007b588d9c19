import CalcBasic.Arena

/-!
# Building arenas

The arena of a program is built while the program is read. A chain is begun as soon as it is known
that there will be a block: behind the header of a loop, behind `Else`, and for a conditional before
it is known whether `Then` follows. A statement is put into its chain when it is read to its end, and
meanwhile the statements inside it have begun chains of their own in the same arena.
-/

namespace CalcBasic

/-- A reader of tokens that builds an arena. -/
abbrev Builder (α : Type) : Type := StateT (Arena Span) Reader α

namespace Builder

/-- Begins a chain, and gives its number. -/
def begin : Builder Nat := fun a => pure (a.chains.length, a.begin)

/-- Puts a statement at the end of a chain. -/
def push (c : Nat) (e : Entry Span) : Builder Unit := fun a => pure ((), a.push c e)

/-- Reads statements into a chain up to the end of a block; `fuel` bounds their number. -/
def chainFrom (statement : Builder (Entry Span)) (c : Nat) : Nat → Builder Unit
  | 0 => pure ()
  | fuel + 1 => do
    Reader.skipSeparators
    match ← Reader.peek with
    | none | some (.keyword .end_) | some (.keyword .else_) => return
    | some _ =>
      let e ← statement
      if ← Reader.atEnd then
        push c e
        chainFrom statement c fuel
      else Reader.unexpected .endOfStatement

/-- Reads the statements of a block into a chain. -/
def chain (statement : Builder (Entry Span)) (c : Nat) : Builder Unit := do
  let ts ← (get : Reader (List (Spanned Token)))
  chainFrom statement c (ts.length + 1)

/-- A statement that begins with none of the keywords of blocks. -/
def command (room : Nat) : Reader (Entry Span) := do
  match ← Stmt.form room (Reader.fail .tooDeep) (Reader.fail .tooDeep) with
  | .command span c => return .command span c
  | .ifThen .. | .ifElse .. | .whileLoop .. | .forLoop .. => Reader.fail .tooDeep

section Forms

variable (room : Nat) (body : Nat → Builder Unit) (single : Builder (Entry Span))

/-- The blocks of a conditional behind its `Then`, the first of them in a chain that has begun. -/
def parts (header : Span) (condition : Expr Span) (yes : Nat) : Builder (Entry Span) := do
  body yes
  match ← Reader.eat? (.keyword .else_) with
  | none =>
    Stmt.blockEnd .if_ header
    return .ifThen header condition yes
  | some _ =>
    let no ← begin
    body no
    Stmt.blockEnd .if_ header
    return .ifElse header condition yes no

/-- The rest of a conditional whose header is read: a single statement, or blocks up to `End`. -/
def guarded (header : Span) (condition : Expr Span) : Builder (Entry Span) := do
  Reader.skipSeparators
  let yes ← begin
  match ← Reader.eat? (.keyword .then_) with
  | some _ => parts body header condition yes
  | none =>
    match ← Reader.peek with
    | none | some (.keyword .end_) | some (.keyword .else_) =>
      Reader.unexpected .guardedStatement
    | some _ =>
      let e ← single
      push yes e
      return .ifThen header condition yes

/-- The rest of a loop whose header is read. -/
def looped (opener : Keyword) (header : Span) (entry : Nat → Entry Span) :
    Builder (Entry Span) := do
  let c ← begin
  body c
  Stmt.blockEnd opener header
  return entry c

/-- A statement with room for so many more levels of nesting; `body` and `single` read one level
deeper. -/
def form : Builder (Entry Span) := fun a ts =>
  match ts with
  | ⟨.keyword .if_, span⟩ :: rest => (do
      let condition ← Expr.reader room
      guarded body single (span.merge condition.span) condition : Builder (Entry Span)) a rest
  | ⟨.keyword .while_, span⟩ :: rest => (do
      let condition ← Expr.reader room
      let header := span.merge condition.span
      looped body .while_ header (.whileLoop header condition) : Builder (Entry Span)) a rest
  | ⟨.keyword .for_, span⟩ :: rest => (do
      let (range, stop) ← Stmt.rangeReader room
      let header := span.merge stop
      looped body .for_ header (.forLoop header range) : Builder (Entry Span)) a rest
  | ts => (command room : Builder (Entry Span)) a ts

end Forms

/-- A statement inside something that leaves so much room. -/
def reader : Nat → Builder (Entry Span)
  | 0 => form 0 (fun _ => Reader.fail .tooDeep) (Reader.fail .tooDeep)
  | room + 1 => form (room + 1) (chain (reader room)) (reader room)

end Builder

namespace Arena

/-- Reads a program into an arena: a block at the top level, in chain 0. -/
def reader : Reader (Arena Span) := do
  let ((), a) ← Builder.chain (Builder.reader maxNesting) 0 start
  return a

/-- The arena of the program that a source consists of. -/
def parse (source : String) : Except SourceError (Arena Span) :=
  reader.ofSource .unmatched source

end Arena

end CalcBasic
