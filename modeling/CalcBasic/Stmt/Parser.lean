import CalcBasic.Expr.Parser
import CalcBasic.Stmt

/-!
# Reading statements

A block is a run of statements with separators between them; it ends before `End`, before `Else` and
at the end of the tokens. Every block takes one level of nesting, and so does the single statement
that a condition without `Then` guards.
-/

namespace CalcBasic.Stmt

/-- A variable's name. -/
def nameReader : Reader (Name Span)
  | ⟨.name n, span⟩ :: rest => .ok (⟨span, n⟩, rest)
  | ts => Reader.unexpected .variableName ts

/-- Where a value is stored, and the place where it ends. -/
def targetReader (room : Nat) : Reader (Target Span × Span) := do
  let name ← nameReader
  match ← Expr.index? (fun _ => Expr.reader room) name.text with
  | none => return (.whole name, name.span)
  | some (index, closed) =>
    return (.element (name.span.merge index.span) name index, closed.getD index.span)

/-- The values of a `Disp`, of which there may be none. -/
def valuesReader (room : Nat) : Reader (List (Expr Span)) := do
  if ← Reader.atEnd then return [] else Reader.separated (Expr.reader room)

/-- The text that an `Input` shows, with its comma. -/
def textReader : Reader (Option String)
  | ⟨.text s, _⟩ :: rest => (do
      Reader.expect .comma
      return some s : Reader (Option String)) rest
  | ts => .ok (none, ts)

/-- The span from `first` to the last of the nodes after it, of which there may be none. -/
def spanThrough (first : Span) (spans : List Span) : Span := first.merge (spans.getLast?.getD first)

/-- An expression that stands alone or is stored. -/
def valueReader (room : Nat) : Reader (Stmt Span) := do
  let value ← Expr.reader room
  match ← Reader.eat? (.mark .store) with
  | none => return .command value.span (.evaluate value)
  | some _ =>
    let (target, stop) ← targetReader room
    return .command (value.span.merge stop) (.store value target)

/-- The head of a counting loop after its keyword, and the place where it ends. -/
def rangeReader (room : Nat) : Reader (Range Span × Span) := do
  let counter ← nameReader
  Reader.expect .comma
  let start ← Expr.reader room
  Reader.expect .comma
  let last ← Expr.reader room
  let step ← match ← Reader.eat? (.mark .comma) with
    | some _ => some <$> Expr.reader room
    | none => pure none
  let closed ← Reader.close .rightParen
  return (⟨counter, start, last, step⟩, closed.getD (step.getD last).span)

/-- The end of a block whose statement `opener` has its header at `header`. -/
def blockEnd (opener : Keyword) (header : Span) : Reader Unit
  | [] => .error ⟨.unclosed opener, some header⟩
  | ⟨.keyword .end_, _⟩ :: rest => .ok ((), rest)
  | ts => Reader.unexpected .blockEnd ts

/-- Reads statements up to the end of a block; `statements` holds those so far, the last one in
front, and `fuel` bounds their number. -/
def blockFrom (statement : Reader (Stmt Span)) (statements : List (Stmt Span)) :
    Nat → Reader (List (Stmt Span))
  | 0 => pure statements.reverse
  | fuel + 1 => do
    Reader.skipSeparators
    match ← Reader.peek with
    | none | some (.keyword .end_) | some (.keyword .else_) => return statements.reverse
    | some _ =>
      let s ← statement
      if ← Reader.atEnd then blockFrom statement (s :: statements) fuel
      else Reader.unexpected .endOfStatement

/-- The statements of a block. -/
def block (statement : Reader (Stmt Span)) : Reader (List (Stmt Span)) := do
  blockFrom statement [] ((← get).length + 1)

section Forms

variable (room : Nat) (body : Reader (List (Stmt Span))) (single : Reader (Stmt Span))

/-- The rest of a conditional whose header is read: a single statement, or blocks up to `End`. -/
def guarded (header : Span) (condition : Expr Span) : Reader (Stmt Span) := do
  Reader.skipSeparators
  match ← Reader.peek with
  | some (.keyword .then_) =>
    modify (List.drop 1)
    let yes ← body
    match ← Reader.eat? (.keyword .else_) with
    | none =>
      blockEnd .if_ header
      return .ifThen header condition yes
    | some _ =>
      let no ← body
      blockEnd .if_ header
      return .ifElse header condition yes no
  | none | some (.keyword .end_) | some (.keyword .else_) =>
    Reader.unexpected .guardedStatement
  | some _ => return .ifThen header condition [← single]

/-- A statement with room for so many more levels of nesting; `body` and `single` read one level
deeper. -/
def form : Reader (Stmt Span)
  | ⟨.keyword .disp, span⟩ :: rest => (do
      let values ← valuesReader room
      return .command (spanThrough span (values.map Expr.span)) (.display values)
    : Reader (Stmt Span)) rest
  | ⟨.keyword .prompt, span⟩ :: rest => (do
      let names ← Reader.separated nameReader
      return .command (spanThrough span (names.map Name.span)) (.prompt names)
    : Reader (Stmt Span)) rest
  | ⟨.keyword .input, span⟩ :: rest => (do
      let text ← textReader
      let name ← nameReader
      return .command (span.merge name.span) (.input text name) : Reader (Stmt Span)) rest
  | ⟨.keyword .if_, span⟩ :: rest => (do
      let condition ← Expr.reader room
      guarded body single (span.merge condition.span) condition : Reader (Stmt Span)) rest
  | ⟨.keyword .while_, span⟩ :: rest => (do
      let condition ← Expr.reader room
      let header := span.merge condition.span
      let statements ← body
      blockEnd .while_ header
      return .whileLoop header condition statements : Reader (Stmt Span)) rest
  | ⟨.keyword .for_, span⟩ :: rest => (do
      let (range, stop) ← rangeReader room
      let header := span.merge stop
      let statements ← body
      blockEnd .for_ header
      return .forLoop header range statements : Reader (Stmt Span)) rest
  | ⟨.label n, span⟩ :: rest => .ok (.command span (.label n), rest)
  | ⟨.goto n, span⟩ :: rest => .ok (.command span (.goto n), rest)
  | ⟨.keyword .stop, span⟩ :: rest => .ok (.command span .stop, rest)
  | ⟨.keyword .then_, span⟩ :: _ => .error ⟨.strayThen, some span⟩
  | ts => valueReader room ts

end Forms

/-- A statement inside something that leaves so much room. -/
def reader : Nat → Reader (Stmt Span)
  | 0, ts => form 0 (Reader.fail .tooDeep) (Reader.fail .tooDeep) ts
  | room + 1, ts => form (room + 1) (block (reader room)) (reader room) ts

end CalcBasic.Stmt
