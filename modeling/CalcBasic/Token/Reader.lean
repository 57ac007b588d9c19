import CalcBasic.SourceError

/-!
# Readers

A reader takes tokens from the front of a list and gives a result and the tokens that are left, or a
complaint. A complaint at the end of the tokens has no span yet: it stands at the end of the source,
which only the caller knows.
-/

namespace CalcBasic

/-- Why reading failed, and at which token. -/
structure Complaint where
  cause : Cause
  span? : Option Span
deriving DecidableEq, Repr

/-- A reader of tokens. -/
abbrev Reader (α : Type) : Type := StateT (List (Spanned Token)) (Except Complaint) α

namespace Reader

/-- The next token. -/
def peek : Reader (Option Token) := fun ts => .ok (ts.head?.map (·.node), ts)

/-- Fails at the next token. -/
def fail {α : Type} (cause : Cause) : Reader α := fun ts => .error ⟨cause, ts.head?.map (·.span)⟩

/-- Fails at the next token because something else could have stood there. -/
def unexpected {α : Type} (what : Expected) : Reader α := fun ts =>
  .error ⟨.expected what (ts.head?.map (·.node)), ts.head?.map (·.span)⟩

/-- Takes the next token if it is `t`, and gives its place. -/
def eat? (t : Token) : Reader (Option Span)
  | [] => .ok (none, [])
  | u :: rest => if u.node = t then .ok (some u.span, rest) else .ok (none, u :: rest)

/-- Takes the mark `m`, which has to stand here. -/
def expect (m : Mark) : Reader Unit := do
  if (← eat? (.mark m)).isNone then unexpected (.mark m)

/-- Whether a statement ends here: at a separator or at the end of the tokens. -/
def atEnd : Reader Bool := do
  match ← peek with
  | none | some .separator => return true
  | some _ => return false

/-- Takes the closing mark `m`, which may be left out where a statement ends; gives its place. -/
def close (m : Mark) : Reader (Option Span) := do
  match ← eat? (.mark m) with
  | some span => return some span
  | none => if ← atEnd then return none else unexpected (.mark m)

/-- Takes all separators that stand here. -/
def skipSeparators : Reader Unit := fun ts =>
  .ok ((), ts.dropWhile fun t => t.node = .separator)

/-- Reads items after commas as long as a comma follows; `items` holds the items so far, the last
one in front, and `fuel` bounds their number. -/
def commaItems {α : Type} (item : Reader α) (items : List α) : Nat → Reader (List α)
  | 0 => pure items.reverse
  | fuel + 1 => do
    match ← eat? (.mark .comma) with
    | some _ => commaItems item ((← item) :: items) fuel
    | none => return items.reverse

/-- Reads one or more items with commas between them. -/
def separated {α : Type} (item : Reader α) : Reader (List α) := do
  let first ← item
  commaItems item [first] (← get).length

/-- Gives `inner` one level of nesting less than there is room for, and fails where there is no
room. -/
def nested {α : Type} (inner : Nat → Reader α) : Nat → Reader α
  | 0 => fail .tooDeep
  | room + 1 => inner room

/-- Reads all tokens of a source of `size` bytes. A token that is left over is a mistake, and a
complaint at the end of the tokens stands at the end of the source. -/
def ofTokens {α : Type} (reader : Reader α) (leftover : Token → Cause) (size : Nat)
    (tokens : List (Spanned Token)) : Except SourceError α :=
  match reader tokens with
  | .ok (result, []) => .ok result
  | .ok (_, t :: _) => .error (.malformed (leftover t.node) t.span)
  | .error complaint => .error (.malformed complaint.cause (complaint.span?.getD ⟨size, size⟩))

/-- Reads a whole source. -/
def ofSource {α : Type} (reader : Reader α) (leftover : Token → Cause) (source : String) :
    Except SourceError α :=
  match Token.read source with
  | .error u => .error (.unreadable u)
  | .ok tokens => reader.ofTokens leftover source.utf8ByteSize tokens

end Reader

end CalcBasic
