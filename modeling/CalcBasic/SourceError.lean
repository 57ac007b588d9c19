import CalcBasic.Token.Lexer

/-!
# Errors in a source

A source is turned down for one of three reasons: it cannot be cut into tokens, its tokens form no
program, or it cannot be had at all. Each reason is a cause; `SourceError.message` is the only place
where causes become words.
-/

namespace CalcBasic

/-- What could have stood at a place. -/
inductive Expected where
  | expression
  | variableName
  | mark (m : Mark)
  | endOfStatement
  | blockEnd
  | guardedStatement
deriving DecidableEq, Repr

namespace Expected

/-- How messages name what could have stood at a place. -/
def describe : Expected → String
  | expression => "an expression"
  | variableName => "a variable"
  | mark m => (Token.mark m).describe
  | endOfStatement => "end of statement"
  | blockEnd => "`End`"
  | guardedStatement => "a statement after `If`"

end Expected

/-- The deepest nesting of blocks and expressions in a program. -/
def maxNesting : Nat := 1000

/-- Why tokens form no program. -/
inductive Cause where
  | tooDeep
  | expected (what : Expected) (found : Option Token)
  /-- `Then` that follows no condition. -/
  | strayThen
  /-- A token that closes or divides a block where none is open. -/
  | unmatched (token : Token)
  /-- A token after the end of an expression that should stand alone. -/
  | leftover (token : Token)
  /-- The tokens end inside a block, so that further lines may still complete the program. -/
  | unclosed (opener : Keyword)
deriving DecidableEq, Repr

namespace Cause

/-- The cause in words. -/
def message : Cause → String
  | tooDeep => s!"nesting too deep (more than {maxNesting} levels)"
  | expected what (some token) => s!"expected {what.describe}, found {token.describe}"
  | expected what none => s!"expected {what.describe}, found end of input"
  | strayThen => "`Then` without `If`"
  | unmatched token => s!"{token.describe} without a matching block"
  | leftover token => s!"unexpected {token.describe} after expression"
  | unclosed opener => s!"`{opener.spelling}` block is missing its `End`"

/-- Whether only the end of a block is missing. -/
def isIncomplete : Cause → Bool
  | unclosed _ => true
  | _ => false

end Cause

/-- Why a source gives no program or expression. -/
inductive SourceError where
  | unreadable (u : Unreadable)
  | malformed (cause : Cause) (span : Span)
  | unavailable (reason : String)
deriving DecidableEq, Repr

namespace SourceError

/-- The error in words. -/
def message : SourceError → String
  | unreadable u => s!"unexpected character: {Text.quote u.slice}"
  | malformed cause _ => cause.message
  | unavailable reason => reason

/-- Where the error stands. -/
def span? : SourceError → Option Span
  | unreadable u => some u.span
  | malformed _ span => some span
  | unavailable _ => none

/-- Whether further lines may complete the source. -/
def isIncomplete : SourceError → Bool
  | malformed cause _ => cause.isIncomplete
  | _ => false

/-- The title of a report about the error. -/
def title : SourceError → String
  | unreadable _ => "Lexer error"
  | malformed .. => "Parser error"
  | unavailable _ => "IO error"

/-- The error with its title and its place. -/
def display (e : SourceError) : String :=
  match e.span? with
  | some span => s!"{e.title} at {span.text}: {e.message}"
  | none => s!"{e.title}: {e.message}"

end SourceError

end CalcBasic
