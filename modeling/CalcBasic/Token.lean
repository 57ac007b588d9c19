import CalcBasic.Name
import CalcBasic.Number
import CalcBasic.Operator
import CalcBasic.Text.Quoted

/-!
# Tokens

A token is a word of the language. Most tokens have one fixed meaning; names, labels, numbers and
texts carry what was written. `Token.describe` is how messages speak of a token, and
`Token.listing` is how a token listing writes it.
-/

namespace CalcBasic

/-- The words that open, divide and close statements. -/
inductive Keyword where
  | disp | prompt | input
  | if_ | then_ | else_ | end_
  | while_ | for_
  | stop
deriving DecidableEq, Repr

namespace Keyword

/-- Every keyword. -/
def all : List Keyword := [disp, prompt, input, if_, then_, else_, end_, while_, for_, stop]

/-- How a keyword is written; the loop over a range includes its opening parenthesis. -/
def spelling : Keyword → String
  | disp => "Disp"
  | prompt => "Prompt"
  | input => "Input"
  | if_ => "If"
  | then_ => "Then"
  | else_ => "Else"
  | end_ => "End"
  | while_ => "While"
  | for_ => "For("
  | stop => "Stop"

/-- The class of a keyword in a token listing. -/
def tag : Keyword → String
  | for_ => "For"
  | k => k.spelling

end Keyword

/-- The marks that are neither operators nor words. -/
inductive Mark where
  | store
  | leftParen | rightParen
  | leftBrace | rightBrace
  | comma
deriving DecidableEq, Repr

namespace Mark

/-- How messages write a mark. -/
def symbol : Mark → String
  | store => "→"
  | leftParen => "("
  | rightParen => ")"
  | leftBrace => "\x7b"
  | rightBrace => "\x7d"
  | comma => ","

/-- The class of a mark in a token listing. -/
def tag : Mark → String
  | store => "Store"
  | leftParen => "LParen"
  | rightParen => "RParen"
  | leftBrace => "LBrace"
  | rightBrace => "RBrace"
  | comma => "Comma"

end Mark

/-- A word of the language. -/
inductive Token where
  | keyword (k : Keyword)
  /-- A place to jump to, with the name of the label. -/
  | label (name : String)
  /-- A jump, with the name of the label. -/
  | goto (name : String)
  | name (name : String)
  | number (value : Float)
  | text (content : String)
  | op (o : Op)
  | mark (m : Mark)
  /-- A line feed or a colon. -/
  | separator
deriving DecidableEq, Repr

/-- The class of an operator in a token listing. -/
def Op.tag : Op → String
  | or => "Or"
  | and => "And"
  | eq => "Eq"
  | ne => "Ne"
  | lt => "Lt"
  | le => "Le"
  | gt => "Gt"
  | ge => "Ge"
  | add => "Plus"
  | sub => "Minus"
  | mul => "Star"
  | div => "Slash"
  | pow => "Caret"

/-- The class of a name in a token listing. -/
def Region.tag : Region → String
  | letter => "Var"
  | list => "ListVar"
  | free => "CustomList"

namespace Token

/-- The class of a token in a token listing. -/
def tag : Token → String
  | keyword k => k.tag
  | label _ => "Lbl"
  | goto _ => "Goto"
  | name n => (Region.of n).tag
  | number _ => "Number"
  | text _ => "Str"
  | op o => o.tag
  | mark m => m.tag
  | separator => "Eol"

/-- How messages speak of a token. -/
def describe : Token → String
  | keyword k => s!"`{k.spelling}`"
  | label n => s!"`Lbl {n}`"
  | goto n => s!"`Goto {n}`"
  | name n => s!"variable `{n}`"
  | number x => s!"number `{Number.plain.write x}`"
  | text s => s!"string \"{s}\""
  | op o => s!"`{o.symbol}`"
  | mark m => s!"`{m.symbol}`"
  | separator => "end of statement"

/-- The content of a token as a listing writes it. -/
def content? : Token → Option String
  | label n | goto n | name n | text n => some (Text.quote n)
  | number x => some (Number.text x)
  | _ => none

/-- A token as a listing writes it: its class, and its content in parentheses. -/
def listing (t : Token) : String :=
  match t.content? with
  | some content => s!"{t.tag}({content})"
  | none => t.tag

end Token

end CalcBasic
