import CalcBasic.Token

/-!
# Token rules

The words of the language are given by rules. A rule recognises some texts in full; `Rule.lexeme?`
finds the longest one at the front of the characters to come, and `Rule.token` is the token it
stands for. No text belongs to two rules, so the longest lexeme fixes the rule as well.

Three forms can be begun and left unfinished: a label or a jump without its name, and a text without
its closing quote. These are mistakes even where a shorter word could be read in their place.
-/

namespace CalcBasic

/-- A rule for one kind of word. -/
inductive Rule where
  | fixed (spelling : List Char) (token : Token)
  /-- A capital letter. -/
  | letter
  /-- `L` and a digit from 1 to 6, plain or subscript. -/
  | listName
  /-- `⌊`, a capital letter, and then letters and digits. -/
  | freeName
  /-- Digits with an optional fraction, or a fraction alone. -/
  | number
  /-- Anything but quotes and line feeds between two quotes. -/
  | text
  /-- A word, blanks, and then letters and digits: a label or a jump. -/
  | labelled (spelling : List Char) (token : String → Token)

namespace Rule

/-- A space or a tab. -/
def isGap (c : Char) : Bool := c == ' ' || c == '\t'

/-- A character of a label's name, or of a free name after its first letter. -/
def isNameChar (c : Char) : Bool := isLetter c || isDigit c

/-- The characters after `spelling`, if it stands at the front. -/
def after? (spelling cs : List Char) : Option (List Char) :=
  if spelling.isPrefixOf cs then some (cs.drop spelling.length) else none

/-- A built-in list's digit in its subscript form. -/
def subscript? : Char → Option Char
  | '1' | '₁' => some '₁'
  | '2' | '₂' => some '₂'
  | '3' | '₃' => some '₃'
  | '4' | '₄' => some '₄'
  | '5' | '₅' => some '₅'
  | '6' | '₆' => some '₆'
  | _ => none

/-- The number at the front: digits and perhaps a fraction, or a fraction with at least one
digit. -/
def numberLexeme? (cs : List Char) : Option (List Char) :=
  let whole := cs.takeWhile isDigit
  match cs.drop whole.length with
  | '.' :: rest =>
    let fraction := rest.takeWhile isDigit
    if whole.isEmpty && fraction.isEmpty then none else some (whole ++ '.' :: fraction)
  | _ => if whole.isEmpty then none else some whole

/-- A character that may stand inside a text. -/
def isTextChar (c : Char) : Bool := c != '"' && c != '\n'

/-- The longest text at the front of the characters that the rule recognises in full. -/
def lexeme? (cs : List Char) : Rule → Option (List Char)
  | fixed spelling _ => (after? spelling cs).map fun _ => spelling
  | letter =>
    match cs with
    | c :: _ => if isLetter c then some [c] else none
    | [] => none
  | listName =>
    match cs with
    | 'L' :: c :: _ => (subscript? c).map fun _ => ['L', c]
    | _ => none
  | freeName =>
    match cs with
    | '⌊' :: c :: rest =>
      if isLetter c then some ('⌊' :: c :: rest.takeWhile isNameChar) else none
    | _ => none
  | number => numberLexeme? cs
  | text =>
    match cs with
    | '"' :: rest =>
      let content := rest.takeWhile isTextChar
      match rest.drop content.length with
      | '"' :: _ => some ('"' :: content ++ ['"'])
      | _ => none
    | _ => none
  | labelled spelling _ => do
    let rest ← after? spelling cs
    let gap := rest.takeWhile isGap
    let name := (rest.drop gap.length).takeWhile isNameChar
    if name.isEmpty then none else some (spelling ++ gap ++ name)

/-- What was begun at the front of the characters and left unfinished. -/
def unfinished? (cs : List Char) : Rule → Option (List Char)
  | text =>
    match cs with
    | '"' :: rest =>
      let content := rest.takeWhile isTextChar
      match rest.drop content.length with
      | '"' :: _ => none
      | _ => some ('"' :: content)
    | _ => none
  | labelled spelling _ => do
    let rest ← after? spelling cs
    let gap := rest.takeWhile isGap
    let name := (rest.drop gap.length).takeWhile isNameChar
    if name.isEmpty then some (spelling ++ gap) else none
  | _ => none

/-- The value of decimal digits. -/
def digitsValue (digits : List Char) : Nat :=
  digits.foldl (fun value c => 10 * value + (c.toNat - '0'.toNat)) 0

/-- The number nearest to the one a lexeme writes. -/
def numberValue (lexeme : List Char) : Float :=
  let whole := lexeme.takeWhile isDigit
  let fraction := lexeme.drop (whole.length + 1)
  Float.ofScientific (digitsValue (whole ++ fraction)) true fraction.length

/-- The token that a lexeme of the rule stands for. -/
def token (lexeme : List Char) : Rule → Token
  | fixed _ t => t
  | letter | freeName => .name (String.ofList lexeme)
  | listName => .name (String.ofList (lexeme.map fun c => (subscript? c).getD c))
  | number => .number (numberValue lexeme)
  | text => .text (String.ofList ((lexeme.drop 1).dropLast))
  | labelled spelling t => t (String.ofList ((lexeme.drop spelling.length).dropWhile isGap))

/-- The other spellings of marks and operators, beside their symbols. -/
def plainSpellings : List (String × Token) :=
  [("->", .mark .store), ("!=", .op .ne), ("<=", .op .le), (">=", .op .ge),
    ("\n", .separator), (":", .separator)]

/-- The words with a fixed spelling. -/
def fixedSpellings : List (String × Token) :=
  Keyword.all.map (fun k => (k.spelling, .keyword k)) ++
    [Op.or, .and, .eq, .ne, .lt, .le, .gt, .ge, .add, .sub, .mul, .div, .pow].map
      (fun o => (o.symbol, .op o)) ++
    [Mark.store, .leftParen, .rightParen, .leftBrace, .rightBrace, .comma].map
      (fun m => (m.symbol, .mark m)) ++
    plainSpellings

/-- Every rule of the language. -/
def all : List Rule :=
  [letter, listName, freeName, number, text, labelled "Lbl".toList .label,
    labelled "Goto".toList .goto] ++
    fixedSpellings.map fun p => fixed p.1.toList p.2

end Rule

end CalcBasic
