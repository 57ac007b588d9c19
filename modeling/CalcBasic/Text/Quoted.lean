import CalcBasic.Text.Hidden

/-!
# Quoted text

Text in messages stands between double quotes. A quote, a backslash, a tab, the two line endings and
the null character are written by a backslash and a letter; another hidden character is written by
its code point in hexadecimal; every other character stands for itself.
-/

namespace CalcBasic.Text

/-- The short name of a character that has one: what follows the backslash. -/
def shortEscape? : Char → Option Char
  | '"' => some '"'
  | '\\' => some '\\'
  | '\t' => some 't'
  | '\n' => some 'n'
  | '\r' => some 'r'
  | '\x00' => some '0'
  | _ => none

/-- A character as it stands between the quotes. -/
def quoteChar (c : Char) : List Char :=
  match shortEscape? c with
  | some letter => ['\\', letter]
  | none => if isHidden c then "\\u\x7b".toList ++ Nat.toDigits 16 c.toNat ++ ['\x7d'] else [c]

/-- The text between double quotes. -/
def quote (s : String) : String :=
  String.ofList ('"' :: s.toList.flatMap quoteChar ++ ['"'])

end CalcBasic.Text
