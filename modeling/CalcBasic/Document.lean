import CalcBasic.Decimal.Layout

/-!
# Documents

A document is a tree of records, lists and single values, in the order in which it is written.
`Document.pretty` writes it as JSON text, two spaces to a level.
-/

namespace CalcBasic

/-- A tree of data. -/
inductive Document where
  | null
  | nat (n : Nat)
  | number (x : Float)
  | text (s : String)
  | list (items : List Document)
  | record (fields : List (String × Document))

namespace Document

/-- A record with one field: a value together with its kind. -/
def tagged (tag : String) (content : Document) : Document := record [(tag, content)]

/-- A number has the fraction `.0` when it is whole, and a signed exponent from `10 ^ 16` on and
below `10 ^ -5`. -/
def numberLayout : Decimal.Layout where
  positional := some (-5, 16)
  wholeFraction := true
  exponentPlus := true
  tie := .even

/-- The letter that follows the backslash for a character that has one. -/
def shortName? : Char → Option Char
  | '"' => some '"'
  | '\\' => some '\\'
  | '\x08' => some 'b'
  | '\t' => some 't'
  | '\n' => some 'n'
  | '\x0c' => some 'f'
  | '\r' => some 'r'
  | _ => none

/-- A character of a text: control characters are written by name or by number. -/
def textChar (c : Char) : List Char :=
  match shortName? c with
  | some letter => ['\\', letter]
  | none =>
    if c.toNat < 0x20 then
      let digits := Nat.toDigits 16 c.toNat
      '\\' :: 'u' :: List.replicate (4 - digits.length) '0' ++ digits
    else [c]

/-- A text between quotes. -/
def quoted (s : String) : String := String.ofList ('"' :: s.toList.flatMap textChar ++ ['"'])

/-- A line feed and the indentation of a level. -/
def newline (level : Nat) : String := String.ofList ('\n' :: List.replicate (2 * level) ' ')

mutual

/-- Writes a document at a level of indentation behind `out`. -/
def write (level : Nat) (out : String) : Document → String
  | null => out ++ "null"
  | nat n => out ++ toString n
  | number x => out ++ if x.isFinite then numberLayout.write x else "null"
  | text s => out ++ quoted s
  | list [] => out ++ "[]"
  | list (item :: items) =>
    let first := write (level + 1) (out ++ "[" ++ newline (level + 1)) item
    writeItems (level + 1) first items ++ newline level ++ "]"
  | record [] => out ++ "\x7b\x7d"
  | record (field :: fields) =>
    let first := writeField (level + 1) (out ++ "\x7b" ++ newline (level + 1)) field
    writeFields (level + 1) first fields ++ newline level ++ "\x7d"

/-- Writes the items of a list after its first. -/
def writeItems (level : Nat) (out : String) : List Document → String
  | [] => out
  | item :: items => writeItems level (write level (out ++ "," ++ newline level) item) items

/-- Writes the fields of a record after its first. -/
def writeFields (level : Nat) (out : String) : List (String × Document) → String
  | [] => out
  | field :: fields =>
    writeFields level (writeField level (out ++ "," ++ newline level) field) fields

/-- Writes a field of a record. -/
def writeField (level : Nat) (out : String) : String × Document → String
  | (key, value) => write level (out ++ quoted key ++ ": ") value

end

/-- A document as JSON text. -/
def pretty (d : Document) : String := d.write 0 ""

end Document

end CalcBasic
