import CalcBasic.Text.Blank

/-!
# Lines

A line ends at a line feed, and a carriage return right before the line feed belongs to the ending.
What stands after the last line feed is a line too, unless it is empty. `normalize` is what loading
a program does to its text: every line is trimmed and the lines are joined again.
-/

namespace CalcBasic.Text

/-- A line given backwards, without the carriage return that belongs to its ending. -/
def dropReturn : List Char → List Char
  | '\r' :: rest => rest
  | line => line

/-- Reads lines off the characters; `line` holds, backwards, what the current line has so far. -/
def linesFrom (line : List Char) : List Char → List (List Char)
  | [] => if line.isEmpty then [] else [line.reverse]
  | '\n' :: rest => (dropReturn line).reverse :: linesFrom [] rest
  | c :: rest => linesFrom (c :: line) rest

/-- The lines of a text, without their endings. -/
def lines (s : String) : List String := (linesFrom [] s.toList).map String.ofList

/-- Trims every line and joins the lines with single line feeds. -/
def normalize (s : String) : String := "\n".intercalate ((lines s).map trim)

end CalcBasic.Text
