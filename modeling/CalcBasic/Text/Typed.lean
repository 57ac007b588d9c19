import CalcBasic.Text.Cluster

/-!
# Typed lines

A line that is typed may hold backspaces. Each one takes back the last cluster that can still be
taken back, and does nothing where there is none.

What a backspace takes back is counted in bytes, and the count of a cluster is kept in a single byte.
A cluster of 256 bytes or more is therefore taken back only in part, or not at all, and the clusters
before it are then counted off what is left of it. A count may end inside a character; such a line
is broken, and nothing can be made of it.
-/

namespace CalcBasic.Text

/-- The character that takes back what was typed before it. -/
def backspace : Char := '\x08'

/-- A line while it is typed. -/
structure Typing where
  /-- The characters that are there, the last one in front. -/
  kept : List Char := []
  /-- How many bytes each backspace to come takes back, the first one in front. -/
  counts : List Nat := []
deriving DecidableEq, Repr

/-- How many bytes a backspace takes back for a cluster. -/
def byteCount (cluster : List Char) : Nat := (String.ofList cluster).utf8ByteSize % 256

/-- Takes back a number of bytes from characters whose last one stands in front; the number must end
between two characters. -/
def takeBack : Nat → List Char → Option (List Char)
  | 0, kept => some kept
  | _ + 1, [] => none
  | n + 1, c :: kept => if c.utf8Size ≤ n + 1 then takeBack (n + 1 - c.utf8Size) kept else none

namespace Typing

/-- The line after a backspace. -/
def back (t : Typing) : Option Typing :=
  match t.counts with
  | [] => some t
  | n :: counts => (takeBack n t.kept).map fun kept => ⟨kept, counts⟩

/-- The line with one more cluster at its end. -/
def append (t : Typing) (cluster : List Char) : Typing :=
  ⟨cluster.reverse ++ t.kept, byteCount cluster :: t.counts⟩

/-- The line after one more cluster is typed. -/
def type (t : Typing) (cluster : List Char) : Option Typing :=
  if cluster = [backspace] then t.back else some (t.append cluster)

/-- The text that is there. -/
def text (t : Typing) : String := String.ofList t.kept.reverse

end Typing

/-- What is left of a line when every backspace has done its work, unless one of them breaks it. -/
def typed (line : String) : Option String :=
  ((clusters line.toList).foldlM Typing.type {}).map Typing.text

end CalcBasic.Text
