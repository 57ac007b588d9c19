/-!
# Similar names

The distance of two names is the number of characters that have to be inserted, dropped or replaced
to turn one into the other. It is computed row by row: a row holds the distances of one beginning
of the first name from all beginnings of the second.
-/

namespace CalcBasic

/-- The rest of the row after `left`, for the character `c` of the first name: `others` are the
characters of the second name, and `above` is the row before. -/
def nextCells (c : Char) (left : Nat) : List Char → List Nat → List Nat
  | other :: others, diagonal :: up :: above =>
    let replaced := if c = other then diagonal else diagonal + 1
    let cell := min (min (up + 1) (left + 1)) replaced
    cell :: nextCells c cell others (up :: above)
  | _, _ => []

/-- The row after `above`, for the character `c` of the first name. -/
def nextRow (others : List Char) (above : List Nat) (c : Char) : List Nat :=
  let left := above.headD 0 + 1
  left :: nextCells c left others above

/-- The least number of insertions, deletions and replacements of single characters that turn one
text into the other. -/
def editDistance (a b : String) : Nat :=
  let others := b.toList
  let row := a.toList.foldl (nextRow others) (List.range (others.length + 1))
  row.getLast?.getD 0

/-- The nearer of the best candidate so far and another one; the earlier one stays on a tie. -/
def nearerName (name : String) (threshold : Nat) (best : Option (Nat × String))
    (candidate : String) : Option (Nat × String) :=
  let distance := editDistance name candidate
  if threshold < distance then best
  else
    match best with
    | none => some (distance, candidate)
    | some (least, earlier) =>
      if distance < least then some (distance, candidate) else some (least, earlier)

/-- The first of the nearest candidates, among those within the threshold. -/
def similarName? (name : String) (candidates : List String) (threshold : Nat) : Option String :=
  (candidates.foldl (nearerName name threshold) none).map (·.2)

end CalcBasic
