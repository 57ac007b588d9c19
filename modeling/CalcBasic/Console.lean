import CalcBasic.Text.Blank

/-!
# The console

A console is the lines that are still to be read, the number of lines that can still be written, and
a record of what has happened. A question is put again after every blank answer, until a line, the
end of the input or a failure comes back.
-/

namespace CalcBasic

/-- What reading finds: a line, or a failure in its place. -/
inductive Input where
  | line (text : String)
  | failure (reason : String)
deriving DecidableEq, Repr

/-- What has happened on a console. -/
inductive Event where
  | shown (line : String)
  /-- A question and the line that answered it; there was none if the input had ended. -/
  | asked (prompt : String) (answer : Option String)
  | askFailed (prompt : String)
deriving DecidableEq, Repr

/-- A console. -/
structure Console where
  input : List Input
  /-- How many more lines can be written; any number, if there is no bound. -/
  writes : Option Nat := none
  events : Array Event := #[]
deriving DecidableEq, Repr

/-- What comes back from a question. -/
inductive Answer where
  | line (text : String)
  | closed
  | failed (reason : String)
deriving DecidableEq, Repr

namespace Console

/-- The reason that is given when no more lines can be written. -/
def full : String := "disk full"

/-- Writes a line. -/
def write (c : Console) (line : String) : Except String Console :=
  match c.writes with
  | some 0 => .error full
  | some (n + 1) => .ok { c with writes := some n, events := c.events.push (.shown line) }
  | none => .ok { c with events := c.events.push (.shown line) }

/-- Puts a question to the lines to come until one is not blank; gives the answer, the lines after
it and the events. -/
def askFrom (prompt : String) (events : Array Event) :
    List Input → Answer × List Input × Array Event
  | [] => (.closed, [], events.push (.asked prompt none))
  | .failure reason :: rest => (.failed reason, rest, events.push (.askFailed prompt))
  | .line s :: rest =>
    let events := events.push (.asked prompt (some s))
    if Text.isBlankText s then askFrom prompt events rest else (.line s, rest, events)

/-- Puts a question. -/
def ask (c : Console) (prompt : String) : Answer × Console :=
  let (answer, input, events) := askFrom prompt c.events c.input
  (answer, { c with input, events })

end Console

end CalcBasic
