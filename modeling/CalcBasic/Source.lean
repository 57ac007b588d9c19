import CalcBasic.SourceError
import CalcBasic.Text.Lines

/-!
# Program files

A program file is a sequence of bytes. Loading it reads the bytes as text and trims every line; a file
that cannot be read, or is not text, has no source.
-/

namespace CalcBasic.Source

/-- Why the bytes of a file cannot be had when there is no such file. -/
def missing : String := "No such file or directory (os error 2)"

/-- Why bytes that are not text have no source. -/
def notText : String := "stream did not contain valid UTF-8"

/-- The source in a file with the given name and bytes. -/
def load (name : String) (bytes : Except String ByteArray) : Except SourceError String :=
  match bytes with
  | .error reason => .error (.unavailable s!"{name}: {reason}")
  | .ok bytes =>
    match String.fromUTF8? bytes with
    | some text => .ok (Text.normalize text)
    | none => .error (.unavailable s!"{name}: {notText}")

end CalcBasic.Source
