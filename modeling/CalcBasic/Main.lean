import CalcBasic.Tool

/-!
# The program

The outer layer: it reads the arguments, the file and the standard input, and writes what the tool
replies.
-/

namespace CalcBasic.Tool

/-- Enough fuel for any run that a user could wait for. -/
def ampleFuel : Nat := 0x4000000000000000

/-- The value of `--max-steps` among the arguments. -/
def stepLimit? : List String → Option Nat
  | "--max-steps" :: n :: _ => n.toNat?
  | _ :: rest => stepLimit? rest
  | [] => none

/-- The bytes of a file, or why they cannot be had. -/
def readBytes (file : String) : IO (Except String ByteArray) := do
  try return .ok (← IO.FS.readBinFile file)
  catch
    | .noFileOrDirectory .. => return .error Source.missing
    | e => return .error (toString e)

/-- Writes a reply and gives its exit status. -/
def send (r : Reply) : IO UInt32 := do
  IO.print r.transcript.output
  for report in r.transcript.reports do
    report.lines.forM IO.eprintln
  return r.exit.status.toUInt32

/-- Does a task with a file. -/
def onFile (task : FileTask) (file stdin : String) : IO UInt32 := do
  send (withFile task ampleFuel (Source.load file (← readBytes file)) stdin)

end CalcBasic.Tool

open CalcBasic CalcBasic.Tool in
/-- Runs the tool. -/
def main (args : List String) : IO UInt32 := do
  match args with
  | "run" :: file :: options =>
    onFile (.run (stepLimit? options)) file (← (← IO.getStdin).readToEnd)
  | ["parse", file] => onFile .parse file ""
  | ["tokens", file] => onFile .tokens file ""
  | "repl" :: options => send (repl (stepLimit? options) ampleFuel (← (← IO.getStdin).readToEnd))
  | _ =>
    IO.eprintln "usage: run FILE [--max-steps N] | parse FILE | tokens FILE | repl [--max-steps N]"
    return 2
