import CalcBasic.Operator
import CalcBasic.SourceError
import CalcBasic.Value

/-!
# Faults

A fault ends a run. It is a cause, and the words for it are made in `Fault.message` alone. Faults of
the variables have no place of their own; the statement or expression that ran into one gives it
its place.
-/

namespace CalcBasic

/-- What a value was wanted for when it turned out to be of the wrong kind. -/
inductive Purpose where
  | assignment (name : String)
  | index (name : String)
  /-- The new value of an element. -/
  | element (name : String)
  /-- The list whose element is named. -/
  | indexed (name : String)
  | operand (op : Op)
  | signed (sign : Sign)
  | listItem
  | ifCondition
  | whileCondition
  | forLast
  | forStep
  | forCounter
  /-- A purpose in the caller's words. -/
  | other (words : String)
deriving DecidableEq, Repr

/-- The purpose in words. -/
def Purpose.text : Purpose → String
  | assignment name => s!"assignment to {name}"
  | index name => s!"index into {name}"
  | element name => s!"element of {name}"
  | indexed name => name
  | operand op => s!"operator '{op.symbol}'"
  | signed sign => s!"unary '{sign.symbol}'"
  | listItem => "list element"
  | ifCondition => "If condition"
  | whileCondition => "While condition"
  | forLast => "For( end"
  | forStep => "For( step"
  | forCounter => "For( variable"
  | other words => words

/-- What a purpose wants, in words; the operators on truth values speak of both operands. -/
def Purpose.wanted (kind : Kind) : Purpose → String
  | operand op => if op.isLogical then "numbers" else kind.text
  | _ => kind.text

/-- Why the console gave no line or took none. -/
inductive ConsoleTrouble where
  /-- The input ended while a value for the name was awaited. -/
  | closed (name : String)
  | failed (reason : String)
deriving DecidableEq, Repr

/-- The trouble in words. -/
def ConsoleTrouble.text : ConsoleTrouble → String
  | closed name => s!"input closed while waiting for {name}"
  | failed reason => reason

/-- Why a run ends before its time. -/
inductive Fault where
  | undefinedVariable (name : String)
  | wrongKind (purpose : Purpose) (expected got : Kind)
  | indexOutOfRange (name : String) (index : Float) (size : Nat)
  | undefinedLabel (label : String) (similar : Option String)
  | zeroStep
  | badInput (line : String) (reason : SourceError)
  | stepLimit (limit : Nat)
  | console (trouble : ConsoleTrouble)
deriving DecidableEq, Repr

/-- The name that was probably meant, as a second line. -/
def hint : Option String → String
  | some name => s!"\n  hint: did you mean `{name}`?"
  | none => ""

namespace Fault

/-- The class of a fault. -/
def title : Fault → String
  | undefinedVariable _ => "undefined variable"
  | wrongKind .. => "type mismatch"
  | indexOutOfRange .. => "index out of range"
  | undefinedLabel .. => "undefined label"
  | zeroStep => "invalid step"
  | badInput .. => "invalid input"
  | stepLimit _ => "step limit exceeded"
  | console _ => "io"

/-- The fault in words. -/
def message : Fault → String
  | undefinedVariable name => s!"undefined variable '{name}'"
  | wrongKind purpose expected got =>
    s!"{purpose.text}: expected {purpose.wanted expected}, got {got.text}"
  | indexOutOfRange name index size =>
    s!"index {Number.text index} is out of range for {name} (length {size})"
  | undefinedLabel label similar => s!"undefined label '{label}'{hint similar}"
  | zeroStep => "For( step must not be zero"
  | badInput line reason => s!"cannot evaluate input {Text.quote line}: {reason.message}"
  | stepLimit limit => s!"program exceeded the limit of {limit} statements"
  | console trouble => s!"IO error: {trouble.text}"

/-- Whether the input had ended when a line was awaited. -/
def isClosedInput : Fault → Bool
  | console (.closed _) => true
  | _ => false

end Fault

/-- A fault and the annotation of the node that ran into it. -/
structure Located (σ : Type) where
  fault : Fault
  span : σ
deriving DecidableEq, Repr

/-- Gives a fault its place. -/
def Fault.locate {σ α : Type} (span : σ) : Except Fault α → Except (Located σ) α
  | .ok a => .ok a
  | .error fault => .error ⟨fault, span⟩

end CalcBasic
