import CalcBasic.Stmt.Parser

/-!
# Programs

A program is a block of statements. Its blocks are numbered in the order in which they begin in the
text, the top level being block 0; such a numbered block is a chain. A position is a chain and an
index into it.
-/

namespace CalcBasic

/-- A program. -/
structure Program (σ : Type) where
  statements : List (Stmt σ)
deriving Repr

/-- A statement's place: the chain that holds it and its index there. -/
structure Position where
  chain : Nat
  index : Nat
deriving DecidableEq, Repr

namespace Stmt

variable {σ : Type}

mutual

/-- The blocks inside a statement, in the order in which they begin. -/
def chains : Stmt σ → List (List (Stmt σ))
  | command _ _ => []
  | ifThen _ _ body | whileLoop _ _ body | forLoop _ _ body => body :: chainsOf body
  | ifElse _ _ body otherwise => body :: chainsOf body ++ otherwise :: chainsOf otherwise

/-- The blocks inside some statements, in the order in which they begin. -/
def chainsOf : List (Stmt σ) → List (List (Stmt σ))
  | [] => []
  | s :: rest => s.chains ++ chainsOf rest

end

mutual

/-- The number of blocks inside a statement. -/
def chainCount : Stmt σ → Nat
  | command _ _ => 0
  | ifThen _ _ body | whileLoop _ _ body | forLoop _ _ body => chainCountOf body + 1
  | ifElse _ _ body otherwise => chainCountOf body + 1 + (chainCountOf otherwise + 1)

/-- The number of blocks inside some statements. -/
def chainCountOf : List (Stmt σ) → Nat
  | [] => 0
  | s :: rest => s.chainCount + chainCountOf rest

end

/-- Pairs each statement with the number of its first block, given the number of the first block
inside them all. -/
def numbered (next : Nat) : List (Stmt σ) → List (Nat × Stmt σ)
  | [] => []
  | s :: rest => (next, s) :: numbered (next + s.chainCount) rest

mutual

/-- The labels of a statement at a position, with their positions in textual order; `next` is the
number of the first block inside the statement. -/
def labels (here : Position) (next : Nat) : Stmt σ → List (String × Position)
  | command _ (.label name) => [(name, here)]
  | command _ _ => []
  | ifThen _ _ body | whileLoop _ _ body | forLoop _ _ body =>
    labelsOf ⟨next, 0⟩ (next + 1) body
  | ifElse _ _ body otherwise =>
    let second := next + 1 + chainCountOf body
    labelsOf ⟨next, 0⟩ (next + 1) body ++ labelsOf ⟨second, 0⟩ (second + 1) otherwise

/-- The labels of the statements from a position on, with their positions in textual order. -/
def labelsOf (here : Position) (next : Nat) : List (Stmt σ) → List (String × Position)
  | [] => []
  | s :: rest =>
    s.labels here next ++ labelsOf ⟨here.chain, here.index + 1⟩ (next + s.chainCount) rest

end

end Stmt

namespace Program

variable {σ τ : Type}

/-- Changes every annotation. -/
def map (f : σ → τ) (p : Program σ) : Program τ := ⟨Stmt.mapAll f p.statements⟩

/-- Reads a program: a block at the top level. -/
def reader : Reader (Program Span) := do return ⟨← Stmt.block (Stmt.reader maxNesting)⟩

/-- The program that a source consists of. -/
def parse (source : String) : Except SourceError (Program Span) :=
  reader.ofSource .unmatched source

/-- All chains, in the order of their numbers. -/
def chains (p : Program σ) : List (List (Stmt σ)) := p.statements :: Stmt.chainsOf p.statements

/-- The statements of a chain; a chain that is not there has none. -/
def chain (p : Program σ) (n : Nat) : List (Stmt σ) := p.chains[n]?.getD []

/-- The statements of a chain from a position to its end. -/
def suffix (p : Program σ) (pos : Position) : List (Stmt σ) := (p.chain pos.chain).drop pos.index

/-- The first position of a chain that holds a statement. -/
def first? (p : Program σ) (chain : Nat) : Option Position :=
  if (p.chain chain).isEmpty then none else some ⟨chain, 0⟩

/-- The first position of the program. -/
def head? (p : Program σ) : Option Position := p.first? 0

/-- The number of statements in all chains. -/
def size (p : Program σ) : Nat := p.chains.foldl (fun n chain => n + chain.length) 0

/-- The positions of a chain with their statements. -/
def walk (p : Program σ) (chain : Nat) : List (Position × Stmt σ) :=
  (p.chain chain).zipIdx.map fun (s, i) => (⟨chain, i⟩, s)

/-- All labels with their positions, in textual order. -/
def labels (p : Program σ) : List (String × Position) := Stmt.labelsOf ⟨0, 0⟩ 1 p.statements

/-- The position of a label: its first definition in the text. -/
def resolve? (p : Program σ) (label : String) : Option Position := p.labels.lookup label

/-- The labels, each with the statements from its position to the end of its chain. -/
def targets (p : Program σ) : List (String × List (Stmt σ)) :=
  let chains := p.chains
  p.labels.map fun (name, pos) => (name, (chains[pos.chain]?.getD []).drop pos.index)

/-- The names of all labels, each once, in ascending order. -/
def labelNames (p : Program σ) : List String :=
  ((p.labels.map (·.1)).mergeSort fun a b => decide (a ≤ b)).eraseReps

end Program

end CalcBasic
