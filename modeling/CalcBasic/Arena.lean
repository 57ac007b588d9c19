import CalcBasic.Program

/-!
# Arenas

An arena is a program as a list of chains. Its statements have no statements inside them: a block
statement names its blocks by the numbers of their chains. An arena grows in two ways. A chain can be
begun, which gives it the next number, and a statement can be put at the end of a chain that was
begun before.
-/

namespace CalcBasic

variable {σ : Type}

/-- A statement of an arena. Blocks are given by their numbers. -/
inductive Entry (σ : Type) where
  | command (span : σ) (command : Command σ)
  | ifThen (span : σ) (condition : Expr σ) (body : Nat)
  | ifElse (span : σ) (condition : Expr σ) (body otherwise : Nat)
  | whileLoop (span : σ) (condition : Expr σ) (body : Nat)
  | forLoop (span : σ) (range : Range σ) (body : Nat)

namespace Entry

/-- The numbers in a statement, in the order of the blocks. -/
def ids : Entry σ → List Nat
  | command _ _ => []
  | ifThen _ _ body | whileLoop _ _ body | forLoop _ _ body => [body]
  | ifElse _ _ body otherwise => [body, otherwise]

/-- The annotation of a statement. -/
def span : Entry σ → σ
  | command s _ | ifThen s _ _ | ifElse s _ _ _ | whileLoop s _ _ | forLoop s _ _ => s

end Entry

/-- A program as a list of chains. -/
structure Arena (σ : Type) where
  chains : List (List (Entry σ))

namespace Arena

/-- The arena of a program of which nothing is read: chain 0 alone, without statements. -/
def start : Arena σ := ⟨[[]]⟩

/-- Begins a chain behind the others. -/
def begin (a : Arena σ) : Arena σ := ⟨a.chains ++ [[]]⟩

/-- Puts a statement at the end of a chain; a chain that is not there takes none. -/
def push (a : Arena σ) (c : Nat) (e : Entry σ) : Arena σ := ⟨a.chains.modify c (· ++ [e])⟩

/-- The statements of a chain; a chain that is not there has none. -/
def chain (a : Arena σ) (n : Nat) : List (Entry σ) := a.chains[n]?.getD []

/-- The statement at a position. -/
def entryAt? (a : Arena σ) (pos : Position) : Option (Entry σ) := (a.chain pos.chain)[pos.index]?

end Arena

end CalcBasic
