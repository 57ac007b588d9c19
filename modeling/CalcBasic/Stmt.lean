import CalcBasic.Expr

/-!
# Statements

A statement is a command, or a block statement with statements of its own. As in expressions every
node carries an annotation; a block statement's is that of its header. A conditional without an
`Else` part is a form of its own, since an empty part and no part are different programs.
-/

namespace CalcBasic

/-- Where a value is stored. -/
inductive Target (σ : Type) where
  | whole (name : Name σ)
  /-- One element of a list variable; the annotation is that of the name and the index together. -/
  | element (span : σ) (name : Name σ) (index : Expr σ)
deriving Repr

/-- A statement without a block. -/
inductive Command (σ : Type) where
  | evaluate (value : Expr σ)
  | display (values : List (Expr σ))
  | store (value : Expr σ) (target : Target σ)
  /-- Asks for a value for each name. -/
  | prompt (names : List (Name σ))
  /-- Asks for one value, perhaps with a text of its own. -/
  | input (text : Option String) (name : Name σ)
  | label (name : String)
  | goto (name : String)
  | stop
deriving Repr

/-- The head of a counting loop. -/
structure Range (σ : Type) where
  counter : Name σ
  start : Expr σ
  last : Expr σ
  step : Option (Expr σ)
deriving Repr

/-- A statement. -/
inductive Stmt (σ : Type) where
  | command (span : σ) (command : Command σ)
  | ifThen (span : σ) (condition : Expr σ) (body : List (Stmt σ))
  | ifElse (span : σ) (condition : Expr σ) (body otherwise : List (Stmt σ))
  | whileLoop (span : σ) (condition : Expr σ) (body : List (Stmt σ))
  | forLoop (span : σ) (range : Range σ) (body : List (Stmt σ))
deriving Repr

variable {σ τ : Type}

/-- Changes every annotation. -/
def Target.map (f : σ → τ) : Target σ → Target τ
  | whole n => whole (n.map f)
  | element s n i => element (f s) (n.map f) (i.map f)

/-- Changes every annotation. -/
def Command.map (f : σ → τ) : Command σ → Command τ
  | evaluate e => evaluate (e.map f)
  | display es => display (es.map (Expr.map f))
  | store e t => store (e.map f) (t.map f)
  | prompt ns => prompt (ns.map (Name.map f))
  | input text n => input text (n.map f)
  | label n => label n
  | goto n => goto n
  | stop => stop

/-- Changes every annotation. -/
def Range.map (f : σ → τ) (r : Range σ) : Range τ :=
  ⟨r.counter.map f, r.start.map f, r.last.map f, r.step.map (Expr.map f)⟩

namespace Stmt

/-- The annotation of a statement. -/
def span : Stmt σ → σ
  | command s _ | ifThen s _ _ | ifElse s _ _ _ | whileLoop s _ _ | forLoop s _ _ => s

mutual

/-- Changes every annotation. -/
def map (f : σ → τ) : Stmt σ → Stmt τ
  | command s c => command (f s) (c.map f)
  | ifThen s e b => ifThen (f s) (e.map f) (mapAll f b)
  | ifElse s e b o => ifElse (f s) (e.map f) (mapAll f b) (mapAll f o)
  | whileLoop s e b => whileLoop (f s) (e.map f) (mapAll f b)
  | forLoop s r b => forLoop (f s) (r.map f) (mapAll f b)

/-- Changes every annotation of every statement. -/
def mapAll (f : σ → τ) : List (Stmt σ) → List (Stmt τ)
  | [] => []
  | s :: ss => s.map f :: mapAll f ss

end

end Stmt

end CalcBasic
