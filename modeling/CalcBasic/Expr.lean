import CalcBasic.Operator
import CalcBasic.Span

/-!
# Expressions

An expression is a tree whose every node carries an annotation of type `σ`: the place where it
stands, in trees that come from a source. `Expr.map` changes the annotations and nothing else, so a
tree without places is `Expr Unit`.
-/

namespace CalcBasic

/-- A name with its annotation. -/
structure Name (σ : Type) where
  span : σ
  text : String
deriving DecidableEq, Repr

/-- An expression. -/
inductive Expr (σ : Type) where
  | literal (span : σ) (value : Float)
  | var (span : σ) (name : String)
  /-- One element of a list variable. -/
  | element (span : σ) (name : String) (index : Expr σ)
  | list (span : σ) (items : List (Expr σ))
  | binary (span : σ) (op : Op) (left right : Expr σ)
  | signed (span : σ) (sign : Sign) (operand : Expr σ)
  /-- An expression in parentheses. -/
  | group (span : σ) (inner : Expr σ)
deriving Repr

/-- Changes the annotation of a name. -/
def Name.map {σ τ : Type} (f : σ → τ) (n : Name σ) : Name τ := ⟨f n.span, n.text⟩

namespace Expr

variable {σ τ : Type}

/-- The annotation of the whole expression. -/
def span : Expr σ → σ
  | literal s _ | var s _ | element s _ _ | list s _ | binary s _ _ _ | signed s _ _
  | group s _ => s

mutual

/-- Changes every annotation. -/
def map (f : σ → τ) : Expr σ → Expr τ
  | literal s x => literal (f s) x
  | var s n => var (f s) n
  | element s n i => element (f s) n (i.map f)
  | list s items => list (f s) (mapAll f items)
  | binary s op l r => binary (f s) op (l.map f) (r.map f)
  | signed s sign e => signed (f s) sign (e.map f)
  | group s e => group (f s) (e.map f)

/-- Changes every annotation of every expression. -/
def mapAll (f : σ → τ) : List (Expr σ) → List (Expr τ)
  | [] => []
  | e :: es => e.map f :: mapAll f es

end

end Expr

end CalcBasic
