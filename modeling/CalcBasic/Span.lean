/-!
# Spans

A span is a range of byte offsets into a source text. It says where a token, a node of a tree or a
fault stands.
-/

namespace CalcBasic

/-- The bytes from `start` up to `stop`. -/
structure Span where
  start : Nat
  stop : Nat
deriving DecidableEq, Repr, Inhabited

namespace Span

/-- The least span that holds both. -/
def merge (a b : Span) : Span := ⟨min a.start b.start, max a.stop b.stop⟩

/-- A span as it is written in messages. -/
def text (s : Span) : String := s!"{s.start}..{s.stop}"

end Span

/-- A thing together with the place where it stands. -/
structure Spanned (α : Type) where
  node : α
  span : Span
deriving DecidableEq, Repr

end CalcBasic
