import CalcBasic.Arena
import CalcBasic.Document

/-!
# Programs as documents

A program is shown chain by chain. Every node is a record of its content and its span, every form is
tagged by its name, and a block statement names its blocks by their numbers. An arena has these
numbers, in a tree they are those of the pre-order.
-/

namespace CalcBasic

/-- A span as a document. -/
def Span.view (s : Span) : Document := .record [("start", .nat s.start), ("end", .nat s.stop)]

/-- A node with its span. -/
def Document.node (content : Document) (span : Span) : Document :=
  .record [("node", content), ("span", span.view)]

/-- The name of an operator in a document. -/
def Op.viewName : Op → String
  | add => "Add"
  | sub => "Sub"
  | mul => "Mul"
  | div => "Div"
  | pow => "Pow"
  | o => o.tag

/-- The name of a sign in a document. -/
def Sign.viewName : Sign → String
  | plus => "Plus"
  | minus => "Neg"

/-- A name as a document. -/
def Name.view (n : Name Span) : Document := .node (.text n.text) n.span

namespace Expr

mutual

/-- An expression as a document. -/
def view : Expr Span → Document
  | literal s x => .node (.tagged "Literal" (.number x)) s
  | var s n => .node (.tagged "Var" (.text n)) s
  | element s n i =>
    .node (.tagged "Element" (.record [("name", .text n), ("index", i.view)])) s
  | list s items => .node (.tagged "List" (.list (viewAll items))) s
  | binary s op l r =>
    let form := if op.isLogical then "Logical" else "Binary"
    .node (.tagged form
      (.record [("left", l.view), ("op", .text op.viewName), ("right", r.view)])) s
  | signed s sign e =>
    .node (.tagged "Unary" (.record [("op", .text sign.viewName), ("expr", e.view)])) s
  | group s e => .node (.tagged "Grouping" e.view) s

/-- Expressions as documents. -/
def viewAll : List (Expr Span) → List Document
  | [] => []
  | e :: es => e.view :: viewAll es

end

end Expr

/-- A target as a document. -/
def Target.view : Target Span → Document
  | whole n => .tagged "Var" n.view
  | element _ n i => .tagged "Element" (.record [("name", n.view), ("index", i.view)])

/-- A command as a document. -/
def Command.view : Command Span → Document
  | evaluate e => .tagged "Expr" e.view
  | display es => .tagged "Disp" (.list (es.map Expr.view))
  | store e t => .tagged "Assign" (.record [("value", e.view), ("target", t.view)])
  | prompt ns => .tagged "Prompt" (.list (ns.map Name.view))
  | input text n =>
    .tagged "Input" (.record
      [("prompt", (text.map Document.text).getD .null), ("name", n.view)])
  | label n => .tagged "Label" (.text n)
  | goto n => .tagged "Goto" (.text n)
  | stop => .text "Stop"

/-- A conditional as a document. -/
def Stmt.viewIf (condition : Expr Span) (body : Nat) (otherwise : Document) : Document :=
  .tagged "If" (.record
    [("cond", condition.view), ("then_chain", .nat body), ("else_chain", otherwise)])

/-- The content of a statement as a document; `next` is the number of its first block. -/
def Stmt.viewContent (next : Nat) : Stmt Span → Document
  | command _ c => c.view
  | ifThen _ e _ => viewIf e next .null
  | ifElse _ e body _ => viewIf e next (.nat (next + 1 + chainCountOf body))
  | whileLoop _ e _ => .tagged "While" (.record [("cond", e.view), ("body", .nat next)])
  | forLoop _ r _ =>
    .tagged "For" (.record [("var", r.counter.view), ("start", r.start.view),
      ("end", r.last.view), ("step", (r.step.map Expr.view).getD .null), ("body", .nat next)])

namespace Program

/-- A chain as a document; `next` is the number of the first block inside it. -/
def viewChain (next : Nat) (chain : List (Stmt Span)) : Document :=
  .record [("stmts", .list ((Stmt.numbered next chain).map fun (n, s) =>
    .node (s.viewContent n) s.span))]

/-- The chains of a program as documents. The first block inside a chain has the number after the
chain's own. -/
def viewChains (p : Program Span) : List Document :=
  p.chains.zipIdx.map fun (chain, i) => viewChain (i + 1) chain

/-- A program as a document. -/
def view (p : Program Span) : Document := .record [("chains", .list p.viewChains)]

end Program

/-- The content of a statement of an arena as a document. -/
def Entry.viewContent : Entry Span → Document
  | command _ c => c.view
  | ifThen _ e body => Stmt.viewIf e body .null
  | ifElse _ e body otherwise => Stmt.viewIf e body (.nat otherwise)
  | whileLoop _ e body => .tagged "While" (.record [("cond", e.view), ("body", .nat body)])
  | forLoop _ r body =>
    .tagged "For" (.record [("var", r.counter.view), ("start", r.start.view),
      ("end", r.last.view), ("step", (r.step.map Expr.view).getD .null), ("body", .nat body)])

namespace Arena

/-- A chain of an arena as a document. -/
def viewChain (entries : List (Entry Span)) : Document :=
  .record [("stmts", .list (entries.map fun e => .node e.viewContent e.span))]

/-- An arena as a document. -/
def view (a : Arena Span) : Document := .record [("chains", .list (a.chains.map viewChain))]

end Arena

end CalcBasic
