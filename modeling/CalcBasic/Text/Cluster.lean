import CalcBasic.Text.Joining

/-!
# Clusters

A cluster is what a reader sees as one character. `clusters` cuts a text into clusters: a character
joins the cluster before it if one of the joining rules says so, and begins a new one otherwise.
Nothing is lost and nothing is moved.
-/

namespace CalcBasic.Text

/-- How far a cluster is toward joining a pictograph: a pictograph with its marks, and then a
joiner. -/
inductive Picture where
  | none
  | shown
  | joined
deriving DecidableEq, Repr

/-- How far a cluster is toward joining a consonant: a consonant with its marks, and a linker among
them. -/
inductive Conjunct where
  | none
  | begun
  | linked
deriving DecidableEq, Repr

/-- What the end of a cluster tells about what may join it. -/
structure Edge where
  last : Joining
  picture : Picture
  conjunct : Conjunct
  /-- The cluster ends in the first half of a flag. -/
  halfFlag : Bool
deriving DecidableEq, Repr

/-- The picture after one more character. -/
def Picture.next : Picture → Joining → Picture
  | _, .pictograph => shown
  | shown, .extend | shown, .linker | shown, .nonJoiner => shown
  | shown, .joiner => joined
  | _, _ => none

/-- The conjunct after one more character. -/
def Conjunct.next : Conjunct → Joining → Conjunct
  | _, .consonant => begun
  | begun, .linker | linked, .linker => linked
  | c, .extend | c, .joiner => c
  | _, _ => none

namespace Edge

/-- The edge of a cluster that begins with a character of the class. -/
def start (j : Joining) : Edge :=
  ⟨j, Picture.none.next j, Conjunct.none.next j, j = .regional⟩

/-- The edge after one more character. -/
def next (e : Edge) (j : Joining) : Edge :=
  ⟨j, e.picture.next j, e.conjunct.next j, j = .regional && !e.halfFlag⟩

/-- Whether a character of the class joins the cluster. -/
def joins (e : Edge) (j : Joining) : Bool :=
  match e.last, j with
  | .carriageReturn, .lineFeed => true
  | .carriageReturn, _ | .lineFeed, _ | .control, _ => false
  | _, .carriageReturn | _, .lineFeed | _, .control => false
  | _, .extend | _, .linker | _, .nonJoiner | _, .joiner | _, .spacing => true
  | .leading, _ => true
  | .onset, .onset | .onset, .nucleus | .onset, .openSyllable | .onset, .closedSyllable => true
  | .openSyllable, .nucleus | .openSyllable, .coda | .nucleus, .nucleus | .nucleus, .coda => true
  | .closedSyllable, .coda | .coda, .coda => true
  | _, .consonant => e.conjunct = .linked
  | _, .pictograph => e.picture = .joined
  | _, .regional => e.halfFlag
  | _, _ => false

end Edge

/-- Cuts the characters after the cluster `cluster`, which is given backwards and has the edge
`edge`. -/
def clustersFrom (cluster : List Char) (edge : Edge) : List Char → List (List Char)
  | [] => [cluster.reverse]
  | c :: cs =>
    let j := Joining.of c
    if edge.joins j then clustersFrom (c :: cluster) (edge.next j) cs
    else cluster.reverse :: clustersFrom [c] (Edge.start j) cs

/-- The clusters of a text. -/
def clusters : List Char → List (List Char)
  | [] => []
  | c :: cs => clustersFrom [c] (Edge.start (Joining.of c)) cs

end CalcBasic.Text
