import Metrology.Action
import Metrology.Graph.EdgeStore

/-!
# Networks of conversions

The nodes of a network are unit symbols without prefixes, its edges conversions between them. A
conversion between two nodes is found when it is an edge, the reciprocal of one, or two of either
kind through a third node. A search that finds nothing grows the network from its source: each node
found from there is joined to it by a learned edge, round after round, until the goal is reached or
a round learns nothing.
-/
namespace Metrology

structure Network (K : Type) where
  nodes : List String
  edges : Edges K
  deriving Repr

namespace Network

variable {K : Type} [Scalar K]

/-- The network of the registered edges: the units of the dimension, then the ends of the edges,
each node once. -/
def ofEdges (units : List String) (edges : Edges K) : Network K :=
  ⟨(units ++ edges.keys.flatMap fun key => [key.1, key.2]).eraseDups, edges⟩

def edge? (net : Network K) (src dest : String) : Option (Conversion K) :=
  net.edges.get? (src, dest)

/-- The two-hop conversions through a middle node: chain, diverging, converging and opposed edges,
in this order. -/
def throughNode (net : Network K) (src dest mid : String) : List (Except Error (Conversion K)) :=
  let pair (first second : Option (Conversion K))
      (compose : Conversion K → Conversion K → Except Error (Conversion K)) :
      List (Except Error (Conversion K)) :=
    match first, second with
    | some c, some d => [compose c d]
    | _, _ => []
  pair (net.edge? src mid) (net.edge? mid dest) Conversion.chain
    ++ pair (net.edge? mid src) (net.edge? mid dest) Conversion.diverge
    ++ pair (net.edge? src mid) (net.edge? dest mid) Conversion.converge
    ++ pair (net.edge? mid src) (net.edge? dest mid) Conversion.oppose

def twoHops (net : Network K) (src dest : String) : List (Except Error (Conversion K)) :=
  (net.nodes.filter fun mid => mid ≠ src ∧ mid ≠ dest).flatMap (net.throughNode src dest)

/-- The first exact candidate, otherwise the first one. A candidate that cannot be computed stops
the choice, unless an exact one comes before it. -/
def choose (first : Option (Conversion K)) :
    List (Except Error (Conversion K)) → Except Error (Option (Conversion K))
  | [] => .ok first
  | .error e :: _ => .error e
  | .ok c :: rest => if c.factor.isExact then .ok (some c) else choose (first <|> some c) rest

/-- A conversion from `src` to `dest` by at most two edges. -/
def find (net : Network K) (dimension src dest : String) : Except Error (Option (Conversion K)) :=
  if src = dest then .ok (some ⟨dimension, src, dest, .one⟩)
  else match net.edge? src dest with
    | some c => .ok (some c)
    | none =>
      match net.edge? dest src with
      | some c => c.invert.map some
      | none => choose none (net.twoHops src dest)

def learn (net : Network K) (src dest : String) (c : Conversion K) : Network K :=
  { net with edges := net.edges.put (src, dest) c }

/-- One round of growing over the given nodes: the conversion to `dest` if it was reached, and
whether anything was learned. -/
def growRound (dimension src dest : String) (learned : Bool) :
    List String → Action (Network K) (Option (Conversion K) × Bool)
  | [] => pure (none, learned)
  | node :: rest => do
    let net ← get
    if node = src ∨ (net.edge? src node).isSome then growRound dimension src dest learned rest
    else
      match ← net.find dimension src node with
      | none => growRound dimension src dest learned rest
      | some c =>
        set (net.learn src node c)
        if node = dest then return (some c, true) else growRound dimension src dest true rest

/-- Rounds of growing. Each round but the last learns an edge to a further node, so there are no
more of them than nodes. -/
def growRounds (dimension src dest : String) : Nat → Action (Network K) (Option (Conversion K))
  | 0 => pure none
  | rounds + 1 => do
    let net ← get
    match ← growRound dimension src dest false net.nodes with
    | (some c, _) => return some c
    | (none, true) => growRounds dimension src dest rounds
    | (none, false) => return none

def grow (dimension src dest : String) : Action (Network K) (Option (Conversion K)) := do
  let net ← get
  if src ∈ net.nodes ∧ dest ∈ net.nodes then
    growRounds dimension src dest net.nodes.length
  else return none

/-- A conversion from `src` to `dest` by any number of edges. -/
def search (dimension src dest : String) : Action (Network K) (Option (Conversion K)) := do
  let net ← get
  match ← net.find dimension src dest with
  | some c => return some c
  | none => grow dimension src dest

end Network

end Metrology
