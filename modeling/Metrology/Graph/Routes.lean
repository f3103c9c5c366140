import Metrology.Graph.Network

/-!
# Routes

A network together with the answers of the searches made in it. An answer is remembered, also that
there is none, and what a search learned stays in the network even if the search fails.
-/
namespace Metrology

structure Routes (K : Type) where
  network : Network K
  known : Register EdgeKey (Option (Conversion K))
  deriving Repr

namespace Routes

variable {K : Type} [Scalar K]

/-- A network in which nothing was searched for. -/
def ofNetwork (net : Network K) : Routes K := ⟨net, .empty⟩

/-- The conversion between two nodes, or nothing if no edges join them. -/
def route (dimension src dest : String) : Action (Routes K) (Option (Conversion K)) := do
  match (← get).known.get? (src, dest) with
  | some answer => return answer
  | none =>
    let found ← (Network.search dimension src dest).onPart (·.network) fun r net =>
      { r with network := net }
    modify fun r => { r with known := r.known.put (src, dest) found }
    return found

end Routes

end Metrology
