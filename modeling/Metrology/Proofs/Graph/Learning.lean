import Metrology.Proofs.Action
import Metrology.Proofs.Graph.StoredPaths

/-!
# What searches leave behind

Whatever the numbers are, and whether searches succeed or fail: a search leaves the nodes and the
edges of its network as they were and adds only edges that it found in the network as it stood then,
and each remembered answer is the answer of a search in such a network.
-/
namespace Metrology

variable {K : Type} [Scalar K]

namespace Network

variable {dimension src dest : String} {net net' : Network K}

/-- A round of growing learns edges of its source. -/
theorem keeps_growRound {nodes : List String} (known : ∀ node ∈ nodes, node ∈ net.nodes)
    (learned : Bool) :
    (growRound dimension src dest learned nodes).Keeps (Grows dimension src net) fun _ => True := by
  induction nodes generalizing learned with
  | nil => exact .pure trivial
  | cons node rest ih =>
    have later := ih fun n mem => known n (List.mem_cons_of_mem _ mem)
    intro now grows
    rw [growRound, Action.apply_bind, Action.apply_get]
    dsimp only
    split
    next => exact later learned now grows
    next search =>
      obtain ⟨other, fresh⟩ := not_or.mp search
      rw [Action.apply_bind, Action.apply_lift]
      cases found : now.find dimension src node with
      | error e =>
        refine ⟨grows, fun _ answers => ?_⟩
        cases answers
      | ok answer =>
        cases answer with
        | none => exact later learned now grows
        | some c =>
          have mem : node ∈ now.nodes := by
            rw [grows.nodes_eq]
            exact known node List.mem_cons_self
          have more : Grows dimension src net (now.learn src node c) :=
            grows.tail ⟨node, c, other, mem, by simpa using fresh, found, rfl⟩
          dsimp only
          rw [Action.apply_bind, Action.apply_set]
          dsimp only
          split
          next => exact ⟨more, fun _ _ => trivial⟩
          next => exact later true _ more

theorem keeps_growRounds (rounds : Nat) :
    (growRounds dimension src dest rounds).Keeps (Grows dimension src net) fun _ => True := by
  induction rounds with
  | zero => exact .pure trivial
  | succ rounds ih =>
    refine .bind .get fun now grows => ?_
    have known : ∀ node ∈ now.nodes, node ∈ net.nodes := by
      rw [grows.nodes_eq]
      exact fun _ mem => mem
    refine .bind (keeps_growRound known false) fun outcome _ => ?_
    split
    next => exact .pure trivial
    next => exact ih
    next => exact .pure trivial

theorem keeps_search :
    (search dimension src dest).Keeps (Grows dimension src net) fun _ => True := by
  refine .bind .get fun now _ => .bind (.lift fun found answer => answer) fun found _ => ?_
  split
  next => exact .pure trivial
  next =>
    refine .bind .get fun later _ => ?_
    split
    next => exact keeps_growRounds _
    next => exact .pure trivial

/-- Any number of edges learned by searches from any nodes. -/
def GrowsOver (dimension : String) : Network K → Network K → Prop :=
  Relation.ReflTransGen fun net net' => ∃ src, Learns dimension src net net'

theorem Grows.growsOver (grows : Grows dimension src net net') :
    GrowsOver dimension net net' :=
  Relation.ReflTransGen.mono (fun _ _ step => ⟨src, step⟩) net net' grows

/-- A network as searches over another may leave it. -/
structure LearnedFrom (dimension : String) (drawn net : Network K) : Prop where
  nodes : net.nodes = drawn.nodes
  kept : ∀ key c, drawn.edges.get? key = some c → net.edges.get? key = some c
  learned : ∀ key c, net.edges.get? key = some c → drawn.edges.get? key = some c ∨
    ∃ before, GrowsOver dimension drawn before ∧ before.edges.get? key = none ∧
      before.find dimension key.1 key.2 = .ok (some c)

theorem GrowsOver.learnedFrom (grows : GrowsOver dimension net net') :
    LearnedFrom dimension net net' := by
  induction grows with
  | refl => exact ⟨rfl, fun _ _ edge => edge, fun _ _ edge => .inl edge⟩
  | @tail mid last before step ih =>
    obtain ⟨src, node, c, other, mem, fresh, found, rfl⟩ := step
    refine ⟨ih.nodes, fun key d edge => edge?_learn_of_isSome fresh (ih.kept key d edge),
      fun key d edge => ?_⟩
    rw [show (mid.learn src node c).edges.get? key = _ from edge?_learn mid src node key.1 key.2 c]
      at edge
    split at edge
    next same =>
      obtain rfl := Option.some.inj edge
      obtain ⟨rfl, rfl⟩ := Prod.mk.inj same
      exact .inr ⟨mid, before, fresh, found⟩
    next => exact ih.learned key d edge

end Network

namespace Routes

variable {dimension : String} {drawn : Network K} {r : Routes K}

/-- Routes that searches over a network may leave: their network was learned from it, and each
remembered answer was given by a search in a network that searches over it had left. -/
structure SearchedFrom (dimension : String) (drawn : Network K) (r : Routes K) : Prop where
  grows : Network.GrowsOver dimension drawn r.network
  known : ∀ key found, r.known.get? key = some found → ∃ net,
    Network.GrowsOver dimension drawn net ∧
      ((Network.search dimension key.1 key.2).apply net).1 = .ok found

theorem searchedFrom_ofNetwork : SearchedFrom dimension drawn (ofNetwork drawn) :=
  ⟨.refl, fun key found known => by simp [ofNetwork] at known⟩

/-- What looking up a route comes to. -/
theorem route_apply (dimension src dest : String) (r : Routes K) :
    (route dimension src dest).apply r =
      match r.known.get? (src, dest) with
      | some found => (.ok found, r)
      | none =>
        match (Network.search dimension src dest).apply r.network with
        | (.ok found, net) => (.ok found, ⟨net, r.known.put (src, dest) found⟩)
        | (.error e, net) => (.error e, { r with network := net }) := by
  rw [route, Action.apply_bind, Action.apply_get]
  dsimp only
  cases r.known.get? (src, dest) with
  | some found => rfl
  | none =>
    dsimp only
    rw [Action.apply_bind, Action.onPart, Action.apply_ofFn]
    rcases (Network.search dimension src dest).apply r.network with ⟨_ | _, net⟩ <;> rfl

theorem SearchedFrom.route (searched : SearchedFrom dimension drawn r) (src dest : String) :
    SearchedFrom dimension drawn ((route dimension src dest).apply r).2 := by
  have grows : Network.Grows dimension src r.network
      ((Network.search dimension src dest).apply r.network).2 :=
    Network.keeps_search.invariant .refl
  rw [route_apply]
  cases r.known.get? (src, dest) with
  | some found => exact searched
  | none =>
    cases run : (Network.search dimension src dest).apply r.network with
    | mk answer net =>
      rw [run] at grows
      have grown := searched.grows.trans grows.growsOver
      cases answer with
      | error e => exact ⟨grown, searched.known⟩
      | ok found =>
        refine ⟨grown, fun key given known => ?_⟩
        rw [Register.get?_put] at known
        split at known
        next same =>
          obtain rfl := Option.some.inj known
          exact ⟨r.network, searched.grows, by rw [← same, run]⟩
        next => exact searched.known key given known

end Routes

end Metrology
