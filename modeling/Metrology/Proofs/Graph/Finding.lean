import Metrology.Proofs.Arithmetic
import Metrology.Proofs.Graph.Completeness
import Metrology.Proofs.Graph.Learning

/-!
# Finding, whatever the numbers

Whether a search finds a conversion does not depend on the numbers it computes with, as long as the
computation does not fail: it finds one exactly where registered edges join its ends. A registered
edge from the one to the other is found itself.
-/
namespace Metrology

variable {K : Type} {good : K → Prop} {fault : Error → Prop} {a b m : String}

/-- A conversion between two symbols with a good factor. -/
structure Conversion.Between (good : K → Prop) (a b : String) (c : Conversion K) : Prop where
  src : c.src = a
  dest : c.dest = b
  factor : good c.factor.value

namespace Conversion

variable [Scalar K] (within : Scalar.Within good fault) {c d : Conversion K}

omit [Scalar K] in
theorem share_of_eq {x y : String} (same : x = y) : share x y = .ok () := if_pos same

include within

theorem Between.invert (own : c.Between good a b) :
    Brings (·.Between good b a) fault c.invert :=
  (Factor.brings_inv within own.factor).map fun _ factor => ⟨own.dest, own.src, factor⟩

theorem Between.chain (first : c.Between good a m) (second : d.Between good m b) :
    Brings (·.Between good a b) fault (c.chain d) := by
  rw [Conversion.chain, share_of_eq (first.dest.trans second.src.symm)]
  exact ⟨first.src, second.dest, Factor.good_mul within first.factor second.factor⟩

theorem Between.diverge (first : c.Between good m a) (second : d.Between good m b) :
    Brings (·.Between good a b) fault (c.diverge d) := by
  rw [Conversion.diverge, share_of_eq (first.src.trans second.src.symm)]
  exact (Factor.brings_div within second.factor first.factor).bind
    fun _ factor => ⟨first.dest, second.dest, factor⟩

theorem Between.converge (first : c.Between good a m) (second : d.Between good b m) :
    Brings (·.Between good a b) fault (c.converge d) := by
  rw [Conversion.converge, share_of_eq (first.dest.trans second.dest.symm)]
  exact (Factor.brings_div within first.factor second.factor).bind
    fun _ factor => ⟨first.src, second.src, factor⟩

theorem Between.oppose (first : c.Between good m a) (second : d.Between good b m) :
    Brings (·.Between good a b) fault (c.oppose d) := by
  rw [Conversion.oppose, share_of_eq (first.src.trans second.dest.symm)]
  exact (Factor.brings_inv within (Factor.good_mul within first.factor second.factor)).bind
    fun _ factor => ⟨first.dest, second.src, factor⟩

end Conversion

namespace Network

variable {drawn net net' : Network K} {dimension src dest : String}

/-- Every edge goes between the symbols it is kept under and has a good factor. -/
def Labelled (good : K → Prop) (net : Network K) : Prop :=
  ∀ key c, net.edges.get? key = some c → c.Between good key.1 key.2

/-- A network as searches may leave it: the registered edges are all there, and every edge joins
symbols that registered ones do. -/
structure Follows (good : K → Prop) (drawn net : Network K) : Prop where
  nodes : net.nodes = drawn.nodes
  kept : ∀ key c, drawn.edges.get? key = some c → net.edges.get? key = some c
  labelled : net.Labelled good
  connected : ∀ key c, net.edges.get? key = some c → drawn.Connected key.1 key.2

theorem Follows.refl (labelled : drawn.Labelled good) : Follows good drawn drawn where
  nodes := rfl
  kept _ _ edge := edge
  labelled := labelled
  connected _ c edge := .single (.inl (Option.isSome_iff_exists.mpr ⟨c, edge⟩))

theorem Follows.connected_of_adjacent (follows : Follows good drawn net)
    (adjacent : net.Adjacent a b) : drawn.Connected a b := by
  rcases adjacent with edge | edge
  · obtain ⟨c, edge⟩ := Option.isSome_iff_exists.mp edge
    exact follows.connected _ c edge
  · obtain ⟨c, edge⟩ := Option.isSome_iff_exists.mp edge
    exact (follows.connected _ c edge).symm

/-- Learned edges change nothing about which symbols are joined. -/
theorem Follows.connected_of_connected (follows : Follows good drawn net)
    (joined : net.Connected a b) : drawn.Connected a b := by
  induction joined with
  | refl => exact .refl
  | tail _ last ih => exact ih.trans (follows.connected_of_adjacent last)

variable [Scalar K]

/-! ### Looking two edges ahead -/

theorem brings_choose {P : Conversion K → Prop} {candidates : List (Except Error (Conversion K))}
    (each : ∀ x ∈ candidates, Brings P fault x) {first : Option (Conversion K)}
    (own : ∀ c ∈ first, P c) :
    Brings (fun found => ∀ c ∈ found, P c) fault (choose first candidates) := by
  induction candidates generalizing first with
  | nil => exact own
  | cons x rest ih =>
    have head := each x List.mem_cons_self
    have tail := fun y mem => each y (List.mem_cons_of_mem x mem)
    cases x with
    | error e => exact head
    | ok c =>
      have holds : P c := head
      rw [choose]
      split
      next => exact fun d same => Option.some.inj same ▸ holds
      next =>
        refine ih tail fun d mem => ?_
        cases first with
        | none => exact Option.some.inj mem ▸ holds
        | some f => exact own d mem

variable (within : Scalar.Within good fault)
include within

/-- Every conversion through a middle node goes between the outer ones, which edges join. -/
theorem Labelled.throughNode (labelled : net.Labelled good) {x : Except Error (Conversion K)}
    (member : x ∈ net.throughNode a b m) :
    net.Connected a b ∧ Brings (·.Between good a b) fault x := by
  have joins {p q : String} {c : Conversion K} (edge : net.edge? p q = some c) :
      net.Connected p q ∧ net.Connected q p :=
    have forth : net.Connected p q := .single (.inl (by simp [edge]))
    ⟨forth, forth.symm⟩
  simp only [Network.throughNode, List.mem_append] at member
  rcases member with ((chain | diverge) | converge) | oppose
  · split at chain
    next c d first second =>
      rw [List.mem_singleton.mp chain]
      exact ⟨(joins first).1.trans (joins second).1,
        (labelled _ c first).chain within (labelled _ d second)⟩
    next => cases chain
  · split at diverge
    next c d first second =>
      rw [List.mem_singleton.mp diverge]
      exact ⟨(joins first).2.trans (joins second).1,
        (labelled _ c first).diverge within (labelled _ d second)⟩
    next => cases diverge
  · split at converge
    next c d first second =>
      rw [List.mem_singleton.mp converge]
      exact ⟨(joins first).1.trans (joins second).2,
        (labelled _ c first).converge within (labelled _ d second)⟩
    next => cases converge
  · split at oppose
    next c d first second =>
      rw [List.mem_singleton.mp oppose]
      exact ⟨(joins first).2.trans (joins second).2,
        (labelled _ c first).oppose within (labelled _ d second)⟩
    next => cases oppose

/-- What is found by at most two edges goes between the two symbols, which edges join. -/
theorem Labelled.find (labelled : net.Labelled good) (dimension a b : String) :
    Brings (fun found => ∀ c ∈ found, net.Connected a b ∧ c.Between good a b) fault
      (net.find dimension a b) := by
  unfold Network.find
  split
  next same =>
    intro c mem
    obtain rfl := Option.some.inj mem
    exact ⟨same ▸ .refl, rfl, rfl, Factor.good_one within⟩
  next =>
    cases forth : net.edge? a b with
    | some c =>
      intro d mem
      obtain rfl := Option.some.inj mem
      exact ⟨.single (.inl (by simp [forth])), labelled _ c forth⟩
    | none =>
      cases back : net.edge? b a with
      | some c =>
        refine ((labelled _ c back).invert within).map fun d between e mem => ?_
        obtain rfl := Option.some.inj mem
        exact ⟨.single (.inr (by simp [back])), between⟩
      | none =>
        refine brings_choose (fun x mem => ?_) fun c mem => nomatch mem
        obtain ⟨mid, _, through⟩ := List.mem_flatMap.mp mem
        obtain ⟨joined, between⟩ := labelled.throughNode within through
        exact between.weaken (fun c own => ⟨joined, own⟩) fun e own => own

/-! ### Searching -/

theorem Follows.learn (follows : Follows good drawn net)
    (step : Learns dimension src net net') : Follows good drawn net' := by
  obtain ⟨node, c, _, _, fresh, found, rfl⟩ := step
  obtain ⟨joined, between⟩ := (follows.labelled.find within dimension src node).given found c rfl
  have edges {P : EdgeKey → Conversion K → Prop} (new : P (src, node) c)
      (old : ∀ key d, net.edges.get? key = some d → P key d) :
      ∀ key d, (net.learn src node c).edges.get? key = some d → P key d := by
    intro key d edge
    rw [show (net.learn src node c).edges.get? key = _ from edge?_learn net src node key.1 key.2 c]
      at edge
    split at edge
    next same =>
      obtain rfl := Option.some.inj edge
      exact (show (src, node) = key from same) ▸ new
    next => exact old key d edge
  refine ⟨follows.nodes, fun key d edge => edge?_learn_of_isSome fresh (follows.kept key d edge),
    edges (P := fun key d => d.Between good key.1 key.2) between follows.labelled,
    edges (P := fun key _ => drawn.Connected key.1 key.2) (follows.connected_of_connected joined)
      follows.connected⟩

theorem Follows.grows (follows : Follows good drawn net)
    (grows : Grows dimension src net net') : Follows good drawn net' := by
  induction grows with
  | refl => exact follows
  | tail _ last ih => exact ih.learn within last

omit within in
theorem find_same (net : Network K) (dimension : String) (same : a = b) :
    net.find dimension a b = .ok (some ⟨dimension, a, b, .one⟩) := if_pos same

omit within in
theorem find_edge {c : Conversion K} (distinct : a ≠ b) (edge : net.edge? a b = some c) :
    net.find dimension a b = .ok (some c) := by
  rw [find, if_neg distinct, edge]

/-- What is found between two symbols: a conversion exactly where registered edges join them. From a
symbol to itself it is one, and a registered edge is found itself. -/
structure Tells (good : K → Prop) (drawn : Network K) (a b : String)
    (found : Option (Conversion K)) : Prop where
  between : ∀ c ∈ found, c.Between good a b
  isSome_iff : found.isSome ↔ drawn.Connected a b
  same : a = b → ∀ c ∈ found, c.factor = .one
  edge : a ≠ b → ∀ c, drawn.edge? a b = some c → found = some c

/-- A search that does not fail finds a conversion exactly where registered edges join its ends. -/
theorem Follows.search (follows : Follows good drawn net) (ends : drawn.HoldsEnds)
    (dimension src dest : String) :
    Follows good drawn ((search dimension src dest).apply net).2 ∧
      Brings (Tells good drawn src dest) fault ((search dimension src dest).apply net).1 := by
  rw [Network.search, Action.apply_bind, Action.apply_get]
  dsimp only
  rw [Action.apply_bind, Action.apply_lift]
  have brings := follows.labelled.find within dimension src dest
  cases answer : net.find dimension src dest with
  | error e => exact ⟨follows, brings.failed answer⟩
  | ok found =>
    cases found with
    | some c =>
      obtain ⟨joined, between⟩ := brings.given answer c rfl
      refine ⟨follows, ⟨fun d mem => Option.some.inj mem ▸ between,
        ⟨fun _ => follows.connected_of_connected joined, fun _ => rfl⟩, fun same d mem => ?_,
        fun distinct d edge => ?_⟩⟩
      · rw [find_same net dimension same] at answer
        obtain rfl := Option.some.inj (Except.ok.inj answer)
        exact Option.some.inj mem ▸ rfl
      · rw [find_edge distinct (follows.kept _ d edge)] at answer
        exact (Except.ok.inj answer).symm
    | none =>
      obtain ⟨distinct, noEdge, _⟩ := edges_of_find_none answer
      dsimp only
      rcases grow_cases dimension src dest noEdge with
        ⟨found, net', run, grows, reached, outcome⟩ | ⟨e, net', run, now, node, grows, failed⟩
      · have after := follows.grows within grows
        rw [run]
        refine ⟨after, ?_, ⟨fun some => ?_, fun joined => ?_⟩, fun same => absurd same distinct,
          fun _ c edge => ?_⟩
        · exact fun c same => after.labelled _ c (reached c same)
        · obtain ⟨c, same⟩ := Option.isSome_iff_exists.mp some
          exact after.connected _ c (reached c same)
        · cases found with
          | some c => rfl
          | none =>
            obtain ⟨isSrc, isDest⟩ := joined.mem_nodes ends distinct
            rw [← follows.nodes] at isSrc isDest
            obtain _ | ⟨goal, settled⟩ := (outcome isSrc isDest).1
            rcases edge_of_connected after.nodes after.kept ends settled joined with same | edge
            · exact absurd same.symm distinct
            · simp [goal] at edge
        · have known : net.edge? src dest = some c := follows.kept _ c edge
          rw [noEdge] at known
          cases known
      · have before := follows.grows within grows
        have fault := (before.labelled.find within dimension src node).failed failed
        have kept : Grows dimension src net ((grow dimension src dest).apply net).2 := by
          have whole : Grows dimension src net ((Network.search dimension src dest).apply net).2 :=
            keeps_search.invariant .refl
          rw [Network.search, Action.apply_bind, Action.apply_get] at whole
          dsimp only at whole
          rw [Action.apply_bind, Action.apply_lift, answer] at whole
          exact whole
        refine ⟨follows.grows within kept, ?_⟩
        rw [run]
        exact fault

end Network

namespace Routes

variable [Scalar K] {drawn : Network K} {r : Routes K}

/-- Routes that tell where registered edges join two symbols. -/
structure Finds (good : K → Prop) (drawn : Network K) (r : Routes K) : Prop where
  follows : drawn.Follows good r.network
  known : ∀ key found, r.known.get? key = some found → drawn.Tells good key.1 key.2 found

theorem finds_ofNetwork (labelled : drawn.Labelled good) : Finds good drawn (ofNetwork drawn) :=
  ⟨.refl labelled, fun key found known => by simp [ofNetwork] at known⟩

/-- Looking up a route keeps them so. -/
theorem Finds.ends_route (within : Scalar.Within good fault) (ends : drawn.HoldsEnds)
    (dimension src dest : String) :
    (route dimension src dest).Ends (Finds good drawn) (drawn.Tells good src dest) fault := by
  intro r finds
  rw [route_apply]
  cases known : r.known.get? (src, dest) with
  | some found => exact ⟨finds, finds.known _ found known⟩
  | none =>
    obtain ⟨follows, brings⟩ := finds.follows.search within ends dimension src dest
    rcases run : (Network.search dimension src dest).apply r.network with ⟨e | found, net⟩
    · rw [run] at follows brings
      exact ⟨⟨follows, finds.known⟩, brings⟩
    · rw [run] at follows brings
      refine ⟨⟨follows, fun key given known => ?_⟩, brings⟩
      rw [Register.get?_put] at known
      split at known
      next same =>
        obtain rfl := Option.some.inj known
        exact same ▸ brings
      next => exact finds.known key given known

end Routes

end Metrology
