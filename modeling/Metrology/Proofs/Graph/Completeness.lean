import Metrology.Proofs.Graph.StoredPaths

/-!
# Completeness of the search

Where a search stops without reaching its goal, the nodes that the source has an edge to are closed
under registered edges, although each step of the search looks only two edges ahead. So nothing is
found only between nodes that no registered edges join, whatever was searched for before.
-/
namespace Metrology

namespace Network

variable {K : Type} {drawn net : Network K} {dimension src dest a b : String}

/-- The ends of every edge are nodes. -/
def HoldsEnds (net : Network K) : Prop :=
  ∀ a b, (net.edge? a b).isSome → a ∈ net.nodes ∧ b ∈ net.nodes

theorem holdsEnds_ofEdges (units : List String) (edges : Edges K) :
    (ofEdges units edges).HoldsEnds := by
  intro a b edge
  have key : (a, b) ∈ edges.keys := by
    by_contra absent
    have none : (ofEdges units edges).edge? a b = none := Register.get?_eq_none_iff.mpr absent
    simp [none] at edge
  simp only [ofEdges, List.mem_eraseDups, List.mem_append, List.mem_flatMap]
  exact ⟨.inr ⟨(a, b), key, by simp⟩, .inr ⟨(a, b), key, by simp⟩⟩

theorem Adjacent.mem_nodes (ends : net.HoldsEnds)
    (adjacent : net.Adjacent a b) : a ∈ net.nodes ∧ b ∈ net.nodes :=
  adjacent.elim (ends a b) fun edge => (ends b a edge).symm

/-- Nodes that edges join are nodes, unless they are the same symbol. -/
theorem Connected.mem_nodes (ends : net.HoldsEnds) (joined : net.Connected a b) (distinct : a ≠ b) :
    a ∈ net.nodes ∧ b ∈ net.nodes := by
  obtain same | ⟨c, first, _⟩ := joined.cases_head
  · exact absurd same distinct
  · obtain same | ⟨d, _, last⟩ := joined.cases_tail
    · exact absurd same.symm distinct
    · exact ⟨(first.mem_nodes ends).1, (last.mem_nodes ends).2⟩

/-- An edge from the source and an edge further on, walked either way, make a candidate. -/
theorem twoHops_ne_nil [Scalar K] {mid : String} (node : mid ∈ net.nodes) (notSrc : mid ≠ src)
    (notDest : mid ≠ dest) (first : (net.edge? src mid).isSome)
    (second : net.Adjacent mid dest) : net.twoHops src dest ≠ [] := by
  obtain ⟨c, first⟩ := Option.isSome_iff_exists.mp first
  have candidates : ∃ x, x ∈ net.throughNode src dest mid := by
    rcases second with forth | back
    · obtain ⟨d, forth⟩ := Option.isSome_iff_exists.mp forth
      exact ⟨c.chain d, by simp [throughNode, first, forth]⟩
    · obtain ⟨d, back⟩ := Option.isSome_iff_exists.mp back
      exact ⟨c.converge d, by simp [throughNode, first, back]⟩
  obtain ⟨x, member⟩ := candidates
  refine List.ne_nil_of_mem (a := x) (List.mem_flatMap.mpr ⟨mid, ?_, member⟩)
  simp [node, notSrc, notDest]

/-- Where all nodes are settled, the source has an edge to every node it is joined to. -/
theorem edge_of_connected [Scalar K] (nodes : net.nodes = drawn.nodes)
    (kept : ∀ key c, drawn.edges.get? key = some c → net.edges.get? key = some c)
    (ends : drawn.HoldsEnds) (settled : ∀ node ∈ net.nodes, net.Settled dimension src node)
    (joined : drawn.Connected src dest) : dest = src ∨ (net.edge? src dest).isSome := by
  induction joined with
  | refl => exact .inl rfl
  | @tail mid last _ step ih =>
    have adjacent : net.Adjacent mid last := by
      rcases step with forth | back
      · obtain ⟨c, forth⟩ := Option.isSome_iff_exists.mp forth
        exact .inl (Option.isSome_iff_exists.mpr ⟨c, kept _ c forth⟩)
      · obtain ⟨c, back⟩ := Option.isSome_iff_exists.mp back
        exact .inr (Option.isSome_iff_exists.mpr ⟨c, kept _ c back⟩)
    have both : mid ∈ net.nodes ∧ last ∈ net.nodes := by
      rw [nodes]
      exact step.mem_nodes ends
    rcases settled last both.2 with same | edge | none
    · exact .inl same
    · exact .inr edge
    · obtain ⟨_, noForth, noBack, noHops⟩ := edges_of_find_none none
      rcases ih with rfl | edge
      · rcases adjacent with forth | back
        · simp [noForth] at forth
        · simp [noBack] at back
      · by_cases atSrc : mid = src
        · subst atSrc
          rcases adjacent with forth | back
          · simp [noForth] at forth
          · simp [noBack] at back
        · by_cases atLast : mid = last
          · exact .inr (atLast ▸ edge)
          · exact absurd noHops (twoHops_ne_nil both.1 atSrc atLast edge adjacent)

variable [Field K] [LinearOrder K] [Scalar K] [Scalar.Exact K]

/-- A search that finds nothing was made between symbols that no registered edges join. -/
theorem not_connected_of_search (keyed : drawn.Drawn) (ends : drawn.HoldsEnds)
    (grown : GrownFrom drawn net) (distinct : src ≠ dest) {net' : Network K}
    (run : (search dimension src dest).apply net = (.ok none, net')) :
    ¬ drawn.Connected src dest := by
  intro joined
  obtain ⟨found, final, answer, grows, _, outcome⟩ := search_spec dimension src dest keyed grown
  rw [run] at answer
  cases answer
  obtain ⟨srcNode, destNode⟩ := joined.mem_nodes ends distinct
  rw [← grown.nodes] at srcNode destNode
  obtain _ | ⟨goal, settled⟩ := outcome rfl srcNode destNode
  have grown' := grown.grows keyed grows
  rcases edge_of_connected grown'.nodes grown'.kept ends settled joined with same | edge
  · exact distinct same.symm
  · simp [goal] at edge

end Network

namespace Routes

variable {K : Type} [Field K] [LinearOrder K] [Scalar K] [Scalar.Exact K]
variable {drawn : Network K} {r : Routes K} (dimension : String)

/-- Where it is remembered that nothing was found, there is nothing to find. -/
def RightlyNone (drawn : Network K) (r : Routes K) : Prop :=
  ∀ key, key.1 ≠ key.2 → r.known.get? key = some none → ¬ drawn.Connected key.1 key.2

/-- One search, from memory or not, decides whether registered edges join its ends. -/
theorem route_decides (keyed : drawn.Drawn) (ends : drawn.HoldsEnds)
    (grown : GrownFrom drawn r) (right : RightlyNone drawn r) (src dest : String) :
    RightlyNone drawn ((route dimension src dest).apply r).2 ∧
      (src ≠ dest → ((route dimension src dest).apply r).1 = .ok none →
        ¬ drawn.Connected src dest) := by
  obtain ⟨found, r', run, _, _, _, remembered | ⟨search, known⟩⟩ :=
    route_spec dimension keyed grown src dest
  · obtain ⟨remembered, rfl⟩ := remembered
    rw [run]
    refine ⟨right, fun distinct none => right (src, dest) distinct ?_⟩
    cases none
    exact remembered
  · have decided : src ≠ dest → found = none → ¬ drawn.Connected src dest := by
      rintro distinct rfl
      exact Network.not_connected_of_search keyed ends grown.network distinct search
    rw [run]
    refine ⟨fun key distinct none => ?_, fun distinct none => decided distinct (by cases none; rfl)⟩
    rw [known, Register.get?_put] at none
    split at none
    next same =>
      cases same
      cases none
      exact decided distinct rfl
    next => exact right key distinct none

theorem RightlyNone.searches (keyed : drawn.Drawn) (ends : drawn.HoldsEnds)
    (grown : GrownFrom drawn r) (right : RightlyNone drawn r) (calls : List EdgeKey) :
    RightlyNone drawn (searches dimension calls r) := by
  induction calls generalizing r with
  | nil => exact right
  | cons call rest ih =>
    obtain ⟨_, r', run, grown', _⟩ := route_spec dimension keyed grown call.1 call.2
    have right' := (route_decides dimension keyed ends grown right call.1 call.2).1
    rw [Routes.searches, List.foldl_cons, run]
    rw [run] at right'
    exact ih grown' right'

/-- One search after any others: it answers, and finds a conversion exactly where registered edges
join the two ends. -/
theorem route_isSome_iff (keyed : drawn.Drawn) (ends : drawn.HoldsEnds) (calls : List EdgeKey)
    {src dest : String} (distinct : src ≠ dest) :
    ∃ found, ((route dimension src dest).apply
        (Routes.searches dimension calls (ofNetwork drawn))).1 = .ok found ∧
      (found.isSome ↔ drawn.Connected src dest) := by
  have start := GrownFrom.ofNetwork keyed
  have nothingKnown : RightlyNone drawn (ofNetwork drawn) := by
    intro key _ none
    simp [ofNetwork] at none
  have grown := start.searches dimension keyed calls
  have right := nothingKnown.searches dimension keyed ends start calls
  obtain ⟨found, r', run, _, _, path, _⟩ := route_spec dimension keyed grown src dest
  refine ⟨found, by rw [run], fun some => ?_, fun joined => ?_⟩
  · obtain ⟨c, rfl⟩ := Option.isSome_iff_exists.mp some
    exact (path c rfl).connected
  · cases found with
    | some c => rfl
    | none =>
      have decided := (route_decides dimension keyed ends grown right src dest).2 distinct
      exact absurd joined (decided (by rw [run]))

end Routes

end Metrology
