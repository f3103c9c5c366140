import Mathlib.Data.Finset.Card
import Metrology.Proofs.Graph.Walk

/-!
# Growing a network

Growing adds edges one at a time: each goes from the source of the search to a node that was found
from there. What one learned edge keeps, a round of growing and a whole search keep. A search stops
because every learned edge leaves fewer nodes to which the source has no edge.
-/
namespace Metrology.Network

variable {K : Type}

/-- The registered edges of a network in which nothing was searched for yet. -/
structure Drawn [Zero K] (net : Network K) : Prop where
  keyed : ∀ key c, net.edges.get? key = some c → c.src = key.1 ∧ c.dest = key.2
  nonzero : ∀ key c, net.edges.get? key = some c → c.factor.value ≠ 0

theorem drawn_of_rows [Zero K] {net : Network K}
    (rows : ∀ row ∈ net.edges.rows,
      row.2.src = row.1.1 ∧ row.2.dest = row.1.2 ∧ row.2.factor.value ≠ 0) : net.Drawn where
  keyed key c edge :=
    have row := rows (key, c) (Register.mem_rows_of_get? edge)
    ⟨row.1, row.2.1⟩
  nonzero key c edge := (rows (key, c) (Register.mem_rows_of_get? edge)).2.2

/-- A network as searches may leave it: the registered edges are all there, and every edge is a
path along registered ones. -/
structure GrownFrom [Field K] (drawn net : Network K) : Prop where
  nodes : net.nodes = drawn.nodes
  kept : ∀ key c, drawn.edges.get? key = some c → net.edges.get? key = some c
  paths : ∀ key c, net.edges.get? key = some c → drawn.IsPath key.1 key.2 c

section Steps

variable {dimension src dest : String} {net net' : Network K}

/-- Nodes to which `src` has no edge. -/
def missing (net : Network K) (src : String) : Finset String :=
  net.nodes.toFinset.filter fun node => node ≠ src ∧ net.edge? src node = none

@[simp] theorem mem_missing {node : String} :
    node ∈ net.missing src ↔ node ∈ net.nodes ∧ node ≠ src ∧ net.edge? src node = none := by
  simp [missing]

/-- The source is a node without being missing, so fewer nodes are missing than there are. -/
theorem missing_card_lt (mem : src ∈ net.nodes) :
    (net.missing src).card < net.nodes.length := by
  refine Nat.lt_of_lt_of_le (Finset.card_lt_card ⟨Finset.filter_subset _ _, fun subset => ?_⟩)
    (List.toFinset_card_le net.nodes)
  have := subset (List.mem_toFinset.mpr mem)
  simp at this

theorem edge?_learn (net : Network K) (src node a b : String) (c : Conversion K) :
    (net.learn src node c).edge? a b = if (src, node) = (a, b) then some c else net.edge? a b :=
  Register.get?_put net.edges (src, node) (a, b) c

theorem edge?_learn_of_isSome {node a b : String} {c d : Conversion K}
    (fresh : net.edge? src node = none) (edge : net.edge? a b = some d) :
    (net.learn src node c).edge? a b = some d := by
  rw [edge?_learn, if_neg, edge]
  rintro ⟨⟩
  rw [fresh] at edge
  cases edge

variable [Scalar K]

/-- One learned edge, from `src` to a node that it had no edge to. -/
def Learns (dimension src : String) (net net' : Network K) : Prop :=
  ∃ node c, node ≠ src ∧ node ∈ net.nodes ∧ net.edge? src node = none ∧
    net.find dimension src node = .ok (some c) ∧ net' = net.learn src node c

/-- Any number of learned edges. -/
def Grows (dimension src : String) : Network K → Network K → Prop :=
  Relation.ReflTransGen (Learns dimension src)

/-- A node to which there is nothing to learn. -/
def Settled (net : Network K) (dimension src node : String) : Prop :=
  node = src ∨ (net.edge? src node).isSome ∨ net.find dimension src node = .ok none

theorem Learns.missing_lt (step : Learns dimension src net net') :
    (net'.missing src).card < (net.missing src).card := by
  obtain ⟨node, c, other, mem, fresh, _, rfl⟩ := step
  refine Finset.card_lt_card ⟨fun n remains => ?_, fun subset => ?_⟩
  · obtain ⟨there, different, absent⟩ := mem_missing.mp remains
    refine mem_missing.mpr ⟨there, different, ?_⟩
    by_contra present
    obtain ⟨d, edge⟩ := Option.ne_none_iff_exists'.mp present
    rw [edge?_learn_of_isSome fresh edge] at absent
    cases absent
  · have remains := subset (mem_missing.mpr ⟨mem, other, fresh⟩)
    simp [edge?_learn] at remains

theorem Learns.nodes_eq (step : Learns dimension src net net') : net'.nodes = net.nodes := by
  obtain ⟨_, _, _, _, _, _, rfl⟩ := step
  rfl

theorem Grows.nodes_eq (grows : Grows dimension src net net') : net'.nodes = net.nodes := by
  induction grows with
  | refl => rfl
  | tail _ last ih => exact last.nodes_eq.trans ih

theorem Grows.missing_le (grows : Grows dimension src net net') :
    (net'.missing src).card ≤ (net.missing src).card := by
  induction grows with
  | refl => exact Nat.le_refl _
  | tail _ last ih => exact Nat.le_trans (Nat.le_of_lt last.missing_lt) ih

/-- Learned edges stand behind all that were there, one for each further node. -/
theorem Grows.rows_eq (grows : Grows dimension src net net') :
    ∃ learned, net'.edges.rows = net.edges.rows ++ learned ∧ (learned.map (·.1)).Nodup ∧
      ∀ row ∈ learned, row.1.1 = src ∧ row.1.2 ∈ net.nodes ∧ row.1.2 ≠ src ∧
        net.edges.get? row.1 = none := by
  induction grows with
  | refl => exact ⟨[], by simp⟩
  | tail before last ih =>
    obtain ⟨learned, rows, nodup, each⟩ := ih
    rename_i mid _
    obtain ⟨node, c, other, mem, fresh, _, rfl⟩ := last
    have absent := Register.get?_eq_none_iff.mp (show mid.edges.get? (src, node) = none from fresh)
    simp only [Register.keys, rows, List.map_append, List.mem_append, not_or] at absent
    refine ⟨learned ++ [((src, node), c)], ?_, ?_, ?_⟩
    · rw [learn, Register.rows_put_of_fresh fresh, rows, List.append_assoc]
    · simp only [List.map_append, List.map_cons, List.map_nil]
      refine nodup.append (List.nodup_singleton _) fun key old new => ?_
      rw [List.mem_singleton.mp new] at old
      exact absent.2 old
    · intro row member
      rcases List.mem_append.mp member with old | new
      · exact each row old
      · rw [List.mem_singleton.mp new]
        exact ⟨rfl, Grows.nodes_eq before ▸ mem, other, Register.get?_eq_none_iff.mpr absent.1⟩

/-- A choice among candidates that can be computed gives one of them if there is any. -/
theorem choose_spec {P : Conversion K → Prop} (candidates : List (Except Error (Conversion K)))
    (good : ∀ x ∈ candidates, ∃ c, x = .ok c ∧ P c) (first : Option (Conversion K))
    (goodFirst : ∀ c, first = some c → P c) :
    ∃ found, choose first candidates = .ok found ∧ (∀ c, found = some c → P c) ∧
      (found = none → first = none ∧ candidates = []) := by
  induction candidates generalizing first with
  | nil => exact ⟨first, rfl, goodFirst, fun none => ⟨none, rfl⟩⟩
  | cons x rest ih =>
    obtain ⟨c, rfl, holds⟩ := good x List.mem_cons_self
    simp only [choose]
    split
    next =>
      refine ⟨some c, rfl, ?_, by simp⟩
      rintro _ ⟨⟩
      exact holds
    next =>
      have goodNext : ∀ d, (first <|> some c) = some d → P d := by
        cases first with
        | none => rintro _ ⟨⟩; exact holds
        | some f => exact fun d same => goodFirst d same
      obtain ⟨found, chosen, path, nothing⟩ :=
        ih (fun y member => good y (List.mem_cons_of_mem _ member)) _ goodNext
      refine ⟨found, chosen, path, fun none => ?_⟩
      have := (nothing none).1
      cases first <;> simp at this

/-- Nothing is chosen only where there is nothing to choose from. -/
theorem choose_eq_none {candidates : List (Except Error (Conversion K))}
    {first : Option (Conversion K)} (nothing : choose first candidates = .ok none) :
    first = none ∧ candidates = [] := by
  induction candidates generalizing first with
  | nil => exact ⟨Except.ok.inj nothing, rfl⟩
  | cons x rest ih =>
    cases x with
    | error e => cases nothing
    | ok c =>
      rw [choose] at nothing
      split at nothing
      next => cases nothing
      next =>
        have := (ih nothing).1
        cases first <;> simp at this

/-- Nothing is found only where there are no edges to go along. -/
theorem edges_of_find_none {a b : String} (nothing : net.find dimension a b = .ok none) :
    a ≠ b ∧ net.edge? a b = none ∧ net.edge? b a = none ∧ net.twoHops a b = [] := by
  unfold find at nothing
  split at nothing
  next => cases nothing
  next distinct =>
    cases forth : net.edge? a b with
    | some c =>
      rw [forth] at nothing
      cases nothing
    | none =>
      cases back : net.edge? b a with
      | some c =>
        simp only [forth, back] at nothing
        cases inverted : c.invert <;> simp [inverted, Except.map] at nothing
      | none =>
        simp only [forth, back] at nothing
        exact ⟨distinct, rfl, rfl, (choose_eq_none nothing).2⟩

end Steps

section Exact

variable [Field K] {drawn net net' : Network K} {dimension src dest : String}

theorem GrownFrom.refl (keyed : drawn.Drawn) : GrownFrom drawn drawn :=
  ⟨rfl, fun _ _ edge => edge, fun key c edge =>
    isPath_edge edge (keyed.keyed key c edge).1 (keyed.keyed key c edge).2⟩

theorem GrownFrom.nonzero (grown : GrownFrom drawn net) (keyed : drawn.Drawn) {a b : String}
    {c : Conversion K} (edge : net.edge? a b = some c) : c.factor.value ≠ 0 :=
  (grown.paths _ c edge).factor_ne_zero keyed.nonzero

/-- Learned edges change nothing about which nodes are joined. -/
theorem GrownFrom.connected_iff (grown : GrownFrom drawn net) (a b : String) :
    net.Connected a b ↔ drawn.Connected a b := by
  constructor
  · intro joined
    induction joined with
    | refl => exact .refl
    | tail _ last ih =>
      rcases last with edge | edge
      · obtain ⟨c, edge⟩ := Option.isSome_iff_exists.mp edge
        exact ih.trans (grown.paths _ c edge).connected
      · obtain ⟨c, edge⟩ := Option.isSome_iff_exists.mp edge
        exact ih.trans (grown.paths _ c edge).connected.symm
  · intro joined
    refine Relation.ReflTransGen.mono (fun a b adjacent => ?_) a b joined
    rcases adjacent with edge | edge
    · obtain ⟨c, edge⟩ := Option.isSome_iff_exists.mp edge
      exact .inl (Option.isSome_iff_exists.mpr ⟨c, grown.kept _ c edge⟩)
    · obtain ⟨c, edge⟩ := Option.isSome_iff_exists.mp edge
      exact .inr (Option.isSome_iff_exists.mpr ⟨c, grown.kept _ c edge⟩)

variable [LinearOrder K] [Scalar K] [Scalar.Exact K]

/-- Every conversion through a middle node can be computed and is a path. -/
theorem GrownFrom.throughNode (grown : GrownFrom drawn net) (keyed : drawn.Drawn)
    {a b mid : String} {x : Except Error (Conversion K)} (member : x ∈ net.throughNode a b mid) :
    ∃ c, x = .ok c ∧ drawn.IsPath a b c := by
  simp only [Network.throughNode, List.mem_append] at member
  rcases member with ((chain | diverge) | converge) | oppose
  · split at chain
    next c d first second =>
      rw [List.mem_singleton.mp chain]
      exact (grown.paths _ c first).chain (grown.paths _ d second)
    next => cases chain
  · split at diverge
    next c d first second =>
      rw [List.mem_singleton.mp diverge]
      exact (grown.paths _ c first).diverge (grown.paths _ d second) (grown.nonzero keyed first)
    next => cases diverge
  · split at converge
    next c d first second =>
      rw [List.mem_singleton.mp converge]
      exact (grown.paths _ c first).converge (grown.paths _ d second) (grown.nonzero keyed second)
    next => cases converge
  · split at oppose
    next c d first second =>
      rw [List.mem_singleton.mp oppose]
      exact (grown.paths _ c first).oppose (grown.paths _ d second) (grown.nonzero keyed first)
        (grown.nonzero keyed second)
    next => cases oppose

/-- Looking for a conversion by at most two edges never fails, and what is found is a path. -/
theorem GrownFrom.find (grown : GrownFrom drawn net) (keyed : drawn.Drawn)
    (dimension a b : String) :
    ∃ found, net.find dimension a b = .ok found ∧ (∀ c, found = some c → drawn.IsPath a b c) ∧
      (found = none → a ≠ b ∧ net.edge? a b = none ∧ net.edge? b a = none ∧
        net.twoHops a b = []) := by
  unfold Network.find
  split
  next same =>
    refine ⟨_, rfl, ?_, by simp⟩
    rintro _ ⟨⟩
    exact same ▸ isPath_stay drawn dimension a
  next other =>
    cases forth : net.edge? a b with
    | some c =>
      refine ⟨_, rfl, ?_, by simp⟩
      rintro _ ⟨⟩
      exact grown.paths _ c forth
    | none =>
      cases back : net.edge? b a with
      | some c =>
        obtain ⟨d, inverted, path⟩ := (grown.paths _ c back).invert (grown.nonzero keyed back)
        refine ⟨some d, by simp [inverted, Except.map], ?_, by simp⟩
        rintro _ ⟨⟩
        exact path
      | none =>
        have good : ∀ x ∈ net.twoHops a b, ∃ c, x = .ok c ∧ drawn.IsPath a b c := by
          intro x member
          obtain ⟨mid, _, through⟩ := List.mem_flatMap.mp member
          exact grown.throughNode keyed through
        obtain ⟨found, chosen, path, nothing⟩ := choose_spec _ good none (by simp)
        exact ⟨found, chosen, path, fun none => ⟨other, rfl, rfl, (nothing none).2⟩⟩

theorem GrownFrom.learn (grown : GrownFrom drawn net) (keyed : drawn.Drawn)
    (step : Learns dimension src net net') : GrownFrom drawn net' := by
  obtain ⟨node, c, _, _, fresh, found, rfl⟩ := step
  refine ⟨grown.nodes, fun key d edge => ?_, fun key d edge => ?_⟩
  · exact edge?_learn_of_isSome fresh (grown.kept key d edge)
  · obtain ⟨_, answer, path, _⟩ := grown.find keyed dimension src node
    rw [found] at answer
    cases answer
    rw [show (net.learn src node c).edges.get? key = _ from edge?_learn net src node key.1 key.2 c]
      at edge
    split at edge
    next same =>
      cases edge
      cases same
      exact path c rfl
    next => exact grown.paths key d edge

theorem GrownFrom.grows (grown : GrownFrom drawn net) (keyed : drawn.Drawn)
    (grows : Grows dimension src net net') : GrownFrom drawn net' := by
  induction grows with
  | refl => exact grown
  | tail _ last ih => exact ih.learn keyed last

end Exact

end Metrology.Network
