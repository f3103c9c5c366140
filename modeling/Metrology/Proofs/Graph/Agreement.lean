import Metrology.Proofs.Graph.Completeness
import Metrology.Proofs.Parallel

/-!
# Searches that agree

Whatever was searched for before, two searches between the same nodes both find a conversion or both
find nothing. If the registered edges do not contradict one another, the factors that are found are
the same; the relative errors need not be, since they depend on the walk that was found.
-/
namespace Metrology

variable {K : Type} [Field K]

/-- Edges that do not contradict one another: their factors are quotients of sizes of the nodes. -/
def Edges.Consistent (es : Edges K) : Prop :=
  ∃ size : String → K, (∀ a, size a ≠ 0) ∧
    ∀ key c, es.get? key = some c → size key.1 = c.factor.value * size key.2

namespace Network

variable {drawn : Network K} {a b : String} {c d : Conversion K} {P : Prop}

/-- Two paths between the same nodes have factors that agree. -/
theorem IsPath.agrees (keyed : drawn.Drawn) (consistent : P → drawn.edges.Consistent)
    (first : drawn.IsPath a b c) (second : drawn.IsPath a b d) : c.factor.Agrees P d.factor where
  left := first.factor_ne_zero keyed.nonzero
  right := second.factor_ne_zero keyed.nonzero
  same p := by
    obtain ⟨size, nonzero, balanced⟩ := consistent p
    obtain ⟨_, _, w, factor⟩ := first
    obtain ⟨_, _, v, factor'⟩ := second
    have walked := w.value_eq balanced keyed.nonzero
    rw [v.value_eq balanced keyed.nonzero] at walked
    rw [factor, factor']
    exact (mul_right_cancel₀ (nonzero b) walked).symm

end Network

namespace Routes

variable {drawn : Network K} {r r' : Routes K}

/-- Routes whose edges and answers are walks along registered edges, and where nothing is known to be
found only between nodes that are not joined. -/
structure Right (drawn : Network K) (r : Routes K) : Prop where
  grown : GrownFrom drawn r
  none : ∀ key, r.known.get? key = some none → ¬ drawn.Connected key.1 key.2

theorem right_ofNetwork (keyed : drawn.Drawn) : Right drawn (ofNetwork drawn) :=
  ⟨.ofNetwork keyed, fun key known => by simp [ofNetwork] at known⟩

variable [LinearOrder K] [Scalar K] [Scalar.Exact K]

omit [Field K] [LinearOrder K] [Scalar.Exact K] in
theorem search_same (dimension a : String) (net : Network K) :
    (Network.search dimension a a).apply net = (.ok (some ⟨dimension, a, a, .one⟩), net) := by
  rw [Network.search, Action.apply_bind, Action.apply_get]
  dsimp only
  rw [Action.apply_bind, Action.apply_lift, Network.find, if_pos rfl]
  rfl

/-- A search answers, finds a conversion exactly where registered edges join its ends, and leaves the
routes right. -/
theorem Right.route (right : Right drawn r) (keyed : drawn.Drawn) (ends : drawn.HoldsEnds)
    (dimension src dest : String) :
    ∃ found r', (Routes.route dimension src dest).apply r = (.ok found, r') ∧ Right drawn r' ∧
      (found = Option.none ↔ ¬ drawn.Connected src dest) ∧
      ∀ c, found = some c → drawn.IsPath src dest c := by
  obtain ⟨found, r', run, grown, _, path, answer⟩ :=
    route_spec dimension keyed right.grown src dest
  have nothing : found = Option.none → ¬ drawn.Connected src dest := by
    rintro rfl
    rcases answer with ⟨known, _⟩ | ⟨search, _⟩
    · exact right.none (src, dest) known
    · by_cases same : src = dest
      · subst same
        rw [search_same] at search
        cases search
      · exact Network.not_connected_of_search keyed ends right.grown.network same search
  refine ⟨found, r', run, ⟨grown, fun key known => ?_⟩, ⟨nothing, fun apart => ?_⟩, path⟩
  · rcases answer with ⟨_, rfl⟩ | ⟨_, remembered⟩
    · exact right.none key known
    · rw [remembered, Register.get?_put] at known
      split at known
      next same =>
        cases same
        exact nothing (Option.some.inj known)
      next => exact right.none key known
  · cases found with
    | none => rfl
    | some c => exact absurd (path c rfl).connected apart

/-- Two searches between the same nodes agree. -/
theorem Right.agree {P : Prop} (right : Right drawn r) (right' : Right drawn r')
    (keyed : drawn.Drawn) (ends : drawn.HoldsEnds) (consistent : P → drawn.edges.Consistent)
    (dimension src dest : String) :
    Matches (Option.Rel fun c d => c.factor.Agrees P d.factor)
      ((Routes.route dimension src dest).apply r).1
      ((Routes.route dimension src dest).apply r').1 := by
  obtain ⟨found, _, run, _, nothing, path⟩ := right.route keyed ends dimension src dest
  obtain ⟨found', _, run', _, nothing', path'⟩ := right'.route keyed ends dimension src dest
  rw [run, run']
  refine .given ?_
  cases found with
  | none =>
    rw [nothing'.mpr (nothing.mp rfl)]
    exact .none
  | some c =>
    cases found' with
    | none => exact absurd (nothing.mpr (nothing'.mp rfl)) nofun
    | some d => exact .some ((path c rfl).agrees keyed consistent (path' d rfl))

end Routes

end Metrology
