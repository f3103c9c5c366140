import Mathlib.Data.List.ReduceOption
import Metrology.Proofs.Graph.Finding

/-!
# The choice between conversions

Two symbols without an edge between them are joined over a middle node in as many ways as there are
nodes and patterns of edges. Of these candidates, in the order of the nodes and then of the
patterns, the first exact one is found, and the first of all if none is exact. The choice is made
while the candidates are computed one after the other; so a pair of opposed edges whose product has
become zero, which has no reciprocal, stops it if no exact candidate comes before it.
-/
namespace Metrology

variable {K : Type} [Scalar K]

/-- The way back. -/
def Conversion.reversed (c : Conversion K) : Conversion K :=
  ⟨c.dimension, c.dest, c.src, ⟨Scalar.div Scalar.one c.factor.value, c.factor.error⟩⟩

/-- The directions of two edges over a middle node. -/
inductive Pattern where
  | chain | diverge | converge | oppose
  deriving DecidableEq, Repr

namespace Pattern

/-- Every pattern once, in the order in which they are tried. -/
def all : List Pattern := [chain, diverge, converge, oppose]

/-- The two edges of a pattern, the one that joins the source first. -/
def edges? (net : Network K) (src mid dest : String) :
    Pattern → Option (Conversion K) × Option (Conversion K)
  | chain => (net.edge? src mid, net.edge? mid dest)
  | diverge => (net.edge? mid src, net.edge? mid dest)
  | converge => (net.edge? src mid, net.edge? dest mid)
  | oppose => (net.edge? mid src, net.edge? dest mid)

/-- The factor of the way along two edges. Opposed edges have none if their product is zero. -/
def factor? (f g : Factor K) : Pattern → Option (Factor K)
  | chain => some ⟨Scalar.mul f.value g.value, Scalar.add f.error g.error⟩
  | diverge => some ⟨Scalar.div g.value f.value, Scalar.add g.error f.error⟩
  | converge => some ⟨Scalar.div f.value g.value, Scalar.add f.error g.error⟩
  | oppose =>
    let product := Scalar.mul f.value g.value
    if Scalar.isZero product then none
    else some ⟨Scalar.div Scalar.one product, Scalar.add f.error g.error⟩

end Pattern

namespace Network

variable {net : Network K} {dimension src dest mid : String} {c d : Conversion K}
  {cs : List (Option (Conversion K))}

/-- The candidate that a pattern makes of a middle node, if both its edges are there. It is a
conversion unless it cannot be computed. -/
def candidate? (net : Network K) (src dest mid : String) (p : Pattern) :
    Option (Option (Conversion K)) :=
  match p.edges? net src mid dest with
  | (some c, some d) => some ((p.factor? c.factor d.factor).map (⟨c.dimension, src, dest, ·⟩))
  | _ => none

/-- All candidates, by the position of the middle node and then by pattern. -/
def candidates (net : Network K) (src dest : String) : List (Option (Conversion K)) :=
  (net.nodes.filter fun mid => mid ≠ src ∧ mid ≠ dest).flatMap fun mid =>
    Pattern.all.filterMap (net.candidate? src dest mid)

/-- The first exact conversion, otherwise the first one. -/
def preferred (cs : List (Conversion K)) : Option (Conversion K) :=
  (cs.find? (·.factor.isExact)).or cs.head?

/-- A candidate that cannot be computed comes before every exact one. -/
def Halts (cs : List (Option (Conversion K))) : Prop :=
  ∃ before after, cs = before ++ none :: after ∧ ∀ c, some c ∈ before → c.factor.isExact = false

/-- The numbers other than zero. -/
def IsNonZero (x : K) : Prop := Scalar.isZero x = false

instance (x : K) : Decidable (IsNonZero x) := inferInstanceAs (Decidable (_ = false))

/-! ### The candidates as they are computed -/

/-- A candidate as a computation. -/
def computed (c : Option (Conversion K)) : Except Error (Conversion K) :=
  match c with
  | some c => .ok c
  | none => .error .inversionOfZero

theorem chain_eq_computed (labelled : net.Labelled IsNonZero) (first : net.edge? src mid = some c)
    (second : net.edge? mid dest = some d) :
    c.chain d = computed ((Pattern.chain.factor? c.factor d.factor).map
      (⟨c.dimension, src, dest, ·⟩)) := by
  have own := labelled _ c first
  have own' := labelled _ d second
  rw [Conversion.chain, Conversion.share_of_eq (own.dest.trans own'.src.symm), own.src, own'.dest]
  rfl

theorem diverge_eq_computed (labelled : net.Labelled IsNonZero) (first : net.edge? mid src = some c)
    (second : net.edge? mid dest = some d) :
    c.diverge d = computed ((Pattern.diverge.factor? c.factor d.factor).map
      (⟨c.dimension, src, dest, ·⟩)) := by
  have own := labelled _ c first
  have own' := labelled _ d second
  have nonzero : Scalar.isZero c.factor.value = false := own.factor
  rw [Conversion.diverge, Conversion.share_of_eq (own.src.trans own'.src.symm), own.dest, own'.dest,
    Factor.div, nonzero]
  rfl

theorem converge_eq_computed (labelled : net.Labelled IsNonZero) (first : net.edge? src mid = some c)
    (second : net.edge? dest mid = some d) :
    c.converge d = computed ((Pattern.converge.factor? c.factor d.factor).map
      (⟨c.dimension, src, dest, ·⟩)) := by
  have own := labelled _ c first
  have own' := labelled _ d second
  have nonzero : Scalar.isZero d.factor.value = false := own'.factor
  rw [Conversion.converge, Conversion.share_of_eq (own.dest.trans own'.dest.symm), own.src, own'.src,
    Factor.div, nonzero]
  rfl

theorem oppose_eq_computed (labelled : net.Labelled IsNonZero) (first : net.edge? mid src = some c)
    (second : net.edge? dest mid = some d) :
    c.oppose d = computed ((Pattern.oppose.factor? c.factor d.factor).map
      (⟨c.dimension, src, dest, ·⟩)) := by
  have own := labelled _ c first
  have own' := labelled _ d second
  rw [Conversion.oppose, Conversion.share_of_eq (own.src.trans own'.dest.symm), own.dest, own'.src,
    Factor.inv, Pattern.factor?, Factor.mul]
  dsimp only
  cases Scalar.isZero (Scalar.mul c.factor.value d.factor.value) <;> rfl

/-- What two edges compose to, if both are there. -/
def composed (first second : Option (Conversion K))
    (compose : Conversion K → Conversion K → Except Error (Conversion K)) :
    List (Except Error (Conversion K)) :=
  match first, second with
  | some c, some d => [compose c d]
  | _, _ => []

theorem composed_eq {p : Pattern} {first second : Option (Conversion K)}
    {compose : Conversion K → Conversion K → Except Error (Conversion K)}
    (edges : p.edges? net src mid dest = (first, second))
    (each : ∀ c d, first = some c → second = some d → compose c d = computed
      ((p.factor? c.factor d.factor).map (⟨c.dimension, src, dest, ·⟩))) :
    composed first second compose = (net.candidate? src dest mid p).toList.map computed := by
  rw [candidate?, edges]
  cases first with
  | none => rfl
  | some c =>
    cases second with
    | none => rfl
    | some d => exact congrArg (fun x => [x]) (each c d rfl rfl)

/-- The conversions through a middle node are its candidates. -/
theorem throughNode_eq (labelled : net.Labelled IsNonZero) (src dest mid : String) :
    net.throughNode src dest mid =
      (Pattern.all.filterMap (net.candidate? src dest mid)).map computed := by
  have chain : composed (net.edge? src mid) (net.edge? mid dest) Conversion.chain = _ :=
    composed_eq (p := .chain) rfl fun c d => chain_eq_computed labelled
  have diverge : composed (net.edge? mid src) (net.edge? mid dest) Conversion.diverge = _ :=
    composed_eq (p := .diverge) rfl fun c d => diverge_eq_computed labelled
  have converge : composed (net.edge? src mid) (net.edge? dest mid) Conversion.converge = _ :=
    composed_eq (p := .converge) rfl fun c d => converge_eq_computed labelled
  have oppose : composed (net.edge? mid src) (net.edge? dest mid) Conversion.oppose = _ :=
    composed_eq (p := .oppose) rfl fun c d => oppose_eq_computed labelled
  show composed _ _ _ ++ composed _ _ _ ++ composed _ _ _ ++ composed _ _ _ = _
  rw [chain, diverge, converge, oppose]
  simp [List.filterMap_eq_flatMap_toList, Pattern.all]

/-- Candidates in the order of the nodes and then of the patterns are what a search goes through. -/
theorem twoHops_eq (labelled : net.Labelled IsNonZero) (src dest : String) :
    net.twoHops src dest = (net.candidates src dest).map computed := by
  rw [twoHops, candidates, List.map_flatMap]
  exact congrArg (List.flatMap · _) (funext (throughNode_eq labelled src dest))

/-! ### The choice -/

theorem choose_of_halts (halts : Halts cs) (first : Option (Conversion K)) :
    choose first (cs.map computed) = .error .inversionOfZero := by
  obtain ⟨before, after, rfl, inexact⟩ := halts
  induction before generalizing first with
  | nil => rfl
  | cons c before ih =>
    cases c with
    | none => rfl
    | some c =>
      rw [List.cons_append, List.map_cons, computed, choose, inexact c List.mem_cons_self]
      exact ih _ fun d mem => inexact d (List.mem_cons_of_mem _ mem)

/-- Unless it is stopped, the choice takes the first exact candidate, otherwise the first one. -/
theorem choose_of_not_halts (goes : ¬ Halts cs) (first : Option (Conversion K)) :
    choose first (cs.map computed) =
      .ok ((cs.reduceOption.find? (·.factor.isExact)).or (first.or cs.reduceOption.head?)) := by
  induction cs generalizing first with
  | nil => cases first <;> rfl
  | cons c cs ih =>
    cases c with
    | none => exact absurd ⟨[], cs, rfl, nofun⟩ goes
    | some c =>
      rw [List.map_cons, computed, choose, List.reduceOption_cons_of_some, List.find?_cons]
      cases exact : c.factor.isExact with
      | true => rfl
      | false =>
        have rest : ¬ Halts cs := by
          rintro ⟨before, after, rfl, inexact⟩
          refine goes ⟨some c :: before, after, rfl, fun d mem => ?_⟩
          rcases List.mem_cons.mp mem with same | inside
          · exact Option.some.inj same ▸ exact
          · exact inexact d inside
        rw [if_neg Bool.false_ne_true, ih rest]
        cases first <;> simp

/-- The choice is not stopped where no product of other numbers is zero. -/
theorem not_halts_of_products
    (products : ∀ x y : K, IsNonZero x → IsNonZero y → IsNonZero (Scalar.mul x y))
    (labelled : net.Labelled IsNonZero) (src dest : String) : ¬ Halts (net.candidates src dest) := by
  rintro ⟨before, after, split, _⟩
  have mem : none ∈ net.candidates src dest := split ▸ by simp
  obtain ⟨mid, _, inside⟩ := List.mem_flatMap.mp mem
  obtain ⟨p, _, failed⟩ := List.mem_filterMap.mp inside
  unfold candidate? at failed
  split at failed
  next c d edges =>
    have none := Option.map_eq_none_iff.mp (Option.some.inj failed)
    cases p with
    | oppose =>
      obtain ⟨first, second⟩ := Prod.mk.inj edges
      have nonzero := products _ _ (labelled _ c first).factor (labelled _ d second).factor
      rw [IsNonZero] at nonzero
      simp [Pattern.factor?, nonzero] at none
    | _ => cases none
  next => cases failed

/-- Exact numbers have no such products. -/
theorem isNonZero_mul {K : Type} [Field K] [LinearOrder K] [Scalar K] [Scalar.Exact K] {x y : K}
    (first : IsNonZero x) (second : IsNonZero y) : IsNonZero (Scalar.mul x y) := by
  rw [IsNonZero, Bool.eq_false_iff, ne_eq, Scalar.Exact.isZero_iff] at first second ⊢
  rw [Scalar.Exact.mul_eq]
  exact mul_ne_zero first second

/-- A step of a search finds an edge itself, otherwise the way back along an edge, otherwise the
preferred one of all candidates, and nothing exactly if there are none. It is stopped by a pair of
opposed edges whose product is zero and which no exact candidate comes before. -/
theorem find_breaks_ties (labelled : net.Labelled IsNonZero) (distinct : src ≠ dest)
    (dimension : String) :
    (∀ c, net.edge? src dest = some c → net.find dimension src dest = .ok (some c)) ∧
    (net.edge? src dest = none → ∀ c, net.edge? dest src = some c →
      net.find dimension src dest = .ok (some c.reversed)) ∧
    (net.edge? src dest = none → net.edge? dest src = none →
      let cs := net.candidates src dest
      (¬ Halts cs → net.find dimension src dest = .ok (preferred cs.reduceOption)) ∧
      (Halts cs → net.find dimension src dest = .error .inversionOfZero) ∧
      (net.find dimension src dest = .ok none ↔ cs = []) ∧
      ((∀ x y : K, IsNonZero x → IsNonZero y → IsNonZero (Scalar.mul x y)) → ¬ Halts cs)) := by
  refine ⟨fun c edge => find_edge distinct edge, fun noEdge c back => ?_, fun noEdge noBack => ?_⟩
  · have nonzero : Scalar.isZero c.factor.value = false := (labelled _ c back).factor
    rw [find, if_neg distinct, noEdge, back]
    simp [Conversion.invert, Factor.inv, nonzero, Conversion.reversed, Except.map]
  · have through : net.find dimension src dest = choose none (net.twoHops src dest) := by
      rw [find, if_neg distinct, noEdge, noBack]
    rw [through, twoHops_eq labelled]
    refine ⟨fun goes => choose_of_not_halts goes none, fun halts => choose_of_halts halts none,
      ⟨fun none => List.map_eq_nil_iff.mp (choose_eq_none none).2, fun none => ?_⟩,
      fun products => not_halts_of_products products labelled src dest⟩
    rw [none]
    rfl

omit [Scalar K] in
/-- Rows that are each kept under their ends make up a network of such edges. -/
theorem labelled_of_rows {good : K → Prop} (each : ∀ row ∈ net.edges.rows,
    row.1 = (row.2.src, row.2.dest) ∧ good row.2.factor.value) : net.Labelled good := by
  intro key c edge
  obtain ⟨own, factor⟩ := each _ (Register.mem_of_find edge)
  obtain rfl : key = (c.src, c.dest) := own
  exact ⟨rfl, rfl, factor⟩

/-- Two ways from dollars to francs, of which the second is exact. -/
def exchange : Network ℚ where
  nodes := ["USD", "EUR", "GBP", "CHF"]
  edges := ⟨[
    (("USD", "EUR"), ⟨"C", "USD", "EUR", ⟨9 / 10, 1 / 100⟩⟩),
    (("EUR", "CHF"), ⟨"C", "EUR", "CHF", ⟨11 / 10, 1 / 100⟩⟩),
    (("USD", "GBP"), ⟨"C", "USD", "GBP", ⟨2, 0⟩⟩),
    (("GBP", "CHF"), ⟨"C", "GBP", "CHF", ⟨4, 0⟩⟩)]⟩

theorem exchange_breaks_ties : exchange.Labelled IsNonZero ∧ "USD" ≠ "CHF" ∧
    exchange.find "C" "USD" "CHF" = .ok (some ⟨"C", "USD", "CHF", ⟨8, 0⟩⟩) := by
  have labelled : exchange.Labelled IsNonZero := labelled_of_rows (by decide +kernel)
  have step := (find_breaks_ties labelled (by decide : "USD" ≠ "CHF") "C").2.2
    (by decide +kernel) (by decide +kernel)
  have goes : ¬ Halts (exchange.candidates "USD" "CHF") := step.2.2.2 fun _ _ => isNonZero_mul
  refine ⟨labelled, by decide, (step.1 goes).trans ?_⟩
  decide +kernel

/-- Opposed edges between `aa` and `bb` whose product is less than every double, and a way round. -/
def vanishing : Network Float where
  nodes := ["aa", "bb", "cc", "dd"]
  edges := ⟨[
    (("cc", "aa"), ⟨"C", "cc", "aa", .read 1e-200⟩),
    (("bb", "cc"), ⟨"C", "bb", "cc", .read 1e-200⟩),
    (("aa", "dd"), ⟨"C", "aa", "dd", .read 2⟩),
    (("dd", "bb"), ⟨"C", "dd", "bb", .read 3⟩)]⟩

/-- An exact candidate is not found behind a pair of edges that cannot be inverted. -/
theorem vanishing_product_stops : vanishing.Labelled IsNonZero ∧
    vanishing.edge? "aa" "bb" = none ∧ vanishing.edge? "bb" "aa" = none ∧
    (∃ c, some c ∈ vanishing.candidates "aa" "bb" ∧ c.factor.isExact = true) ∧
    vanishing.find "C" "aa" "bb" = .error .inversionOfZero := by
  have exact : (vanishing.candidates "aa" "bb").any (·.any (·.factor.isExact)) = true := by
    decide +kernel
  have stopped : (vanishing.find "C" "aa" "bb").map (fun _ => ()) = .error .inversionOfZero := by
    decide +kernel
  refine ⟨labelled_of_rows (by decide +kernel), rfl, rfl, ?_, map_eq_error.mp stopped⟩
  obtain ⟨candidate, mem, own⟩ := List.any_eq_true.mp exact
  cases candidate with
  | none => cases own
  | some c => exact ⟨c, mem, own⟩

end Network

end Metrology
