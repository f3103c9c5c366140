import Mathlib.Data.Finset.Card
import Mathlib.Data.Finset.Prod
import Metrology.Proofs.Session.Echo

/-!
# Reduction settles

Whatever is remembered, a unit reduces as it does without a memory. Remembered factors only save
steps, and steps do not run short: with each step that is allowed, further units reduce or none do, so
that after as many steps as there are units, counted with and without bridging, no step changes
anything.
-/
namespace Metrology.Session

open Metrology.Action (Parallel Settles)

variable {K : Type} [Field K] [LinearOrder K] [Scalar K] [IsStrictOrderedRing K] [Scalar.Exact K]
variable {o : Session K} {asked : Compound K → Prop} {lax : Prop}

/-! ### The steps of a reduction -/

omit [IsStrictOrderedRing K] in
/-- Terms reduce alike if their units do. -/
theorem parallel_reduceTerms {reduce reduce' : NamedUnit K → Action (Session K) (Option (Factor K))}
    {ts : List (Term K)} (units : ∀ t ∈ ts,
      Parallel (Echoes o asked) lax o.FactorsAgree (reduce t.unit) (reduce' t.unit))
    (scaled : ∀ t ∈ ts, t.scalingMultiplier ≠ 0) {f g : Factor K} (start : f.Agrees o.Balanced g) :
    Parallel (Echoes o asked) lax o.FactorsAgree (reduceTerms reduce f ts)
      (reduceTerms reduce' g ts) := by
  induction ts generalizing f g with
  | nil => exact .pure (.some start)
  | cons t rest ih =>
    refine .bind (units t List.mem_cons_self) fun found found' same => ?_
    cases same with
    | none => exact .pure .none
    | some agrees =>
      have own : (Factor.exact t.scalingMultiplier).Agrees o.Balanced
          (.exact t.scalingMultiplier) := .refl (scaled t List.mem_cons_self)
      refine .bind (.lift ((own.mul agrees).pow t.exponent)) fun p q powers => ?_
      exact ih (fun u mem => units u (List.mem_cons_of_mem _ mem))
        (fun u mem => scaled u (List.mem_cons_of_mem _ mem)) (start.mul powers)

variable (nonzero : o.NonZero)
include nonzero

/-- A unit of a single axis reduces alike. -/
theorem parallel_reduceBase (u : NamedUnit K) (a : Axis) :
    Parallel (Echoes o asked) lax o.FactorsAgree (reduceBase u a) (reduceBase u a) := by
  refine .bind .get fun s t ⟨echoes, echoes'⟩ => ?_
  rw [echoes.registries.lexicon, echoes'.registries.lexicon]
  dsimp only
  split
  next =>
    refine .bind (.liftSame _) fun si _ ⟨same, given⟩ => ?_
    subst same
    refine .bind (parallel_route nonzero _ _ _) fun path path' same => ?_
    cases same with
    | none => exact .pure .none
    | some agrees =>
      refine .bind (.liftSame _) fun m _ ⟨same, scaled⟩ => ?_
      subst same
      have sound := (nonzero.lexicon.indexed.siTerm_eq_ok given).1
      have multiplier : m ≠ 0 := by
        have base := Lexicon.scalingMultiplier_ne_zero nonzero.lexicon.prefixes sound.base
        rw [value_of_scalarPow base scaled]
        exact zpow_ne_zero _ base
      exact .bind (.lift (agrees.div (g := .exact m) (.refl multiplier))) fun q q' quotients =>
        .pure (.some quotients)
  next => exact .pure .none

/-- A unit is bridged to the same node. -/
theorem parallel_bridge {reduce reduce' : NamedUnit K → Action (Session K) (Option (Factor K))}
    (units : ∀ v, o.lexicon.find? v.asciiSymbol = some v →
      Parallel (Echoes o asked) lax o.FactorsAgree (reduce v) (reduce' v))
    (u : NamedUnit K) (nodes : List String) :
    Parallel (Echoes o asked) lax o.FactorsAgree (bridge reduce u nodes)
      (bridge reduce' u nodes) := by
  induction nodes with
  | nil => exact .pure .none
  | cons node rest ih =>
    rw [bridge, bridge]
    split
    next => exact ih
    next =>
      refine .bind .get fun s t both => ?_
      rw [both.1.registries.lexicon, both.2.registries.lexicon]
      refine .bind (.liftSame _) fun v _ read => ?_
      obtain ⟨same, given⟩ := read
      subst same
      have sound := nonzero.lexicon.indexed.sound_of_parse given
      split
      next =>
        refine .bind (parallel_route nonzero _ _ _) fun path path' same => ?_
        cases same with
        | none => exact ih
        | some agrees =>
          refine .bind (parallel_reduceTerms
            (fun t mem => units t.unit (sound.terms t mem).1.base.1)
            (fun t mem => Lexicon.scalingMultiplier_ne_zero nonzero.lexicon.prefixes
              (sound.terms t mem).1.base) .one) fun base base' same => ?_
          cases same with
          | none => exact ih
          | some agrees' => exact .pure (.some (agrees.mul agrees'))
      next => exact ih

/-- A registered unit reduces alike if those do that it leads to. -/
theorem parallel_factorBy
    {reduce reduce' : Bool → NamedUnit K → Action (Session K) (Option (Factor K))}
    (units : ∀ b v, o.lexicon.find? v.asciiSymbol = some v →
      Parallel (Echoes o asked) lax o.FactorsAgree (reduce b v) (reduce' b v))
    (bridging : Bool) {u : NamedUnit K} (found : o.lexicon.find? u.asciiSymbol = some u) :
    Parallel (Echoes o asked) lax o.FactorsAgree (factorBy reduce bridging u)
      (factorBy reduce' bridging u) := by
  unfold factorBy
  split
  next a _ => exact parallel_reduceBase nonzero u a
  next =>
    split
    next expansion _ =>
      refine .bind .get fun s t ⟨echoes, echoes'⟩ => ?_
      rw [echoes.registries.lexicon, echoes'.registries.lexicon]
      refine .bind (.liftSame _) fun c _ ⟨same, given⟩ => ?_
      subst same
      have sound := nonzero.lexicon.indexed.sound_of_parse given
      refine .bind (parallel_reduceTerms
        (fun t mem => units bridging t.unit (sound.terms t mem).1.base.1)
        (fun t mem => Lexicon.scalingMultiplier_ne_zero nonzero.lexicon.prefixes
          (sound.terms t mem).1.base) .one) fun base base' same => ?_
      cases same with
      | none => exact .pure .none
      | some agrees =>
        exact .pure (.some (agrees.read_mul (nonzero.lexicon.units _ u found)))
    next =>
      split
      next =>
        refine .bind (parallel_network nonzero u.dimension) fun net net' nodes => ?_
        rw [nodes]
        exact parallel_bridge nonzero (units false) u net'.nodes
      next => exact .pure .none

/-! ### Steps do not run short -/

omit nonzero [IsStrictOrderedRing K] [Scalar.Exact K]

/-- A further step changes nothing. -/
def Steady (o : Session K) (depth : Nat) : Prop :=
  ∀ bridging u, o.lexicon.find? u.asciiSymbol = some u →
    Matches o.FactorsAgree (o.reduction depth bridging u) (o.reduction (depth + 1) bridging u)

open Classical in
/-- The units, with bridging and without, whose reduction is not given up within some steps. -/
noncomputable def within (o : Session K) (depth : Nat) : Finset (NamedUnit K × Bool) :=
  (o.lexicon.units.values.toFinset ×ˢ .univ).filter fun p => ¬ GivesUp (o.reduction depth p.2 p.1)

omit [Field K] in
theorem card_within_le (depth : Nat) : (o.within depth).card ≤ 2 * o.lexicon.units.size := by
  classical
  refine (Finset.card_filter_le _ _).trans ?_
  rw [Finset.card_product, mul_comm]
  refine Nat.mul_le_mul_left 2 ((List.toFinset_card_le _).trans ?_)
  rw [Register.values, List.length_map, Register.size]

include nonzero

theorem mem_within {depth : Nat} {bridging : Bool} {u : NamedUnit K} :
    (u, bridging) ∈ o.within depth ↔ o.lexicon.find? u.asciiSymbol = some u ∧
      ¬ GivesUp (o.reduction depth bridging u) := by
  have listed : u ∈ o.lexicon.units.values ↔ o.lexicon.find? u.asciiSymbol = some u := by
    refine ⟨nonzero.lexicon.find?_of_mem, fun found => ?_⟩
    have row := (nonzero.lexicon.consistent.listed u.asciiSymbol u).mpr ⟨found, rfl⟩
    exact List.mem_map.mpr ⟨_, Register.mem_rows_of_get? row, rfl⟩
  simp [within, listed]

variable [IsStrictOrderedRing K] [Scalar.Exact K] (forgotten : o.Forgotten)
include forgotten

/-- Where a unit reduces, it reduces to the same with a further step. -/
theorem below_reduction_succ (depth : Nat) (bridging : Bool) {u : NamedUnit K}
    (found : o.lexicon.find? u.asciiSymbol = some u) :
    Below o.FactorsAgree (o.reduction depth bridging u) (o.reduction (depth + 1) bridging u) := by
  induction depth generalizing bridging u with
  | zero => exact .inl ⟨_, rfl, rfl⟩
  | succ depth ih =>
    have start : Echoes o (fun _ => False) o := forgotten.echoes
    exact (parallel_factorBy nonzero (fun b v listed => .liftBelow (ih b listed)) bridging
      found).below start start

theorem below_reduction {depth further : Nat} (le : depth ≤ further) (bridging : Bool)
    {u : NamedUnit K} (found : o.lexicon.find? u.asciiSymbol = some u) :
    Below o.FactorsAgree (o.reduction depth bridging u) (o.reduction further bridging u) := by
  have next := fun depth => below_reduction_succ nonzero forgotten depth bridging found
  induction further, le using Nat.le_induction with
  | base =>
    rcases next depth with up | same
    · exact .inl up
    · exact .inr (factorsMatch_trans same (factorsMatch_symm same))
  | succ further _ ih =>
    exact ih.trans (S := o.FactorsAgree) (fun _ _ _ => factorsAgree_trans) (next further)

/-- If a step changes nothing, neither does the next. -/
theorem Steady.succ {depth : Nat} (steady : o.Steady depth) : o.Steady (depth + 1) := by
  intro bridging u found
  have start : Echoes o (fun _ => False) o := forgotten.echoes
  exact (parallel_factorBy nonzero (fun b v listed => .lift (steady b v listed)) bridging
    found).outcome start start

theorem within_mono : Monotone o.within := by
  refine monotone_nat_of_le_succ fun depth => ?_
  rintro ⟨u, bridging⟩ mem
  obtain ⟨found, goes⟩ := (mem_within nonzero).mp mem
  rcases below_reduction_succ nonzero forgotten depth bridging found with up | same
  · exact absurd up goes
  · exact (mem_within nonzero).mpr ⟨found, fun up => goes (same.givesUp_iff.mpr up)⟩

/-- A step changes nothing if and only if it adds no unit. -/
theorem steady_iff (depth : Nat) : o.Steady depth ↔ o.within depth = o.within (depth + 1) := by
  constructor
  · intro steady
    ext ⟨u, bridging⟩
    rw [mem_within nonzero, mem_within nonzero]
    exact and_congr_right fun found => not_congr (steady bridging u found).givesUp_iff
  · intro same bridging u found
    rcases below_reduction_succ nonzero forgotten depth bridging found with up | alike
    · refine matches_of_givesUp up ?_
      by_contra goes
      have mem := (mem_within nonzero).mpr ⟨found, goes⟩
      rw [← same] at mem
      exact ((mem_within nonzero).mp mem).2 up
    · exact alike

/-- After as many steps as there are units, with bridging and without, no step changes anything. -/
theorem steady_of_le {depth : Nat} (le : 2 * o.lexicon.units.size ≤ depth) : o.Steady depth := by
  have mono := within_mono nonzero forgotten
  have equal : ∀ m, (o.within m).card = (o.within (m + 1)).card ↔ o.Steady m := by
    intro m
    rw [steady_iff nonzero forgotten]
    refine ⟨fun same => ?_, congrArg _⟩
    exact Finset.eq_of_subset_of_card_le (mono (Nat.le_succ m)) same.ge
  have final : ∀ n, 2 * o.lexicon.units.size ≤ n →
      (o.within n).card = (o.within (2 * o.lexicon.units.size)).card := fun n =>
    Nat.stabilises_of_monotone (f := fun m => (o.within m).card)
      (fun m n le => Finset.card_le_card (mono le)) card_within_le
      fun m same => (equal (m + 1)).mpr (((equal m).mp same).succ nonzero forgotten)
  exact (equal depth).mp ((final depth le).trans (final (depth + 1) (Nat.le_succ_of_le le)).symm)

/-! ### What is remembered only saves steps -/

omit nonzero forgotten [LinearOrder K] [IsStrictOrderedRing K] [Scalar.Exact K] in
/-- A factor may be remembered that the unit reduces to without a memory. -/
theorem Echoes.putFactor {s : Session K} (echoes : Echoes o asked s) {u : NamedUnit K}
    (found : o.lexicon.find? u.asciiSymbol = some u) {bridging : Bool} {factor : Option (Factor K)}
    (same : Matches o.FactorsAgree (.ok factor) (o.reduction o.reductionDepth bridging u)) :
    Echoes o asked
      { s with baseFactors := s.baseFactors.put (u.asciiSymbol, bridging) factor } := by
  refine ⟨echoes.registries.of_eq rfl rfl rfl, echoes.routes, fun v b given listed known => ?_,
    echoes.answers⟩
  rw [Register.get?_put] at known
  split at known
  next key =>
    obtain ⟨symbol, rfl⟩ := Prod.mk.inj key
    obtain rfl := Option.some.inj known
    rw [← symbol, found] at listed
    exact Option.some.inj listed ▸ same
  next => exact echoes.factors v b given listed known

/-- A unit reduces to nothing else than without a memory, if it is not given up. -/
theorem parallel_reduceUnit_reduction (depth : Nat) (bridging : Bool) {u : NamedUnit K}
    (found : o.lexicon.find? u.asciiSymbol = some u) :
    Parallel (Echoes o asked) True o.FactorsAgree (reduceUnit depth bridging u)
      (liftM (o.reduction o.reductionDepth bridging u)) := by
  induction depth generalizing bridging u with
  | zero => exact fun s t echoes _ => ⟨echoes, .inl ⟨trivial, _, rfl, rfl⟩⟩
  | succ depth ih =>
    intro s t echoes echoes'
    rw [Action.apply_lift, reduceUnit_apply, factorAnew_eq]
    cases cached : s.baseFactors.get? (u.asciiSymbol, bridging) with
    | some known => exact ⟨echoes, .inr ⟨echoes', echoes.factors u bridging known found cached⟩⟩
    | none =>
      obtain ⟨kept, outcome⟩ := parallel_factorBy nonzero (fun b v listed => ih b listed) bridging
        found s o echoes forgotten.echoes
      have steady : Matches o.FactorsAgree (o.reduction (o.reductionDepth + 1) bridging u)
          (o.reduction o.reductionDepth bridging u) :=
        factorsMatch_symm (steady_of_le nonzero forgotten (by simp [reductionDepth]) bridging u found)
      have settled : GivesUp ((factorBy (reduceUnit depth) bridging u).apply s).1 ∨
          Matches o.FactorsAgree ((factorBy (reduceUnit depth) bridging u).apply s).1
            (o.reduction o.reductionDepth bridging u) :=
        outcome.imp (·.2) fun same => factorsMatch_trans same.2 steady
      rcases run : (factorBy (reduceUnit depth) bridging u).apply s with ⟨e | factor, s'⟩
      · rw [run] at kept settled
        exact ⟨kept, settled.imp (⟨trivial, ·⟩) (⟨echoes', ·⟩)⟩
      · rw [run] at kept settled
        rcases settled with ⟨_, wrong, _⟩ | same
        · cases wrong
        · exact ⟨kept.putFactor found same, .inr ⟨echoes', same⟩⟩

/-- Where a unit reduces without a memory, it reduces with one. -/
theorem parallel_reduction_reduceUnit {depth : Nat} (le : depth ≤ o.reductionDepth)
    (bridging : Bool) {u : NamedUnit K} (found : o.lexicon.find? u.asciiSymbol = some u) :
    Parallel (Echoes o asked) True o.FactorsAgree (liftM (o.reduction depth bridging u))
      (reduceUnit depth bridging u) := by
  induction depth generalizing bridging u with
  | zero => exact fun s t echoes _ => ⟨echoes, .inl ⟨trivial, _, rfl, rfl⟩⟩
  | succ depth ih =>
    intro s t echoes echoes'
    rw [Action.apply_lift, reduceUnit_apply, factorAnew_eq]
    refine ⟨echoes, ?_⟩
    rcases below_reduction nonzero forgotten le bridging found with up | settled
    · exact .inl ⟨trivial, up⟩
    cases cached : t.baseFactors.get? (u.asciiSymbol, bridging) with
    | some known =>
      have back := factorsMatch_symm (echoes'.factors u bridging known found cached)
      exact .inr ⟨echoes', factorsMatch_trans settled back⟩
    | none =>
      obtain ⟨_, up | ⟨kept, same⟩⟩ := parallel_factorBy nonzero
        (fun b v listed => ih (Nat.le_of_succ_le le) b listed) bridging found o t forgotten.echoes
        echoes'
      · exact .inl up
      · rcases run : (factorBy (reduceUnit depth) bridging u).apply t with ⟨e | factor, t'⟩
        · rw [run] at kept same
          exact .inr ⟨kept, same⟩
        · rw [run] at kept same
          have settles := factorsMatch_trans (factorsMatch_symm same) settled
          exact .inr ⟨kept.putFactor found settles, same⟩

/-- **Reduction settles.** Whatever is remembered, a unit reduces as it does without a memory, or is
given up as well. -/
theorem settles_reduceUnit (bridging : Bool) {u : NamedUnit K}
    (found : o.lexicon.find? u.asciiSymbol = some u) :
    (reduceUnit o.reductionDepth bridging u).Settles (Echoes o asked) o.FactorsAgree
      (o.reduction o.reductionDepth bridging u) := by
  intro s echoes
  obtain ⟨kept, forth⟩ := parallel_reduceUnit_reduction nonzero forgotten o.reductionDepth bridging
    found s o echoes forgotten.echoes
  refine ⟨kept, ?_⟩
  rcases forth with ⟨_, up⟩ | ⟨_, same⟩
  · rcases (parallel_reduction_reduceUnit nonzero forgotten le_rfl bridging found o s
      forgotten.echoes echoes).2 with ⟨_, up'⟩ | ⟨_, same⟩
    · exact matches_of_givesUp up up'
    · exact factorsMatch_symm same
  · exact same

/-- So compound units reduce alike from all sessions whose memory is right. -/
theorem parallel_toBase {c : Compound K} (sound : c.Sound o.lexicon.Names) (bridging : Bool) :
    Parallel (Echoes o asked) lax o.FactorsAgree (toBase c bridging) (toBase c bridging) := by
  refine .bind .get fun s t ⟨echoes, echoes'⟩ => ?_
  have depth {s : Session K} (echoes : Echoes o asked s) : s.reductionDepth = o.reductionDepth := by
    rw [reductionDepth, echoes.registries.lexicon]
    rfl
  rw [depth echoes, depth echoes']
  refine parallel_reduceTerms (fun t mem => ?_) (fun t mem =>
    Lexicon.scalingMultiplier_ne_zero nonzero.lexicon.prefixes (sound.terms t mem).1.base) .one
  have settles : (reduceUnit o.reductionDepth bridging t.unit).Settles (Echoes o asked) _ _ :=
    settles_reduceUnit nonzero forgotten bridging (sound.terms t mem).1.base.1
  exact settles.parallel settles fun _ _ _ here there =>
    factorsAgree_trans here (factorsAgree_symm there)

end Metrology.Session
