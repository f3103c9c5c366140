import Metrology.Proofs.Session.Calls
import Metrology.Proofs.Session.Readability

/-!
# Resolution ends

Where no unit reaches itself by expansions, every call of the functions that resolve units makes calls
of a smaller height only: reduction goes down an expansion or gives up bridging, and the terms that
merging converts are merged without a further call. So calls nested to a certain depth do what the
session does, whatever there is below them.
-/
namespace Metrology

variable {K : Type} [Scalar K] {lex : Lexicon K}

namespace Session

/-- These units are registered. -/
abbrev WithUnits (lex : Lexicon K) (s : Session K) : Prop := s.lexicon = lex

/-- Both actions do the same while these units are registered, and leave them registered. -/
abbrev AlikeWith {α : Type} (lex : Lexicon K) (a b : Action (Session K) α) : Prop :=
  Action.Alike (WithUnits lex) a b fun _ => True

theorem keptByLookups_withUnits (lex : Lexicon K) : KeptByLookups (WithUnits lex) :=
  keptByLookups_of_store (P := fun units _ _ => units = lex)
    fun _ _ _ _ holds => ⟨holds, fun _ _ => trivial⟩

/-! ### What a body makes of what it calls

A body does the same with functions that do the same wherever it calls them. -/

theorem alike_reduceTerms {reduce reduce' : NamedUnit K → Action (Session K) (Option (Factor K))}
    {ts : List (Term K)} (units : ∀ t ∈ ts, AlikeWith lex (reduce t.unit) (reduce' t.unit))
    (start : Factor K) : AlikeWith lex (reduceTerms reduce start ts) (reduceTerms reduce' start ts) := by
  induction ts generalizing start with
  | nil => exact .of_keeps (.pure trivial)
  | cons t rest ih =>
    refine .bind (units t List.mem_cons_self) fun found _ => ?_
    cases found with
    | none => exact .of_keeps (.pure trivial)
    | some factor =>
      refine .bind .lift fun p _ => ?_
      exact ih (fun u mem => units u (List.mem_cons_of_mem _ mem)) _

theorem alike_bridge {reduce reduce' : NamedUnit K → Action (Session K) (Option (Factor K))}
    (units : ∀ node c, lex.parse node = .ok c → ∀ t ∈ c.terms,
      t.isBase = true ∨ t.unit.isExpandable = true → AlikeWith lex (reduce t.unit) (reduce' t.unit))
    (u : NamedUnit K) (nodes : List String) :
    AlikeWith lex (bridge reduce u nodes) (bridge reduce' u nodes) := by
  induction nodes with
  | nil => exact .of_keeps (.pure trivial)
  | cons node rest ih =>
    rw [bridge, bridge]
    split
    next => exact ih
    next =>
      refine .bind .get fun s same => ?_
      rw [same]
      refine .bind .lift fun c read => ?_
      split
      next direct =>
        simp only [List.all_eq_true, Bool.or_eq_true] at direct
        refine .bind (.of_keeps ((keptByLookups_withUnits lex).route _ _ _)) fun path _ => ?_
        cases path with
        | none => exact ih
        | some path =>
          refine .bind (alike_reduceTerms (fun t mem => units node c read t mem (direct t mem)) _)
            fun base _ => ?_
          cases base with
          | none => exact ih
          | some base => exact .of_keeps (.pure trivial)
      next => exact ih

theorem alike_factorBy {reduce reduce' : Reducer K} {bridging : Bool} {u : NamedUnit K}
    (units : ∀ b v, Calls lex (.reduce bridging u) (.reduce b v) →
      AlikeWith lex (reduce b v) (reduce' b v)) :
    AlikeWith lex (factorBy reduce bridging u) (factorBy reduce' bridging u) := by
  unfold factorBy
  cases u.dimension.baseAxis? with
  | some a => exact .of_keeps ((keptByLookups_withUnits lex).reduceBase u a)
  | none =>
    cases expansion : u.expansion with
    | some text =>
      refine .bind .get fun s same => ?_
      rw [same]
      refine .bind .lift fun c read => ?_
      refine .bind (alike_reduceTerms (fun t mem => units _ _ (.expand ?_)) _) fun base _ =>
        .of_keeps (.pure trivial)
      exact ⟨text, c, t, expansion, read, mem, rfl⟩
    | none =>
      dsimp only
      split
      next allowed =>
        subst allowed
        refine .bind (.of_keeps ((keptByLookups_withUnits lex).network _)) fun net _ => ?_
        exact alike_bridge (fun node c read t mem direct => units _ _ (.bridge read mem direct)) u _
      next => exact .of_keeps (.pure trivial)

theorem alike_recallBy {reduce reduce' : Reducer K} {bridging : Bool} {u : NamedUnit K}
    (units : ∀ b v, Calls lex (.reduce bridging u) (.reduce b v) →
      AlikeWith lex (reduce b v) (reduce' b v)) :
    AlikeWith lex (recallBy reduce bridging u) (recallBy reduce' bridging u) := by
  refine .bind .get fun s _ => ?_
  cases s.baseFactors.get? (u.asciiSymbol, bridging) with
  | some known => exact .of_keeps (.pure trivial)
  | none =>
    refine .bind (alike_factorBy units) fun found _ => .of_keeps ?_
    exact .bind (.modify fun _ same => same) fun _ _ => .pure trivial

theorem alike_connectBy {toBase toBase' : Compound K → Action (Session K) (Option (Factor K))}
    (reduces : ∀ c, AlikeWith lex (toBase c) (toBase' c)) (d : Dimension) (factor : Factor K)
    (src dest : Compound K) :
    AlikeWith lex (connectBy toBase d factor src dest) (connectBy toBase' d factor src dest) := by
  refine .bind .lift fun m _ => ?_
  refine .bind .lift fun n _ => ?_
  refine .bind .lift fun g _ => ?_
  refine .bind .lift fun u _ => ?_
  refine .bind .lift fun v _ => ?_
  refine .bind (.of_keeps ((keptByLookups_withUnits lex).route _ _ _)) fun path _ => ?_
  cases path with
  | some path => exact .of_keeps (.pure trivial)
  | none =>
    refine .bind (reduces u) fun base _ => .bind (reduces v) fun base' _ => .of_keeps ?_
    split
    next => exact .bind (.lift fun q divided => divided) fun q _ => .pure trivial
    next => exact .pure trivial

theorem alike_computeBy {merge merge' : Merging K}
    {toBase toBase' : Compound K → Action (Session K) (Option (Factor K))} {src dest : Compound K}
    (source : AlikeWith lex (merge src) (merge' src))
    (target : AlikeWith lex (merge dest) (merge' dest))
    (reduces : ∀ c, AlikeWith lex (toBase c) (toBase' c)) (d : Dimension) :
    AlikeWith lex (computeBy merge toBase d src dest) (computeBy merge' toBase' d src dest) := by
  refine .bind source fun x _ => .bind target fun y _ => ?_
  refine .bind .lift fun q _ => ?_
  refine .bind .lift fun alike _ => ?_
  dsimp only
  split
  next => exact .of_keeps (.bind (Q := fun _ => True) (.pure trivial) fun _ _ => .pure trivial)
  next => exact .bind (alike_connectBy reduces d q _ _) fun _ _ => .of_keeps (.pure trivial)

/-- A unit that passes is what is meant by its name. -/
theorem keeps_validate_withUnits (d : Dimension) (ref : UnitRef K) :
    (validate d ref).Keeps (WithUnits lex) fun c => lex.deref ref = .ok c := by
  intro s same
  rw [validate_apply]
  refine ⟨same, fun c passes => ?_⟩
  rw [← same]
  exact deref_of_validate passes

theorem alike_answerBy
    {compute compute' : Compound K → Compound K → Action (Session K) (Option (Conversion K))}
    {src dest : UnitRef K} (computes : ∀ u v, lex.deref src = .ok u → lex.deref dest = .ok v →
      AlikeWith lex (compute u v) (compute' u v)) (d : Dimension) :
    AlikeWith lex (answerBy compute d src dest) (answerBy compute' d src dest) := by
  refine .bind (.of_keeps (keeps_validate_withUnits d src)) fun u meant => ?_
  refine .bind (.of_keeps (keeps_validate_withUnits d dest)) fun v meant' => ?_
  refine .bind .get fun s _ => ?_
  cases (s.chart d).answers.get? (u.write .ascii, v.write .ascii) with
  | some known => exact .of_keeps (.pure trivial)
  | none =>
    refine .bind (computes u v meant meant') fun found _ => .of_keeps ?_
    exact .bind (.modify fun _ same => same) fun _ _ => .pure trivial

/-- A term is converted to the heads of groups only, which it leaves as they are. -/
theorem alike_joinBy {convert convert' : Converter K} {t : Term K} {gs : List (Group K)}
    (converts : ∀ g ∈ gs, g.head.unit.dimension = t.unit.dimension →
      AlikeWith lex (termConversionBy convert t g.head) (termConversionBy convert' t g.head)) :
    Action.Alike (WithUnits lex) (joinBy convert t gs) (joinBy convert' t gs) fun found =>
      ∀ x, found = some x → x.2.map (·.head) = gs.map (·.head) := by
  induction gs with
  | nil => exact .of_keeps .nothing
  | cons g rest ih =>
    have joins (conversion : Option (Conversion K)) :
        Action.Alike (WithUnits lex) (joinOr t g rest (joinBy convert t rest) conversion)
          (joinOr t g rest (joinBy convert' t rest) conversion) fun found =>
            ∀ x, found = some x → x.2.map (·.head) = (g :: rest).map (·.head) := by
      cases conversion with
      | some c => exact .of_keeps (.bind (.lift fun p power => power) fun p _ => .found rfl)
      | none =>
        refine .bind (ih fun h mem => converts h (List.mem_cons_of_mem _ mem)) fun found heads =>
          .of_keeps (.pure fun x same => ?_)
        obtain ⟨y, isFound, rfl⟩ := Option.map_eq_some_iff.mp same
        exact congrArg (g.head :: ·) (heads y isFound)
    rw [joinBy, joinBy]
    split
    next alike => exact .bind (converts g List.mem_cons_self alike) fun found _ => joins found
    next => exact joins none

/-- A term is converted to terms before it only. -/
theorem alike_groupBy {convert convert' : Converter K} {ts : List (Term K)} {gs : List (Group K)}
    (converts : ∀ head t, [head, t].Sublist (gs.map (·.head) ++ ts) →
      head.unit.dimension = t.unit.dimension →
      AlikeWith lex (termConversionBy convert t head) (termConversionBy convert' t head))
    (factor : Factor K) :
    AlikeWith lex (groupBy convert factor gs ts) (groupBy convert' factor gs ts) := by
  induction ts generalizing gs factor with
  | nil => exact .of_keeps (.pure trivial)
  | cons t rest ih =>
    have before (g : Group K) (mem : g ∈ gs) : [g.head, t].Sublist (gs.map (·.head) ++ t :: rest) :=
      .append (List.singleton_sublist.mpr (List.mem_map_of_mem mem))
        (List.singleton_sublist.mpr List.mem_cons_self)
    refine .bind (alike_joinBy fun g mem => converts g.head t (before g mem)) fun found heads => ?_
    cases found with
    | some x =>
      refine ih (fun head u behind => converts head u (behind.trans ?_)) _
      rw [heads x rfl]
      exact (List.sublist_cons_self t rest).append_left _
    | none =>
      refine ih (fun head u behind => converts head u (behind.trans ?_)) _
      simp

theorem alike_mergeBy {convert convert' : Converter K} {c : Compound K}
    (converts : ∀ head t, [head, t].Sublist c.terms → head.unit.dimension = t.unit.dimension →
      AlikeWith lex (termConversionBy convert t head) (termConversionBy convert' t head)) :
    AlikeWith lex (mergeBy convert c) (mergeBy convert' c) := by
  refine .bind (alike_groupBy converts .one) fun r _ => .of_keeps ?_
  refine .bind (.mapM _) fun ts _ => ?_
  exact .bind (.lift fun c made => made) fun c _ => .pure trivial

/-- What a call does depends on the calls that it makes alone. -/
theorem alike_step {r r' : Resolver K} {call : Call K}
    (called : ∀ next, Calls lex call next → AlikeWith lex (r.run next) (r'.run next)) :
    AlikeWith lex (r.step.run call) (r'.step.run call) := by
  cases call with
  | convert d src dest =>
    refine alike_answerBy (fun u v meant meant' => ?_) d
    refine alike_computeBy (called (.merge u) (.mergeSource meant))
      (called (.merge v) (.mergeTarget meant')) (fun c => ?_) d
    exact alike_reduceTerms (fun t _ => called (.reduce true t.unit) (.reduce t.unit)) _
  | merge c =>
    refine alike_mergeBy fun head t behind alike => ?_
    refine .bind .lift fun v single => ?_
    refine .bind .lift fun w single' => ?_
    exact called _ (.join behind alike single single')
  | reduce bridging u =>
    exact alike_recallBy fun b v calls => called (.reduce b v) calls

/-! ### Heights of calls -/

section Heights

omit [Scalar K]

/-- A unit is handed over as a single term. -/
def isTerm : UnitRef K → Bool
  | .term _ => true
  | _ => false

/-- How far calls may go down from a call: below the unit that is reduced, with bridging and then
without, which is below the merging of a single term and its conversion, which are below the merging
of several terms and the conversion of anything else. -/
noncomputable def Call.height (lex : Lexicon K) : Call K → Nat
  | reduce bridging u => (lex.below u).ncard + if bridging then lex.units.size + 1 else 0
  | merge c => 2 * lex.units.size + 2 + if c.terms.length ≤ 1 then 0 else 2
  | convert _ src dest => 2 * lex.units.size + 3 + if isTerm src && isTerm dest then 0 else 2

theorem height_reduce_le (consistent : lex.Consistent) (bridging : Bool) (u : NamedUnit K) :
    (Call.reduce bridging u).height lex ≤ 2 * lex.units.size + 1 := by
  have few := consistent.card_below_le u
  rw [Call.height]
  split <;> omega

theorem height_le (consistent : lex.Consistent) (call : Call K) :
    call.height lex ≤ 2 * lex.units.size + 5 := by
  cases call with
  | reduce bridging u => exact Nat.le_trans (height_reduce_le consistent bridging u) (by omega)
  | merge c =>
    rw [Call.height]
    split <;> omega
  | convert d src dest =>
    rw [Call.height]
    split <;> omega

/-- Merging is below the conversion that calls it. -/
theorem height_merge_lt {d : Dimension} {src dest : UnitRef K} {c : Compound K}
    (single : isTerm src = true → isTerm dest = true → c.terms.length ≤ 1) :
    (Call.merge c).height lex < (Call.convert d src dest).height lex := by
  rw [Call.height, Call.height]
  cases both : isTerm src && isTerm dest with
  | true =>
    obtain ⟨source, target⟩ := Bool.and_eq_true_iff.mp both
    simp [single source target]
  | false =>
    simp only [Bool.false_eq_true, if_false]
    split <;> omega

end Heights

theorem length_of_isTerm {ref : UnitRef K} {c : Compound K} (single : isTerm ref = true)
    (meant : lex.deref ref = .ok c) : c.terms.length ≤ 1 := by
  cases ref with
  | term t =>
    obtain ⟨us, leveled, rfl⟩ := map_eq_ok.mp (show Compound.ofTerms [t] = .ok c from meant)
    rw [Compound.terms_of_level leveled, List.length_map]
    refine Nat.le_trans (List.length_filter_le ..) ?_
    cases scalar : t.isScalar <;> simp [Compound.piles, scalar, Compound.pile]
  | symbol | unit | compound => cases single

/-- Every call makes calls of a smaller height only. -/
theorem height_lt_of_calls (acyclic : lex.Acyclic) (consistent : lex.Consistent) {call next : Call K}
    (calls : Calls lex call next) : next.height lex < call.height lex := by
  cases calls with
  | mergeSource meant => exact height_merge_lt fun source _ => length_of_isTerm source meant
  | mergeTarget meant => exact height_merge_lt fun _ target => length_of_isTerm target meant
  | reduce u =>
    refine Nat.lt_of_le_of_lt (height_reduce_le consistent true u) ?_
    rw [Call.height]
    omega
  | join behind =>
    have several : ¬ _ ≤ 1 := Nat.not_le.mpr behind.length_le
    simp [Call.height, isTerm, several]
  | @expand bridging u v expands =>
    have fewer := acyclic.card_below_lt consistent expands
    simp only [Call.height]
    omega
  | @bridge u node c t read mem direct =>
    have few := consistent.card_below_le t.unit
    simp only [Call.height, Bool.false_eq_true, if_false, if_true]
    omega

/-! ### Nested calls -/

section Nested

variable (acyclic : lex.Acyclic) (consistent : lex.Consistent)
include acyclic consistent

/-- Below more nested calls than the height of a call there may be anything. -/
theorem alike_nested (bottom bottom' : Resolver K) {n m : Nat} {call : Call K}
    (enough : call.height lex < n) (enough' : call.height lex < m) :
    AlikeWith lex ((bottom.nested n).run call) ((bottom'.nested m).run call) := by
  induction n generalizing m call with
  | zero => omega
  | succ n ih =>
    obtain ⟨m, rfl⟩ := Nat.exists_eq_succ_of_ne_zero (Nat.ne_zero_of_lt enough')
    refine alike_step fun next calls => ?_
    have lower := height_lt_of_calls acyclic consistent calls
    exact ih (by omega) (by omega)

omit acyclic consistent

/-- Functions that give up on every reduction. -/
def exhausted : Resolver K :=
  { Resolver.own with reduce := fun _ u => throw (.endlessExpansion u.asciiSymbol) }

/-- A reduction of limited depth consists of nested calls above giving up. -/
theorem reduceUnit_eq_nested (depth : Nat) :
    (reduceUnit depth : Reducer K) = (exhausted.nested depth).reduce := by
  induction depth with
  | zero => rfl
  | succ depth ih =>
    rw [reduceUnit_succ, ih]
    rfl

omit [Scalar K] in
theorem reductionDepth_withUnits {s : Session K} (same : WithUnits lex s) :
    s.reductionDepth = 2 * lex.units.size + 4 := by
  rw [reductionDepth, same]

/-- The session reduces units to the depth that its number of units gives. -/
theorem alike_own_reduce (bridging : Bool) (u : NamedUnit K) :
    AlikeWith lex (Resolver.own.run (.reduce bridging u))
      ((exhausted.nested (2 * lex.units.size + 4)).run (.reduce bridging u)) := by
  have kept := keptByLookups_withUnits lex
  refine ⟨fun s same => ?_, .bind (.weaken .get fun _ _ => trivial) fun _ _ => kept.reduceUnit _ _ _⟩
  have depth := reductionDepth_withUnits same
  show (do reduceUnit (← get).reductionDepth bridging u : Action (Session K) _).apply s =
    ((exhausted.nested _).reduce bridging u).apply s
  rw [Action.apply_bind, Action.apply_get, ← reduceUnit_eq_nested]
  dsimp only
  rw [depth]

theorem alike_toBase (c : Compound K) (bridging : Bool) :
    AlikeWith lex (toBase c bridging) (Resolver.own.toBase c bridging) := by
  refine ⟨fun s same => ?_, (keptByLookups_withUnits lex).toBase c bridging⟩
  have depth := reductionDepth_withUnits same
  have reduces : AlikeWith lex
      (reduceTerms (reduceUnit (2 * lex.units.size + 4) bridging) .one c.terms)
      (Resolver.own.toBase c bridging) := by
    rw [reduceUnit_eq_nested]
    exact alike_reduceTerms (fun t _ => (alike_own_reduce bridging t.unit).symm) _
  rw [toBase, Action.apply_bind, Action.apply_get]
  dsimp only
  rw [depth]
  exact reduces.same s same

include acyclic consistent

/-- The functions of the session do what their bodies make of them. -/
theorem alike_own_step (call : Call K) :
    AlikeWith lex (Resolver.own.run call) (Resolver.own.step.run call) := by
  have kept := keptByLookups_withUnits lex
  cases call with
  | convert d src dest =>
    show AlikeWith lex (conversionIn d src dest) _
    rw [conversionIn_eq]
    refine alike_answerBy (fun u v _ _ => ?_) d
    exact alike_computeBy (.of_keeps (kept.mergeFactor u)) (.of_keeps (kept.mergeFactor v))
      (fun c => alike_toBase c true) d
  | merge c =>
    show AlikeWith lex (mergeFactor c) (mergeBy conversionIn c)
    rw [← mergeFactor_eq]
    exact .of_keeps (kept.mergeFactor c)
  | reduce bridging u =>
    have low := height_reduce_le consistent bridging u
    have deeper : AlikeWith lex
        ((exhausted.nested (2 * lex.units.size + 4)).run (.reduce bridging u))
        ((exhausted.nested (2 * lex.units.size + 4)).step.run (.reduce bridging u)) :=
      alike_nested acyclic consistent _ _ (m := 2 * lex.units.size + 5) (by omega) (by omega)
    refine ((alike_own_reduce bridging u).trans deeper).trans (Q := fun _ => True)
      (alike_step fun next calls => ?_)
    cases calls with
    | expand => exact (alike_own_reduce _ _).symm
    | bridge => exact (alike_own_reduce _ _).symm

/-- Calls nested deeper than the height of a call do what the session does. -/
theorem alike_own (bottom : Resolver K) {n : Nat} {call : Call K} (enough : call.height lex < n) :
    AlikeWith lex ((bottom.nested n).run call) (Resolver.own.run call) := by
  induction n generalizing call with
  | zero => omega
  | succ n ih =>
    refine .trans (alike_step fun next calls => ih ?_) (alike_own_step acyclic consistent call).symm
    have lower := height_lt_of_calls acyclic consistent calls
    omega

end Nested

/-! ### Questions -/

/-- Asked anything while these units are registered, the functions do what the session does. -/
structure Resolver.ServesAs (lex : Lexicon K) (r : Resolver K) : Prop where
  conversionIn : ∀ d src dest,
    AlikeWith lex (r.convert d src dest) (Session.conversionIn d src dest)
  conversion : ∀ src dest, AlikeWith lex (r.conversion src dest) (Session.conversion src dest)
  mergeFactor : ∀ c, AlikeWith lex (r.merge c) (Session.mergeFactor c)
  expand : ∀ value ref, AlikeWith lex (r.expand value ref) (Session.expand value ref)
  toBase : ∀ c bridging, AlikeWith lex (r.toBase c bridging) (Session.toBase c bridging)

theorem Resolver.servesAs_of_run {r : Resolver K}
    (own : ∀ call, AlikeWith lex (r.run call) (Resolver.own.run call)) : r.ServesAs lex where
  conversionIn d src dest := own (.convert d src dest)
  conversion src dest := by
    refine .bind (.of_keeps (KeptByLookups.parse src)) fun u _ => ?_
    exact .bind .lift fun d _ => own (.convert d _ dest)
  mergeFactor c := own (.merge c)
  expand value ref := by
    refine .bind (.of_keeps (KeptByLookups.parse ref)) fun u _ => .bind .get fun s _ => ?_
    refine .bind .lift fun x _ => ?_
    refine .bind .lift fun c _ => ?_
    refine .bind (.of_keeps (KeptByLookups.parse _)) fun c _ => .bind (own (.merge c)) fun y _ => ?_
    exact .of_keeps (.pure trivial)
  toBase c bridging :=
    (alike_reduceTerms (fun t _ => own (.reduce bridging t.unit)) _).trans (alike_toBase c bridging).symm

/-- How resolution ends while these units are registered. -/
structure ResolutionEnds (lex : Lexicon K) : Prop where
  /-- A call makes no other calls: with functions that do the same in those it does the same. -/
  calls : ∀ (r r' : Resolver K) (call : Call K),
    (∀ next, Calls lex call next → AlikeWith lex (r.run next) (r'.run next)) →
      AlikeWith lex (r.step.run call) (r'.step.run call)
  /-- No calls follow each other for ever. -/
  wellFounded : WellFounded fun next call => Calls lex call next
  /-- Merging comes back to itself with single terms only, which it merges without any call. -/
  merging : ∀ c d src dest c', Calls lex (.merge c) (.convert d src dest) →
    Calls lex (.convert d src dest) (.merge c') →
      c'.terms.length ≤ 1 ∧ ∀ next, ¬ Calls lex (.merge c') next
  /-- Reduction calls only itself, down an expansion or without the bridging it was allowed. -/
  reducing : ∀ bridging u next, Calls lex (.reduce bridging u) next →
    ∃ v, next = .reduce bridging v ∧ lex.Expands u v ∨ bridging = true ∧ next = .reduce false v
  /-- With calls nested to this depth everything is answered, whatever there is below them. -/
  nested : ∀ (bottom : Resolver K) (n : Nat), 2 * lex.units.size + 6 ≤ n →
    (bottom.nested n).ServesAs lex
  /-- A search grows its network in no more rounds than there are nodes. -/
  searching : ∀ (dimension src dest : String) (bottom : Action (Network K) (Option (Conversion K)))
    (rounds : Nat) (net : Network K), net.nodes.length ≤ rounds →
      (Network.searchOver dimension src dest bottom rounds).apply net =
        (Network.search dimension src dest).apply net

theorem not_calls_of_single {c : Compound K} (single : c.terms.length ≤ 1) (next : Call K) :
    ¬ Calls lex (.merge c) next := by
  rintro (_ | _ | _ | ⟨behind, _, _, _⟩)
  exact absurd (Nat.le_trans behind.length_le single) (by simp)

/-- **Resolution ends** in every session that was made from systems and then changed and asked in any
way, as long as no unit reaches itself by expansions. -/
theorem resolution_ends {systems : List MeasurementSystem} {made : Session K}
    (isMade : ofSystems systems = .ok made) (operations : List (Operation K))
    (acyclic : (operated operations made).lexicon.Acyclic) :
    ResolutionEnds (operated operations made).lexicon := by
  have consistent : (operated operations made).lexicon.Consistent :=
    consistent_operated (consistent_ofSystems isMade).1 operations
  refine ⟨fun r r' call => alike_step, ?_, fun c d src dest c' joins merges => ?_,
    fun bridging u next calls => ?_, fun bottom n enough => ?_,
    fun dimension src dest bottom rounds net enough =>
      Network.searchOver_apply dimension src dest bottom enough⟩
  · exact Subrelation.wf (height_lt_of_calls acyclic consistent) (measure (Call.height _)).wf
  · have single : c'.terms.length ≤ 1 := by
      cases joins with
      | join =>
        cases merges with
        | mergeSource meant => exact length_of_isTerm rfl meant
        | mergeTarget meant => exact length_of_isTerm rfl meant
    exact ⟨single, not_calls_of_single single⟩
  · cases calls with
    | expand expands => exact ⟨_, .inl ⟨rfl, expands⟩⟩
    | bridge => exact ⟨_, .inr ⟨rfl, rfl⟩⟩
  · refine Resolver.servesAs_of_run fun call => alike_own acyclic consistent bottom ?_
    have low := height_le consistent call
    omega

/-! ### Measuring plots -/

/-- The are, by the metre. -/
def are : NamedUnit ℚ :=
  ⟨"are", "a", "a", none, (Dimension.ofAxis .length).pow 2, 0, [], some "m2", 100, none⟩

/-- The plot, by the are, which expands further. -/
def plot : NamedUnit ℚ :=
  ⟨"plot", "plot", "plot", none, (Dimension.ofAxis .length).pow 2, 0, [], some "a", 40, none⟩

/-- Metres, ares and plots are registered. -/
def surveying : List (Operation ℚ) :=
  [.step (.deed (.change (.addUnit ⟨"metre", "m", "m", none, .ofAxis .length, 0, [], none, 1, none⟩))),
    .step (.deed (.change (.addUnit are))), .step (.deed (.change (.addUnit plot)))]

theorem ofSystems_nil : ofSystems [] = .ok (blank : Session K) := rfl

theorem acyclic_surveying : (operated surveying blank).lexicon.Acyclic := by
  have consistent := consistent_operated (consistent_ofSystems ofSystems_nil).1 surveying
  refine consistent.acyclic_of_height
    (fun u => if u.asciiSymbol = "plot" then 2 else if u.asciiSymbol = "a" then 1 else 0)
    fun u mem v ⟨text, c, t, expansion, read, inside, same⟩ => ?_
  have falls : ∀ u ∈ (operated surveying blank).lexicon.units.values, ∀ text ∈ u.expansion,
      ∀ c ∈ ((operated surveying blank).lexicon.parse text).toOption, ∀ t ∈ c.terms,
        (if t.unit.asciiSymbol = "plot" then 2 else if t.unit.asciiSymbol = "a" then 1 else 0) <
          (if u.asciiSymbol = "plot" then 2 else if u.asciiSymbol = "a" then 1 else 0) := by
    decide +kernel
  exact same ▸ falls u mem text expansion c (by rw [read]; rfl) t inside

/-- Resolution ends with plots, which are reduced by ares. -/
theorem plots_resolved :
    ResolutionEnds (operated surveying blank).lexicon ∧
    (((do toBase (← parse (.symbol "plot")) true : Action (Session ℚ) _).apply
      (operated surveying blank)).1.toOption.join.map (·.value)) = some 4000 :=
  ⟨resolution_ends ofSystems_nil surveying acyclic_surveying, by decide +kernel⟩

end Session

end Metrology
