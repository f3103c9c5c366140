import Metrology.Proofs.Session.Answering

/-!
# Merging keeps sizes

Joining a term to a group multiplies the factor by what the term loses in size, and leaves the
dimensions as they were. So merging the terms of a unit keeps its size up to the factor, and its
dimension.
-/
namespace Metrology.Session

variable {K : Type}

/-- Joins a term to the head group by the conversion that was found, otherwise to a later group. -/
def joinHead [Scalar K] (t : Term K) (g : Group K) (rest : List (Group K)) :
    Option (Conversion K) → Action (Session K) (Option (Factor K × List (Group K)))
  | some c => do
    let power ← c.factor.pow t.exponent
    return some (power, { g with exponent := g.exponent + t.exponent } :: rest)
  | none => do return (← joinGroup t rest).map fun (factor, groups) => (factor, g :: groups)

theorem joinGroup_cons [Scalar K] (t : Term K) (g : Group K) (rest : List (Group K)) :
    joinGroup t (g :: rest) =
      if g.head.unit.dimension = t.unit.dimension then
        do joinHead t g rest (← termConversion t g.head)
      else joinHead t g rest none := by
  rw [joinGroup]
  split
  next => rfl
  next => rfl

/-- A group counts as a pile of the terms that were joined. -/
def Group.pile (g : Group K) : Compound.Pile K := ⟨g.head, g.exponent⟩

section Left

variable {gs : List (Group K)} {ts : List (Term K)}

/-- Groups leave what their piles leave. -/
theorem level_groups (gs : List (Group K)) : Compound.level (gs.map Group.pile) =
    (gs.filter fun g => g.exponent ≠ 0).mapM fun g => g.head.withExponent g.exponent := by
  rw [Compound.level, List.filter_map, List.mapM_map]
  rfl

theorem terms_of_groups (made : ((gs.filter fun g => g.exponent ≠ 0).mapM
      fun g => g.head.withExponent g.exponent) = .ok ts) :
    ts = (gs.filter fun g => g.exponent ≠ 0).map
      fun g => ⟨g.head.unit, g.head.scaling, g.exponent⟩ :=
  eq_map_of_mapM (fun _ _ same => (Term.make_eq_ok.mp same).1) made

theorem sound_of_groups {P : NamedUnit K → Option (Prefix K) → Prop}
    (heads : ∀ g ∈ gs, g.head.Sound P ∧ g.head.isScalar = false)
    (made : ((gs.filter fun g => g.exponent ≠ 0).mapM
      fun g => g.head.withExponent g.exponent) = .ok ts) :
    ∀ t ∈ ts, t.Sound P ∧ t.isScalar = false :=
  Compound.sound_of_level (List.forall_mem_map.mpr heads) ((level_groups gs).trans made)

end Left

/-- The value of groups, each its head with the sum of the exponents. -/
def valueOfGroups [Field K] (value : NamedUnit K → Option (Prefix K) → K)
    (gs : List (Group K)) : K :=
  Compound.valueOfPiles value (gs.map Group.pile)

section Groups

variable [Field K] {value : NamedUnit K → Option (Prefix K) → K}

@[simp] theorem valueOfGroups_nil : valueOfGroups value [] = 1 := rfl

@[simp] theorem valueOfGroups_cons (g : Group K) (gs : List (Group K)) :
    valueOfGroups value (g :: gs)
      = value g.head.unit g.head.scaling ^ g.exponent * valueOfGroups value gs := by
  simp [valueOfGroups, Compound.valueOfPiles, Group.pile]

@[simp] theorem valueOfGroups_append (gs hs : List (Group K)) :
    valueOfGroups value (gs ++ hs) = valueOfGroups value gs * valueOfGroups value hs := by
  simp [valueOfGroups, Compound.valueOfPiles]

end Groups

variable [Field K] [LinearOrder K] [Scalar K]
variable {lex : Lexicon K} {store : EdgeStore K}

/-- Every group was opened by a term of the lexicon. -/
def Opened (lex : Lexicon K) (gs : List (Group K)) : Prop :=
  ∀ g ∈ gs, g.head.Sound lex.Names ∧ g.head.isScalar = false

/-- Groups and a factor that terms were joined to. -/
structure Joined (lex : Lexicon K) (store : EdgeStore K) (ts : List (Term K))
    (gs : List (Group K)) (r : Factor K × List (Group K)) : Prop where
  opened : Opened lex r.2
  size_eq : ∀ size, lex.Fits store size →
    valueOfGroups (scaledSize size) gs * Compound.valueOf (scaledSize size) ts
      = r.1.value * valueOfGroups (scaledSize size) r.2
  dimension_eq : ∀ χ : Dimension → K, Character χ →
    valueOfGroups (fun u _ => χ u.dimension) gs * Compound.valueOf (fun u _ => χ u.dimension) ts
      = valueOfGroups (fun u _ => χ u.dimension) r.2

/-- A group that is passed over stays as it was. -/
theorem Joined.behind {ts : List (Term K)} {gs : List (Group K)} {f : Factor K}
    {joined : List (Group K)} (holds : Joined lex store ts gs (f, joined)) {g : Group K}
    (head : g.head.Sound lex.Names ∧ g.head.isScalar = false) :
    Joined lex store ts (g :: gs) (f, g :: joined) := by
  refine ⟨fun h mem => ?_, fun size fits => ?_, fun χ character => ?_⟩
  · rcases List.mem_cons.mp mem with rfl | later
    · exact head
    · exact holds.opened h later
  · rw [valueOfGroups_cons, valueOfGroups_cons, mul_assoc, holds.size_eq size fits]
    ring
  · rw [valueOfGroups_cons, valueOfGroups_cons, mul_assoc, holds.dimension_eq χ character]

variable [IsStrictOrderedRing K] [Scalar.Exact K] (tabled : lex.Tabled)
include tabled

omit tabled [IsStrictOrderedRing K] in
/-- Terms convert without being merged. -/
theorem keepsSizes_self : KeepsSizes lex store fun unit => return (.one, unit) :=
  fun u sound => .pure ⟨fun _ _ => by rw [Factor.value_one, one_mul], sound, fun _ measured => measured⟩

/-- Terms convert by the sizes they have without their exponents. -/
theorem keeps_termConversion {t head : Term K} (sound : t.Sound lex.Names)
    (visible : t.isScalar = false) (soundHead : head.Sound lex.Names)
    (visibleHead : head.isScalar = false) :
    (termConversion t head).Keeps (Remembers lex store) fun found => ∀ c, found = some c →
      ∀ size, lex.Fits store size → scaledSize size t.unit t.scaling
        = c.factor.value * scaledSize size head.unit head.scaling := by
  have single : ∀ {v w : Term K}, v.Sound lex.Names → v.isScalar = false →
      Term.make v.unit v.scaling 1 = .ok w → w.Sound lex.Names ∧ ∀ u, lex.deref (.term w) = .ok u →
        ∀ size, u.size size = scaledSize size v.unit v.scaling := by
    intro v w soundV visibleV made
    have soundW := Term.sound_of_make soundV.base made
    refine ⟨soundW, fun u meant size => ?_⟩
    obtain ⟨rfl, _⟩ := Term.make_eq_ok.mp made
    have whole : (⟨[⟨v.unit, v.scaling, 1⟩]⟩ : Compound K).Sound lex.Names := by
      refine ⟨fun x mem => ?_, List.pairwise_singleton _ _⟩
      obtain rfl := List.mem_singleton.mp mem
      exact ⟨soundW, visibleV⟩
    obtain rfl := Except.ok.inj (whole.ofTerms_terms.symm.trans meant)
    rw [Compound.size_eq]
    simp
  refine .bind (.lift fun v made => made) fun v madeV => ?_
  refine .bind (.lift fun w made => made) fun w madeW => ?_
  obtain ⟨soundV, sizeV⟩ := single sound visible madeV
  obtain ⟨soundW, sizeW⟩ := single soundHead visibleHead madeW
  refine (keeps_answer tabled keepsSizes_self (a := .term v) (b := .term w)
    (.inr soundV) (.inr soundW)).weaken fun found holds c same size fits => ?_
  obtain ⟨x, y, meantX, meantY, _, _, equal⟩ := holds c same
  rw [← sizeV x meantX, ← sizeW y meantY, equal size fits]

/-- A term is joined to the head group if it converts to it, otherwise to a later one. -/
theorem keeps_joinHead {t : Term K} {g : Group K} {rest : List (Group K)}
    (opened : Opened lex (g :: rest))
    (later : (joinGroup t rest).Keeps (Remembers lex store)
      fun found => ∀ r, found = some r → Joined lex store [t] rest r) :
    ∀ conversion : Option (Conversion K),
      (∀ c, conversion = some c → g.head.unit.dimension = t.unit.dimension ∧
        ∀ size, lex.Fits store size → scaledSize size t.unit t.scaling
          = c.factor.value * scaledSize size g.head.unit g.head.scaling) →
      (joinHead t g rest conversion).Keeps (Remembers lex store)
        fun found => ∀ r, found = some r → Joined lex store [t] (g :: rest) r := by
  intro conversion holds
  have head := opened g List.mem_cons_self
  cases conversion with
  | none =>
    refine .bind later fun found joined => .pure fun r same => ?_
    obtain ⟨⟨factor, groups⟩, isFound, rfl⟩ := Option.map_eq_some_iff.mp same
    exact (joined _ isFound).behind head
  | some c =>
    obtain ⟨dimension, equal⟩ := holds c rfl
    refine .bind (.lift fun p power => Factor.value_of_pow power) fun power value => ?_
    refine .found ⟨fun h mem => ?_, fun size fits => ?_, fun χ character => ?_⟩
    · rcases List.mem_cons.mp mem with rfl | inside
      · exact head
      · exact opened h (List.mem_cons_of_mem _ inside)
    · have nonzero := fits.scaledSize_ne_zero tabled _ _ head.1.base
      simp only [valueOfGroups_cons, Compound.valueOf_cons, Compound.valueOf_nil, value,
        equal size fits, mul_zpow, zpow_add₀ nonzero]
      ring
    · simp only [valueOfGroups_cons, Compound.valueOf_cons, Compound.valueOf_nil, dimension,
        zpow_add₀ (character.ne_zero _)]
      ring

/-- Joining a term to a group moves its size into the factor and the group. -/
theorem keeps_joinGroup {t : Term K} (sound : t.Sound lex.Names) (visible : t.isScalar = false)
    {gs : List (Group K)} (opened : Opened lex gs) :
    (joinGroup t gs).Keeps (Remembers lex store)
      fun found => ∀ r, found = some r → Joined lex store [t] gs r := by
  induction gs with
  | nil => exact .nothing
  | cons g rest ih =>
    have head := opened g List.mem_cons_self
    have later := ih fun h mem => opened h (List.mem_cons_of_mem _ mem)
    rw [joinGroup_cons]
    split
    next alike =>
      exact .bind (keeps_termConversion tabled sound visible head.1 head.2) fun found holds =>
        keeps_joinHead tabled opened later found fun c same => ⟨alike, holds c same⟩
    next => exact keeps_joinHead tabled opened later none fun c same => by cases same

/-- Sorting terms into groups keeps the product of both, up to the factor. -/
theorem keeps_groupTerms {ts : List (Term K)}
    (sound : ∀ t ∈ ts, t.Sound lex.Names ∧ t.isScalar = false) (factor : Factor K)
    {gs : List (Group K)} (opened : Opened lex gs) :
    (groupTerms factor gs ts).Keeps (Remembers lex store) fun r =>
      ∃ f : Factor K, r.1.value = factor.value * f.value ∧ Joined lex store ts gs (f, r.2) := by
  induction ts generalizing factor gs with
  | nil =>
    refine .pure ⟨.one, by simp, opened, fun size _ => ?_, fun χ _ => ?_⟩
    · simp
    · simp
  | cons t rest ih =>
    obtain ⟨soundT, visible⟩ := sound t List.mem_cons_self
    have later := fun u mem => sound u (List.mem_cons_of_mem t mem)
    refine .bind (keeps_joinGroup tabled soundT visible opened) fun found joined => ?_
    split
    next power groups =>
      have first := joined _ rfl
      refine (ih later (factor.mul power) first.opened).weaken fun r ⟨f, value, whole⟩ => ?_
      refine ⟨power.mul f, ?_, whole.opened, fun size fits => ?_, fun χ character => ?_⟩
      · rw [value, Factor.value_mul, Factor.value_mul, mul_assoc]
      · have own := first.size_eq size fits
        have others := whole.size_eq size fits
        simp only [Compound.valueOf_cons, Compound.valueOf_nil, Factor.value_mul] at *
        linear_combination Compound.valueOf (scaledSize size) rest * own + power.value * others
      · have own := first.dimension_eq χ character
        have others := whole.dimension_eq χ character
        simp only [Compound.valueOf_cons, Compound.valueOf_nil] at *
        rw [← others, ← own]
        ring
    next =>
      have more : Opened lex (gs ++ [⟨t, t.exponent⟩]) := by
        intro g mem
        rcases List.mem_append.mp mem with old | new
        · exact opened g old
        · obtain rfl := List.mem_singleton.mp new
          exact ⟨soundT, visible⟩
      refine (ih later factor more).weaken fun r ⟨f, value, whole⟩ => ?_
      refine ⟨f, value, whole.opened, fun size fits => ?_, fun χ character => ?_⟩
      · rw [← whole.size_eq size fits]
        simp [mul_assoc]
      · rw [← whole.dimension_eq χ character]
        simp [mul_assoc]

omit tabled [LinearOrder K] [Scalar K] [IsStrictOrderedRing K] [Scalar.Exact K] in
/-- The terms that groups leave have the value of the groups. -/
theorem valueOf_groups {value : NamedUnit K → Option (Prefix K) → K} {gs : List (Group K)}
    {ts : List (Term K)} (made : ((gs.filter fun g => g.exponent ≠ 0).mapM
      fun g => g.head.withExponent g.exponent) = .ok ts) :
    Compound.valueOf value ts = valueOfGroups value gs :=
  Compound.valueOf_level ((level_groups gs).trans made)

/-- Merging a unit keeps its size, up to the factor, and its dimension. -/
theorem keepsSizes_mergeFactor : KeepsSizes lex store mergeFactor := by
  intro u sound
  have opened : Opened lex [] := fun _ mem => absurd mem List.not_mem_nil
  refine .bind (keeps_groupTerms tabled sound.terms .one opened)
    fun ⟨factor, groups⟩ ⟨f, value, joined⟩ => ?_
  refine .bind (.mapM _) fun ts made => ?_
  refine .bind (.lift fun merged product => product) fun merged product => .pure ?_
  have sorted := sound_of_groups joined.opened made
  have soundTs := fun t mem => (sorted t mem).1
  have product_eq : ∀ value : NamedUnit K → Option (Prefix K) → K,
      (∀ u p, lex.Names u p → value u p ≠ 0) →
      Compound.valueOf value merged.terms = valueOfGroups value groups := by
    intro value nonzero
    rw [Compound.valueOf_ofTerms_of_visible tabled.identifies nonzero sorted product,
      valueOf_groups made]
  refine ⟨fun size fits => ?_, Compound.sound_of_ofTerms soundTs product,
    fun d measured χ character => ?_⟩
  · have total := joined.size_eq size fits
    rw [valueOfGroups_nil, one_mul] at total
    rw [Factor.value_one, one_mul] at value
    rw [Compound.size_eq, Compound.size_eq, total, value,
      product_eq _ (fits.scaledSize_ne_zero tabled)]
  · have total := joined.dimension_eq χ character
    rw [valueOfGroups_nil, one_mul, measured χ character] at total
    rw [product_eq _ fun _ _ _ => character.ne_zero _, total]

end Metrology.Session
