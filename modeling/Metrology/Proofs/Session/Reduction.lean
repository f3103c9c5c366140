import Mathlib.Tactic.FieldSimp
import Mathlib.Tactic.LinearCombination
import Metrology.Proofs.Session.Remembering
import Metrology.Session.Base

/-!
# Reduction keeps what is remembered

Every factor to SI base units is right for sizes that fit: through the routes of an axis, through an
expansion, or through a node of the same dimension. The induction is on the depth of a reduction,
since expansions and bridging reduce units with one step less.
-/
namespace Metrology

variable {K : Type} [Field K] [LinearOrder K] [Scalar K]
variable {lex : Lexicon K} {store : EdgeStore K}

/-- A factor from a start and terms to the SI base units of the dimensions of the terms. -/
def Factor.ReducesTerms (lex : Lexicon K) (store : EdgeStore K) (start : Factor K)
    (ts : List (Term K)) (f : Factor K) : Prop :=
  ∀ size, lex.Fits store size → start.value * Compound.valueOf (scaledSize size) ts
    = f.value * Compound.valueOf (fun u _ => lex.baseSize size u.dimension) ts

namespace Session

variable [Scalar.Exact K] {I : Session K → Prop}

/-- Terms reduce by what their units reduce by. -/
theorem keeps_reduceTerms {reduce : NamedUnit K → Action (Session K) (Option (Factor K))}
    {ts : List (Term K)} (units : ∀ t ∈ ts, (reduce t.unit).Keeps I
      fun found => ∀ f, found = some f → f.Reduces lex store t.unit) (start : Factor K) :
    (reduceTerms reduce start ts).Keeps I
      fun found => ∀ f, found = some f → start.ReducesTerms lex store ts f := by
  induction ts generalizing start with
  | nil => exact .found fun _ _ => rfl
  | cons t rest ih =>
    refine .bind (units t List.mem_cons_self) fun found reduces => ?_
    cases found with
    | none => exact .nothing
    | some factor =>
      refine .bind (.lift fun p power => Factor.value_of_pow power) fun power value => ?_
      refine (ih (fun u mem => units u (List.mem_cons_of_mem _ mem)) _).weaken
        fun found later f same size fits => ?_
      have tail := later f same size fits
      have head : scaledSize size t.unit t.scaling
          = t.scalingMultiplier * factor.value * lex.baseSize size t.unit.dimension := by
        rw [scaledSize, mul_assoc, ← reduces factor rfl size fits]
        rfl
      rw [Factor.value_mul, Factor.value_exact] at value
      rw [Factor.value_mul, value] at tail
      rw [Compound.valueOf_cons, Compound.valueOf_cons, head, mul_zpow]
      linear_combination lex.baseSize size t.unit.dimension ^ t.exponent * tail

variable [IsStrictOrderedRing K] (tabled : lex.Tabled)
include tabled

/-- For the terms of one unit, that is the factor of the unit. -/
theorem size_of_reducesTerms {size : NamedUnit K → K} (fits : lex.Fits store size) {c : Compound K}
    {d : Dimension} (measured : c.HasDimension d) {f : Factor K}
    (reduces : Factor.ReducesTerms lex store .one c.terms f) :
    c.size size = f.value * lex.baseSize size d := by
  have terms := reduces size fits
  rw [measured _ (fits.character_baseSize tabled), Factor.value_one, one_mul] at terms
  exact terms

/-- A unit of a single axis reduces through the SI base unit of that axis. -/
theorem keeps_reduceBase {u : NamedUnit K} {a : Axis} (found : lex.find? u.asciiSymbol = some u)
    (single : u.dimension = .ofAxis a) :
    (reduceBase u a).Keeps (Remembers lex store)
      fun found => ∀ f, found = some f → f.Reduces lex store u := by
  refine .bind .get fun s remembers => ?_
  rw [remembers.lexicon]
  dsimp only
  split
  next =>
    refine .bind (.lift fun si given => given) fun si given => ?_
    obtain ⟨sound, exponent⟩ := tabled.siTerm_eq_ok given
    refine .bind (keeps_route tabled _ _ _) fun path holds => ?_
    cases path with
    | none => exact .nothing
    | some path =>
      have nonzero := tabled.scalingMultiplier_ne_zero sound.base
      refine .bind (.lift fun m scaled => value_of_scalarPow nonzero scaled) fun m multiplier => ?_
      refine .bind (.lift fun q divided => Factor.value_of_div divided) fun q quotient => ?_
      refine .found fun size fits => ?_
      have walked := holds path rfl size fits
      rw [fits.textSize_asciiSymbol tabled found,
        fits.textSize_asciiSymbol tabled sound.base.1] at walked
      have axis : lex.axisSize size a = si.scalingMultiplier * size si.unit := by
        rw [Lexicon.axisSize, given]
        show si.size size = _
        rw [Term.size, exponent, zpow_one]
      rw [exponent, zpow_one] at multiplier
      rw [Factor.value_exact, multiplier] at quotient
      rw [single, Lexicon.baseSize_ofAxis, axis, walked, quotient.2]
      field_simp
  next => exact .nothing

/-- A unit is bridged to a node of its dimension whose units reduce. -/
theorem keeps_bridge {reduce : NamedUnit K → Action (Session K) (Option (Factor K))}
    (units : ∀ v, lex.find? v.asciiSymbol = some v → (reduce v).Keeps (Remembers lex store)
      fun found => ∀ f, found = some f → f.Reduces lex store v)
    {u : NamedUnit K} (found : lex.find? u.asciiSymbol = some u) {nodes : List String}
    (measured : ∀ size, lex.Fits store size → ∀ node ∈ nodes, lex.Measured u.dimension node) :
    (bridge reduce u nodes).Keeps (Remembers lex store)
      fun found => ∀ f, found = some f → f.Reduces lex store u := by
  induction nodes with
  | nil => exact .nothing
  | cons node rest ih =>
    have later := ih fun size fits n mem => measured size fits n (List.mem_cons_of_mem _ mem)
    rw [bridge]
    split
    next => exact later
    next =>
      refine .bind .get fun s remembers => ?_
      rw [remembers.lexicon]
      refine .bind (.lift fun v given => given) fun v given => ?_
      have sound := tabled.sound_of_parse given
      split
      next =>
        refine .bind (keeps_route tabled _ _ _) fun path holds => ?_
        cases path with
        | none => exact later
        | some path =>
          refine .bind (keeps_reduceTerms
            (fun t mem => units t.unit (sound.terms t mem).1.base.1) Factor.one) fun base reduced => ?_
          cases base with
          | none => exact later
          | some base =>
            refine .found fun size fits => ?_
            obtain ⟨c, read, _, dimension⟩ := measured size fits node List.mem_cons_self
            obtain rfl := Except.ok.inj (read.symm.trans given)
            have walked := holds path rfl size fits
            rw [fits.textSize_asciiSymbol tabled found, Lexicon.textSize_eq read,
              size_of_reducesTerms tabled fits dimension (reduced base rfl)] at walked
            rw [Factor.value_mul, walked, mul_assoc]
      next => exact later

omit [Scalar.Exact K] [IsStrictOrderedRing K] tabled in
/-- What is remembered of one unit is asked for by no other. -/
theorem keeps_rememberFactor {u : NamedUnit K} (found : lex.find? u.asciiSymbol = some u)
    (bridging : Bool) {factor : Option (Factor K)}
    (reduces : ∀ f, factor = some f → f.Reduces lex store u) :
    (do
      modify fun s : Session K => { s with
        baseFactors := s.baseFactors.put (u.asciiSymbol, bridging) factor }
      return factor : Action (Session K) (Option (Factor K))).Keeps (Remembers lex store)
        fun found => ∀ f, found = some f → f.Reduces lex store u := by
  refine .bind (.modify fun s remembers => ⟨remembers.lexicon, remembers.kept, remembers.edges,
    remembers.routes, remembers.answers, fun v b f listed known => ?_⟩) fun _ _ => .pure reduces
  rw [Register.get?_put] at known
  split at known
  next same =>
    obtain ⟨symbol, _⟩ := Prod.mk.inj same
    rw [← symbol, found] at listed
    obtain rfl := Option.some.inj listed
    exact reduces f (Option.some.inj known)
  next => exact remembers.baseFactors v b f listed known

/-- A unit of the lexicon reduces by a factor that is right, whether it is remembered or found. -/
theorem keeps_reduceUnit (depth : Nat) (bridging : Bool) {u : NamedUnit K}
    (found : lex.find? u.asciiSymbol = some u) :
    (reduceUnit depth bridging u).Keeps (Remembers lex store)
      fun found => ∀ f, found = some f → f.Reduces lex store u := by
  induction depth generalizing bridging u with
  | zero => exact .throw _
  | succ depth ih =>
    refine .bind .get fun s remembers => ?_
    split
    next known cached =>
      refine .pure fun f same => ?_
      rw [same] at cached
      exact remembers.baseFactors u bridging f found cached
    next =>
      dsimp only
      split
      next a single =>
        exact .bind (keeps_reduceBase tabled found (Dimension.baseAxis?_eq_some single))
          fun _ reduces => keeps_rememberFactor found bridging reduces
      next =>
        split
        next e expands =>
          refine .bind .get fun t later => ?_
          rw [later.lexicon]
          refine .bind (.lift fun c read => read) fun c read => ?_
          have sound := tabled.sound_of_parse read
          refine .bind (keeps_reduceTerms
            (fun t mem => ih bridging (sound.terms t mem).1.base.1) Factor.one) fun base reduced => ?_
          refine keeps_rememberFactor found bridging fun f same size fits => ?_
          obtain ⟨g, rfl, rfl⟩ := Option.map_eq_some_iff.mp same
          have bottom := size_of_reducesTerms tabled fits
            (tabled.hasDimension_of_expansion found expands read) (reduced g rfl)
          rw [fits.expansions _ u e c found expands read, bottom, Factor.value_mul,
            Factor.value_read, mul_assoc]
        next =>
          split
          next =>
            refine .bind (keeps_network tabled _) fun net measured => ?_
            exact .bind (keeps_bridge tabled (fun v listed => ih false listed) found measured)
              fun _ reduces => keeps_rememberFactor found bridging reduces
          next => exact keeps_rememberFactor found bridging fun f same => by cases same

/-- A unit of a dimension reduces to the product of SI base units with that dimension. -/
theorem keeps_toBase {c : Compound K} (sound : c.Sound lex.Names) (bridging : Bool) :
    (toBase c bridging).Keeps (Remembers lex store) fun found => ∀ f, found = some f →
      ∀ d, c.HasDimension d → ∀ size, lex.Fits store size →
        c.size size = f.value * lex.baseSize size d := by
  refine .bind .get fun s _ => ?_
  refine (keeps_reduceTerms (fun t mem =>
    keeps_reduceUnit tabled _ bridging (sound.terms t mem).1.base.1) _).weaken
    fun found reduced f same d measured size fits => ?_
  exact size_of_reducesTerms tabled fits measured (reduced f same)

end Session

end Metrology
