import Metrology.Proofs.Session.Reduction
import Metrology.Session.Merge

/-!
# Answers

A conversion between two units of a dimension holds for sizes that fit, provided that merging keeps
sizes: whether the merged units are the same, are joined by a route or meet in SI base units, and
whether the conversion is computed or remembered.
-/
namespace Metrology

variable {K : Type} [Field K] [Scalar K]
variable {lex : Lexicon K} {store : EdgeStore K}

/-- A unit is handed over that the lexicon knows; a scalar need not be registered. -/
def Lexicon.Refers (lex : Lexicon K) : UnitRef K → Prop
  | .symbol _ => True
  | .unit u => u.isScalar = true ∨ lex.find? u.asciiSymbol = some u
  | .term t => t.isScalar = true ∨ t.Sound lex.Names
  | .compound c => c.Sound lex.Names

namespace Lexicon

omit [Field K] [Scalar K] in
/-- Terms that are scalars leave nothing of a product. -/
theorem ofTerms_of_isScalar {t : Term K} (scalar : t.isScalar = true) :
    Compound.ofTerms [t] = .ok .one := by
  simp [Compound.ofTerms, Compound.piles, scalar, Compound.level, Except.map, Compound.one, pure,
    Except.pure]

omit [Field K] in
/-- What is meant by a unit that the lexicon knows consists of units it knows. -/
theorem Indexed.sound_of_deref (indexed : lex.Indexed) {ref : UnitRef K} (refers : lex.Refers ref)
    {u : Compound K} (meant : lex.deref ref = .ok u) : u.Sound lex.Names := by
  have product : ∀ t : Term K, t.isScalar = true ∨ t.Sound lex.Names →
      Compound.ofTerms [t] = .ok u → u.Sound lex.Names := by
    intro t known made
    rcases known with scalar | sound
    · rw [ofTerms_of_isScalar scalar] at made
      obtain rfl := Except.ok.inj made
      exact Compound.sound_one
    · exact Compound.sound_of_ofTerms (fun v mem => List.mem_singleton.mp mem ▸ sound) made
  cases ref with
  | symbol text => exact indexed.sound_of_parse meant
  | unit v =>
    obtain ⟨t, made, meant⟩ := bind_eq_ok.mp meant
    refine product t (refers.imp (fun scalar => ?_) fun found => ?_) meant
    · obtain ⟨rfl, _⟩ := Term.make_eq_ok.mp made
      exact scalar
    · exact Term.sound_of_make ⟨found, fun p same => by cases same⟩ made
  | term t => exact product t refers meant
  | compound c =>
    obtain rfl := Except.ok.inj meant
    exact refers

omit [Field K] in
theorem Tabled.sound_of_deref (tabled : lex.Tabled) {ref : UnitRef K} (refers : lex.Refers ref)
    {u : Compound K} (meant : lex.deref ref = .ok u) : u.Sound lex.Names :=
  tabled.indexed.sound_of_deref refers meant

end Lexicon

variable [LinearOrder K]

/-- The conversion goes from the one unit that is meant to the other and holds for all sizes that
fit. -/
def Conversion.Converts (lex : Lexicon K) (store : EdgeStore K) (src dest : UnitRef K)
    (c : Conversion K) : Prop :=
  ∃ u v, lex.deref src = .ok u ∧ lex.deref dest = .ok v ∧ c.src = u.write .ascii ∧
    c.dest = v.write .ascii ∧ ∀ size, lex.Fits store size →
      u.size size = c.factor.value * v.size size

namespace Session

variable {d : Dimension} {src dest : Compound K}

/-- Merging keeps the size of a unit, up to the factor that it gives, and its dimension. -/
structure Merged (lex : Lexicon K) (store : EdgeStore K) (u : Compound K)
    (r : Factor K × Compound K) : Prop where
  size_eq : ∀ size, lex.Fits store size → u.size size = r.1.value * r.2.size size
  sound : r.2.Sound lex.Names
  hasDimension : ∀ d, u.HasDimension d → r.2.HasDimension d

/-- A way of merging that keeps what is remembered as well as sizes. -/
def KeepsSizes (lex : Lexicon K) (store : EdgeStore K) (merge : Merging K) : Prop :=
  ∀ u, u.Sound lex.Names → (merge u).Keeps (Remembers lex store) (Merged lex store u)

omit [Field K] [Scalar K] [LinearOrder K] in
theorem write_eq_of_same (same : src.same dest = .ok true) :
    src.write .ascii = dest.write .ascii := by
  unfold Compound.same at same
  split at same
  next alike => exact alike
  next => cases same

variable (tabled : lex.Tabled)
include tabled

/-- A unit that passes has the dimension. -/
theorem keeps_validate {ref : UnitRef K} (refers : lex.Refers ref) :
    (validate d ref).Keeps (Remembers lex store)
      fun u => lex.deref ref = .ok u ∧ u.Sound lex.Names ∧ u.HasDimension d := by
  refine .bind .get fun s remembers => ?_
  rw [remembers.lexicon]
  refine .bind (.lift fun u meant => meant) fun u meant => ?_
  refine .bind (.lift fun e given => given) fun e given => ?_
  split
  next same =>
    subst same
    exact .pure ⟨meant, tabled.sound_of_deref refers meant,
      Compound.hasDimension_of_dimension given⟩
  next =>
    split
    next => exact .throw _
    next => exact .throw _

variable [IsStrictOrderedRing K] [Scalar.Exact K]

/-- Merged units are connected without their prefixes, by a route or by SI base units. -/
theorem keeps_connect (factor : Factor K) (soundSrc : src.Sound lex.Names)
    (soundDest : dest.Sound lex.Names) (measuredSrc : src.HasDimension d)
    (measuredDest : dest.HasDimension d) :
    (connect d factor src dest).Keeps (Remembers lex store) fun found => ∀ f, found = some f →
      ∀ size, lex.Fits store size →
        factor.value * src.size size = f.value * dest.size size := by
  refine .bind (.lift fun m given => given) fun m srcScaled => ?_
  refine .bind (.lift fun n given => given) fun n destScaled => ?_
  refine .bind (.lift fun g divided => Factor.value_of_div divided) fun g quotient => ?_
  refine .bind (.lift fun u made => made) fun u srcBare => ?_
  refine .bind (.lift fun v made => made) fun v destBare => ?_
  have soundU := soundSrc.withoutPrefixes srcBare
  have soundV := soundDest.withoutPrefixes destBare
  have measuredU := tabled.hasDimension_withoutPrefixes soundSrc measuredSrc srcBare
  have measuredV := tabled.hasDimension_withoutPrefixes soundDest measuredDest destBare
  have scaled : ∀ size, lex.Fits store size →
      src.size size = m * u.size size ∧ dest.size size = n * v.size size ∧ n ≠ 0 :=
    fun size fits => ⟨fits.size_withoutPrefixes tabled soundSrc srcScaled srcBare,
      fits.size_withoutPrefixes tabled soundDest destScaled destBare,
      fits.multiplier_ne_zero tabled soundDest destScaled destBare⟩
  rw [Factor.value_mul, Factor.value_exact, Factor.value_exact] at quotient
  refine .bind (keeps_route tabled d _ _) fun path walked => ?_
  cases path with
  | some path =>
    refine .found fun size fits => ?_
    obtain ⟨srcSize, destSize, nonzero⟩ := scaled size fits
    have edge := walked path rfl size fits
    rw [tabled.textSize_write soundU, tabled.textSize_write soundV] at edge
    rw [Factor.value_mul, quotient.2, srcSize, destSize, edge]
    field_simp
  | none =>
    refine .bind (keeps_toBase tabled soundU true) fun base srcReduced => ?_
    refine .bind (keeps_toBase tabled soundV true) fun base' destReduced => ?_
    split
    next x y =>
      refine .bind (.lift fun q divided => Factor.value_of_div divided) fun q ratio => ?_
      refine .found fun size fits => ?_
      obtain ⟨srcSize, destSize, nonzero⟩ := scaled size fits
      rw [Factor.value_mul, quotient.2, ratio.2, srcSize, destSize,
        srcReduced x rfl d measuredU size fits, destReduced y rfl d measuredV size fits]
      have := ratio.1
      field_simp
    next => exact .nothing

/-- What is computed from merged units holds for the units themselves. -/
theorem keeps_compute {merge : Merging K} (merges : KeepsSizes lex store merge)
    (soundSrc : src.Sound lex.Names) (soundDest : dest.Sound lex.Names)
    (measuredSrc : src.HasDimension d) (measuredDest : dest.HasDimension d) :
    (compute merge d src dest).Keeps (Remembers lex store) fun found => ∀ c, found = some c →
      c.src = src.write .ascii ∧ c.dest = dest.write .ascii ∧ ∀ size, lex.Fits store size →
        src.size size = c.factor.value * dest.size size := by
  refine .bind (merges src soundSrc) fun ⟨f, u⟩ srcMerged => ?_
  refine .bind (merges dest soundDest) fun ⟨g, v⟩ destMerged => ?_
  refine .bind (.lift fun q divided => Factor.value_of_div divided) fun q quotient => ?_
  refine .bind (.lift fun alike given => given) fun alike given => ?_
  have whole : ∀ found : Option (Factor K),
      (∀ f, found = some f → ∀ size, lex.Fits store size →
        q.value * u.size size = f.value * v.size size) →
      ∀ c : Conversion K, found.map
        (fun factor => ⟨d.code, src.write .ascii, dest.write .ascii, factor⟩) = some c →
      c.src = src.write .ascii ∧ c.dest = dest.write .ascii ∧ ∀ size, lex.Fits store size →
        src.size size = c.factor.value * dest.size size := by
    intro found connected c same
    obtain ⟨h, isFound, rfl⟩ := Option.map_eq_some_iff.mp same
    refine ⟨rfl, rfl, fun size fits => ?_⟩
    have := quotient.1
    calc src.size size = f.value * u.size size := srcMerged.size_eq size fits
      _ = g.value * (q.value * u.size size) := by
          rw [quotient.2]
          field_simp
      _ = g.value * (h.value * v.size size) := by rw [connected h isFound size fits]
      _ = h.value * dest.size size := by
          rw [destMerged.size_eq size fits]
          ring
  dsimp only
  split
  next same =>
    have alike := write_eq_of_same (same ▸ given)
    refine .pure (whole _ fun f isFound size _ => ?_)
    obtain rfl := Option.some.inj isFound
    rw [tabled.size_eq_of_write_eq srcMerged.sound destMerged.sound alike]
  next =>
    exact .bind (keeps_connect tabled q srcMerged.sound destMerged.sound
      (srcMerged.hasDimension d measuredSrc) (destMerged.hasDimension d measuredDest))
      fun found connected => .pure (whole found connected)

/-- An answer holds, whether it is remembered or computed. -/
theorem keeps_answer {merge : Merging K} (merges : KeepsSizes lex store merge)
    {a b : UnitRef K} (refersA : lex.Refers a) (refersB : lex.Refers b) :
    (answer merge d a b).Keeps (Remembers lex store)
      fun found => ∀ c, found = some c → c.Converts lex store a b := by
  refine .bind (keeps_validate tabled refersA) fun u ⟨meantA, soundA, measuredA⟩ => ?_
  refine .bind (keeps_validate tabled refersB) fun v ⟨meantB, soundB, measuredB⟩ => ?_
  refine .bind .get fun s remembers => ?_
  dsimp only
  split
  next known cached =>
    refine .pure fun c same => ?_
    rw [same] at cached
    obtain ⟨isSrc, isDest, holds⟩ := remembers.answers d _ c cached
    refine ⟨u, v, meantA, meantB, isSrc, isDest, fun size fits => ?_⟩
    rw [← tabled.textSize_write soundA, ← tabled.textSize_write soundB, holds size fits]
  next =>
    refine .bind (keeps_compute tabled merges soundA soundB measuredA measuredB)
      fun found computed => ?_
    refine .bind (.modify fun t holds => holds.putChart (holds.routes d) fun key c known => ?_)
      fun _ _ => .pure fun c same => ?_
    · rw [Register.get?_put] at known
      split at known
      next same =>
        obtain ⟨isSrc, isDest, holds⟩ := computed c (Option.some.inj known)
        rw [← same]
        refine ⟨isSrc, isDest, fun size fits => ?_⟩
        rw [tabled.textSize_write soundA, tabled.textSize_write soundB, holds size fits]
      next => exact holds.answers d key c known
    · obtain ⟨isSrc, isDest, holds⟩ := computed c same
      exact ⟨u, v, meantA, meantB, isSrc, isDest, holds⟩

end Session

end Metrology
