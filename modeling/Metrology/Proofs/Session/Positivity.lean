import Metrology.Proofs.Double.Powers
import Metrology.Proofs.Graph.Buildable
import Metrology.Proofs.Session.Recent

/-!
# Positive factors

A conversion is refused if its factor is known to be zero or less. That is asked of the number that
the caller gives, before it is rescaled to units without prefixes, and what is not a number passes.
So a registered factor is never below zero; but it is zero, infinite or not a number if the caller
gave something that is not finite, or so large or small a number that taking off the prefixes leads
out of the range of doubles. Every other registered factor is above zero and finite, and the edge
can be inverted.
-/
namespace Metrology

open Double

variable {raise : Float → Int → Float}

/-! ### Prefixes -/

/-- How often the prefix of a term multiplies or divides. -/
def Term.scalings {K : Type} (t : Term K) : ℕ := if t.scaling.isSome then t.exponent.natAbs else 0

/-- How often prefixes multiply or divide in a unit. -/
def Compound.scalings {K : Type} (c : Compound K) : ℕ := (c.terms.map Term.scalings).sum

theorem Compound.scalings_le_span {K : Type} (c : Compound K) : c.scalings ≤ span c.terms := by
  refine List.sum_le_sum fun t _ => ?_
  unfold Term.scalings
  split
  next => exact le_rfl
  next => exact Nat.zero_le _

theorem Catalogue.ofSize_prefix {p : Prefix (DoublesBy raise)}
    (mem : p ∈ (prefixes : PrefixTable (DoublesBy raise)).all) : OfSize 100 p.multiplier := by
  have sizes : ∀ row ∈ prefixRows, OfSize 100 row.multiplier.toFloat := by decide +kernel
  obtain ⟨row, isRow, rfl⟩ := exists_row_of_mem mem
  exact sizes row isRow

namespace Catalogue

/-- The tables have factors of moderate size, and few powers. -/
theorem moderate_of_conversion : ∀ q ∈ quantities, ∀ c ∈ q.conversions,
    powers c.src + powers c.dest ≤ 9 ∧ OfSize 100 c.factor.toFloat := by
  decide +kernel

theorem powers_of_expansion :
    ∀ r ∈ units, ∀ e ∈ r.2.expansion, powers r.2.asciiSymbol + powers e ≤ 10 := by
  decide +kernel

end Catalogue

section

variable {lex : Lexicon (DoublesBy raise)} {u v : Compound (DoublesBy raise)}
  (promised : DoublesBy.Promised raise) (tabled : lex.Tabled)
include promised tabled

/-- A prefix of a term is at most 101 bits away from 1 for each time it multiplies or divides. -/
theorem Term.ofSize_multiplier {t : Term (DoublesBy raise)} {m : DoublesBy raise}
    (sound : t.Sound lex.Names) (range : 101 * t.scalings ≤ 1022) (given : t.multiplier = .ok m) :
    OfSize (101 * t.scalings) m := by
  have power : DoublesBy.pow raise t.scalingMultiplier t.exponent = .ok m := given
  unfold scalingMultiplier at power
  unfold scalings at range ⊢
  cases scaled : t.scaling with
  | none =>
    rw [scaled] at power
    obtain rfl := DoublesBy.pow_one power
    exact DoublesBy.ofSize_one
  | some p =>
    rw [scaled] at power range
    have nonzero := Int.natAbs_pos.mpr sound.nonzero
    rw [Option.isSome_some, if_pos rfl] at range ⊢
    have own : OfSize 100 p.multiplier :=
      Catalogue.ofSize_prefix (tabled.prefixes ▸ sound.base.2 p scaled)
    exact (DoublesBy.ofSize_pow promised power own (by omega)).mono (by omega)

/-- Sizes add up in a product of terms. -/
theorem Term.ofSize_foldlM {ts : List (Term (DoublesBy raise))} {b : ℕ} {x m : DoublesBy raise}
    (own : OfSize b x) (sound : ∀ t ∈ ts, t.Sound lex.Names)
    (range : b + 101 * (ts.map Term.scalings).sum ≤ 1022)
    (given : ts.foldlM (fun product t => t.multiplier.map (Scalar.mul product)) x = .ok m) :
    OfSize (b + 101 * (ts.map Term.scalings).sum) m := by
  induction ts generalizing b x with
  | nil =>
    obtain rfl := Except.ok.inj given
    exact own
  | cons t ts ih =>
    rw [List.foldlM_cons] at given
    obtain ⟨y, first, given⟩ := bind_eq_ok.mp given
    obtain ⟨p, power, rfl⟩ := map_eq_ok.mp first
    rw [List.map_cons, List.sum_cons, Nat.mul_add, ← Nat.add_assoc] at range ⊢
    obtain ⟨head, tail⟩ := List.forall_mem_cons.mp sound
    have size := Term.ofSize_multiplier promised tabled head (by omega) power
    exact ih (own.mul size (by omega)) tail range given

/-- The prefixes of a unit are together at most 101 bits away from 1 for each time one of them
multiplies or divides. -/
theorem Compound.ofSize_multiplier {m : DoublesBy raise} (sound : u.Sound lex.Names)
    (range : 101 * u.scalings ≤ 1022) (given : u.multiplier = .ok m) :
    OfSize (101 * u.scalings) m := by
  have size := Term.ofSize_foldlM promised tabled DoublesBy.ofSize_one
    (fun t mem => (sound.terms t mem).1) (by rwa [Nat.zero_add]) given
  rwa [Nat.zero_add] at size

/-! ### Taking off prefixes -/

namespace EdgeStore

variable {d : Dimension} {factor : Factor (DoublesBy raise)} {c : Conversion (DoublesBy raise)}

/-- Taking off prefixes leaves a factor without a sign. -/
theorem unsigned_unprefixed (sound : u.Sound lex.Names) (sound' : v.Sound lex.Names)
    (own : Unsigned factor.value) (made : unprefixed d u v factor = .ok c) :
    Unsigned c.factor.value := by
  have within := DoublesBy.within_unsigned promised
  have prefixes := tabled.good_prefixes within
  rcases unprefixed_cases made with ⟨_, same⟩ | ⟨_, m, n, down, up, _, value⟩
  · exact same ▸ own
  · rw [value]
    exact (own.mul ((Compound.brings_multiplier within prefixes sound').given down)).div
      ((Compound.brings_multiplier within prefixes sound).given up)

/-- Taking off prefixes leads a factor no further away from 1 than they are themselves. -/
theorem ofSize_unprefixed {b : ℕ} (sound : u.Sound lex.Names) (sound' : v.Sound lex.Names)
    (own : OfSize b factor.value) (range : b + 101 * (u.scalings + v.scalings) ≤ 1022)
    (made : unprefixed d u v factor = .ok c) : ∃ b, OfSize b c.factor.value := by
  rcases unprefixed_cases made with ⟨_, same⟩ | ⟨_, m, n, down, up, _, value⟩
  · exact ⟨b, same ▸ own⟩
  · have numerator := Compound.ofSize_multiplier promised tabled sound' (by omega) down
    have denominator := Compound.ofSize_multiplier promised tabled sound (by omega) up
    rw [value]
    exact ⟨_, (own.mul numerator (by omega)).div denominator (by omega)⟩

/-- What is tabled or expands a unit is of moderate size. -/
theorem ofSize_of_row {row : EdgeKey × Factor (DoublesBy raise)} (mem : row ∈ rows lex d)
    (src : lex.parse row.1.1 = .ok u) (dest : lex.parse row.1.2 = .ok v)
    (made : unprefixed d u v row.2 = .ok c) : ∃ b, OfSize b c.factor.value := by
  have sound := tabled.sound_of_parse src
  have sound' := tabled.sound_of_parse dest
  have few := u.scalings_le_span.trans (Lexicon.span_of_parse src)
  have few' := v.scalings_le_span.trans (Lexicon.span_of_parse dest)
  rcases List.mem_append.mp mem with mem | mem
  · obtain ⟨r, isRow, rfl⟩ := List.mem_map.mp mem
    obtain ⟨q, isQuantity, isRow, _⟩ := Catalogue.mem_conversions isRow
    obtain ⟨powers, size⟩ := Catalogue.moderate_of_conversion q isQuantity r isRow
    have own : OfSize 100 (Factor.read (Scalar.ofDecimal r.factor : DoublesBy raise)).value := size
    refine ofSize_unprefixed promised tabled sound sound' own ?_ made
    dsimp only at few few'
    omega
  · obtain ⟨w, listed, mem⟩ := List.mem_filterMap.mp mem
    obtain ⟨e, expands, rfl⟩ := Option.map_eq_some_iff.mp mem
    obtain ⟨found, rfl⟩ := tabled.find?_of_ofDimension listed
    obtain ⟨_, r, declared⟩ := tabled.declared _ w found
    obtain ⟨ascii, _, _, _, expansion, multiplier, _⟩ := declared.fields
    have own : e ∈ r.2.expansion := by
      rw [← expansion, expands]
      rfl
    have powers := Catalogue.powers_of_expansion r declared.1 e own
    rw [← ascii] at powers
    have size : OfSize 0 (Factor.read w.expansionMultiplier).value := by
      rw [Factor.value_read, multiplier]
      exact DoublesBy.ofSize_one
    refine ofSize_unprefixed promised tabled sound sound' size ?_ made
    dsimp only at few few'
    omega

/-- A factor that stays above zero and finite when prefixes are taken off two units: without
prefixes any that is finite, else one that is as far from the ends of the range as the prefixes may
lead. -/
def Secure {K : Type} (u v : Compound K) (x : Float) : Prop :=
  if u.hasPrefixes || v.hasPrefixes then
    ∃ b, OfSize b x ∧ b + 101 * (u.scalings + v.scalings) ≤ 1022
  else x.isFinite = true

omit promised tabled in
/-- A number of moderate size is secure either way. -/
theorem secure_of_ofSize {K : Type} {u v : Compound K} {x : Float} {b : ℕ} (own : OfSize b x)
    (room : b + 101 * (u.scalings + v.scalings) ≤ 1022) : Secure u v x := by
  unfold Secure
  split
  next => exact ⟨b, own, room⟩
  next => exact own.usable.finite

theorem usable_unprefixed (sound : u.Sound lex.Names) (sound' : v.Sound lex.Names)
    (secure : Secure u v factor.value) (positive : Scalar.isNotPositive factor.value = false)
    (made : unprefixed d u v factor = .ok c) : Usable c.factor.value := by
  unfold Secure at secure
  split at secure
  next =>
    obtain ⟨b, own, range⟩ := secure
    obtain ⟨b', size⟩ := ofSize_unprefixed promised tabled sound sound' own range made
    exact size.usable
  next bare =>
    rcases unprefixed_cases made with ⟨_, same⟩ | ⟨prefixed, _⟩
    · rw [same]
      exact usable_of_not_le (DoublesBy.not_le_zero positive) secure
    · exact absurd prefixed bare

end EdgeStore

end

/-! ### Runs -/

namespace Session

section

variable {K : Type} [Scalar K] {P : Dimension → EdgeKey × Conversion K → Prop} {s : Session K}

/-- Only an addition can make an edge that is not as `P` says. -/
theorem everywhere_event (tables : EdgeStore.RowsGive s.lexicon P)
    (everywhere : s.store.Everywhere P) {e : Event K}
    (own : ∀ src dest factor, e = .addConversion src dest factor →
      EdgeStore.AdditionGives s.lexicon P src dest factor) :
    (e.after s).store.Everywhere P := by
  cases e with
  | ask q =>
    exact store_ask (fun d _ => (EdgeStore.everywhere_edgesOf tables d).invariant) everywhere q
  | addConversion src dest factor =>
    rw [Event.after, store_addConversion]
    exact (EdgeStore.everywhere_add tables (own src dest factor rfl)).invariant everywhere
  | removeConversion src dest =>
    rw [Event.after, store_removeConversion]
    exact (EdgeStore.everywhere_remove tables src dest).invariant everywhere

/-- So what holds of all edges at first holds of them in every run whose additions keep to it. -/
theorem everywhere_after (tables : EdgeStore.RowsGive s.lexicon P)
    (everywhere : s.store.Everywhere P) {events : List (Event K)}
    (own : ∀ src dest factor, .addConversion src dest factor ∈ events →
      EdgeStore.AdditionGives s.lexicon P src dest factor) :
    (after events s).store.Everywhere P := by
  induction events generalizing s with
  | nil => exact everywhere
  | cons e rest ih =>
    -- no event changes the lexicon, so the rows and the additions to come mean the same after it
    have same := lexicon_event e s
    refine ih (same ▸ tables) (everywhere_event tables everywhere ?_) ?_
    · exact fun src dest factor isEvent => own src dest factor (isEvent ▸ List.mem_cons_self)
    · rw [same]
      exact fun src dest factor mem => own src dest factor (List.mem_cons_of_mem _ mem)

end

/-- A conversion that the caller gave with a factor that is not secure. -/
def Strayed (lex : Lexicon (DoublesBy raise)) (events : List (Event (DoublesBy raise)))
    (d : Dimension) (c : Conversion (DoublesBy raise)) : Prop :=
  ∃ src dest factor u v, .addConversion src dest factor ∈ events ∧ lex.parse src = .ok u ∧
    lex.parse dest = .ok v ∧ Scalar.isNotPositive factor.value = false ∧
      EdgeStore.unprefixed d u v factor = .ok c ∧ ¬ EdgeStore.Secure u v factor.value

/-- An edge whose factor has no sign, and is usable unless it strayed. -/
structure Explained (lex : Lexicon (DoublesBy raise)) (events : List (Event (DoublesBy raise)))
    (d : Dimension) (row : EdgeKey × Conversion (DoublesBy raise)) : Prop where
  unsigned : Unsigned row.2.factor.value
  usable : Usable row.2.factor.value ∨ Strayed lex events d row.2

section

variable {lex : Lexicon (DoublesBy raise)} (promised : DoublesBy.Promised raise)
  (tabled : lex.Tabled) {events : List (Event (DoublesBy raise))}
include promised tabled

theorem explained_of_rows : EdgeStore.RowsGive lex (Explained lex events) := by
  intro d row mem u v c src dest made
  obtain ⟨b, size⟩ := EdgeStore.ofSize_of_row promised tabled mem src dest made
  exact ⟨size.unsigned, .inl size.usable⟩

theorem explained_of_addition {src dest : String} {factor : Factor (DoublesBy raise)}
    (isEvent : .addConversion src dest factor ∈ events) :
    EdgeStore.AdditionGives lex (Explained lex events) src dest factor := by
  intro u v d c isSrc isDest _ _ positive made
  have sound := tabled.sound_of_parse isSrc
  have sound' := tabled.sound_of_parse isDest
  have unsigned := unsigned_of_not_le (DoublesBy.not_le_zero positive)
  refine ⟨EdgeStore.unsigned_unprefixed promised tabled sound sound' unsigned made, ?_⟩
  by_cases secure : EdgeStore.Secure u v factor.value
  · exact .inl (EdgeStore.usable_unprefixed promised tabled sound sound' secure positive made)
  · exact .inr ⟨src, dest, factor, u, v, isEvent, isSrc, isDest, positive, made, secure⟩

end

/-- A usable factor can be inverted. -/
theorem invert_isOk {c : Conversion (DoublesBy raise)} (usable : Usable c.factor.value) :
    ∃ e, c.invert = .ok e := by
  have nonzero : Scalar.isZero c.factor.value = false := usable.ne_zero
  unfold Conversion.invert Factor.inv
  rw [nonzero]
  exact ⟨_, rfl⟩

/-- **Positive factors.** Whatever conversions are added and taken out, made or refused: no
registered factor is below zero, and every one is above zero and finite, so that the edge can be
inverted, unless the caller gave a factor that was not finite or that left no room for taking off
the prefixes. -/
theorem registered_factors (promised : DoublesBy.Promised raise)
    {systems : List MeasurementSystem} {s : Session (DoublesBy raise)}
    (made : ofSystems systems = .ok s) (events : List (Event (DoublesBy raise))) {d : Dimension}
    {es : Edges (DoublesBy raise)} (registered : (after events s).registered d = .ok es)
    {row : EdgeKey × Conversion (DoublesBy raise)} (mem : row ∈ es.rows) :
    ¬ row.2.factor.value.toFloat < 0 ∧
      (Usable row.2.factor.value ∧ (∃ c, row.2.invert = .ok c) ∨
        Strayed s.lexicon events d row.2) := by
  have tabled := tabled_ofSystems made
  -- what strayed is told by the whole run, so that the property is one for all its states
  have tables : EdgeStore.RowsGive s.lexicon (Explained s.lexicon events) :=
    explained_of_rows promised tabled
  have start : s.store.Everywhere (Explained s.lexicon events) := by
    rw [(blank_of_ofSystems made).1]
    exact EdgeStore.everywhere_empty
  have everywhere : (after events s).store.Everywhere (Explained s.lexicon events) :=
    everywhere_after tables start fun _ _ _ isEvent =>
      explained_of_addition promised tabled isEvent
  obtain ⟨unsigned, usable | strayed⟩ :=
    everywhere.current (lexicon_after events s ▸ tables) registered row mem
  · exact ⟨unsigned.not_lt_zero, .inl ⟨usable, invert_isOk usable⟩⟩
  · exact ⟨unsigned.not_lt_zero, .inr strayed⟩

/-- A session with the units of astronomy, and powers that are products. -/
def stargazer : Session (DoublesBy DoublesBy.repeated) :=
  (ofSystems [.astronomical]).toOption.getD blank

/-- Square light years in a square kiloparsec. -/
def tenMillion : Factor (DoublesBy DoublesBy.repeated) := ⟨(1e7 : Float), (0 : Float)⟩

/-- A square kiloparsec is given in square light years. -/
def stargazing : List (Event (DoublesBy DoublesBy.repeated)) :=
  [.addConversion "kpc2" "ly2" tenMillion]

/-- A square parsec is registered as ten square light years. -/
theorem square_parsec_registered :
    ∃ es, (after stargazing stargazer).registered ((Dimension.ofAxis .length).pow 2) = .ok es ∧
      ∃ c, es.get? ("pc2", "ly2") = some c ∧ c.factor.value.toFloat = 10 ∧
        Usable c.factor.value ∧ ∃ e, c.invert = .ok e := by
  have facts : (ofSystems [.astronomical] :
        Except Error (Session (DoublesBy DoublesBy.repeated))).toOption.isSome ∧
      ((after stargazing stargazer).registered ((Dimension.ofAxis .length).pow 2)).toOption.map
        (fun es => (es.get? ("pc2", "ly2")).map (·.factor.value.toFloat)) = some (some 10) ∧
      (stargazer.lexicon.parse "kpc2").map Compound.scalings = .ok 2 ∧
      (stargazer.lexicon.parse "ly2").map Compound.scalings = .ok 0 ∧ OfSize 24 1e7 := by
    decide +kernel
  obtain ⟨loads, kept, scaled, plain, size⟩ := facts
  have made : ofSystems [.astronomical] = .ok stargazer := eq_ok_getD loads blank
  obtain ⟨es, isRegistered, shown⟩ := exists_ok_of_map_eq_some kept
  obtain ⟨c, edge, ten⟩ := Option.map_eq_some_iff.mp shown
  refine ⟨es, isRegistered, c, edge, ten, ?_⟩
  obtain ⟨_, usable | strayed⟩ := registered_factors DoublesBy.promised_repeated made stargazing
    isRegistered (Register.mem_rows_of_get? edge)
  · exact usable
  · obtain ⟨src, dest, factor, u, v, isEvent, isSrc, isDest, _, _, insecure⟩ := strayed
    obtain ⟨rfl, rfl, rfl⟩ : src = "kpc2" ∧ dest = "ly2" ∧ factor = tenMillion := by
      simpa [stargazing] using isEvent
    rw [isSrc] at scaled
    rw [isDest] at plain
    have first : u.scalings = 2 := Except.ok.inj scaled
    have second : v.scalings = 0 := Except.ok.inj plain
    exact absurd (EdgeStore.secure_of_ofSize size (by omega)) insecure

/-- A session with the units of astronomy. -/
def astronomer : Session Float := (ofSystems [.astronomical]).toOption.getD blank

/-- The edge between two units once a conversion was added. -/
def edgeAfter (src dest : String) (x : Float) (key : EdgeKey) : Option (Conversion Float) :=
  (registered (after [.addConversion src dest ⟨x, 0⟩] astronomer) (.ofAxis .length)).toOption.bind
    (·.get? key)

/-- A factor that is given as the smallest number above zero is registered as zero and cannot be
inverted; one that is given as a large number is registered as infinite; and what is not a number is
registered. -/
theorem unusable_factors :
    ofSystems [.astronomical] = .ok astronomer ∧
      (edgeAfter "kpc" "ly" 5e-324 ("pc", "ly")).map (fun c => (c.factor.value, c.invert)) =
        some (0, .error .inversionOfZero) ∧
      (edgeAfter "ly" "kpc" 1e308 ("ly", "pc")).map (·.factor.value.isInf) = some true ∧
      (edgeAfter "pc" "ly" (0 / 0) ("pc", "ly")).map (·.factor.value.isNaN) = some true := by
  refine ⟨eq_ok_getD (by decide +kernel) blank, ?_⟩
  decide +kernel

end Session

end Metrology
