import Metrology.Proofs.Session.Gathering
import Metrology.Proofs.Session.Replies
import Metrology.Proofs.Unit.Powers

/-!
# Conversions of products of powers

A product of powers converts to another one of its dimension if both reduce to SI base units. Where
the conversions do not contradict one another, the factor is the same product of powers of the
factors between the units that are multiplied.
-/
namespace Metrology

variable {K : Type} [Field K] [LinearOrder K] [IsStrictOrderedRing K] [Scalar K] [Scalar.Exact K]

theorem Dimension.inRange_of_pow {d : Dimension} {n : Int} (nonzero : n ≠ 0)
    (inRange : (d.pow n).InRange) : d.InRange := by
  intro a mem
  have power := inRange a mem
  rw [Dimension.exponent_pow, Int.natAbs_mul] at power
  exact (Nat.le_mul_of_pos_right _ (Int.natAbs_pos.mpr nonzero)).trans power

/-- A product of powers has the product of the powers of the sizes. -/
theorem Compound.IsProduct.size_eq {lex : Lexicon K} {c : Compound K}
    {powers : List (Compound K × Int)} {size : NamedUnit K → K} (tabled : lex.Tabled)
    (assigns : lex.Assigns size) (product : c.IsProduct powers) (sound : c.Sound lex.Names)
    (each : ∀ p ∈ powers, p.1.Sound lex.Names) :
    c.size size = (powers.map fun p => p.1.size size ^ p.2).prod := by
  -- units that are not registered may have the size zero, but do not occur
  let value (u : NamedUnit K) (p : Option (Prefix K)) : K :=
    if scaledSize size u p = 0 then 1 else scaledSize size u p
  have nonzero (u : NamedUnit K) (p : Option (Prefix K)) : value u p ≠ 0 := by
    unfold value
    split
    next => exact one_ne_zero
    next other => exact other
  have sizes {d : Compound K} (sound : d.Sound lex.Names) :
      valueOf value d.terms = d.size size := by
    refine congrArg List.prod (List.map_congr_left fun t mem => ?_)
    have own := assigns.scaledSize_ne_zero tabled t.unit t.scaling (sound.terms t mem).1.base
    unfold value
    rw [if_neg own]
    rfl
  rw [← sizes sound, product value nonzero]
  exact congrArg List.prod (List.map_congr_left fun p mem => by rw [sizes (each p mem)])

namespace Session

open Metrology.Action (Yields)

/-! ### Conversions that are given -/

section Existence

variable {o : Session K} {asked : Compound K → Prop} {u v : Compound K} {d : Dimension}
variable (nonzero : o.NonZero) (forgotten : o.Forgotten) (buildable : o.Buildable)
include nonzero forgotten

/-- The terms of a unit that reduces may be joined to one another. -/
theorem joinable_of_reduces (sound : u.Sound o.lexicon.Names) (reduces : o.Reduces u)
    (dimension : u.dimension = .ok d) (parts : ∀ c, u.HasPart c → asked c) :
    ∀ t ∈ u.terms, Joinable o asked t := by
  intro t mem
  obtain ⟨base, visible⟩ := sound.terms t mem
  obtain ⟨_, own⟩ := (Compound.dimension_eq_ok_iff.mp dimension).1 t mem
  refine ⟨⟨base, fun v c made single => parts c ⟨t, mem, v, made, single⟩⟩, visible,
    reduces.terms nonzero forgotten sound t mem, ?_⟩
  obtain ⟨rfl, inRange⟩ := Dimension.checked_eq_ok_iff.mp own
  exact Dimension.inRange_of_pow base.nonzero inRange

variable (apart : ToldApart o.lexicon asked)
include buildable apart

/-- A conversion is computed between units of one dimension that reduce and merge in range. -/
theorem yields_compute_of_reduces (sound : u.Sound o.lexicon.Names)
    (sound' : v.Sound o.lexicon.Names) (dimension : u.dimension = .ok d)
    (dimension' : v.dimension = .ok d)
    (merges : u.MergesInRange) (merges' : v.MergesInRange) (reduces : o.Reduces u)
    (reduces' : o.Reduces v) (parts : ∀ c, u.HasPart c ∨ v.HasPart c → asked c) :
    (compute mergeFactor d u v).Yields (Echoes o asked) fun found => ∃ c, found = some c := by
  have terms := joinable_of_reduces nonzero forgotten sound reduces dimension
    fun c part => parts c (.inl part)
  have terms' := joinable_of_reduces nonzero forgotten sound' reduces' dimension'
    fun c part => parts c (.inr part)
  have whole {w : Compound K} (dimension : w.dimension = .ok d) : w.total.InRange := by
    obtain ⟨_, rfl, inRange⟩ := Compound.dimension_eq_ok_iff.mp dimension
    exact inRange
  exact yields_compute nonzero forgotten buildable
    (yields_mergeFactor nonzero forgotten buildable apart terms merges (whole dimension))
    (yields_mergeFactor nonzero forgotten buildable apart terms' merges' (whole dimension'))

/-- So it is given, if none was missed under the same symbols before. -/
theorem conversion_isSome_of_reduces (sound : u.Sound o.lexicon.Names)
    (sound' : v.Sound o.lexicon.Names) (dimension : u.dimension = .ok d)
    (dimension' : v.dimension = .ok d) (merges : u.MergesInRange) (merges' : v.MergesInRange)
    (reduces : o.Reduces u) (reduces' : o.Reduces v)
    (parts : ∀ c, u.HasPart c ∨ v.HasPart c → asked c)
    {s : Session K} (echoes : Echoes o asked s)
    (remembered : ∀ found, (s.chart d).answers.get? (u.write .ascii, v.write .ascii) = some found →
      asked u ∧ asked v) :
    ∃ c, ((conversion (.compound u) (.compound v)).apply s).1 = .ok (some c) := by
  have computes := yields_compute_of_reduces nonzero forgotten buildable apart sound sound'
    dimension dimension' merges merges' reduces reduces' parts
  have same : ((conversion (.compound u) (.compound v)).apply s).1 =
      ((conversionIn d (.compound u) (.compound v)).apply s).1 := by
    rw [conversion, Action.apply_bind, parse_apply]
    dsimp only [Lexicon.deref]
    rw [dimension]
    rfl
  rw [same]
  refine conversionIn_isSome rfl rfl dimension dimension' computes echoes fun found known => ?_
  obtain ⟨askedU, askedV⟩ := remembered found known
  have matched := echoes.answers d u v found askedU askedV known
  obtain ⟨_, x, run, c, rfl⟩ := computes o forgotten.echoes
  rw [run] at matched
  obtain ⟨c, isC, _⟩ := matched.some_of_right
  exact ⟨c, Except.ok.inj isC⟩

end Existence

/-- A session that was just made converts units of one dimension that reduce and merge in range,
after questions about units that do not share symbols with them. -/
theorem exists_reply {systems : List MeasurementSystem} {s : Session K}
    (made : ofSystems systems = .ok s) {src dest : Compound K} (sound : src.Sound s.lexicon.Names)
    (sound' : dest.Sound s.lexicon.Names) {d : Dimension} (dimension : src.dimension = .ok d)
    (dimension' : dest.dimension = .ok d) (merges : src.MergesInRange)
    (merges' : dest.MergesInRange) (reduces : s.Reduces src) (reduces' : s.Reduces dest)
    {asked : List (Query K)}
    (known : ∀ q ∈ asked, ∀ ref ∈ q.refs, s.lexicon.Refers ref)
    (apart : asked ≠ [] →
      TellsApart s.lexicon (.conversion (.compound src) (.compound dest) :: asked)) :
    ∃ c, reply asked (.compound src) (.compound dest) s = .ok (some c) := by
  have tabled := tabled_ofSystems made
  have nonzero := nonZero_ofSystems made
  obtain ⟨empty, forgotten⟩ := blank_of_ofSystems made
  have buildable : s.Buildable := fun d => by
    rw [empty]
    exact EdgeStore.current_isOk tabled d
  by_cases none : asked = []
  · -- nothing is remembered, and merging asks for single terms only
    subst none
    have told : ToldApart s.lexicon fun c => src.HasPart c ∨ dest.HasPart c :=
      toldApart_of_reordered tabled fun c part =>
        ⟨part.elim (sound_of_hasPart sound) (sound_of_hasPart sound'),
          part.elim reordered_of_hasPart reordered_of_hasPart⟩
    refine conversion_isSome_of_reduces nonzero forgotten buildable told sound sound' dimension
      dimension' merges merges' reduces reduces' (fun _ part => part) forgotten.echoes
      fun found known => ?_
    simp [perform, forgotten.chart, Chart.blank] at known
  · let compared (c : Compound K) : Prop :=
      ∃ q ∈ .conversion (.compound src) (.compound dest) :: asked, q.Compares s.lexicon c
    have refers : ∀ q ∈ .conversion (.compound src) (.compound dest) :: asked,
        ∀ ref ∈ q.refs, s.lexicon.Refers ref := by
      refine List.forall_mem_cons.mpr ⟨fun ref mem => ?_, known⟩
      simp only [Query.refs, List.mem_cons, List.not_mem_nil, or_false] at mem
      rcases mem with rfl | rfl
      · exact sound
      · exact sound'
    have told : ToldApart s.lexicon compared :=
      toldApart_of_tellsApart nonzero.lexicon.indexed refers (apart none)
    have ends (u : Compound K) (mem : u ∈ [src, dest]) (c : Compound K)
        (own : u = c ∨ u.HasPart c) : compared c :=
      ⟨_, List.mem_cons_self, .compound u, by simpa using mem, u, rfl, own⟩
    have echoes : Echoes s compared (perform (asked.map .ask) s) :=
      forgotten.echoes.perform nonzero forgotten told known
        fun q mem c compares => ⟨q, List.mem_cons_of_mem _ mem, compares⟩
    exact conversion_isSome_of_reduces nonzero forgotten buildable told sound sound' dimension
      dimension' merges merges' reduces reduces'
      (fun c part => part.elim (fun own => ends src (by simp) c (.inr own))
        fun own => ends dest (by simp) c (.inr own))
      echoes fun _ _ => ⟨ends src (by simp) src (.inl rfl), ends dest (by simp) dest (.inl rfl)⟩

/-! ### Factors -/

section Factors

variable {s : Session K} {asked : List (Query K)} {src dest : Compound K}

/-- Questions leave what is remembered right. -/
theorem Remembers.perform {lex : Lexicon K} {store : EdgeStore K} (tabled : lex.Tabled)
    (remembers : s.Remembers lex store) (known : ∀ q ∈ asked, ∀ ref ∈ q.refs, lex.Refers ref) :
    (Session.perform (asked.map .ask) s).Remembers lex store := by
  induction asked generalizing s with
  | nil => exact remembers
  | cons q rest ih =>
    exact ih (remembers.ask tabled (known q List.mem_cons_self))
      fun r mem => known r (List.mem_cons_of_mem _ mem)

/-- A conversion that is given after any questions holds for the sizes that fit. -/
theorem size_of_reply (tabled : s.lexicon.Tabled) (coherent : s.Coherent s.lexicon)
    (known : ∀ q ∈ asked, ∀ ref ∈ q.refs, s.lexicon.Refers ref) (sound : src.Sound s.lexicon.Names)
    (sound' : dest.Sound s.lexicon.Names) {c : Conversion K}
    (given : reply asked (.compound src) (.compound dest) s = .ok (some c)) {size : NamedUnit K → K}
    (fits : s.lexicon.Fits s.store size) : src.size size = c.factor.value * dest.size size := by
  have keeps : (conversion (.compound src) (.compound dest)).Keeps
      (Remembers s.lexicon s.store) _ := keeps_conversion tabled sound sound'
  obtain ⟨u, v, meant, meant', _, _, holds⟩ :=
    keeps.answer (Remembers.perform tabled coherent known) given c rfl
  obtain rfl := Except.ok.inj meant
  obtain rfl := Except.ok.inj meant'
  exact holds size fits

end Factors

/-- A conversion between two units, and the power that it is raised to. -/
structure Raised (K : Type) where
  src : Compound K
  dest : Compound K
  conversion : Conversion K
  exponent : Int

/-- The session gives the conversion between the units, which it knows, after some questions or
none. -/
def Raised.Given (s : Session K) (r : Raised K) : Prop :=
  r.src.Sound s.lexicon.Names ∧ r.dest.Sound s.lexicon.Names ∧
    ∃ earlier : List (Query K), (∀ q ∈ earlier, ∀ ref ∈ q.refs, s.lexicon.Refers ref) ∧
      reply earlier (.compound r.src) (.compound r.dest) s = .ok (some r.conversion)

/-- The factor between products of powers is the product of the powers of the factors, for sizes
that fit. -/
theorem factor_of_products {s : Session K} (tabled : s.lexicon.Tabled)
    (coherent : s.Coherent s.lexicon) {size : NamedUnit K → K} (fits : s.lexicon.Fits s.store size)
    {rs : List (Raised K)} (converts : ∀ r ∈ rs, r.Given s) {src dest : Compound K}
    (sound : src.Sound s.lexicon.Names) (sound' : dest.Sound s.lexicon.Names)
    (product : src.IsProduct (rs.map fun r => (r.src, r.exponent)))
    (product' : dest.IsProduct (rs.map fun r => (r.dest, r.exponent))) {x : K}
    (holds : src.size size = x * dest.size size) :
    x = (rs.map fun r => r.conversion.factor.value ^ r.exponent).prod := by
  have parts (r : Raised K) (mem : r ∈ rs) :
      r.src.size size = r.conversion.factor.value * r.dest.size size := by
    obtain ⟨soundR, soundR', earlier, known, own⟩ := converts r mem
    exact size_of_reply tabled coherent known soundR soundR' own fits
  have assigns := fits.toAssigns
  have size_src : src.size size = (rs.map fun r => r.src.size size ^ r.exponent).prod := by
    rw [product.size_eq tabled assigns sound (by simpa using fun r mem => (converts r mem).1),
      List.map_map]
    rfl
  have size_dest : dest.size size = (rs.map fun r => r.dest.size size ^ r.exponent).prod := by
    rw [product'.size_eq tabled assigns sound' (by simpa using fun r mem => (converts r mem).2.1),
      List.map_map]
    rfl
  refine mul_right_cancel₀ (assigns.size_ne_zero tabled sound') ?_
  calc x * dest.size size
      = (rs.map fun r => r.src.size size ^ r.exponent).prod := by rw [← holds, size_src]
    _ = (rs.map fun r => r.conversion.factor.value ^ r.exponent *
          r.dest.size size ^ r.exponent).prod :=
        congrArg List.prod (List.map_congr_left fun r mem => by rw [parts r mem, mul_zpow])
    _ = (rs.map fun r => r.conversion.factor.value ^ r.exponent).prod * dest.size size := by
        rw [List.prod_map_mul, size_dest]

/-- **Conversions lift to products of powers.** A session is made from any systems. It converts
units, single ones for example, to others. Products of powers of the ones and, with the same
exponents, of the others have the same dimension. Then the first product converts to the second if
both reduce to SI base units and the exponents and dimensions stay in range when terms of one
dimension are merged; before that nothing was asked, or what was asked does not share symbols with
them. And whenever it converts, the factor is the product of the powers of the single factors, if
there are sizes of the units that fit the registered conversions, so that these do not contradict
one another. -/
theorem conversion_of_products {systems : List MeasurementSystem} {s : Session K}
    (made : ofSystems systems = .ok s) {rs : List (Raised K)} (converts : ∀ r ∈ rs, r.Given s)
    {src dest : Compound K} (sound : src.Sound s.lexicon.Names)
    (sound' : dest.Sound s.lexicon.Names)
    (product : src.IsProduct (rs.map fun r => (r.src, r.exponent)))
    (product' : dest.IsProduct (rs.map fun r => (r.dest, r.exponent))) {d : Dimension}
    (dimension : src.dimension = .ok d) (dimension' : dest.dimension = .ok d)
    {asked : List (Query K)} (known : ∀ q ∈ asked, ∀ ref ∈ q.refs, s.lexicon.Refers ref) :
    (src.MergesInRange → dest.MergesInRange → s.Reduces src → s.Reduces dest →
      (asked ≠ [] → TellsApart s.lexicon (.conversion (.compound src) (.compound dest) :: asked)) →
      ∃ c, reply asked (.compound src) (.compound dest) s = .ok (some c)) ∧
    ∀ c, reply asked (.compound src) (.compound dest) s = .ok (some c) →
      (∃ size, s.lexicon.Fits s.store size) →
        c.factor.value = (rs.map fun r => r.conversion.factor.value ^ r.exponent).prod := by
  have tabled := tabled_ofSystems made
  have coherent := coherent_ofSystems made
  refine ⟨fun merges merges' reduces reduces' apart => ?_, fun c given ⟨size, fits⟩ => ?_⟩
  · exact exists_reply made sound sound' dimension dimension' merges merges' reduces reduces' known
      apart
  · exact factor_of_products tabled coherent fits converts sound sound' product product'
      (size_of_reply tabled coherent known sound sound' given fits)

/-- A session with everyday units. -/
def archivist : Session ℚ := (ofSystems [.everyday]).toOption.getD blank

/-- A unit of this session, by its symbol. -/
@[irreducible] def archived (text : String) : Compound ℚ :=
  -- kept closed, or else unification would load the session and parse the text
  (archivist.lexicon.parse text).toOption.getD .one

/-- Sizes in bits, gradians and months. -/
def amounts (u : NamedUnit ℚ) : ℚ :=
  ([("%", 1/100), ("ppt", 1/1000), ("ppm", 1/1000000), ("ppb", 1/1000000000), ("turn", 400),
    ("B", 8), ("y", 12)].lookup u.asciiSymbol).getD 1

/-- Kibibytes are converted to bits and percent to per mille, the one squared and the other
inverted. -/
def densities : List (Raised ℚ) :=
  [⟨archived "%", archived "ppt", ⟨"1", "%", "ppt", ⟨10, 0⟩⟩, -1⟩,
    ⟨archived "KiB", archived "b", ⟨"D", "KiB", "b", ⟨8192, 0⟩⟩, 2⟩]

/-- The conversions that are asked for first. -/
def inquiries : List (Query ℚ) :=
  densities.map fun r => .conversion (.compound r.src) (.compound r.dest)

theorem ofSystems_archivist : ofSystems [.everyday] = .ok archivist :=
  eq_ok_getD (by decide +kernel) blank

theorem sound_archived {text : String}
    (read : (archivist.lexicon.parse text).toOption.isSome = true) :
    (archived text).Sound archivist.lexicon.Names := by
  unfold archived
  exact (tabled_ofSystems ofSystems_archivist).sound_of_parse (eq_ok_getD read .one)

theorem fits_amounts : archivist.lexicon.Fits archivist.store amounts :=
  fits_of_checks (tabled_ofSystems ofSystems_archivist) (by decide +kernel)

/-- The units that are converted or multiplied. -/
def densityTexts : List String := ["%", "ppt", "KiB", "b", "KiB2", "b2", "KiB2/%", "b2/ppt"]

theorem sound_densityTexts : ∀ text ∈ densityTexts,
    (archived text).Sound archivist.lexicon.Names ∧ (archived text).reordered = archived text := by
  have readable : ∀ text ∈ densityTexts, (archivist.lexicon.parse text).toOption.isSome = true ∧
      (archived text).reordered = archived text := by decide +kernel
  exact fun text mem => ⟨sound_archived (readable text mem).1, (readable text mem).2⟩

theorem given_densities : ∀ r ∈ densities, r.Given archivist := by
  have given : ∀ r ∈ densities, reply [] (.compound r.src) (.compound r.dest) archivist =
      .ok (some r.conversion) := by decide +kernel
  intro r mem
  refine ⟨?_, ?_, [], by simp, given r mem⟩
  · rcases List.mem_pair.mp mem with rfl | rfl
    · exact (sound_densityTexts "%" (by decide)).1
    · exact (sound_densityTexts "KiB" (by decide)).1
  · rcases List.mem_pair.mp mem with rfl | rfl
    · exact (sound_densityTexts "ppt" (by decide)).1
    · exact (sound_densityTexts "b" (by decide)).1

/-- A square over another unit is the product of both. -/
theorem isProduct_archived (x y square inverse whole : String)
    (listed : ∀ text ∈ [x, y, square], text ∈ densityTexts)
    (made : (archived x).pow 2 = .ok (archived square) ∧
      Compound.one.mul (archived square) = .ok (archived square) ∧
      (archived y).pow (-1) = .ok (archived inverse) ∧
      (archived square).mul (archived inverse) = .ok (archived whole)) :
    (archived whole).IsProduct [(archived y, -1), (archived x, 2)] := by
  obtain ⟨squared, one, inverted, product⟩ := made
  have tabled := tabled_ofSystems ofSystems_archivist
  have sound (text : String) (mem : text ∈ [x, y, square]) :=
    (sound_densityTexts text (listed text mem)).1
  have first : (archived square).IsProduct [(archived x, 2)] :=
    Compound.isProduct_one.mul_pow tabled Compound.sound_one (sound x (by simp)) squared one
  exact first.mul_pow tabled (sound square (by simp)) (sound y (by simp)) inverted product

/-- Square kibibytes to the percent convert to square bits to the per mille, by the square of the
one factor over the other. -/
theorem densities_converted :
    ofSystems [.everyday] = .ok archivist ∧ (∀ r ∈ densities, r.Given archivist) ∧
      (archived "KiB2/%").IsProduct (densities.map fun r => (r.src, r.exponent)) ∧
      (archived "b2/ppt").IsProduct (densities.map fun r => (r.dest, r.exponent)) ∧
      (archived "KiB2/%").MergesInRange ∧ (archived "b2/ppt").MergesInRange ∧
      archivist.Reduces (archived "KiB2/%") ∧ archivist.Reduces (archived "b2/ppt") ∧
      TellsApart archivist.lexicon (.conversion (.compound (archived "KiB2/%"))
        (.compound (archived "b2/ppt")) :: inquiries) ∧
      archivist.lexicon.Fits archivist.store amounts ∧
      ∃ c, reply inquiries (.compound (archived "KiB2/%")) (.compound (archived "b2/ppt"))
          archivist = .ok (some c) ∧ c.factor.value = 6710886.4 := by
  have tabled := tabled_ofSystems ofSystems_archivist
  have product : (archived "KiB2/%").IsProduct (densities.map fun r => (r.src, r.exponent)) :=
    isProduct_archived "KiB" "%" "KiB2" "%-1" "KiB2/%" (by decide) (by decide +kernel)
  have product' : (archived "b2/ppt").IsProduct (densities.map fun r => (r.dest, r.exponent)) :=
    isProduct_archived "b" "ppt" "b2" "ppt-1" "b2/ppt" (by decide) (by decide +kernel)
  have each : ∀ row ∈ [("KiB2/%", ⟨104857600, 0⟩), ("b2/ppt", ⟨125/8, 0⟩)],
      (archived row.1).MergesInRange ∧
        (archived row.1).dimension = .ok ((Dimension.ofAxis .data).pow 2) ∧
        ((toBase (archived row.1) true).apply archivist).1 = .ok (some row.2) := by decide +kernel
  obtain ⟨merges, dimension, base⟩ := each ("KiB2/%", ⟨104857600, 0⟩) (by simp)
  obtain ⟨merges', dimension', base'⟩ := each ("b2/ppt", ⟨125/8, 0⟩) (by simp)
  have reduces : archivist.Reduces (archived "KiB2/%") := ⟨_, base⟩
  have reduces' : archivist.Reduces (archived "b2/ppt") := ⟨_, base'⟩
  have named : ∀ q ∈ .conversion (.compound (archived "KiB2/%")) (.compound (archived "b2/ppt")) ::
      inquiries, ∀ ref ∈ q.refs, ∃ text ∈ densityTexts, ref = .compound (archived text) := by
    simp [inquiries, densities, Query.refs, densityTexts]
  have known : ∀ q ∈ .conversion (.compound (archived "KiB2/%")) (.compound (archived "b2/ppt")) ::
      inquiries, ∀ ref ∈ q.refs, archivist.lexicon.Refers ref := by
    intro q mem ref isRef
    obtain ⟨text, listed, rfl⟩ := named q mem ref isRef
    exact (sound_densityTexts text listed).1
  have apart := tellsApart_of_reordered tabled known fun q mem ref isRef u meant => by
    obtain ⟨text, listed, rfl⟩ := named q mem ref isRef
    obtain rfl := Except.ok.inj meant
    exact (sound_densityTexts text listed).2
  obtain ⟨exist, factor⟩ := conversion_of_products ofSystems_archivist given_densities
    (sound_densityTexts "KiB2/%" (by decide)).1 (sound_densityTexts "b2/ppt" (by decide)).1 product
    product' dimension dimension' fun q mem => known q (List.mem_cons_of_mem _ mem)
  obtain ⟨c, given⟩ := exist merges merges' reduces reduces' fun _ => apart
  refine ⟨ofSystems_archivist, given_densities, product, product', merges, merges', reduces,
    reduces', apart, fits_amounts, c, given, (factor c given ⟨amounts, fits_amounts⟩).trans ?_⟩
  norm_num [densities]

/-- A session with the units of the United States alone, which do not reduce to metres. -/
def surveyor : Session ℚ := (ofSystems [.us]).toOption.getD blank

/-- Feet convert to yards, but square feet do not convert to square yards where neither reduces to
SI base units. And quarts convert to pints, but products of gallons with them are merged first, and
are out of range where the products were not. -/
theorem conversions_do_not_lift :
    ofSystems [.us] = .ok surveyor ∧
      (reply [] (.symbol "ft") (.symbol "yd") surveyor = .ok (some ⟨"L", "ft", "yd", ⟨1/3, 0⟩⟩) ∧
        (do (← surveyor.lexicon.parse "ft").pow 2) = surveyor.lexicon.parse "ft2" ∧
        (do (← surveyor.lexicon.parse "yd").pow 2) = surveyor.lexicon.parse "yd2" ∧
        (∀ text ∈ ["ft2", "yd2"], (do (← surveyor.lexicon.parse text).dimension) =
          .ok ((Dimension.ofAxis .length).pow 2)) ∧
        reply [] (.symbol "ft2") (.symbol "yd2") surveyor = .ok none) ∧
      (reply [] (.symbol "US qt") (.symbol "US pt") surveyor =
          .ok (some ⟨"L3", "US qt", "US pt", ⟨2, 0⟩⟩) ∧
        (∀ text ∈ ["US gal2*US qt2/ft9", "US gal2*US pt2/ft9"],
          (do (← surveyor.lexicon.parse text).dimension) = .ok ((Dimension.ofAxis .length).pow 3)) ∧
        reply [] (.symbol "US gal2*US qt2/ft9") (.symbol "US gal2*US pt2/ft9") surveyor =
          .error (.dimensionOutOfRange 12 'L')) := by
  refine ⟨eq_ok_getD (by decide +kernel) blank, ?_⟩
  decide +kernel

end Session

end Metrology
