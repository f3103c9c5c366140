import Metrology.Proofs.Graph.Finding
import Metrology.Proofs.Session.Replies
import Metrology.Proofs.Unit.Small

/-!
# Units that the registries relate

Whether two units convert to one another is settled by the registered units and conversions, whatever
numbers these have and whatever is remembered: by the symbols that conversions join, by the units that
lead to SI base units, and by the terms that merging joins, which are those that convert to one
another.
-/
namespace Metrology.Session

variable {K : Type} [Scalar K]

/-! ### Symbols and single units -/

/-- Two symbols are the same, or the registered conversions of the dimension join them. -/
def Coupled (o : Session K) (d : Dimension) (a b : String) : Prop :=
  a = b ∨ ∃ es, EdgeStore.current o.lexicon o.store d = .ok es ∧
    (drawn o.lexicon d es).Connected a b

/-- A unit leads to SI base units: it is joined to the base unit of its axis, or its expansion does
or, if bridging is allowed, a node does that it is joined to. -/
inductive UnitGrounded (o : Session K) : Bool → NamedUnit K → Prop
  | base {bridging : Bool} {u : NamedUnit K} {a : Axis} {si : Term K}
      (axis : u.dimension.baseAxis? = some a) (listed : o.lexicon.contains a.plainSymbol = true)
      (read : o.lexicon.siTerm a = .ok si)
      (joined : o.Coupled u.dimension u.asciiSymbol si.unit.asciiSymbol) :
      UnitGrounded o bridging u
  | expanded {bridging : Bool} {u : NamedUnit K} {expansion : String} {c : Compound K}
      (axis : u.dimension.baseAxis? = none) (expands : u.expansion = some expansion)
      (read : o.lexicon.parse expansion = .ok c)
      (terms : ∀ t ∈ c.terms, UnitGrounded o bridging t.unit) : UnitGrounded o bridging u
  | bridged {u : NamedUnit K} {es : Edges K} {node : String} {c : Compound K}
      (axis : u.dimension.baseAxis? = none) (plain : u.expansion = none)
      (registered : EdgeStore.current o.lexicon o.store u.dimension = .ok es)
      (isNode : node ∈ (drawn o.lexicon u.dimension es).nodes) (other : node ≠ u.asciiSymbol)
      (read : o.lexicon.parse node = .ok c)
      (simple : (c.terms.all fun t => t.isBase || t.unit.isExpandable) = true)
      (joined : o.Coupled u.dimension u.asciiSymbol node)
      (terms : ∀ t ∈ c.terms, UnitGrounded o false t.unit) : UnitGrounded o true u

/-- The unit may be bridged to the node. -/
def Bridges (o : Session K) (u : NamedUnit K) (node : String) : Prop :=
  node ≠ u.asciiSymbol ∧ ∃ c, o.lexicon.parse node = .ok c ∧
    (c.terms.all fun t => t.isBase || t.unit.isExpandable) = true ∧
    o.Coupled u.dimension u.asciiSymbol node ∧ ∀ t ∈ c.terms, o.UnitGrounded false t.unit

section Grounded

variable {o : Session K} {u : NamedUnit K} {bridging : Bool}

theorem unitGrounded_base_iff {a : Axis} (axis : u.dimension.baseAxis? = some a) :
    o.UnitGrounded bridging u ↔ o.lexicon.contains a.plainSymbol = true ∧ ∃ si,
      o.lexicon.siTerm a = .ok si ∧ o.Coupled u.dimension u.asciiSymbol si.unit.asciiSymbol := by
  constructor
  · intro grounded
    cases grounded with
    | base axis' listed read joined =>
      obtain rfl := Option.some.inj (axis.symm.trans axis')
      exact ⟨listed, _, read, joined⟩
    | expanded other => rw [other] at axis; cases axis
    | bridged other => rw [other] at axis; cases axis
  · rintro ⟨listed, si, read, joined⟩
    exact .base axis listed read joined

variable (axis : u.dimension.baseAxis? = none)
include axis

theorem unitGrounded_expanded_iff {expansion : String} (expands : u.expansion = some expansion)
    {c : Compound K} (read : o.lexicon.parse expansion = .ok c) :
    o.UnitGrounded bridging u ↔ ∀ t ∈ c.terms, o.UnitGrounded bridging t.unit := by
  refine ⟨fun grounded => ?_, .expanded axis expands read⟩
  cases grounded with
  | base other => rw [other] at axis; cases axis
  | expanded _ expands' read' terms =>
    obtain rfl := Option.some.inj (expands.symm.trans expands')
    obtain rfl := Except.ok.inj (read.symm.trans read')
    exact terms
  | bridged _ other => rw [other] at expands; cases expands

theorem unitGrounded_bridged_iff (plain : u.expansion = none) {es : Edges K}
    (registered : EdgeStore.current o.lexicon o.store u.dimension = .ok es) :
    o.UnitGrounded true u ↔ ∃ node ∈ (drawn o.lexicon u.dimension es).nodes, o.Bridges u node := by
  constructor
  · intro grounded
    cases grounded with
    | base other => rw [other] at axis; cases axis
    | expanded _ other => rw [other] at plain; cases plain
    | bridged _ _ registered' isNode other read simple joined terms =>
      obtain rfl := Except.ok.inj (registered.symm.trans registered')
      exact ⟨_, isNode, other, _, read, simple, joined, terms⟩
  · rintro ⟨node, isNode, other, c, read, simple, joined, terms⟩
    exact .bridged axis plain registered isNode other read simple joined terms

/-- Without an axis and an expansion a unit has to be bridged. -/
theorem not_unitGrounded (plain : u.expansion = none) : ¬ o.UnitGrounded false u := by
  intro grounded
  cases grounded with
  | base other => rw [other] at axis; cases axis
  | expanded _ other => rw [other] at plain; cases plain

end Grounded

/-- All units of a compound unit lead to SI base units. -/
def Grounded (o : Session K) (c : Compound K) : Prop := ∀ t ∈ c.terms, o.UnitGrounded true t.unit

/-- Merged units that convert to one another: they are the same or, without their prefixes, they are
joined or both lead to SI base units. -/
def Tied (o : Session K) (d : Dimension) (src dest : Compound K) : Prop :=
  src.same dest = .ok true ∨ ∃ u v, src.withoutPrefixes = .ok u ∧ dest.withoutPrefixes = .ok v ∧
    (o.Coupled d (u.write .ascii) (v.write .ascii) ∨ o.Grounded u ∧ o.Grounded v)

/-! ### Merging -/

/-- A term of one dimension with another one that converts to it, but for their exponents. -/
def Joins (o : Session K) (t head : Term K) : Prop :=
  head.unit.dimension = t.unit.dimension ∧ ∃ v w c e, t.withoutExponent = .ok v ∧
    Compound.ofTerms [v] = .ok c ∧ head.withoutExponent = .ok w ∧ Compound.ofTerms [w] = .ok e ∧
    o.Tied t.unit.dimension c e

open Classical in
/-- Adds a term to the first group whose head it joins, or opens a new one at the end. -/
noncomputable def place (joins : Term K → Term K → Prop) (t : Term K) : List (Group K) → List (Group K)
  | [] => [⟨t, t.exponent⟩]
  | g :: rest =>
    if joins t g.head then { g with exponent := g.exponent + t.exponent } :: rest
    else g :: place joins t rest

/-- Sorts terms into groups of terms that join. -/
noncomputable def placeAll (joins : Term K → Term K → Prop) (gs : List (Group K))
    (ts : List (Term K)) : List (Group K) :=
  ts.foldl (fun gs t => place joins t gs) gs

/-- The product of what the groups leave. -/
def productOf (gs : List (Group K)) : Except Error (Compound K) := do
  Compound.ofTerms (← (gs.filter fun g => g.exponent ≠ 0).mapM
    fun g => g.head.withExponent g.exponent)

/-- What a unit merges into. -/
noncomputable def merged (o : Session K) (c : Compound K) : Except Error (Compound K) :=
  productOf (placeAll o.Joins [] c.terms)

/-- Two units of a dimension convert to one another. -/
def Relates (o : Session K) (d : Dimension) (u v : Compound K) : Prop :=
  ∃ m n, o.merged u = .ok m ∧ o.merged v = .ok n ∧ o.Tied d m n

section Groups

variable {joins joins' : Term K → Term K → Prop} {t : Term K} {ts : List (Term K)} {g : Group K}
  {gs : List (Group K)}

omit [Scalar K]

theorem mem_place (mem : g ∈ place joins t gs) : g.head = t ∨ ∃ h ∈ gs, h.head = g.head := by
  induction gs with
  | nil =>
    obtain rfl := List.mem_singleton.mp mem
    exact .inl rfl
  | cons h rest ih =>
    rw [place] at mem
    split at mem
    next =>
      rcases List.mem_cons.mp mem with rfl | inside
      · exact .inr ⟨h, List.mem_cons_self, rfl⟩
      · exact .inr ⟨g, List.mem_cons_of_mem _ inside, rfl⟩
    next =>
      rcases List.mem_cons.mp mem with rfl | inside
      · exact .inr ⟨g, List.mem_cons_self, rfl⟩
      · exact (ih inside).imp_right fun ⟨x, isIn, same⟩ => ⟨x, List.mem_cons_of_mem _ isIn, same⟩

/-- Every group was opened by one of the terms. -/
theorem mem_placeAll (mem : g ∈ placeAll joins gs ts) :
    g.head ∈ ts ∨ ∃ h ∈ gs, h.head = g.head := by
  induction ts generalizing gs with
  | nil => exact .inr ⟨g, mem, rfl⟩
  | cons t rest ih =>
    rcases ih mem with later | ⟨h, inside, same⟩
    · exact .inl (List.mem_cons_of_mem _ later)
    · rcases mem_place inside with own | ⟨x, old, same'⟩
      · exact .inl (by rw [← same, own]; exact List.mem_cons_self)
      · exact .inr ⟨x, old, same'.trans same⟩

theorem place_congr (same : ∀ h ∈ gs, joins t h.head ↔ joins' t h.head) :
    place joins t gs = place joins' t gs := by
  induction gs with
  | nil => rfl
  | cons h rest ih =>
    have tail := ih fun x mem => same x (List.mem_cons_of_mem _ mem)
    have head := same h List.mem_cons_self
    rw [place, place, tail]
    by_cases joined : joins t h.head
    · rw [if_pos joined, if_pos (head.mp joined)]
    · rw [if_neg joined, if_neg (mt head.mpr joined)]

/-- Terms are sorted alike if the same terms join. -/
theorem placeAll_congr (same : ∀ t ∈ ts, ∀ h ∈ ts, joins t h ↔ joins' t h) :
    placeAll joins [] ts = placeAll joins' [] ts := by
  have run (us : List (Term K)) (part : ∀ t ∈ us, t ∈ ts) (gs : List (Group K))
      (heads : ∀ g ∈ gs, g.head ∈ ts) : placeAll joins gs us = placeAll joins' gs us := by
    induction us generalizing gs with
    | nil => rfl
    | cons t rest ih =>
      have own := part t List.mem_cons_self
      have placed : place joins t gs = place joins' t gs :=
        place_congr fun h mem => same t own h.head (heads h mem)
      show placeAll joins (place joins t gs) rest = placeAll joins' (place joins' t gs) rest
      rw [placed]
      refine ih (fun u mem => part u (List.mem_cons_of_mem _ mem)) _ fun g mem => ?_
      rcases mem_place mem with opened | ⟨h, inside, opened⟩
      · exact opened ▸ own
      · exact opened ▸ heads h inside
  exact run ts (fun _ mem => mem) [] (by simp)

/-- A term that joins no group opens a new one. -/
theorem place_of_fresh (fresh : ∀ h ∈ gs, ¬ joins t h.head) :
    place joins t gs = gs ++ [⟨t, t.exponent⟩] := by
  induction gs with
  | nil => rfl
  | cons h rest ih =>
    rw [place, if_neg (fresh h List.mem_cons_self),
      ih fun x mem => fresh x (List.mem_cons_of_mem _ mem), List.cons_append]

/-- A term goes to the first group that it joins. -/
theorem place_of_joined {before behind : List (Group K)} (fresh : ∀ h ∈ before, ¬ joins t h.head)
    (joined : joins t g.head) :
    place joins t (before ++ g :: behind) =
      before ++ ⟨g.head, g.exponent + t.exponent⟩ :: behind := by
  induction before with
  | nil => rw [List.nil_append, place, if_pos joined, List.nil_append]
  | cons h rest ih =>
    rw [List.cons_append, place, if_neg (fresh h List.mem_cons_self),
      ih fun x mem => fresh x (List.mem_cons_of_mem _ mem), List.cons_append]

/-- Where terms of one unit join, no two groups have one unit. -/
theorem units_placeAll (alike : ∀ t ∈ ts, ∀ h ∈ ts, t.unit = h.unit → joins t h) :
    (placeAll joins [] ts).Pairwise fun g h => g.head.unit ≠ h.head.unit := by
  have step {t : Term K} {gs : List (Group K)} (own : ∀ g ∈ gs, t.unit = g.head.unit → joins t g.head)
      (apart : gs.Pairwise fun g h => g.head.unit ≠ h.head.unit) :
      (place joins t gs).Pairwise fun g h => g.head.unit ≠ h.head.unit := by
    induction gs with
    | nil => exact List.pairwise_singleton _ _
    | cons g rest ih =>
      obtain ⟨first, tail⟩ := List.pairwise_cons.mp apart
      rw [place]
      split
      next => exact List.pairwise_cons.mpr ⟨first, tail⟩
      next other =>
        refine List.pairwise_cons.mpr ⟨fun x mem => ?_,
          ih (fun h mem => own h (List.mem_cons_of_mem _ mem)) tail⟩
        rcases mem_place mem with same | ⟨y, inside, same⟩
        · rw [same]
          exact fun units => other (own g List.mem_cons_self units.symm)
        · exact same ▸ first y inside
  have run (us : List (Term K)) (part : ∀ t ∈ us, t ∈ ts) (gs : List (Group K))
      (heads : ∀ g ∈ gs, g.head ∈ ts)
      (apart : gs.Pairwise fun g h => g.head.unit ≠ h.head.unit) :
      (placeAll joins gs us).Pairwise fun g h => g.head.unit ≠ h.head.unit := by
    induction us generalizing gs with
    | nil => exact apart
    | cons t rest ih =>
      have own := part t List.mem_cons_self
      refine ih (fun u mem => part u (List.mem_cons_of_mem _ mem)) _ (fun g mem => ?_)
        (step (fun g mem => alike t own g.head (heads g mem)) apart)
      rcases mem_place mem with opened | ⟨h, inside, opened⟩
      · exact opened ▸ own
      · exact opened ▸ heads h inside
  exact run ts (fun _ mem => mem) [] (by simp) .nil

end Groups

/-! ### Merged units -/

section Merged

variable {o : Session K} {P : NamedUnit K → Option (Prefix K) → Prop} {d : Dimension}
  {t h : Term K} {c m u v : Compound K}

omit [Scalar K] in
/-- A single term without its exponent stands for nothing if it is a scalar, otherwise for itself. -/
theorem exists_part (sound : t.Sound P) : ∃ c, t.withoutExponent = .ok ⟨t.unit, t.scaling, 1⟩ ∧
    Compound.ofTerms [⟨t.unit, t.scaling, 1⟩] = .ok c ∧
      ((t.isScalar = true ∧ c = .one) ∨ (t.isScalar = false ∧ c = ⟨[⟨t.unit, t.scaling, 1⟩]⟩)) := by
  have own : (⟨t.unit, t.scaling, 1⟩ : Term K).Sound P :=
    ⟨sound.base, by simp, by simp [maxExponent], sound.accepted⟩
  cases scalar : t.isScalar with
  | true => exact ⟨.one, own.make_self, Lexicon.ofTerms_of_isScalar scalar, .inl ⟨rfl, rfl⟩⟩
  | false =>
    have single : (⟨[⟨t.unit, t.scaling, 1⟩]⟩ : Compound K).Sound P := by
      refine ⟨fun v mem => ?_, List.pairwise_singleton _ _⟩
      obtain rfl := List.mem_singleton.mp mem
      exact ⟨own, scalar⟩
    exact ⟨_, own.make_self, single.ofTerms_terms, .inr ⟨rfl, rfl⟩⟩

/-- A single term merges into itself. -/
theorem merged_part {v : Term K} (made : t.withoutExponent = .ok v)
    (single : Compound.ofTerms [v] = .ok c) : o.merged c = .ok c := by
  have meant : o.lexicon.deref (.term v) = .ok c := single
  rcases terms_of_deref made meant with rfl | ⟨rfl, self, exponent, again⟩
  · rfl
  · simpa [merged, placeAll, place, productOf, exponent, again, bind, Except.bind, pure,
      Except.pure] using self

/-- Terms join if they have one dimension and convert to one another without their exponents. -/
theorem joins_iff {x y : Term K} (made : t.withoutExponent = .ok x)
    (single : Compound.ofTerms [x] = .ok u) (made' : h.withoutExponent = .ok y)
    (single' : Compound.ofTerms [y] = .ok v) :
    o.Joins t h ↔ h.unit.dimension = t.unit.dimension ∧ o.Relates t.unit.dimension u v := by
  constructor
  · rintro ⟨alike, x₁, y₁, u₁, v₁, isX, isU, isY, isV, tied⟩
    obtain rfl := Except.ok.inj (made.symm.trans isX)
    obtain rfl := Except.ok.inj (made'.symm.trans isY)
    obtain rfl := Except.ok.inj (single.symm.trans isU)
    obtain rfl := Except.ok.inj (single'.symm.trans isV)
    exact ⟨alike, u, v, merged_part made single, merged_part made' single', tied⟩
  · rintro ⟨alike, m, n, mergesU, mergesV, tied⟩
    obtain rfl := Except.ok.inj ((merged_part made single).symm.trans mergesU)
    obtain rfl := Except.ok.inj ((merged_part made' single').symm.trans mergesV)
    exact ⟨alike, x, y, u, v, made, single, made', single', tied⟩

/-- Terms of one unit join, since prefixes do not matter. -/
theorem joins_of_unit (own : t.Sound o.lexicon.Names) (head : h.Sound o.lexicon.Names)
    (same : t.unit = h.unit) : o.Joins t h := by
  obtain ⟨c, made, single, part⟩ := exists_part own
  obtain ⟨e, made', single', part'⟩ := exists_part head
  refine ⟨by rw [same], _, _, c, e, made, single, made', single', ?_⟩
  have scalars : t.isScalar = h.isScalar := by rw [Term.isScalar, Term.isScalar, same]
  rcases part with ⟨scalar, rfl⟩ | ⟨visible, rfl⟩
  · rcases part' with ⟨_, rfl⟩ | ⟨visible', _⟩
    · exact .inl rfl
    · rw [scalars, visible'] at scalar
      cases scalar
  · rcases part' with ⟨scalar', _⟩ | ⟨_, rfl⟩
    · rw [scalars, scalar'] at visible
      cases visible
    · have bare {w : Term K} (sound : w.Sound o.lexicon.Names)
          (product : Compound.ofTerms [(⟨w.unit, w.scaling, 1⟩ : Term K)] =
            .ok ⟨[⟨w.unit, w.scaling, 1⟩]⟩) :
          (⟨[⟨w.unit, w.scaling, 1⟩]⟩ : Compound K).withoutPrefixes = .ok ⟨[⟨w.unit, none, 1⟩]⟩ :=
        Compound.withoutPrefixes_of_units (Compound.sound_of_ofTerms (fun x mem => by
          obtain rfl := List.mem_singleton.mp mem
          exact ⟨sound.base, by simp, by simp [maxExponent], sound.accepted⟩) product)
          (List.pairwise_singleton _ _)
      exact .inr ⟨_, _, bare own single, bare head single', .inl (.inl (by rw [same]))⟩

/-- A unit as merging leaves it. -/
structure Tidy (o : Session K) (m : Compound K) : Prop where
  sound : m.Sound o.lexicon.Names
  units : m.terms.Pairwise fun t u => t.unit ≠ u.unit

omit [Scalar K] in
theorem Tidy.withoutPrefixes (tidy : o.Tidy m) : m.withoutPrefixes = .ok m.bare :=
  Compound.withoutPrefixes_of_units tidy.sound tidy.units

/-- What a unit merges into, with the groups it consists of. -/
theorem terms_of_merged (sound : u.Sound o.lexicon.Names) (merges : o.merged u = .ok m) :
    m.terms = ((placeAll o.Joins [] u.terms).filter fun g => g.exponent ≠ 0).map
      (fun g => ⟨g.head.unit, g.head.scaling, g.exponent⟩) ∧ o.Tidy m := by
  obtain ⟨ts, made, product⟩ := bind_eq_ok.mp merges
  have shape := terms_of_groups made
  have heads : ∀ g ∈ placeAll o.Joins [] u.terms,
      g.head.Sound o.lexicon.Names ∧ g.head.isScalar = false := by
    intro g mem
    rcases mem_placeAll mem with inside | ⟨_, old, _⟩
    · exact sound.terms _ inside
    · cases old
  have terms := sound_of_groups heads made
  have apart : ts.Pairwise fun t u => t.unit ≠ u.unit := by
    rw [shape]
    exact List.pairwise_map.mpr ((units_placeAll fun t mem h mem' same =>
      joins_of_unit (sound.terms t mem).1 (sound.terms h mem').1 same).filter _)
  have whole : (⟨ts⟩ : Compound K).Sound o.lexicon.Names :=
    ⟨terms, Compound.distinct_of_units (fun t mem => (terms t mem).1.base) apart⟩
  obtain rfl := Except.ok.inj (whole.ofTerms_terms.symm.trans product)
  exact ⟨shape, whole, apart⟩

/-- Its units are units of the whole. -/
theorem unit_of_merged (sound : u.Sound o.lexicon.Names) (merges : o.merged u = .ok m)
    (mem : t ∈ m.terms) : ∃ w ∈ u.terms, w.unit = t.unit := by
  rw [(terms_of_merged sound merges).1] at mem
  obtain ⟨g, isIn, rfl⟩ := List.mem_map.mp mem
  rcases mem_placeAll (List.mem_filter.mp isIn).1 with inside | ⟨_, old, _⟩
  · exact ⟨_, inside, rfl⟩
  · cases old

theorem Grounded.merged (sound : u.Sound o.lexicon.Names) (merges : o.merged u = .ok m)
    (grounded : o.Grounded u) : o.Grounded m := by
  intro t mem
  obtain ⟨w, inside, same⟩ := unit_of_merged sound merges mem
  exact same ▸ grounded w inside

theorem grounded_bare : o.Grounded c.bare ↔ o.Grounded c := by simp [Grounded, Compound.bare]

/-- Merged units are tied by their symbols, with or without prefixes, or by their units. -/
theorem tied_iff {n : Compound K} (tidy : o.Tidy m) (tidy' : o.Tidy n) :
    o.Tied d m n ↔ m.same n = .ok true ∨
      o.Coupled d (m.bare.write .ascii) (n.bare.write .ascii) ∨ o.Grounded m ∧ o.Grounded n := by
  have bare := tidy.withoutPrefixes
  have bare' := tidy'.withoutPrefixes
  rw [Tied]
  refine or_congr_right ⟨fun ⟨x, y, isX, isY, tied⟩ => ?_, fun tied => ⟨_, _, bare, bare', ?_⟩⟩
  · obtain rfl := Except.ok.inj (bare.symm.trans isX)
    obtain rfl := Except.ok.inj (bare'.symm.trans isY)
    rwa [grounded_bare, grounded_bare] at tied
  · rwa [grounded_bare, grounded_bare]

end Merged

end Metrology.Session
