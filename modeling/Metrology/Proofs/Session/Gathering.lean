import Metrology.Proofs.Session.Reducible

/-!
# Gathering terms by dimension

Units that reduce to SI base units convert to one another if they have the same dimension. So
merging gathers their terms by dimension, and it does not fail if the exponents of each dimension
add up to one in range.
-/
namespace Metrology

variable {K : Type}

namespace Compound

/-- The exponents of all the units of a dimension together. -/
def share (c : Compound K) (e : Dimension) : Int :=
  tally (fun u => if u.dimension = e then 1 else 0) c.terms

/-- The exponents of the units of each dimension together are in range, and so is that power of the
dimension. -/
def MergesInRange (c : Compound K) : Prop :=
  ∀ t ∈ c.terms, (c.share t.unit.dimension).natAbs ≤ maxExponent ∧
    (t.unit.dimension.pow (c.share t.unit.dimension)).InRange

instance (c : Compound K) : Decidable c.MergesInRange :=
  inferInstanceAs (Decidable (∀ t ∈ c.terms, _))

end Compound

namespace Session

open Metrology.Action (Yields)

/-! ### Groups of different dimensions -/

/-- Adds a term to the first group of its dimension, or opens a new one at the end. -/
def gather (t : Term K) : List (Group K) → List (Group K)
  | [] => [⟨t, t.exponent⟩]
  | g :: rest =>
    if g.head.unit.dimension = t.unit.dimension then
      { g with exponent := g.exponent + t.exponent } :: rest
    else g :: gather t rest

/-- No two of the groups have the same dimension. -/
def Apart (gs : List (Group K)) : Prop :=
  gs.Pairwise fun g h => g.head.unit.dimension ≠ h.head.unit.dimension

/-- The sum of the weights of the dimensions, each taken as often as the exponent of its group says.
-/
def tallyOfGroups (weight : Dimension → Int) (gs : List (Group K)) : Int :=
  Compound.tallyOfPiles (fun u => weight u.dimension) (gs.map Group.pile)

variable {t : Term K} {ts : List (Term K)} {g : Group K} {gs : List (Group K)}
  {weight : Dimension → Int}

@[simp] theorem tallyOfGroups_nil : tallyOfGroups weight ([] : List (Group K)) = 0 := rfl

@[simp] theorem tallyOfGroups_cons (g : Group K) (gs : List (Group K)) :
    tallyOfGroups weight (g :: gs) =
      weight g.head.unit.dimension * g.exponent + tallyOfGroups weight gs :=
  Compound.tallyOfPiles_cons _ _

theorem mem_gather (mem : g ∈ gather t gs) : g.head = t ∨ ∃ h ∈ gs, h.head = g.head := by
  induction gs with
  | nil =>
    obtain rfl := List.mem_singleton.mp mem
    exact .inl rfl
  | cons h rest ih =>
    rw [gather] at mem
    split at mem
    next =>
      rcases List.mem_cons.mp mem with rfl | inside
      · exact .inr ⟨h, List.mem_cons_self, rfl⟩
      · exact .inr ⟨g, List.mem_cons_of_mem _ inside, rfl⟩
    next =>
      rcases List.mem_cons.mp mem with rfl | inside
      · exact .inr ⟨g, List.mem_cons_self, rfl⟩
      · exact (ih inside).imp_right fun ⟨x, isIn, same⟩ => ⟨x, List.mem_cons_of_mem _ isIn, same⟩

/-- Adding a term keeps one group for each dimension. -/
theorem Apart.gather (apart : Apart gs) : Apart (gather t gs) := by
  induction gs with
  | nil => exact List.pairwise_singleton _ _
  | cons h rest ih =>
    obtain ⟨first, tail⟩ := List.pairwise_cons.mp apart
    rw [Session.gather]
    split
    next => exact List.pairwise_cons.mpr ⟨first, tail⟩
    next other =>
      refine List.pairwise_cons.mpr ⟨fun x mem => ?_, ih tail⟩
      rcases mem_gather mem with same | ⟨y, inside, same⟩
      · rwa [same]
      · exact same ▸ first y inside

theorem tallyOfGroups_gather :
    tallyOfGroups weight (gather t gs) =
      tallyOfGroups weight gs + weight t.unit.dimension * t.exponent := by
  induction gs with
  | nil => simp [gather]
  | cons h rest ih =>
    rw [gather]
    split
    next same =>
      rw [tallyOfGroups_cons, tallyOfGroups_cons, same, Int.mul_add]
      omega
    next =>
      rw [tallyOfGroups_cons, tallyOfGroups_cons, ih]
      omega

/-- Sorts terms into groups by dimension. -/
def gatherAll (gs : List (Group K)) (ts : List (Term K)) : List (Group K) :=
  ts.foldl (fun gs t => gather t gs) gs

theorem mem_gatherAll (mem : g ∈ gatherAll gs ts) : g.head ∈ ts ∨ ∃ h ∈ gs, h.head = g.head := by
  induction ts generalizing gs with
  | nil => exact .inr ⟨g, mem, rfl⟩
  | cons t rest ih =>
    rcases ih mem with later | ⟨h, inside, same⟩
    · exact .inl (List.mem_cons_of_mem _ later)
    · rcases mem_gather inside with own | ⟨x, old, same'⟩
      · exact .inl (by rw [← same, own]; exact List.mem_cons_self)
      · exact .inr ⟨x, old, same'.trans same⟩

theorem Apart.gatherAll (apart : Apart gs) : Apart (gatherAll gs ts) := by
  induction ts generalizing gs with
  | nil => exact apart
  | cons t rest ih => exact ih apart.gather

theorem tallyOfGroups_gatherAll :
    tallyOfGroups weight (gatherAll gs ts) =
      tallyOfGroups weight gs + Compound.tally (fun u => weight u.dimension) ts := by
  induction ts generalizing gs with
  | nil => simp [gatherAll]
  | cons t rest ih =>
    have run : tallyOfGroups weight (gatherAll gs (t :: rest)) =
        tallyOfGroups weight (gather t gs) + Compound.tally (fun u => weight u.dimension) rest := ih
    rw [run, tallyOfGroups_gather, Compound.tally_cons]
    omega

/-- A group that shares its dimension with no other is all there is of that dimension. -/
theorem tallyOfGroups_of_mem (apart : Apart gs) (mem : g ∈ gs) :
    tallyOfGroups (fun e => if e = g.head.unit.dimension then 1 else 0) gs = g.exponent := by
  have none {hs : List (Group K)} {e : Dimension} (other : ∀ h ∈ hs, h.head.unit.dimension ≠ e) :
      tallyOfGroups (fun f => if f = e then 1 else 0) hs = 0 := by
    induction hs with
    | nil => rfl
    | cons h rest ih =>
      rw [tallyOfGroups_cons, if_neg (other h List.mem_cons_self),
        ih fun x isIn => other x (List.mem_cons_of_mem _ isIn), Int.zero_mul, Int.zero_add]
  induction gs with
  | nil => cases mem
  | cons h rest ih =>
    obtain ⟨first, tail⟩ := List.pairwise_cons.mp apart
    rw [tallyOfGroups_cons]
    rcases List.mem_cons.mp mem with rfl | inside
    · rw [if_pos rfl, none fun x isIn => (first x isIn).symm]
      omega
    · rw [if_neg (first g inside), ih tail inside]
      omega

/-- So its exponent is the share of its dimension in the terms. -/
theorem exponent_of_gatherAll {c : Compound K} (mem : g ∈ gatherAll [] c.terms) :
    g.exponent = c.share g.head.unit.dimension := by
  have apart : Apart (gatherAll [] c.terms) := Apart.gatherAll List.Pairwise.nil
  rw [← tallyOfGroups_of_mem apart mem, tallyOfGroups_gatherAll, tallyOfGroups_nil, Int.zero_add]
  rfl

/-! ### Merging -/

variable [Field K] [LinearOrder K] [Scalar K] [Scalar.Exact K] [IsStrictOrderedRing K]
variable {o : Session K} {asked : Compound K → Prop} (nonzero : o.NonZero) (forgotten : o.Forgotten)
  (buildable : o.Buildable) (apart : ToldApart o.lexicon asked)
include nonzero forgotten buildable apart

/-- A term joins the group of its dimension, if there is one. -/
theorem yields_joinGroup (own : Joinable o asked t) (heads : ∀ g ∈ gs, Joinable o asked g.head) :
    (joinGroup t gs).Yields (Echoes o asked) fun found =>
      (∃ p : Factor K, found = some (p, gather t gs) ∧ p.value ≠ 0) ∨
        (found = none ∧ gather t gs = gs ++ [⟨t, t.exponent⟩]) := by
  induction gs with
  | nil => exact .pure (.inr ⟨rfl, rfl⟩)
  | cons g rest ih =>
    have later := ih fun h mem => heads h (List.mem_cons_of_mem _ mem)
    rw [joinGroup_cons]
    split
    next alike =>
      refine .bind (yields_termConversion nonzero forgotten buildable apart own
        (heads g List.mem_cons_self) alike) fun _ ⟨c, same, factor⟩ => ?_
      subst same
      refine .bind (.lift (Factor.pow_isOk factor t.exponent)) fun p power => .pure (.inl ?_)
      exact ⟨p, by rw [gather, if_pos alike], power⟩
    next other =>
      refine .bind later fun found joined => .pure ?_
      rw [gather, if_neg other]
      rcases joined with ⟨p, rfl, power⟩ | ⟨rfl, same⟩
      · exact .inl ⟨p, rfl, power⟩
      · exact .inr ⟨rfl, congrArg (g :: ·) same⟩

theorem yields_groupTerms {f : Factor K} (factor : f.value ≠ 0)
    (heads : ∀ g ∈ gs, Joinable o asked g.head) (terms : ∀ t ∈ ts, Joinable o asked t) :
    (groupTerms f gs ts).Yields (Echoes o asked) fun r =>
      r.1.value ≠ 0 ∧ r.2 = gatherAll gs ts := by
  induction ts generalizing f gs with
  | nil => exact .pure ⟨factor, rfl⟩
  | cons t rest ih =>
    have own := terms t List.mem_cons_self
    have later : ∀ {f : Factor K}, f.value ≠ 0 → (groupTerms f (gather t gs) rest).Yields
        (Echoes o asked) fun r => r.1.value ≠ 0 ∧ r.2 = gatherAll gs (t :: rest) := by
      intro f factor
      refine ih factor (fun g mem => ?_) fun u mem => terms u (List.mem_cons_of_mem _ mem)
      rcases mem_gather mem with same | ⟨h, inside, same⟩
      · exact same ▸ own
      · exact same ▸ heads h inside
    refine .bind (yields_joinGroup nonzero forgotten buildable apart own heads)
      fun found joined => ?_
    rcases joined with ⟨p, rfl, power⟩ | ⟨rfl, same⟩
    · refine later ?_
      rw [Factor.value_mul]
      exact mul_ne_zero factor power
    · exact same ▸ later factor

/-- Merging leaves one term for each dimension, with the share of that dimension. -/
theorem yields_mergeFactor {u : Compound K} (terms : ∀ t ∈ u.terms, Joinable o asked t)
    (inRange : u.MergesInRange) (whole : u.total.InRange) :
    (mergeFactor u).Yields (Echoes o asked) fun r => r.1.value ≠ 0 ∧ o.Convertible r.2 := by
  have head : ∀ g ∈ gatherAll [] u.terms, Joinable o asked g.head ∧
      g.exponent.natAbs ≤ maxExponent ∧ (g.head.unit.dimension.pow g.exponent).InRange := by
    intro g mem
    rcases mem_gatherAll mem with inside | ⟨_, old, _⟩
    · rw [exponent_of_gatherAll mem]
      exact ⟨terms _ inside, inRange _ inside⟩
    · cases old
  refine .bind (yields_groupTerms nonzero forgotten buildable apart (by simp) (by simp) terms)
    fun ⟨f, _⟩ ⟨factor, same⟩ => ?_
  subst same
  dsimp only
  rw [Action.mapM_lift]
  -- the groups that are left give their heads, with their own exponents
  have leveled : ∃ ts, Compound.level ((gatherAll [] u.terms).map Group.pile) = .ok ts := by
    refine mapM_isOk fun p mem => ?_
    obtain ⟨isPile, shown⟩ := List.mem_filter.mp mem
    obtain ⟨g, inside, rfl⟩ := List.mem_map.mp isPile
    obtain ⟨joinable, range, _⟩ := head g inside
    exact Term.make_isOk (by simpa using shown) range joinable.askedFor.1.accepted
  obtain ⟨ts, leveled⟩ := leveled
  have made : ((gatherAll [] u.terms).filter fun g => g.exponent ≠ 0).mapM
      (fun g => g.head.withExponent g.exponent) = .ok ts := (level_groups _).symm.trans leveled
  have shape := terms_of_groups made
  have of_mem {t : Term K} (mem : t ∈ ts) :
      (t.Sound o.Reducing ∧ t.isScalar = false) ∧ (t.unit.dimension.pow t.exponent).InRange := by
    rw [shape] at mem
    obtain ⟨g, isIn, rfl⟩ := List.mem_map.mp mem
    obtain ⟨inside, shown⟩ := List.mem_filter.mp isIn
    obtain ⟨joinable, range, own⟩ := head g inside
    exact ⟨⟨⟨⟨joinable.askedFor.1.base, joinable.reduces⟩, by simpa using shown, range,
      joinable.askedFor.1.accepted⟩, joinable.visible⟩, own⟩
  have different : ts.Pairwise fun t u => t.unit.dimension ≠ u.unit.dimension := by
    rw [shape]
    exact List.pairwise_map.mpr ((Apart.gatherAll List.Pairwise.nil).filter _)
  have sound : (⟨ts⟩ : Compound K).Sound o.Reducing :=
    ⟨fun t mem => (of_mem mem).1,
      Compound.distinct_of_units (fun t mem => (of_mem mem).1.1.base.1)
        (different.imp fun other same => other (congrArg NamedUnit.dimension same))⟩
  have total : (⟨ts⟩ : Compound K).total = u.total := by
    refine Dimension.ext_exponent fun a => ?_
    have sum : tallyOfGroups (fun d => d.exponent a) (gatherAll [] u.terms) =
        0 + Compound.tally (fun u => u.dimension.exponent a) u.terms := tallyOfGroups_gatherAll
    rw [Compound.exponent_total, Compound.exponent_total, Compound.tally_level leveled]
    exact sum.trans (Int.zero_add _)
  refine .bind (.lift ⟨ts, made, rfl⟩) fun _ same => ?_
  subst same
  refine .bind (.lift ⟨⟨ts⟩, sound.ofTerms_terms, rfl⟩) fun _ same => ?_
  subst same
  exact .pure ⟨factor, convertible_of_apart sound different (fun t mem => (of_mem mem).2)
    (total ▸ whole)⟩

end Session

end Metrology
