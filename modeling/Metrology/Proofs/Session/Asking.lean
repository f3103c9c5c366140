import Metrology.Proofs.Session.Lookup

/-!
# Invariants that questions keep

A question is answered by looking up routes, conversions and factors, each of which is remembered. An
invariant that every lookup keeps is kept by every question, answered or not.
-/
namespace Metrology.Session

variable {K : Type} [Scalar K] {I : Session K → Prop}

/-- A unit of some kind of compound units occurs in one of them. -/
def OccursIn (known : Compound K → Prop) (u : NamedUnit K) : Prop :=
  ∃ c, known c ∧ ∃ t ∈ c.terms, t.unit = u

/-- An invariant that looking up routes and factors keeps, for compound units of some kind, which those
are that are read: as far as the factor of a unit is concerned, if what it is computed by keeps it. -/
structure KeptByRoutes (known : Compound K → Prop) (I : Session K → Prop) : Prop where
  reads : ∀ s text c, I s → s.lexicon.parse text = .ok c → known c
  strips : ∀ c u, known c → c.withoutPrefixes = .ok u → known u
  edges : ∀ d, (onStore fun lex => EdgeStore.edgesOf lex d).Keeps I fun _ => True
  routes : ∀ d, (routes d).Keeps I fun _ => True
  route : ∀ d src dest, (route d src dest).Keeps I fun _ => True
  factor : ∀ depth bridging u, OccursIn known u →
    (factorAnew depth bridging u).Keeps I (fun _ => True) →
    (reduceUnit (depth + 1) bridging u).Keeps I fun _ => True

/-- An invariant that every lookup keeps, for units of all kinds: also that of a conversion, if what it
is computed by keeps it. -/
structure KeptByLookups (I : Session K → Prop) : Prop extends KeptByRoutes (fun _ => True) I where
  conversion : ∀ d src dest,
    (∀ (lex : Lexicon K) u v, lex.deref src = .ok u → lex.deref dest = .ok v →
      (compute mergeFactor d u v).Keeps I fun _ => True) →
    (conversionIn d src dest).Keeps I fun _ => True

namespace KeptByRoutes

variable {known : Compound K → Prop} (kept : KeptByRoutes known I)
include kept

theorem network (d : Dimension) : (network d).Keeps I fun _ => True :=
  .bind (kept.routes d) fun _ _ => .pure trivial

/-! ### Reduction -/

omit kept in
theorem reduceTerms {reduce : NamedUnit K → Action (Session K) (Option (Factor K))}
    {ts : List (Term K)} (units : ∀ t ∈ ts, (reduce t.unit).Keeps I fun _ => True)
    (start : Factor K) : (reduceTerms reduce start ts).Keeps I fun _ => True := by
  induction ts generalizing start with
  | nil => exact .pure trivial
  | cons t rest ih =>
    refine .bind (units t List.mem_cons_self) fun found _ => ?_
    split
    next => exact .pure trivial
    next =>
      refine .bind (.lift fun p power => power) fun p _ => ih (fun u mem => ?_) _
      exact units u (List.mem_cons_of_mem _ mem)

theorem reduceBase (u : NamedUnit K) (a : Axis) : (reduceBase u a).Keeps I fun _ => True := by
  refine .bind (.weaken .get fun _ _ => trivial) fun s _ => ?_
  dsimp only
  split
  next =>
    refine .bind (.lift fun si given => given) fun si _ => ?_
    refine .bind (kept.route _ _ _) fun path _ => ?_
    split
    next => exact .pure trivial
    next =>
      refine .bind (.lift fun m scaled => scaled) fun m _ => ?_
      exact .bind (.lift fun q divided => divided) fun q _ => .pure trivial
  next => exact .pure trivial

theorem bridge {reduce : NamedUnit K → Action (Session K) (Option (Factor K))}
    (units : ∀ u, OccursIn known u → (reduce u).Keeps I fun _ => True) (u : NamedUnit K)
    (nodes : List String) : (bridge reduce u nodes).Keeps I fun _ => True := by
  induction nodes with
  | nil => exact .pure trivial
  | cons node rest ih =>
    rw [Session.bridge]
    split
    next => exact ih
    next =>
      refine .bind .get fun s holds => ?_
      refine .bind (.lift fun v read => read) fun v read => ?_
      split
      next =>
        refine .bind (kept.route _ _ _) fun path _ => ?_
        split
        next => exact ih
        next =>
          have occur : ∀ t ∈ v.terms, OccursIn known t.unit :=
            fun t mem => ⟨v, kept.reads s node v holds read, t, mem, rfl⟩
          refine .bind (reduceTerms (fun t mem => units t.unit (occur t mem)) _) fun base _ => ?_
          split
          next => exact ih
          next => exact .pure trivial
      next => exact ih

theorem reduceUnit (depth : Nat) (bridging : Bool) {u : NamedUnit K} (occurs : OccursIn known u) :
    (reduceUnit depth bridging u).Keeps I fun _ => True := by
  induction depth generalizing bridging u with
  | zero => exact .throw _
  | succ depth ih =>
    refine kept.factor depth bridging u occurs ?_
    unfold factorAnew
    split
    next => exact kept.reduceBase _ _
    next =>
      split
      next expansion _ =>
        refine .bind .get fun s holds => ?_
        refine .bind (.lift fun c read => read) fun c read => ?_
        have occur : ∀ t ∈ c.terms, OccursIn known t.unit :=
          fun t mem => ⟨c, kept.reads s expansion c holds read, t, mem, rfl⟩
        exact .bind (reduceTerms (fun t mem => ih bridging (occur t mem)) _) fun base _ =>
          .pure trivial
      next =>
        split
        next => exact .bind (kept.network _) fun net _ => kept.bridge (fun _ => ih false) _ _
        next => exact .pure trivial

theorem toBase {c : Compound K} (isKnown : known c) (bridging : Bool) :
    (toBase c bridging).Keeps I fun _ => True :=
  .bind (.weaken .get fun _ _ => trivial) fun _ _ =>
    reduceTerms (fun t mem => kept.reduceUnit _ bridging ⟨c, isKnown, t, mem, rfl⟩) _

/-! ### Conversion -/

theorem connect (d : Dimension) (factor : Factor K) {src dest : Compound K} (knownSrc : known src)
    (knownDest : known dest) : (connect d factor src dest).Keeps I fun _ => True := by
  refine .bind (.lift fun m given => given) fun m _ => ?_
  refine .bind (.lift fun n given => given) fun n _ => ?_
  refine .bind (.lift fun g divided => divided) fun g _ => ?_
  refine .bind (.lift fun u made => made) fun u bare => ?_
  refine .bind (.lift fun v made => made) fun v bare' => ?_
  refine .bind (kept.route _ _ _) fun path _ => ?_
  split
  next => exact .pure trivial
  next =>
    refine .bind (kept.toBase (kept.strips _ _ knownSrc bare) true) fun base _ => ?_
    refine .bind (kept.toBase (kept.strips _ _ knownDest bare') true) fun base' _ => ?_
    split
    next => exact .bind (.lift fun q divided => divided) fun q _ => .pure trivial
    next => exact .pure trivial

theorem compute {merge : Merging K} (d : Dimension) {u v : Compound K}
    (merges : (merge u).Keeps I fun x => known x.2) (merges' : (merge v).Keeps I fun x => known x.2) :
    (compute merge d u v).Keeps I fun _ => True := by
  refine .bind merges fun x knownX => .bind merges' fun y knownY => ?_
  refine .bind (.lift fun q divided => divided) fun q _ => ?_
  refine .bind (.lift fun alike given => given) fun alike _ => ?_
  dsimp only
  split
  next => exact .bind (Q := fun _ => True) (.pure trivial) fun _ _ => .pure trivial
  next => exact .bind (kept.connect d q knownX knownY) fun _ _ => .pure trivial

end KeptByRoutes

/-! ### Merging -/

/-- Joining a term to groups compares it with their heads, and opens no group. -/
theorem joinGroup_keeps {t : Term K} {gs : List (Group K)}
    (converts : ∀ g ∈ gs, (termConversion t g.head).Keeps I fun _ => True) :
    (joinGroup t gs).Keeps I fun found =>
      ∀ r, found = some r → r.2.map Group.head = gs.map Group.head := by
  induction gs with
  | nil => exact .nothing
  | cons g rest ih =>
    obtain ⟨first, others⟩ := List.forall_mem_cons.mp converts
    have joins (conversion : Option (Conversion K)) : (joinHead t g rest conversion).Keeps I
        fun found => ∀ r, found = some r → r.2.map Group.head = (g :: rest).map Group.head := by
      cases conversion with
      | some c => exact .bind (.lift fun p power => power) fun p _ => .found rfl
      | none =>
        refine .bind (ih others) fun found same => .pure fun r joined => ?_
        obtain ⟨⟨power, groups⟩, isFound, rfl⟩ := Option.map_eq_some_iff.mp joined
        exact congrArg (g.head :: ·) (same _ isFound)
    rw [joinGroup_cons]
    split
    next => exact .bind first fun found _ => joins found
    next => exact joins none

theorem groupTerms_keeps {ts : List (Term K)} {gs : List (Group K)} {factor : Factor K}
    (converts : ∀ t ∈ ts, ∀ h ∈ gs.map Group.head ++ ts,
      (termConversion t h).Keeps I fun _ => True) :
    (groupTerms factor gs ts).Keeps I fun _ => True := by
  induction ts generalizing factor gs with
  | nil => exact .pure trivial
  | cons t rest ih =>
    have first : ∀ g ∈ gs, (termConversion t g.head).Keeps I fun _ => True := fun g mem =>
      converts t List.mem_cons_self g.head (List.mem_append_left _ (List.mem_map_of_mem mem))
    refine .bind (joinGroup_keeps first) fun found heads => ?_
    split
    next =>
      refine ih fun t' mem h isHead => converts t' (List.mem_cons_of_mem _ mem) h ?_
      rw [heads _ rfl] at isHead
      exact (List.mem_append.mp isHead).elim (List.mem_append_left _)
        fun later => List.mem_append_right _ (List.mem_cons_of_mem _ later)
    next =>
      refine ih fun t' mem h isHead => converts t' (List.mem_cons_of_mem _ mem) h ?_
      simpa using isHead

/-- Merging a unit compares its terms. -/
theorem mergeFactor_keeps {u : Compound K}
    (converts : ∀ t ∈ u.terms, ∀ h ∈ u.terms, (termConversion t h).Keeps I fun _ => True) :
    (mergeFactor u).Keeps I fun _ => True := by
  refine .bind (groupTerms_keeps (by simpa using converts)) fun r _ => ?_
  refine .bind (.mapM _) fun ts _ => ?_
  exact .bind (.lift fun c made => made) fun c _ => .pure trivial

/-- Two terms are compared by the units that they are without their exponents, which merge into
themselves, so nothing else is asked for but routes and factors. -/
theorem termConversion_keeps {t h : Term K}
    (compares : ∀ d v w, t.withoutExponent = .ok v → h.withoutExponent = .ok w →
      (conversionIn d (.term v) (.term w)).Keeps I fun _ => True) :
    (termConversion t h).Keeps I fun _ => True := by
  rw [termConversion_eq]
  refine .bind (.lift fun v made => made) fun v made => ?_
  exact .bind (.lift fun w made => made) fun w made' => compares _ v w made made'

/-- An invariant that does not depend on the answers is kept by a conversion, if what it is computed by
keeps it. -/
theorem conversionIn_keeps {d : Dimension} {src dest : UnitRef K}
    (computes : ∀ s u v, I s → s.lexicon.deref src = .ok u → s.lexicon.deref dest = .ok v →
      (compute mergeFactor d u v).Keeps I fun _ => True)
    (answers : ∀ s key found, I s → I (s.putChart d { s.chart d with
      answers := (s.chart d).answers.put key found })) :
    (conversionIn d src dest).Keeps I fun _ => True := by
  intro s holds
  refine ⟨?_, fun _ _ => trivial⟩
  rw [conversionIn, answer_apply]
  cases passes : ((validate d src).apply s).1 with
  | error _ => exact holds
  | ok u =>
    cases passes' : ((validate d dest).apply s).1 with
    | error _ => exact holds
    | ok v =>
      dsimp only
      cases (s.chart d).answers.get? (u.write .ascii, v.write .ascii) with
      | some _ => exact holds
      | none =>
        have computed := (computes s u v holds (deref_of_validate passes)
          (deref_of_validate passes')).invariant holds
        rcases run : (compute mergeFactor d u v).apply s with ⟨_ | found, t⟩
        · rw [run] at computed
          exact computed
        · rw [run] at computed
          exact answers t _ found computed

namespace KeptByLookups

variable (kept : KeptByLookups I)
include kept

theorem reduceUnit (depth : Nat) (bridging : Bool) (u : NamedUnit K) :
    (reduceUnit depth bridging u).Keeps I fun _ => True :=
  kept.toKeptByRoutes.reduceUnit depth bridging
    ⟨⟨[⟨u, none, 1⟩]⟩, trivial, _, List.mem_singleton.mpr rfl, rfl⟩

theorem toBase (c : Compound K) (bridging : Bool) : (toBase c bridging).Keeps I fun _ => True :=
  kept.toKeptByRoutes.toBase trivial bridging

theorem termConversion (t head : Term K) : (termConversion t head).Keeps I fun _ => True := by
  refine termConversion_keeps fun d v w made made' => ?_
  refine kept.conversion _ _ _ fun lex x y meant meant' => kept.compute _ ?_ ?_
  · rw [mergeFactor_term made meant]
    exact .pure trivial
  · rw [mergeFactor_term made' meant']
    exact .pure trivial

theorem joinGroup (t : Term K) (gs : List (Group K)) :
    (joinGroup t gs).Keeps I fun _ => True :=
  (joinGroup_keeps fun g _ => kept.termConversion t g.head).weaken fun _ _ => trivial

theorem mergeFactor (u : Compound K) : (mergeFactor u).Keeps I fun _ => True :=
  mergeFactor_keeps fun t _ h _ => kept.termConversion t h

theorem conversionIn (d : Dimension) (src dest : UnitRef K) :
    (conversionIn d src dest).Keeps I fun _ => True :=
  kept.conversion d src dest fun _ u v _ _ =>
    kept.compute d (kept.mergeFactor u) (kept.mergeFactor v)

/-! ### Questions -/

omit kept in
theorem parse (ref : UnitRef K) : (parse ref).Keeps I fun _ => True :=
  .bind (.weaken .get fun _ _ => trivial) fun _ _ => .lift fun _ _ => trivial

omit kept in
theorem validate (d : Dimension) (ref : UnitRef K) : (validate d ref).Keeps I fun _ => True := by
  intro s holds
  rw [validate_apply]
  exact ⟨holds, fun _ _ => trivial⟩

theorem convertIn (d : Dimension) (value : K) (src dest : UnitRef K) :
    (convertIn d value src dest).Keeps I fun _ => True := by
  refine .bind (kept.conversionIn d src dest) fun found _ => ?_
  split
  next => exact .pure trivial
  next => exact .bind (validate d src) fun _ _ => .bind (validate d dest) fun _ _ => .throw _

theorem merge (value : K) (ref : UnitRef K) : (merge value ref).Keeps I fun _ => True :=
  .bind (parse ref) fun u _ => .bind (kept.mergeFactor u) fun _ _ => .pure trivial

/-- Questions keep what lookups keep. -/
theorem ask {s : Session K} (holds : I s) (q : Query K) : I (q.after s) := by
  cases q with
  | conversion src dest =>
    have keeps : (Session.conversion src dest).Keeps I fun _ => True :=
      .bind (parse src) fun u _ => .bind (.lift fun d given => given) fun d _ =>
        kept.conversionIn d _ dest
    exact keeps.invariant holds
  | conversionIn d src dest => exact (kept.conversionIn d src dest).invariant holds
  | convert value src dest =>
    have keeps : (convert value src dest).Keeps I fun _ => True :=
      .bind (parse src) fun u _ => .bind (.lift fun d given => given) fun d _ =>
        kept.convertIn d value _ dest
    exact keeps.invariant holds
  | convertIn d value src dest => exact (kept.convertIn d value src dest).invariant holds
  | merge value ref => exact (kept.merge value ref).invariant holds
  | expand value ref =>
    have keeps : (expand value ref).Keeps I fun _ => True := by
      refine .bind (parse ref) fun u _ => .bind (.weaken .get fun _ _ => trivial) fun s _ => ?_
      refine .bind (.lift fun x expanded => expanded) fun ⟨scaled, ts⟩ _ => ?_
      exact .bind (.lift fun c product => product) fun c _ => kept.merge scaled _
    exact keeps.invariant holds
  | toBase ref bridging =>
    have keeps : (do Session.toBase (← Session.parse ref) bridging).Keeps I fun _ => True :=
      .bind (parse ref) fun u _ => kept.toBase u bridging
    exact keeps.invariant holds
  | edge d src dest =>
    have same : (Query.edge d src dest).after s =
        ((onStore fun lex => EdgeStore.edgesOf lex d).apply s).2 := by
      rw [Query.after, apply_onStore, apply_onStore, EdgeStore.find?, Action.apply_bind]
      rcases (EdgeStore.edgesOf s.lexicon d).apply s.store with ⟨_ | _, store⟩ <;> rfl
    rw [same]
    exact (kept.edges d).invariant holds
  | network d => exact (kept.network d).invariant holds
  | route d src dest => exact (kept.route d src dest).invariant holds

end KeptByLookups

end Metrology.Session
