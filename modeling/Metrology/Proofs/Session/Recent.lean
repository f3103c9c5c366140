import Metrology.Proofs.Session.Unchanged

/-!
# Since the last change

Conversions are added and removed and questions are asked, in any order. What is remembered at the
end goes back to the last change that was made: from a state in which nothing was remembered,
questions and refused changes lead to the end. So of all questions only those since then matter.
-/
namespace Metrology.Session

variable {K : Type}

section
variable [Scalar K]

/-- The event is a change of the conversions that is made. -/
def Event.isMade (s : Session K) : Event K → Bool
  | addConversion src dest factor =>
    ((Session.addConversion src dest factor).apply s).1.toOption.isSome
  | removeConversion src dest => ((Session.removeConversion src dest).apply s).1.toOption.isSome
  | ask _ => false

/-- The questions that an event asks. -/
def Event.questions : Event K → List (Query K)
  | addConversion _ _ _ | removeConversion _ _ => []
  | ask query => [query]

/-- The questions of a run since the last change that was made, after some that were asked before.
-/
def recent (asked : List (Query K)) : List (Event K) → Session K → List (Query K)
  | [], _ => asked
  | e :: rest, s => recent (if e.isMade s then [] else asked ++ e.questions) rest (e.after s)

/-- Questions and refused changes lead from one state to another. -/
inductive Reached (o : Session K) : List (Query K) → Session K → Prop
  | start : Reached o [] o
  | step {asked : List (Query K)} {s : Session K} {e : Event K} (reached : Reached o asked s)
      (quiet : e.isMade s = false) : Reached o (asked ++ e.questions) (e.after s)

variable {o s : Session K} {asked : List (Query K)}

theorem lexicon_event (e : Event K) (s : Session K) : (e.after s).lexicon = s.lexicon := by
  cases e with
  | ask q => exact lexicon_ask q s
  | addConversion src dest factor => exact lexicon_addConversion src dest factor s
  | removeConversion src dest => exact lexicon_removeConversion src dest s

/-- The deed that an event is. -/
def Event.deed : Event K → Deed K
  | addConversion src dest factor => .change (.addConversion src dest factor)
  | removeConversion src dest => .change (.removeConversion src dest)
  | ask q => .ask q

theorem deed_after (e : Event K) (s : Session K) : e.deed.after s = e.after s := by
  cases e with
  | ask q => rfl
  | addConversion src dest factor =>
    rw [Event.deed, Deed.after, Change.action, apply_discard]
    rfl
  | removeConversion src dest =>
    rw [Event.deed, Deed.after, Change.action, apply_discard]
    rfl

theorem deed_isMade (e : Event K) (s : Session K) : e.deed.isMade s = e.isMade s := by
  cases e with
  | ask q => rfl
  | addConversion src dest factor =>
    rw [Event.deed, Deed.isMade, Change.action, apply_discard, Event.isMade]
    cases ((addConversion src dest factor).apply s).1 <;> rfl
  | removeConversion src dest =>
    rw [Event.deed, Deed.isMade, Change.action, apply_discard, Event.isMade]
    cases ((removeConversion src dest).apply s).1 <;> rfl

/-- After a change that is made nothing is remembered. -/
theorem forgotten_of_isMade {e : Event K} (made : e.isMade s = true) : (e.after s).Forgotten := by
  rw [← deed_isMade] at made
  exact deed_after e s ▸ Deed.forgotten made

theorem perform_deeds (events : List (Event K)) (s : Session K) :
    perform (events.map Event.deed) s = after events s := by
  induction events generalizing s with
  | nil => rfl
  | cons e rest ih =>
    show perform (rest.map Event.deed) (e.deed.after s) = after rest (e.after s)
    rw [deed_after, ih]

theorem recent_eq_pending (asked : List (Query K)) (events : List (Event K)) (s : Session K) :
    recent asked events s = pending asked (events.map Event.deed) s := by
  induction events generalizing asked s with
  | nil => rfl
  | cons e rest ih =>
    rw [List.map_cons, pending, recent, ih, deed_isMade, deed_after]
    cases e <;> rfl

/-- They were asked in the run, or before it. -/
theorem mem_recent {asked : List (Query K)} {events : List (Event K)} {s : Session K} {q : Query K}
    (mem : q ∈ recent asked events s) : q ∈ asked ∨ .ask q ∈ events := by
  rw [recent_eq_pending] at mem
  refine (mem_pending mem).imp_right fun own => ?_
  obtain ⟨e, isIn, same⟩ := List.mem_map.mp own
  cases e <;> cases same
  exact isIn

theorem lexicon_after (events : List (Event K)) (s : Session K) :
    (after events s).lexicon = s.lexicon := by
  induction events generalizing s with
  | nil => rfl
  | cons e rest ih => exact (ih (e.after s)).trans (lexicon_event e s)

/-- Such events leave the registries as they are. -/
theorem Reached.unchanged (reached : o.Reached asked s) : o.Unchanged asked s := by
  induction reached with
  | start => exact .start
  | @step asked s e _ quiet ih =>
    have loads (system : MeasurementSystem) : e.deed ≠ .change (.loadSystem system) := by
      cases e <;> simp [Event.deed]
    have later := ih.deed loads ((deed_isMade e s).trans quiet)
    rw [deed_after] at later
    cases e <;> exact later

/-- Every run comes from a state in which nothing was remembered, by the questions since then. -/
theorem exists_origin {I : Session K → Prop} {events : List (Event K)}
    (keeps : ∀ s (e : Event K), I s → I (e.after s)) (holds : I o) (forgotten : o.Forgotten)
    (reached : o.Reached asked s) (holds' : I s) :
    ∃ o' : Session K, I o' ∧ o'.Forgotten ∧
      o'.Reached (recent asked events s) (after events s) := by
  induction events generalizing o asked s with
  | nil => exact ⟨o, holds, forgotten, reached⟩
  | cons e rest ih =>
    have later := keeps s e holds'
    rw [recent]
    cases made : e.isMade s with
    | true => exact ih later (forgotten_of_isMade made) .start later
    | false => exact ih holds forgotten (reached.step made) later

end

variable [Field K] [LinearOrder K] [IsStrictOrderedRing K] [Scalar K] [Scalar.Exact K]
variable {o s : Session K} {asked : List (Query K)} {compared : Compound K → Prop}

theorem NonZero.event (nonzero : s.NonZero) (e : Event K) : (e.after s).NonZero := by
  have scales : e.operation.Scales := by cases e <;> trivial
  have later : (after [e] s).NonZero := by
    rw [← operated_events]
    exact nonzero.operation scales
  exact later

theorem exists_reached {events : List (Event K)} (nonzero : o.NonZero) (forgotten : o.Forgotten)
    (reached : o.Reached asked s) (nonzero' : s.NonZero) (same : s.lexicon = o.lexicon) :
    ∃ o' : Session K, o'.NonZero ∧ o'.Forgotten ∧ o'.lexicon = o.lexicon ∧
      o'.Reached (recent asked events s) (after events s) := by
  obtain ⟨o', ⟨nonzero', same'⟩, forgotten', reached'⟩ :=
    exists_origin (I := fun t => t.NonZero ∧ t.lexicon = o.lexicon)
      (fun s e ⟨nonzero, same⟩ => ⟨nonzero.event e, (lexicon_event e s).trans same⟩)
      ⟨nonzero, rfl⟩ forgotten reached ⟨nonzero', same⟩
  exact ⟨o', nonzero', forgotten', same', reached'⟩

/-- What such a run remembers is what would be found out from there. -/
theorem Reached.echoes (nonzero : o.NonZero) (forgotten : o.Forgotten)
    (apart : ToldApart o.lexicon compared) (reached : o.Reached asked s)
    (known : ∀ q ∈ asked, ∀ ref ∈ q.refs, o.lexicon.Refers ref)
    (compares : ∀ q ∈ asked, ∀ c, q.Compares o.lexicon c → compared c) : Echoes o compared s :=
  reached.unchanged.keeps (keptByParts_echoes nonzero forgotten apart) forgotten.echoes known
    compares

end Metrology.Session
