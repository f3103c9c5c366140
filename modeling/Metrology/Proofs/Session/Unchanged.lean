import Metrology.Proofs.Session.Replies

/-!
# What a run has not changed

Whatever is done with a session, its memory goes back to the last change that was made: from a state
in which nothing was remembered only questions and refused changes lead to the end. A loading that
stops halfway is left out here, since it changes the units although it is refused.
-/
namespace Metrology.Session

variable {K : Type} [Scalar K]

/-- The deed is a change that is made. -/
def Deed.isMade (s : Session K) : Deed K → Bool
  | change c => (c.action.apply s).1.toOption.isSome
  | ask _ => false

/-- The questions that a deed asks. -/
def Deed.questions : Deed K → List (Query K)
  | change _ => []
  | ask q => [q]

/-- No system is loaded. -/
def WithoutLoading (deeds : List (Deed K)) : Prop :=
  ∀ system, Deed.change (.loadSystem system) ∉ deeds

/-- The questions of a run since the last change that was made, after some that were asked before. -/
def pending (asked : List (Query K)) : List (Deed K) → Session K → List (Query K)
  | [], _ => asked
  | deed :: rest, s =>
    pending (if deed.isMade s then [] else asked ++ deed.questions) rest (deed.after s)

/-- They were asked in the run, or before it. -/
theorem mem_pending {asked : List (Query K)} {deeds : List (Deed K)} {s : Session K} {q : Query K}
    (mem : q ∈ pending asked deeds s) : q ∈ asked ∨ .ask q ∈ deeds := by
  induction deeds generalizing asked s with
  | nil => exact .inl mem
  | cons deed rest ih =>
    rcases ih mem with early | later
    · split at early
      next => cases early
      next =>
        rcases List.mem_append.mp early with old | new
        · exact .inl old
        · cases deed with
          | ask own =>
            obtain rfl := List.mem_singleton.mp new
            exact .inr List.mem_cons_self
          | change _ => cases new
    · exact .inr (List.mem_cons_of_mem _ later)

/-- Questions lead from one state to another, and buildings of edges, as refused changes leave them. -/
inductive Unchanged (o : Session K) : List (Query K) → Session K → Prop
  | start : Unchanged o [] o
  | ask {asked : List (Query K)} {s : Session K} (q : Query K) (unchanged : Unchanged o asked s) :
      Unchanged o (asked ++ [q]) (q.after s)
  | built {asked : List (Query K)} {s : Session K} (d : Dimension) (unchanged : Unchanged o asked s) :
      Unchanged o asked { s with store := ((EdgeStore.edgesOf s.lexicon d).apply s.store).2 }

variable {o s : Session K} {asked : List (Query K)}

theorem Unchanged.lexicon (unchanged : Unchanged o asked s) : s.lexicon = o.lexicon := by
  induction unchanged with
  | start => rfl
  | ask q _ ih => exact (lexicon_ask q _).trans ih
  | built d _ ih => exact ih

/-- A deed after which the registries are as before. -/
theorem Unchanged.deed (unchanged : Unchanged o asked s) {deed : Deed K}
    (loads : ∀ system, deed ≠ .change (.loadSystem system)) (quiet : deed.isMade s = false) :
    Unchanged o (asked ++ deed.questions) (deed.after s) := by
  have looked {store : EdgeStore K}
      (refused : store = s.store ∨ ∃ d, store = ((EdgeStore.edgesOf s.lexicon d).apply s.store).2) :
      Unchanged o (asked ++ []) { s with store := store } := by
    rw [List.append_nil]
    rcases refused with rfl | ⟨d, rfl⟩
    · exact unchanged
    · exact unchanged.built d
  cases deed with
  | ask q => exact unchanged.ask q
  | change c =>
    have run := c.comesTo s
    rw [Deed.isMade] at quiet
    rw [Deed.after]
    generalize c.action.apply s = outcome at run quiet ⊢
    cases run with
    | unitRefused => exact looked (.inl rfl)
    | systemHalted => exact absurd rfl (loads _)
    | edgeRefused src dest factor edit => exact looked (EdgeStore.refused_of_add edit).2
    | removalRefused src dest edit => exact looked (EdgeStore.refused_of_remove edit).2
    | unitAdded | unitRemoved | systemLoaded | edgeAdded | edgeRemoved => cases quiet

/-- After a change that is made nothing is remembered. -/
theorem Deed.forgotten {deed : Deed K} (made : deed.isMade s = true) : (deed.after s).Forgotten := by
  cases deed with
  | ask q => cases made
  | change c =>
    cases run : (c.action.apply s).1 with
    | error e => simp [Deed.isMade, run, Except.toOption] at made
    | ok _ => exact forgotten_of_change run

/-- Every run comes from a state in which nothing was remembered, by the questions since then. -/
theorem exists_unchanged {I : Session K → Prop} {deeds : List (Deed K)}
    (plain : WithoutLoading deeds) (keeps : ∀ s (deed : Deed K), I s → I (deed.after s)) (holds : I o)
    (forgotten : o.Forgotten) (unchanged : Unchanged o asked s) (holds' : I s) :
    ∃ o' : Session K, I o' ∧ o'.Forgotten ∧ Unchanged o' (pending asked deeds s) (perform deeds s) := by
  induction deeds generalizing o asked s with
  | nil => exact ⟨o, holds, forgotten, unchanged⟩
  | cons deed rest ih =>
    have others : WithoutLoading rest := fun system mem => plain system (List.mem_cons_of_mem _ mem)
    have later := keeps s deed holds'
    rw [pending]
    cases made : deed.isMade s with
    | true => exact ih others later (Deed.forgotten made) .start later
    | false =>
      have loads (system : MeasurementSystem) : deed ≠ .change (.loadSystem system) :=
        fun same => plain system (same ▸ List.mem_cons_self)
      exact ih others holds forgotten (unchanged.deed loads made) later

/-- What questions keep holds at the end of such a run. -/
theorem Unchanged.keepsAmong {I : Session K → Prop} {known compared : Compound K → Prop}
    (kept : KeptAmong o known compared I) (holds : I o) (unchanged : Unchanged o asked s)
    (refers : ∀ q ∈ asked, ∀ ref ∈ q.refs, ∀ u, o.lexicon.deref ref = .ok u → known u)
    (compares : ∀ q ∈ asked, ∀ c, q.Compares o.lexicon c → compared c) : I s := by
  induction unchanged with
  | start => exact holds
  | ask q _ ih =>
    refine kept.ask (refers q (by simp)) (compares q (by simp)) (ih ?_ ?_)
    · exact fun r mem => refers r (List.mem_append_left _ mem)
    · exact fun r mem => compares r (List.mem_append_left _ mem)
  | built d _ ih => exact kept.edges _ d (ih refers compares)

theorem Unchanged.keeps {I : Session K → Prop} {compared : Compound K → Prop}
    (kept : KeptByParts o compared I) (holds : I o) (unchanged : Unchanged o asked s)
    (known : ∀ q ∈ asked, ∀ ref ∈ q.refs, o.lexicon.Refers ref)
    (compares : ∀ q ∈ asked, ∀ c, q.Compares o.lexicon c → compared c) : I s :=
  unchanged.keepsAmong kept.keptAmong holds
    (fun q mem ref isRef _ meant => kept.indexed.sound_of_deref (known q mem ref isRef) meant) compares

end Metrology.Session
