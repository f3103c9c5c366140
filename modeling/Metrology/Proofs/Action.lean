import Metrology.Action

/-!
# Invariants of actions

An action keeps an invariant if every run from a state with the invariant ends in one, whether the
action gives an answer or fails. What it answers is specified along with that.
-/
namespace Metrology.Action

variable {σ τ α β : Type} {I : σ → Prop} {P Q : α → Prop} {R : β → Prop}

theorem ext {a b : Action σ α} (same : ∀ s, a.apply s = b.apply s) : a = b := funext same

/-- One action after another gives an answer if both do. -/
theorem bind_apply_eq_ok {a : Action σ α} {f : α → Action σ β} {s s' : σ} {y : β} :
    (a >>= f).apply s = (.ok y, s') ↔
      ∃ x t, a.apply s = (.ok x, t) ∧ (f x).apply t = (.ok y, s') := by
  rw [apply_bind]
  rcases a.apply s with ⟨_ | x, t⟩
  · simp
  · constructor
    · exact fun run => ⟨x, t, rfl, run⟩
    · rintro ⟨_, _, same, run⟩
      obtain ⟨rfl, rfl⟩ : x = _ ∧ t = _ := by simpa using same
      exact run

/-- The action keeps the invariant, and every answer it gives satisfies `Q`. -/
def Keeps (I : σ → Prop) (a : Action σ α) (Q : α → Prop) : Prop :=
  ∀ s, I s → I (a.apply s).2 ∧ ∀ x, (a.apply s).1 = .ok x → Q x

namespace Keeps

theorem invariant {a : Action σ α} {s : σ} (keeps : Keeps I a Q) (holds : I s) :
    I (a.apply s).2 :=
  (keeps s holds).1

/-- The state that a run leaves has the invariant. -/
theorem left {a : Action σ α} {s t : σ} {x : Except Error α} (keeps : Keeps I a Q)
    (run : a.apply s = (x, t)) (holds : I s) : I t := by
  have kept := keeps.invariant holds
  rwa [run] at kept

theorem answer {a : Action σ α} {s : σ} {x : α} (keeps : Keeps I a Q) (holds : I s)
    (answers : (a.apply s).1 = .ok x) : Q x :=
  (keeps s holds).2 x answers

theorem weaken {a : Action σ α} (keeps : Keeps I a P) (implies : ∀ x, P x → Q x) :
    Keeps I a Q :=
  fun s holds => ⟨(keeps s holds).1, fun x answers => implies x ((keeps s holds).2 x answers)⟩

theorem pure {x : α} (h : Q x) : Keeps I (Pure.pure x) Q := by
  intro s holds
  refine ⟨holds, fun y answers => ?_⟩
  obtain rfl := Except.ok.inj answers
  exact h

/-- Where nothing is found, there is nothing to specify. -/
theorem nothing : Keeps I (Pure.pure none : Action σ (Option α))
    fun found => ∀ x, found = some x → Q x :=
  pure fun _ same => by cases same

theorem found {x : α} (h : Q x) : Keeps I (Pure.pure (some x) : Action σ (Option α))
    fun found => ∀ y, found = some y → Q y :=
  pure fun _ same => Option.some.inj same ▸ h

theorem throw (e : Error) : Keeps I (MonadExcept.throw e : Action σ α) Q :=
  fun _ holds => ⟨holds, fun _ answers => nomatch answers⟩

theorem lift {e : Except Error α} (h : ∀ x, e = .ok x → Q x) :
    Keeps I (liftM e : Action σ α) Q :=
  fun _ holds => ⟨holds, h⟩

theorem get : Keeps I (MonadState.get : Action σ σ) I := by
  intro s holds
  refine ⟨holds, fun x answers => ?_⟩
  obtain rfl := Except.ok.inj answers
  exact holds

theorem set {s : σ} (h : I s) : Keeps I (MonadStateOf.set s : Action σ PUnit) fun _ => True :=
  fun _ _ => ⟨h, fun _ _ => trivial⟩

theorem modify {f : σ → σ} (h : ∀ s, I s → I (f s)) :
    Keeps I (modify f : Action σ PUnit) fun _ => True :=
  fun s holds => ⟨h s holds, fun _ _ => trivial⟩

theorem bind {a : Action σ α} {f : α → Action σ β} (first : Keeps I a Q)
    (second : ∀ x, Q x → Keeps I (f x) R) : Keeps I (a >>= f) R := by
  intro s holds
  rw [apply_bind]
  have kept := first s holds
  match run : a.apply s with
  | (.ok x, s') =>
    rw [run] at kept
    exact second x (kept.2 x rfl) s' kept.1
  | (.error e, s') =>
    rw [run] at kept
    exact ⟨kept.1, fun _ answers => nomatch answers⟩

/-- Results that do not depend on the state are taken one by one. -/
theorem mapM {f : α → Except Error β} (xs : List α) :
    Keeps I (xs.mapM fun x => (liftM (f x) : Action σ β)) fun ys => xs.mapM f = .ok ys := by
  induction xs with
  | nil => exact .pure rfl
  | cons x xs ih =>
    rw [List.mapM_cons]
    refine .bind (.lift fun y first => first) fun y first => .bind ih fun ys rest => .pure ?_
    rw [List.mapM_cons, first]
    show (do return y :: (← xs.mapM f)) = Except.ok (y :: ys)
    rw [rest]
    rfl

/-- What a part of the state keeps, the whole keeps. -/
theorem onPart {J : τ → Prop} {view : σ → τ} {update : σ → τ → σ} {a : Action τ α}
    (part : ∀ s, I s → J (view s)) (whole : ∀ s t, I s → J t → I (update s t))
    (keeps : Keeps J a Q) : Keeps I (a.onPart view update) Q := by
  intro s holds
  have kept := keeps (view s) (part s holds)
  exact ⟨whole s _ holds kept.1, kept.2⟩

end Keeps

/-- Where the action fails, it leaves the invariant as it was. What it does where it succeeds is left
open. -/
def FailsIn (I : σ → Prop) (a : Action σ α) : Prop :=
  ∀ s e, I s → (a.apply s).1 = .error e → I (a.apply s).2

namespace FailsIn

theorem of_total {a : Action σ α} (total : ∀ s, ∃ x, (a.apply s).1 = .ok x) : FailsIn I a := by
  intro s e _ failed
  obtain ⟨x, answers⟩ := total s
  rw [answers] at failed
  cases failed

theorem bind {a : Action σ α} {f : α → Action σ β} (first : Keeps I a Q)
    (second : ∀ x, Q x → FailsIn I (f x)) : FailsIn I (a >>= f) := by
  intro s e holds failed
  rw [apply_bind] at failed ⊢
  have kept := first s holds
  match run : a.apply s with
  | (.ok x, s') =>
    rw [run] at kept failed
    exact second x (kept.2 x rfl) s' e kept.1 failed
  | (.error e', s') =>
    rw [run] at kept
    exact kept.1

end FailsIn

/-- Run from any state with the invariant, the action keeps it and gives an answer that satisfies
`Q`. -/
def Yields (I : σ → Prop) (a : Action σ α) (Q : α → Prop) : Prop :=
  ∀ s, I s → I (a.apply s).2 ∧ ∃ x, (a.apply s).1 = .ok x ∧ Q x

namespace Yields

theorem weaken {a : Action σ α} (yields : Yields I a P) (implies : ∀ x, P x → Q x) :
    Yields I a Q := by
  intro s holds
  obtain ⟨kept, x, answers, own⟩ := yields s holds
  exact ⟨kept, x, answers, implies x own⟩

theorem pure {x : α} (h : Q x) : Yields I (Pure.pure x) Q :=
  fun _ holds => ⟨holds, x, rfl, h⟩

theorem lift {e : Except Error α} (h : ∃ x, e = .ok x ∧ Q x) : Yields I (liftM e : Action σ α) Q :=
  fun _ holds => ⟨holds, h⟩

theorem get : Yields I (MonadState.get : Action σ σ) I :=
  fun s holds => ⟨holds, s, rfl, holds⟩

theorem bind {a : Action σ α} {f : α → Action σ β} (first : Yields I a Q)
    (second : ∀ x, Q x → Yields I (f x) R) : Yields I (a >>= f) R := by
  intro s holds
  obtain ⟨kept, x, answers, own⟩ := first s holds
  rw [apply_bind]
  rcases run : a.apply s with ⟨_ | y, s'⟩
  · rw [run] at answers
    cases answers
  · rw [run] at kept answers
    obtain rfl := Except.ok.inj answers
    exact second y own s' kept

/-- An action that never fails gives what every answer satisfies. -/
theorem of_keeps {a : Action σ α} (keeps : Keeps I a Q)
    (answers : ∀ s, I s → ∃ x, (a.apply s).1 = .ok x ∧ P x) : Yields I a fun x => P x ∧ Q x := by
  intro s holds
  obtain ⟨x, given, own⟩ := answers s holds
  exact ⟨keeps.invariant holds, x, given, own, keeps.answer holds given⟩

end Yields

/-- From every state with the invariant both actions do the same: they leave the same state, which has
the invariant, and fail alike or give the same answer, which satisfies `Q`. -/
structure Alike (I : σ → Prop) (a b : Action σ α) (Q : α → Prop) : Prop where
  same : ∀ s, I s → a.apply s = b.apply s
  keeps : Keeps I a Q

namespace Alike

variable {a b c : Action σ α}

theorem of_keeps (keeps : Keeps I a Q) : Alike I a a Q := ⟨fun _ _ => rfl, keeps⟩

theorem get : Alike I (MonadState.get : Action σ σ) MonadState.get I := of_keeps .get

theorem lift {e : Except Error α} : Alike I (liftM e : Action σ α) (liftM e) fun x => e = .ok x :=
  of_keeps (.lift fun _ given => given)

theorem symm (alike : Alike I a b Q) : Alike I b a Q := by
  refine ⟨fun s holds => (alike.same s holds).symm, fun s holds => ?_⟩
  rw [← alike.same s holds]
  exact alike.keeps s holds

theorem trans (first : Alike I a b P) (second : Alike I b c Q) : Alike I a c P :=
  ⟨fun s holds => (first.same s holds).trans (second.same s holds), first.keeps⟩

theorem bind {f g : α → Action σ β} (first : Alike I a b Q)
    (second : ∀ x, Q x → Alike I (f x) (g x) R) : Alike I (a >>= f) (b >>= g) R := by
  refine ⟨fun s holds => ?_, .bind first.keeps fun x own => (second x own).keeps⟩
  rw [apply_bind, apply_bind, ← first.same s holds]
  have kept := first.keeps s holds
  rcases run : a.apply s with ⟨_ | x, t⟩
  · rfl
  · rw [run] at kept
    exact (second x (kept.2 x rfl)).same t kept.1

end Alike

end Metrology.Action
