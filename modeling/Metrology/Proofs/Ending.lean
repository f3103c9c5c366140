import Metrology.Proofs.Action
import Metrology.Proofs.Outcome

/-!
# How computations end

A computation is specified by what it gives and by what it fails with. An action is specified along
with an invariant, which it keeps either way.
-/
namespace Metrology

section
variable {ε α β : Type} {P Q : α → Prop} {R : β → Prop} {E F : ε → Prop}

/-- The computation gives what satisfies `Q` or fails with what satisfies `E`. -/
def Brings (Q : α → Prop) (E : ε → Prop) : Except ε α → Prop
  | .ok x => Q x
  | .error e => E e

namespace Brings

theorem given {x : Except ε α} {a : α} (brings : Brings Q E x) (same : x = .ok a) : Q a := by
  rwa [same] at brings

theorem failed {x : Except ε α} {e : ε} (brings : Brings Q E x) (same : x = .error e) : E e := by
  rwa [same] at brings

theorem weaken {x : Except ε α} (brings : Brings P E x) (implies : ∀ a, P a → Q a)
    (implies' : ∀ e, E e → F e) : Brings Q F x := by
  cases x with
  | ok a => exact implies a brings
  | error e => exact implies' e brings

/-- What is given is the outcome. -/
theorem told {x : Except ε α} (brings : Brings Q E x) : Brings (fun a => x = .ok a ∧ Q a) E x := by
  cases x with
  | ok a => exact ⟨rfl, brings⟩
  | error e => exact brings

theorem bind {x : Except ε α} {f : α → Except ε β} (first : Brings Q E x)
    (second : ∀ a, Q a → Brings R E (f a)) : Brings R E (x >>= f) := by
  cases x with
  | ok a => exact second a first
  | error e => exact first

theorem map {x : Except ε α} {f : α → β} (first : Brings Q E x) (second : ∀ a, Q a → R (f a)) :
    Brings R E (x.map f) := by
  cases x with
  | ok a => exact second a first
  | error e => exact first

/-- A computation that fails with nothing gives something. -/
theorem isOk {x : Except ε α} (brings : Brings Q (fun _ => False) x) : ∃ a, x = .ok a ∧ Q a := by
  cases x with
  | ok a => exact ⟨a, rfl, brings⟩
  | error e => exact brings.elim

/-- What one step brings, a loop brings. -/
theorem foldlM {xs : List β} {f : α → β → Except ε α}
    (step : ∀ a x, x ∈ xs → Q a → Brings Q E (f a x)) {a : α} (start : Q a) :
    Brings Q E (xs.foldlM f a) := by
  induction xs generalizing a with
  | nil => exact start
  | cons x rest ih =>
    rw [List.foldlM_cons]
    exact (step a x List.mem_cons_self start).bind fun b own =>
      ih (fun b y mem => step b y (List.mem_cons_of_mem _ mem)) own

/-- What is brought one by one is brought together. -/
theorem mapM {xs : List β} {f : β → Except ε α} (each : ∀ x ∈ xs, Brings Q E (f x)) :
    Brings (fun ys => ∀ y ∈ ys, Q y) E (xs.mapM f) := by
  induction xs with
  | nil => exact fun _ mem => absurd mem List.not_mem_nil
  | cons x rest ih =>
    rw [List.mapM_cons]
    exact (each x List.mem_cons_self).bind fun y own =>
      (ih fun z mem => each z (List.mem_cons_of_mem _ mem)).bind fun ys others =>
        List.forall_mem_cons.mpr ⟨own, others⟩

/-- Where errors do not matter, only what is given is to be specified. -/
theorem of_given {x : Except ε α} (given : ∀ a, x = .ok a → Q a) (failed : ∀ e, x = .error e → E e) :
    Brings Q E x := by
  cases x with
  | ok a => exact given a rfl
  | error e => exact failed e rfl

/-- A computation that is known to give something, unless its errors do not matter. -/
theorem of_ok {x : Except ε α} (given : (∀ e, E e) ∨ ∃ a, x = .ok a) :
    Brings (fun a => x = .ok a) E x := by
  cases x with
  | ok a => exact rfl
  | error e => exact given.elim (· e) nofun

end Brings

end

namespace Action

variable {σ τ α β : Type} {I : σ → Prop} {P Q : α → Prop} {R : β → Prop} {E F : Error → Prop}

/-- The action keeps the invariant. Every answer it gives satisfies `Q`, every error `E`. -/
def Ends (I : σ → Prop) (a : Action σ α) (Q : α → Prop) (E : Error → Prop) : Prop :=
  ∀ s, I s → I (a.apply s).2 ∧ Brings Q E (a.apply s).1

namespace Ends

theorem keeps {a : Action σ α} (ends : Ends I a Q E) : Keeps I a Q :=
  fun s holds => ⟨(ends s holds).1, fun _ given => (ends s holds).2.given given⟩

theorem outcome {a : Action σ α} {s : σ} (ends : Ends I a Q E) (holds : I s) :
    Brings Q E (a.apply s).1 :=
  (ends s holds).2

theorem weaken {a : Action σ α} (ends : Ends I a P E) (implies : ∀ x, P x → Q x)
    (implies' : ∀ e, E e → F e) : Ends I a Q F :=
  fun s holds => ⟨(ends s holds).1, (ends s holds).2.weaken implies implies'⟩

theorem pure {x : α} (h : Q x) : Ends I (Pure.pure x) Q E := fun _ holds => ⟨holds, h⟩

theorem throw {e : Error} (h : E e) : Ends I (MonadExcept.throw e : Action σ α) Q E :=
  fun _ holds => ⟨holds, h⟩

theorem lift {e : Except Error α} (h : Brings Q E e) : Ends I (liftM e : Action σ α) Q E :=
  fun _ holds => ⟨holds, h⟩

theorem get : Ends I (MonadState.get : Action σ σ) I E := fun _ holds => ⟨holds, holds⟩

theorem bind {a : Action σ α} {f : α → Action σ β} (first : Ends I a Q E)
    (second : ∀ x, Q x → Ends I (f x) R E) : Ends I (a >>= f) R E := by
  intro s holds
  rw [apply_bind]
  have kept := first s holds
  match run : a.apply s with
  | (.ok x, s') =>
    rw [run] at kept
    exact second x kept.2 s' kept.1
  | (.error e, s') =>
    rw [run] at kept
    exact kept

theorem mapM {f : α → Action σ β} {xs : List α} (each : ∀ x ∈ xs, Ends I (f x) R E) :
    Ends I (xs.mapM f) (fun ys => ∀ y ∈ ys, R y) E := by
  induction xs with
  | nil => exact .pure fun _ mem => absurd mem List.not_mem_nil
  | cons x rest ih =>
    rw [List.mapM_cons]
    refine .bind (each x List.mem_cons_self) fun y own => ?_
    refine .bind (ih fun z mem => each z (List.mem_cons_of_mem _ mem)) fun ys others => ?_
    exact .pure (List.forall_mem_cons.mpr ⟨own, others⟩)

end Ends

end Action

end Metrology
