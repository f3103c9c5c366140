import Mathlib.Data.List.Forall2
import Metrology.Error

/-!
# Computations that succeed

When a chain of computations gives an answer, each of its links gave one.
-/
namespace Metrology

variable {ε α β : Type}

theorem bind_eq_ok {x : Except ε α} {f : α → Except ε β} {b : β} :
    (x >>= f) = .ok b ↔ ∃ a, x = .ok a ∧ f a = .ok b := by
  cases x <;> simp [bind, Except.bind]

theorem map_eq_ok {x : Except ε α} {f : α → β} {b : β} :
    x.map f = .ok b ↔ ∃ a, x = .ok a ∧ f a = b := by
  cases x <;> simp [Except.map]

theorem map_eq_error {x : Except ε α} {f : α → β} {e : ε} :
    x.map f = .error e ↔ x = .error e := by
  cases x <;> simp [Except.map]

/-- A computation that is known to succeed is known by its answer. -/
theorem eq_ok_getD {x : Except ε α} (given : x.toOption.isSome = true) (other : α) :
    x = .ok (x.toOption.getD other) := by
  cases x with
  | error e => cases given
  | ok a => rfl

/-- A computation of whose answer something is known has given one. -/
theorem exists_ok_of_map_eq_some {x : Except ε α} {f : α → β} {b : β}
    (known : x.toOption.map f = some b) : ∃ a, x = .ok a ∧ f a = b := by
  cases x with
  | error e => cases known
  | ok a => exact ⟨a, rfl, Option.some.inj known⟩

theorem exists_error_of_isOk {x : Except ε α} (fails : x.isOk = false) : ∃ e, x = .error e := by
  cases x with
  | error e => exact ⟨e, rfl⟩
  | ok a => cases fails

theorem mapM_eq_ok {f : α → Except ε β} {xs : List α} {ys : List β} :
    xs.mapM f = .ok ys ↔ List.Forall₂ (fun x y => f x = .ok y) xs ys := by
  induction xs generalizing ys with
  | nil => simp [pure, Except.pure, eq_comm]
  | cons x xs ih =>
    rw [List.mapM_cons, bind_eq_ok]
    constructor
    · rintro ⟨y, head, rest⟩
      obtain ⟨zs, tail, same⟩ := bind_eq_ok.mp rest
      obtain rfl := Except.ok.inj same
      exact .cons head (ih.mp tail)
    · rintro (_ | ⟨head, tail⟩)
      exact ⟨_, head, bind_eq_ok.mpr ⟨_, ih.mpr tail, rfl⟩⟩

/-- Results are known together where each is known from what it was computed from. -/
theorem eq_map_of_mapM {f : α → Except ε β} {g : α → β} {xs : List α} {ys : List β}
    (form : ∀ x y, f x = .ok y → y = g x) (all : xs.mapM f = .ok ys) : ys = xs.map g := by
  have each := (mapM_eq_ok.mp all).imp fun x y given => (form x y given).symm
  exact (List.forall₂_eq_eq_eq ▸ List.forall₂_map_left_iff.mpr each : xs.map g = ys).symm

theorem exists_of_mem_mapM {f : α → Except ε β} {xs : List α} {ys : List β}
    (all : xs.mapM f = .ok ys) {y : β} (mem : y ∈ ys) : ∃ x ∈ xs, f x = .ok y := by
  have each := mapM_eq_ok.mp all
  induction each with
  | nil => simp at mem
  | @cons x z xs ys head tail ih =>
    rcases List.mem_cons.mp mem with rfl | inside
    · exact ⟨x, List.mem_cons_self, head⟩
    · obtain ⟨w, isIn, same⟩ := ih (mapM_eq_ok.mpr tail) inside
      exact ⟨w, List.mem_cons_of_mem _ isIn, same⟩

/-- A run through a list fails where one of its steps does. -/
theorem exists_of_mapM_error {f : α → Except ε β} {xs : List α} {e : ε}
    (failed : xs.mapM f = .error e) : ∃ x ∈ xs, f x = .error e := by
  induction xs with
  | nil => cases failed
  | cons x xs ih =>
    rw [List.mapM_cons] at failed
    cases head : f x with
    | error e' =>
      rw [head] at failed
      obtain rfl : e' = e := Except.error.inj failed
      exact ⟨x, List.mem_cons_self, head⟩
    | ok y =>
      rw [head] at failed
      cases tail : xs.mapM f with
      | error e' =>
        rw [tail] at failed
        obtain rfl : e' = e := Except.error.inj failed
        obtain ⟨z, mem, same⟩ := ih tail
        exact ⟨z, List.mem_cons_of_mem _ mem, same⟩
      | ok ys =>
        rw [tail] at failed
        cases failed

/-- Where each result is given, all are. -/
theorem mapM_isOk {f : α → Except ε β} {xs : List α} (each : ∀ x ∈ xs, ∃ y, f x = .ok y) :
    ∃ ys, xs.mapM f = .ok ys := by
  induction xs with
  | nil => exact ⟨[], rfl⟩
  | cons x xs ih =>
    obtain ⟨y, head⟩ := each x List.mem_cons_self
    obtain ⟨ys, tail⟩ := ih fun z mem => each z (List.mem_cons_of_mem _ mem)
    exact ⟨y :: ys, mapM_eq_ok.mpr (.cons head (mapM_eq_ok.mp tail))⟩

/-- Results are known one by one from what they have in common with the inputs. -/
theorem mapM_of_map_eq {γ : Type} {f : α → Except ε β} {g : α → γ} {h : β → γ} {xs : List α}
    {ys : List β} (same : xs.map g = ys.map h) (each : ∀ x, ∀ y ∈ ys, g x = h y → f x = .ok y) :
    xs.mapM f = .ok ys := by
  refine mapM_eq_ok.mpr ?_
  induction ys generalizing xs with
  | nil =>
    obtain rfl := List.map_eq_nil_iff.mp same
    exact .nil
  | cons y ys ih =>
    obtain ⟨x, rest, rfl, head, tail⟩ := List.map_eq_cons_iff.mp same
    exact .cons (each x y List.mem_cons_self head)
      (ih tail fun x y mem => each x y (List.mem_cons_of_mem _ mem))

/-- Where each step succeeds or fails whatever came before, a run succeeds if all its steps do. -/
theorem foldlM_isOk_iff {f : β → α → Except ε β} {P : α → Prop}
    (step : ∀ b x, (∃ c, f b x = .ok c) ↔ P x) {xs : List α} {b : β} :
    (∃ c, xs.foldlM f b = .ok c) ↔ ∀ x ∈ xs, P x := by
  induction xs generalizing b with
  | nil => exact ⟨fun _ _ mem => absurd mem List.not_mem_nil, fun _ => ⟨b, rfl⟩⟩
  | cons x rest ih =>
    rw [List.foldlM_cons, List.forall_mem_cons]
    constructor
    · rintro ⟨c, made⟩
      obtain ⟨mid, first, made⟩ := bind_eq_ok.mp made
      exact ⟨(step b x).mp ⟨mid, first⟩, ih.mp ⟨c, made⟩⟩
    · rintro ⟨own, others⟩
      obtain ⟨mid, first⟩ := (step b x).mpr own
      obtain ⟨c, made⟩ := ih.mpr others
      exact ⟨c, bind_eq_ok.mpr ⟨mid, first, made⟩⟩

end Metrology
