/-!
# Registers

A register keeps one value per key, in the order in which the keys were first written: writing a key
again replaces its value in place, a key that was removed and is written again goes to the end.
-/
namespace Metrology

structure Register (κ ν : Type) where
  rows : List (κ × ν)
  deriving DecidableEq, Repr

namespace Register

variable {κ ν : Type} [DecidableEq κ]

def empty : Register κ ν := ⟨[]⟩

def keys (r : Register κ ν) : List κ := r.rows.map (·.1)

def values (r : Register κ ν) : List ν := r.rows.map (·.2)

def size (r : Register κ ν) : Nat := r.rows.length

def find (k : κ) : List (κ × ν) → Option ν
  | [] => none
  | (k', v) :: rest => if k' = k then some v else find k rest

def get? (r : Register κ ν) (k : κ) : Option ν := find k r.rows

def contains (r : Register κ ν) (k : κ) : Bool := (r.get? k).isSome

def write (k : κ) (v : ν) : List (κ × ν) → List (κ × ν)
  | [] => [(k, v)]
  | (k', v') :: rest => if k' = k then (k, v) :: rest else (k', v') :: write k v rest

/-- Writes `v` under `k`: in place if `k` is present, otherwise at the end. -/
def put (r : Register κ ν) (k : κ) (v : ν) : Register κ ν := ⟨write k v r.rows⟩

def erase (r : Register κ ν) (k : κ) : Register κ ν := ⟨r.rows.filter fun row => row.1 ≠ k⟩

/-- Writes rows one after the other. -/
def putAll (r : Register κ ν) (rows : List (κ × ν)) : Register κ ν :=
  rows.foldl (fun r row => r.put row.1 row.2) r

@[simp] theorem get?_empty (k : κ) : (empty : Register κ ν).get? k = none := rfl

theorem find_write (k k' : κ) (v : ν) (rows : List (κ × ν)) :
    find k' (write k v rows) = if k = k' then some v else find k' rows := by
  induction rows with
  | nil => simp [write, find]
  | cons row rest ih =>
    obtain ⟨a, b⟩ := row
    by_cases h : a = k
    · subst h
      by_cases h' : a = k' <;> simp [write, find, h']
    · by_cases h' : a = k'
      · subst h'
        simp [write, find, h, Ne.symm h]
      · simp [write, find, h, h', ih]

@[simp] theorem get?_put (r : Register κ ν) (k k' : κ) (v : ν) :
    (r.put k v).get? k' = if k = k' then some v else r.get? k' := find_write k k' v r.rows

theorem get?_put_self (r : Register κ ν) (k : κ) (v : ν) : (r.put k v).get? k = some v := by simp

theorem find_filter (k k' : κ) (rows : List (κ × ν)) :
    find k' (rows.filter fun row => row.1 ≠ k) = if k = k' then none else find k' rows := by
  induction rows with
  | nil => simp [find]
  | cons row rest ih =>
    obtain ⟨a, b⟩ := row
    by_cases h : a = k
    · subst h
      by_cases h' : a = k'
      · subst h'
        simpa [find] using ih
      · simpa [find, h'] using ih
    · by_cases h' : a = k'
      · subst h'
        simp [find, h, Ne.symm h]
      · simpa [find, h, h'] using ih

@[simp] theorem get?_erase (r : Register κ ν) (k k' : κ) :
    (r.erase k).get? k' = if k = k' then none else r.get? k' := find_filter k k' r.rows

/-- A present key moves nothing, a new one goes to the end. -/
theorem keys_put (r : Register κ ν) (k : κ) (v : ν) :
    (r.put k v).keys = if k ∈ r.keys then r.keys else r.keys ++ [k] := by
  obtain ⟨rows⟩ := r
  simp only [put, keys]
  induction rows with
  | nil => simp [write]
  | cons row rest ih =>
    obtain ⟨a, b⟩ := row
    by_cases h : a = k
    · subst h
      simp [write]
    · simp only [write, h, if_false, List.map_cons, ih, List.mem_cons, Ne.symm h, false_or]
      split <;> simp [*]

theorem find_eq_none_iff {k : κ} {rows : List (κ × ν)} :
    find k rows = none ↔ k ∉ rows.map (·.1) := by
  induction rows with
  | nil => simp [find]
  | cons row rest ih =>
    obtain ⟨a, b⟩ := row
    by_cases h : a = k
    · simp [find, h]
    · simp [find, h, Ne.symm h, ih]

theorem get?_eq_none_iff {r : Register κ ν} {k : κ} : r.get? k = none ↔ k ∉ r.keys :=
  find_eq_none_iff

theorem isSome_get?_iff {r : Register κ ν} {k : κ} : (r.get? k).isSome ↔ k ∈ r.keys := by
  rw [Option.isSome_iff_ne_none, ne_eq, get?_eq_none_iff, Decidable.not_not]

theorem mem_of_find {k : κ} {v : ν} {rows : List (κ × ν)} (h : find k rows = some v) :
    (k, v) ∈ rows := by
  induction rows with
  | nil => simp [find] at h
  | cons row rest ih =>
    obtain ⟨a, b⟩ := row
    by_cases here : a = k
    · simp [find, here] at h
      simp [here, h]
    · simp only [find, here, if_false] at h
      exact List.mem_cons_of_mem _ (ih h)

theorem mem_rows_of_get? {r : Register κ ν} {k : κ} {v : ν} (h : r.get? k = some v) :
    (k, v) ∈ r.rows :=
  mem_of_find h

/-- A new key is written behind all others. -/
theorem rows_put_of_fresh {r : Register κ ν} {k : κ} (fresh : r.get? k = none) (v : ν) :
    (r.put k v).rows = r.rows ++ [(k, v)] := by
  obtain ⟨rows⟩ := r
  simp only [put, get?] at fresh ⊢
  induction rows with
  | nil => rfl
  | cons row rest ih =>
    obtain ⟨a, b⟩ := row
    by_cases here : a = k
    · simp [find, here] at fresh
    · simp only [find, here, if_false] at fresh
      simp [write, here, ih fresh]

theorem mem_rows_put {r : Register κ ν} {k : κ} {v : ν} {row : κ × ν}
    (h : row ∈ (r.put k v).rows) : row = (k, v) ∨ row ∈ r.rows := by
  obtain ⟨rows⟩ := r
  simp only [put] at h ⊢
  induction rows with
  | nil => exact .inl (List.mem_singleton.mp h)
  | cons first rest ih =>
    obtain ⟨a, b⟩ := first
    rw [write] at h
    split at h
    · exact (List.mem_cons.mp h).imp_right (List.mem_cons_of_mem _)
    · rcases List.mem_cons.mp h with here | later
      · exact .inr (List.mem_cons.mpr (.inl here))
      · exact (ih later).imp_right (List.mem_cons_of_mem _)

theorem mem_rows_erase {r : Register κ ν} {k : κ} {row : κ × ν} (h : row ∈ (r.erase k).rows) :
    row ∈ r.rows :=
  (List.mem_filter.mp h).1

end Register

end Metrology
