import Mathlib.Data.List.Nodup
import Metrology.Register

/-!
# Keys of registers

Writing and erasing keep every key single, so the rows of a register are what its keys look up.
-/
namespace Metrology.Register

variable {κ ν : Type} [DecidableEq κ] {r : Register κ ν} {k : κ} {v : ν}

theorem nodup_keys_put (nodup : r.keys.Nodup) : (r.put k v).keys.Nodup := by
  rw [keys_put]
  split
  next => exact nodup
  next fresh =>
    refine nodup.append (List.nodup_singleton k) fun old mem isNew => ?_
    obtain rfl := List.mem_singleton.mp isNew
    exact fresh mem

theorem nodup_keys_erase (nodup : r.keys.Nodup) : (r.erase k).keys.Nodup :=
  List.Nodup.sublist (List.filter_sublist.map Prod.fst) nodup

theorem nodup_keys_putAll {rows : List (κ × ν)} (nodup : r.keys.Nodup) :
    (r.putAll rows).keys.Nodup := by
  induction rows generalizing r with
  | nil => exact nodup
  | cons row rest ih => exact ih (nodup_keys_put nodup)

theorem nodup_keys_foldl_erase {ks : List κ} (nodup : r.keys.Nodup) :
    (ks.foldl (fun r k => r.erase k) r).keys.Nodup := by
  induction ks generalizing r with
  | nil => exact nodup
  | cons k rest ih => exact ih (nodup_keys_erase nodup)

theorem find_of_mem {rows : List (κ × ν)} (nodup : (rows.map (·.1)).Nodup)
    (mem : (k, v) ∈ rows) : find k rows = some v := by
  induction rows with
  | nil => cases mem
  | cons row rest ih =>
    obtain ⟨a, b⟩ := row
    obtain ⟨fresh, nodup⟩ := List.nodup_cons.mp nodup
    rcases List.mem_cons.mp mem with same | later
    · obtain ⟨rfl, rfl⟩ := Prod.mk.inj same
      simp [find]
    · have other : a ≠ k := by
        rintro rfl
        exact fresh (List.mem_map.mpr ⟨_, later, rfl⟩)
      simpa [find, other] using ih nodup later

theorem mem_rows_iff (nodup : r.keys.Nodup) : (k, v) ∈ r.rows ↔ r.get? k = some v :=
  ⟨find_of_mem nodup, mem_rows_of_get?⟩

/-- Taking a row out and appending it again moves it. -/
theorem perm_erase_append (nodup : r.keys.Nodup) (listed : r.get? k = some v) :
    ((r.erase k).rows ++ [(k, v)]).Perm r.rows := by
  have only : r.rows.filter (fun row => row.1 = k) = [(k, v)] := by
    have distinct : (r.rows.filter fun row => row.1 = k).Nodup :=
      (List.Nodup.of_map Prod.fst nodup).filter _
    refine List.perm_singleton.mp ((List.perm_ext_iff_of_nodup distinct (by simp)).mpr ?_)
    rintro ⟨k', v'⟩
    simp only [List.mem_filter, decide_eq_true_eq, List.mem_singleton, Prod.mk.injEq]
    constructor
    · rintro ⟨mem, rfl⟩
      exact ⟨rfl, Option.some.inj (((mem_rows_iff nodup).mp mem).symm.trans listed)⟩
    · rintro ⟨rfl, rfl⟩
      exact ⟨mem_rows_of_get? listed, rfl⟩
  have parts := List.filter_append_perm (fun row : κ × ν => decide (row.1 ≠ k)) r.rows
  simpa only [erase, decide_not, Bool.not_not, only] using parts

theorem get?_foldl_erase (r : Register κ ν) (ks : List κ) (k : κ) :
    (ks.foldl (fun r k => r.erase k) r).get? k = if k ∈ ks then none else r.get? k := by
  induction ks generalizing r with
  | nil => simp
  | cons first rest ih =>
    rw [List.foldl_cons, ih, get?_erase]
    by_cases later : k ∈ rest
    · simp [later]
    · simp [later, @eq_comm _ first k]

/-- A value is still found once rows were appended. -/
theorem get?_of_append {r' : Register κ ν} {later : List (κ × ν)} (rows : r'.rows = r.rows ++ later)
    (found : r.get? k = some v) : r'.get? k = some v := by
  have go (earlier : List (κ × ν)) (found : find k earlier = some v) :
      find k (earlier ++ later) = some v := by
    induction earlier with
    | nil => cases found
    | cons row rest ih =>
      simp only [List.cons_append, find] at found ⊢
      split at found
      next own => rwa [if_pos own]
      next other => rw [if_neg other, ih found]
  rw [get?, rows]
  exact go _ found

/-- Writing what is already there changes nothing. -/
theorem put_of_get? (found : r.get? k = some v) : r.put k v = r := by
  have go (rows : List (κ × ν)) (found : find k rows = some v) : write k v rows = rows := by
    induction rows with
    | nil => cases found
    | cons row rest ih =>
      simp only [find] at found
      simp only [write]
      split at found
      next own =>
        obtain rfl := Option.some.inj found
        rw [if_pos own, ← own]
      next other => rw [if_neg other, ih found]
  exact congrArg Register.mk (go _ found)

/-- Taking out what was just written under a new key. -/
theorem erase_put_of_fresh (fresh : r.get? k = none) : (r.put k v).erase k = r := by
  have others : ∀ row ∈ r.rows, decide (row.1 ≠ k) = true := by
    intro row mem
    refine decide_eq_true fun same => get?_eq_none_iff.mp fresh ?_
    exact same ▸ List.mem_map_of_mem mem
  have rows : (r.put k v).rows.filter (fun row => row.1 ≠ k) = r.rows := by
    rw [rows_put_of_fresh fresh, List.filter_append, List.filter_eq_self.mpr others]
    simp
  exact congrArg Register.mk rows

end Metrology.Register
