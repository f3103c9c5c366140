import Mathlib.Data.List.Nodup
import Metrology.Dimension.Code
import Metrology.Proofs.Outcome

/-!
# Reading codes back

What a code says is a list of exponents, one for each axis that it names. A code that was written
from such a list is read as its rows in order of priority; exponents of zero are missing unless they
were kept. So a written code tells the dimension it was written from.
-/
namespace Metrology

namespace Exponents

variable {v w : Exponents} {a b : Axis} {n : Int}

/-- No axis has two rows. -/
def Distinct (v : Exponents) : Prop := (v.map (·.1)).Nodup

instance (v : Exponents) : Decidable v.Distinct := inferInstanceAs (Decidable (List.Nodup _))

/-- The rows in order of priority. -/
def inOrder (v : Exponents) : Exponents := Axis.all.filterMap fun a => (v.exponent? a).map (a, ·)

/-- The rows that are written: those of exponents other than zero, or all. -/
def shown (keepZeros : Bool) (v : Exponents) : Exponents :=
  v.filter fun row => keepZeros || row.2 ≠ 0

/-! ### Rows and exponents -/

theorem exponent?_cons (a : Axis) (n : Int) (v : Exponents) (b : Axis) :
    exponent? ((a, n) :: v) b = if a = b then some n else v.exponent? b := by
  rw [exponent?, List.lookup_cons]
  by_cases same : b = a
  · simp [same]
  · rw [if_neg (Ne.symm same), beq_false_of_ne same, exponent?]

theorem exponent_cons (a : Axis) (n : Int) (v : Exponents) (b : Axis) :
    exponent ((a, n) :: v) b = if a = b then n else v.exponent b := by
  rw [exponent, exponent?_cons]
  split <;> rfl

theorem Distinct.nodup (distinct : v.Distinct) : List.Nodup v := List.Nodup.of_map _ distinct

theorem exponent?_eq_none (missing : a ∉ v.map (·.1)) : v.exponent? a = none := by
  induction v with
  | nil => rfl
  | cons row v ih =>
    obtain ⟨other, more⟩ := not_or.mp (List.mem_cons.not.mp missing)
    rw [exponent?_cons, if_neg (Ne.symm other), ih more]

theorem mem_of_exponent? (known : v.exponent? a = some n) : (a, n) ∈ v := by
  induction v with
  | nil => cases known
  | cons row v ih =>
    obtain ⟨b, m⟩ := row
    rw [exponent?_cons] at known
    split at known
    next same =>
      obtain rfl := Option.some.inj known
      exact same ▸ List.mem_cons_self
    next => exact List.mem_cons_of_mem _ (ih known)

/-- Where no axis has two rows, every row tells the exponent of its axis. -/
theorem Distinct.exponent?_eq_some_iff (distinct : v.Distinct) :
    v.exponent? a = some n ↔ (a, n) ∈ v := by
  refine ⟨mem_of_exponent?, fun mem => ?_⟩
  induction v with
  | nil => cases mem
  | cons row v ih =>
    obtain ⟨apart, tail⟩ := List.nodup_cons.mp distinct
    rw [exponent?_cons]
    rcases List.mem_cons.mp mem with rfl | inside
    · exact if_pos rfl
    · have other : row.1 ≠ a := by
        rintro rfl
        exact apart (List.mem_map.mpr ⟨_, inside, rfl⟩)
      rw [if_neg other, ih tail inside]

theorem Distinct.shown (distinct : v.Distinct) (keepZeros : Bool) : (v.shown keepZeros).Distinct :=
  List.Sublist.nodup ((List.filter_sublist).map _) distinct

/-- Rows of zero change no exponent. -/
theorem Distinct.exponent_shown (distinct : v.Distinct) (keepZeros : Bool) (a : Axis) :
    (v.shown keepZeros).exponent a = v.exponent a := by
  have rows (n : Int) : (v.shown keepZeros).exponent? a = some n ↔
      v.exponent? a = some n ∧ (keepZeros || n ≠ 0) = true := by
    rw [(distinct.shown keepZeros).exponent?_eq_some_iff, distinct.exponent?_eq_some_iff]
    exact List.mem_filter
  unfold exponent
  cases known : v.exponent? a with
  | none =>
    have none : (v.shown keepZeros).exponent? a = none :=
      Option.eq_none_iff_forall_ne_some.mpr fun n own => by simp [known] at rows; exact rows n own
    rw [none]
  | some n =>
    by_cases kept : (keepZeros || n ≠ 0) = true
    · rw [(rows n).mpr ⟨known, kept⟩]
    · have none : (v.shown keepZeros).exponent? a = none := by
        refine Option.eq_none_iff_forall_ne_some.mpr fun m own => ?_
        obtain ⟨same, shown⟩ := (rows m).mp own
        rw [known] at same
        exact kept (Option.some.inj same ▸ shown)
      have zero : n = 0 := by
        by_contra nonzero
        exact kept (by simp [nonzero])
      rw [none, zero]
      rfl

/-! ### The order of priority -/

theorem keys_inOrder (v : Exponents) :
    v.inOrder.map (·.1) = Axis.all.filter fun a => (v.exponent? a).isSome := by
  unfold inOrder
  induction Axis.all with
  | nil => rfl
  | cons a axes ih => cases known : v.exponent? a <;> simp [known, ih]

theorem distinct_inOrder (v : Exponents) : v.inOrder.Distinct := by
  rw [Distinct, keys_inOrder]
  exact Axis.nodup_all.filter _

theorem mem_inOrder_iff : (a, n) ∈ v.inOrder ↔ v.exponent? a = some n := by
  simp only [inOrder, List.mem_filterMap, Option.map_eq_some_iff, Prod.mk.injEq]
  constructor
  · rintro ⟨b, _, m, known, rfl, rfl⟩
    exact known
  · exact fun known => ⟨a, a.mem_all, n, known, rfl, rfl⟩

@[simp] theorem exponent?_inOrder (v : Exponents) (a : Axis) :
    v.inOrder.exponent? a = v.exponent? a :=
  Option.ext fun _ => (distinct_inOrder v).exponent?_eq_some_iff.trans mem_inOrder_iff

/-- Putting rows in order loses none. -/
theorem Distinct.inOrder_perm (distinct : v.Distinct) : v.inOrder.Perm v := by
  refine (List.perm_ext_iff_of_nodup (distinct_inOrder v).nodup distinct.nodup).mpr fun row => ?_
  rw [mem_inOrder_iff, distinct.exponent?_eq_some_iff]

theorem pairwise_priority (v : Exponents) :
    v.inOrder.Pairwise fun r s => r.1.priority < s.1.priority := by
  have axes : Axis.all.Pairwise fun a b => a.priority < b.priority := by decide
  have keys : (v.inOrder.map (·.1)).Pairwise fun a b => a.priority < b.priority := by
    rw [keys_inOrder]
    exact axes.filter _
  rwa [List.pairwise_map] at keys

/-! ### Sums -/

theorem keys_add (a : Axis) (n : Int) (v : Exponents) :
    (add a n v).map (·.1) = if a ∈ v.map (·.1) then v.map (·.1) else v.map (·.1) ++ [a] := by
  induction v with
  | nil => rfl
  | cons row v ih =>
    obtain ⟨b, m⟩ := row
    rw [add]
    split
    next same => simp [same]
    next other =>
      simp only [List.map_cons, ih, List.mem_cons, Ne.symm other, false_or]
      split <;> rfl

theorem Distinct.add (distinct : v.Distinct) (a : Axis) (n : Int) : (add a n v).Distinct := by
  rw [Distinct, keys_add]
  split
  next => exact distinct
  next fresh =>
    refine List.nodup_append.mpr ⟨distinct, List.pairwise_singleton _ a, fun b mem c last same => ?_⟩
    exact fresh (List.mem_singleton.mp last ▸ same ▸ mem)

theorem Distinct.addAll (distinct : v.Distinct) (rows : List (Axis × Int)) :
    (v.addAll rows).Distinct := by
  induction rows generalizing v with
  | nil => exact distinct
  | cons row rows ih => exact ih (distinct.add row.1 row.2)

theorem exponent_add (a : Axis) (n : Int) (v : Exponents) (b : Axis) :
    (add a n v).exponent b = v.exponent b + if a = b then n else 0 := by
  induction v with
  | nil =>
    rw [add, exponent_cons]
    split <;> simp [exponent, exponent?]
  | cons row v ih =>
    obtain ⟨c, m⟩ := row
    rw [add]
    split
    next same =>
      subst same
      rw [exponent_cons, exponent_cons]
      split <;> simp [*]
    next other =>
      rw [exponent_cons, exponent_cons, ih]
      split
      next same =>
        subst same
        rw [if_neg (Ne.symm other), Int.add_zero]
      next => rfl

/-- Adding rows adds their exponents. -/
theorem exponent_addAll (distinct : w.Distinct) (v : Exponents) (b : Axis) :
    (v.addAll w).exponent b = v.exponent b + w.exponent b := by
  induction w generalizing v with
  | nil => simp [addAll, exponent, exponent?]
  | cons row w ih =>
    obtain ⟨a, n⟩ := row
    obtain ⟨apart, tail⟩ := List.nodup_cons.mp distinct
    rw [show v.addAll ((a, n) :: w) = (add a n v).addAll w from rfl, ih tail, exponent_add,
      exponent_cons]
    split
    next same =>
      have none : exponent w b = 0 := by
        rw [exponent, exponent?_eq_none (same ▸ apart)]
        rfl
      rw [none, Int.add_zero]
    next => rw [Int.add_zero]

theorem exponent_scale (v : Exponents) (n : Int) (b : Axis) :
    (v.scale n).exponent b = v.exponent b * n := by
  induction v with
  | nil => simp [scale, exponent, exponent?]
  | cons row v ih =>
    obtain ⟨a, m⟩ := row
    rw [show scale ((a, m) :: v) n = (a, m * n) :: scale v n from rfl, exponent_cons,
      exponent_cons, ih]
    split <;> rfl

/-- Rows of new axes go behind the others. -/
theorem addAll_of_disjoint (distinct : w.Distinct)
    (apart : ∀ row ∈ w, row.1 ∉ v.map (·.1)) : v.addAll w = v ++ w := by
  induction w generalizing v with
  | nil => exact (List.append_nil v).symm
  | cons row w ih =>
    obtain ⟨a, n⟩ := row
    obtain ⟨fresh, tail⟩ := List.nodup_cons.mp distinct
    have added : ∀ v : Exponents, a ∉ v.map (·.1) → add a n v = v ++ [(a, n)] := by
      intro v missing
      induction v with
      | nil => rfl
      | cons first v ih =>
        obtain ⟨other, more⟩ := not_or.mp (List.mem_cons.not.mp missing)
        rw [add, if_neg (Ne.symm other), ih more]
        rfl
    have step := added v (apart _ List.mem_cons_self)
    rw [show v.addAll ((a, n) :: w) = (add a n v).addAll w from rfl, step, ih tail, List.append_assoc]
    · rfl
    · intro row mem known
      rw [List.map_append, List.mem_append] at known
      rcases known with old | new
      · exact apart row (List.mem_cons_of_mem _ mem) old
      · exact fresh (List.mem_singleton.mp new ▸ List.mem_map_of_mem mem)

@[simp] theorem exponent_toDimension (v : Exponents) (a : Axis) :
    v.toDimension.exponent a = v.exponent a :=
  Dimension.exponent_ofFn _ a

theorem toDimension_congr (same : ∀ a, v.exponent a = w.exponent a) :
    v.toDimension = w.toDimension :=
  Dimension.ext_exponent fun a => by simp [same]

theorem toDimension_addAll (distinct : w.Distinct) (v : Exponents) :
    (v.addAll w).toDimension = v.toDimension.mul w.toDimension :=
  Dimension.ext_exponent fun a => by simp [exponent_addAll distinct]

theorem toDimension_scale (v : Exponents) (n : Int) :
    (v.scale n).toDimension = v.toDimension.pow n :=
  Dimension.ext_exponent fun a => by simp [exponent_scale]

/-- Two lists stand for one dimension exactly if they agree up to the order of their rows and rows
of zero. -/
theorem Distinct.toDimension_eq_iff (distinct : v.Distinct) (distinct' : w.Distinct) :
    v.toDimension = w.toDimension ↔ (v.shown false).Perm (w.shown false) := by
  have own := distinct.shown false
  have own' := distinct'.shown false
  have row {u : Exponents} (single : u.Distinct) (a : Axis) (n : Int) :
      (a, n) ∈ u.shown false ↔ u.exponent a = n ∧ n ≠ 0 := by
    simp only [Exponents.shown, List.mem_filter, ← single.exponent?_eq_some_iff, Bool.false_or,
      decide_eq_true_eq, exponent]
    refine and_congr_left fun nonzero => ?_
    cases u.exponent? a with
    | none => simp [Ne.symm nonzero]
    | some m => simp
  constructor
  · intro same
    refine (List.perm_ext_iff_of_nodup own.nodup own'.nodup).mpr fun ⟨a, n⟩ => ?_
    rw [row distinct, row distinct', ← exponent_toDimension, same, exponent_toDimension]
  · intro perm
    refine toDimension_congr fun a => ?_
    rw [← distinct.exponent_shown false, ← distinct'.exponent_shown false, exponent, exponent]
    refine congrArg (Option.getD · 0) (Option.ext fun n => ?_)
    rw [own.exponent?_eq_some_iff, own'.exponent?_eq_some_iff, perm.mem_iff]

end Exponents

namespace Dimension

variable {v : Exponents} {a : Axis} {n : Int}

/-! ### Written rows -/

/-- What is written behind an axis: nothing for the exponent 1, otherwise a digit or a minus and a
digit. -/
inductive Digits : Int → List Char → Prop
  | one : Digits 1 []
  | plain {d : Char} {m : Nat} (value : Text.decimalValue? d = some m) : Digits m [d]
  | minus {d : Char} {m : Nat} (value : Text.decimalValue? d = some m) : Digits (-m) ['-', d]

theorem digits_of_small : ∀ m ≤ maxExponent, Text.decimalValue? m.digitChar = some m ∧
    (toString (m : Int)).toList = [m.digitChar] ∧
    (toString (-m : Int)).toList = if m = 0 then [m.digitChar] else ['-', m.digitChar] := by
  decide +kernel

/-- Exponents in range have one digit. -/
theorem digits_toString (range : n.natAbs ≤ maxExponent) : Digits n (toString n).toList := by
  obtain ⟨m, rfl | rfl⟩ := n.eq_nat_or_neg
  · obtain ⟨value, plain, _⟩ := digits_of_small m (by simpa using range)
    exact plain ▸ .plain value
  · obtain ⟨value, _, minus⟩ := digits_of_small m (by simpa using range)
    rw [minus]
    split
    next zero =>
      subst zero
      exact .plain value
    next => exact .minus value

theorem writeAxis_true (a : Axis) (n : Int) :
    writeAxis true a n = a.letter.toString ++ if n = 1 then "" else toString n := by
  rw [writeAxis, if_neg (by simp)]
  split <;> simp

theorem toList_writeAxis (a : Axis) (range : n.natAbs ≤ maxExponent) :
    ∃ text, (writeAxis true a n).toList = a.letter :: text ∧ Digits n text := by
  refine ⟨_, by rw [writeAxis_true, String.toList_append]; simp; rfl, ?_⟩
  split
  next one => exact one ▸ .one
  next => exact digits_toString range

/-- A text that does not go on with the exponent of an axis. -/
def EndsAxis (rest : List Char) : Prop :=
  ∀ c, rest.head? = some c → c ≠ '-' ∧ Text.decimalValue? c = none

theorem letter_ends (a : Axis) : a.letter ≠ '-' ∧ Text.decimalValue? a.letter = none := by
  cases a <;> decide +kernel

/-- An axis with its exponent is read off a text. -/
theorem readAxes_of_digits (a : Axis) {text rest : List Char} (written : Digits n text)
    (ends : EndsAxis rest) :
    readAxes (a.letter :: text ++ rest) = (readAxes rest).map ((a, n) :: ·) := by
  cases written with
  | one =>
    match rest with
    | [] => simp [readAxes, Axis.ofLetter?_letter]
    | c :: rest =>
      obtain ⟨minus, digit⟩ := ends c rfl
      simp [readAxes, Axis.ofLetter?_letter, minus, digit]
  | @plain d m value =>
    have minus : d ≠ '-' := by
      rintro rfl
      have none : Text.decimalValue? '-' = none := by decide +kernel
      rw [none] at value
      cases value
    simp [readAxes, Axis.ofLetter?_letter, minus, value]
  | minus value => simp [readAxes, Axis.ofLetter?_letter, value]

/-- The text of rows, one after the other. -/
def writeRows (rows : List (Axis × Int)) : List Char :=
  rows.flatMap fun row => (writeAxis true row.1 row.2).toList

theorem writeRows_cons (a : Axis) (n : Int) (rows : List (Axis × Int)) :
    writeRows ((a, n) :: rows) = (writeAxis true a n).toList ++ writeRows rows := rfl

theorem isEmpty_writeRows {rows : List (Axis × Int)} :
    (String.ofList (writeRows rows)).isEmpty = true ↔ rows = [] := by
  rw [String.isEmpty_iff, ← String.toList_inj, String.toList_ofList]
  constructor
  · intro none
    cases rows with
    | nil => rfl
    | cons row rows =>
      rw [writeRows_cons, writeAxis_true] at none
      simp at none
  · rintro rfl
    rfl

theorem endsAxis_writeRows {rows : List (Axis × Int)}
    (range : ∀ row ∈ rows, row.2.natAbs ≤ maxExponent) : EndsAxis (writeRows rows) := by
  intro c head
  cases rows with
  | nil => cases head
  | cons row rows =>
    obtain ⟨text, written, _⟩ := toList_writeAxis row.1 (range row List.mem_cons_self)
    rw [writeRows_cons, written] at head
    obtain rfl := Option.some.inj head
    exact letter_ends row.1

/-- Rows are read as they were written. -/
theorem readAxes_writeRows {rows : List (Axis × Int)}
    (range : ∀ row ∈ rows, row.2.natAbs ≤ maxExponent) : readAxes (writeRows rows) = some rows := by
  induction rows with
  | nil => rfl
  | cons row rows ih =>
    obtain ⟨a, n⟩ := row
    obtain ⟨own, others⟩ := List.forall_mem_cons.mp range
    obtain ⟨text, written, digits⟩ := toList_writeAxis a own
    rw [writeRows_cons, written, readAxes_of_digits a digits (endsAxis_writeRows others), ih others]
    rfl

/-! ### Written codes -/

theorem letter_ne_one (a : Axis) : a.letter ≠ '1' := by cases a <;> decide

/-- The text of rows as a code. -/
def codeOfRows (rows : List (Axis × Int)) : String :=
  if rows = [] then unitCode else String.ofList (writeRows rows)

/-- A code is read as the rows that it was written from. -/
theorem decompose_codeOfRows {rows : Exponents} (distinct : rows.Distinct)
    (range : ∀ row ∈ rows, row.2.natAbs ≤ maxExponent) :
    decompose (codeOfRows rows) = .ok rows := by
  have read : readCode? (codeOfRows rows) = some rows := by
    unfold codeOfRows
    split
    next none =>
      subst none
      rfl
    next some =>
      obtain ⟨row, others, rfl⟩ := List.exists_cons_of_ne_nil some
      obtain ⟨text, written, _⟩ := toList_writeAxis row.1 (range row List.mem_cons_self)
      have begins : writeRows (row :: others) = row.1.letter :: (text ++ writeRows others) := by
        rw [writeRows_cons, written, List.cons_append]
      have notUnit : String.ofList (writeRows (row :: others)) ≠ unitCode := by
        intro same
        have chars := congrArg String.toList same
        rw [String.toList_ofList, begins] at chars
        exact letter_ne_one _ (List.cons.inj chars).1
      have given : (String.ofList (writeRows (row :: others))).isEmpty = false := by
        rw [begins]
        simp
      have known := readAxes_writeRows range
      have whole := Exponents.addAll_of_disjoint (v := []) distinct fun _ _ => List.not_mem_nil
      rw [readCode?, if_neg notUnit, given, String.toList_ofList, known]
      exact congrArg Option.some whole
  rw [decompose, read]

theorem writeAxis_append (keepZeros : Bool) (a : Axis) (n : Int) (rows : List (Axis × Int)) :
    writeAxis keepZeros a n ++ String.ofList (writeRows (Exponents.shown keepZeros rows)) =
      String.ofList (writeRows (Exponents.shown keepZeros ((a, n) :: rows))) := by
  rw [Exponents.shown, Exponents.shown, List.filter_cons]
  split
  next kept =>
    have same : writeAxis keepZeros a n = writeAxis true a n := by
      have written : (n = 0 && !keepZeros) = false := by
        by_cases zero : n = 0
        · simpa [zero] using kept
        · simp [zero]
      simp [writeAxis, written]
    rw [same, writeRows_cons, String.ofList_append, String.ofList_toList]
  next left =>
    have hidden : (n = 0 && !keepZeros) = true := by
      simp only [Bool.or_eq_true, decide_eq_true_eq, not_or, Bool.not_eq_true] at left
      simp [left.1, Decidable.not_not.mp left.2]
    rw [writeAxis, if_pos hidden, String.empty_append]

/-- What is written of the exponents of some axes, if they are in range. -/
theorem composeAxes_eq_ok {v : Exponents}
    (range : ∀ a n, v.exponent? a = some n → n.natAbs ≤ maxExponent) (keepZeros : Bool)
    (axes : List Axis) :
    composeAxes keepZeros v axes = .ok (String.ofList (writeRows (Exponents.shown keepZeros
      (axes.filterMap fun a => (v.exponent? a).map (a, ·))))) := by
  induction axes with
  | nil => rfl
  | cons a axes ih =>
    rw [composeAxes]
    cases known : v.exponent? a with
    | none => simpa [known] using ih
    | some n =>
      dsimp only
      rw [if_neg (Nat.not_lt.mpr (range a n known)), ih, List.filterMap_cons, known]
      exact congrArg Except.ok (writeAxis_append keepZeros a n _)

/-- Exponents in range have a code, which is that of their rows in order of priority. -/
theorem compose_eq_ok {v : Exponents} (range : ∀ row ∈ v, row.2.natAbs ≤ maxExponent)
    (keepZeros : Bool) :
    compose v keepZeros = .ok (codeOfRows (Exponents.shown keepZeros v.inOrder)) := by
  rw [compose, composeAxes_eq_ok fun a n known => range _ (Exponents.mem_of_exponent? known)]
  refine congrArg Except.ok ?_
  show _ = codeOfRows (Exponents.shown keepZeros (Exponents.inOrder v))
  simp only [codeOfRows, ← isEmpty_writeRows]
  rfl

/-- Reading undoes writing. -/
theorem decompose_compose {v : Exponents} (range : ∀ row ∈ v, row.2.natAbs ≤ maxExponent)
    (keepZeros : Bool) : ∃ code, compose v keepZeros = .ok code ∧
      decompose code = .ok (Exponents.shown keepZeros v.inOrder) := by
  refine ⟨_, compose_eq_ok range keepZeros, decompose_codeOfRows
    ((Exponents.distinct_inOrder v).shown keepZeros) fun row mem => ?_⟩
  have inside : row ∈ v.inOrder := (List.mem_filter.mp mem).1
  exact range row (Exponents.mem_of_exponent? (Exponents.mem_inOrder_iff.mp inside))

/-! ### Dimensions and their codes -/

/-- The code of a dimension in range. -/
def canonical (d : Dimension) : Except Error String := d.checked.map code

/-- The sum of the powers that a code lists, in range or not. -/
def totalOf (code : String) : Except Error Dimension := (decompose code).map Exponents.toDimension

theorem composeAxes_eq (v : Exponents) (axes : List Axis) :
    composeAxes false v axes =
      match axes.find? fun a => maxExponent < (v.exponent a).natAbs with
      | none => .ok (String.join (axes.map fun a => writeAxis false a (v.exponent a)))
      | some a => .error (.dimensionOutOfRange (v.exponent a) a.letter) := by
  induction axes with
  | nil => rfl
  | cons a axes ih =>
    rw [composeAxes, List.find?_cons, List.map_cons, String.join_cons, ih]
    cases known : v.exponent? a with
    | none =>
      have zero : v.exponent a = 0 := by rw [Exponents.exponent, known]; rfl
      simp [zero, writeAxis]
    | some n =>
      have own : v.exponent a = n := by rw [Exponents.exponent, known]; rfl
      rw [own]
      dsimp only
      split
      next large => simp [large, own]
      next small =>
        rw [decide_eq_false small]
        cases axes.find? fun a => maxExponent < (v.exponent a).natAbs <;> rfl

/-- Writing exponents without zeros is writing the dimension they stand for. -/
theorem compose_eq (v : Exponents) : compose v false = v.toDimension.canonical := by
  simp only [compose, composeAxes_eq, canonical, checked, firstOutOfRange?,
    Exponents.exponent_toDimension]
  cases Axis.all.find? fun a => maxExponent < (v.exponent a).natAbs with
  | none => simp [Except.map, code]
  | some a => rfl

theorem canonical_eq_ok {d : Dimension} {s : String} :
    d.canonical = .ok s ↔ d.InRange ∧ d.code = s := by
  rw [canonical, map_eq_ok]
  simp only [checked_eq_ok_iff]
  constructor
  · rintro ⟨_, ⟨rfl, range⟩, same⟩
    exact ⟨range, same⟩
  · exact fun ⟨range, same⟩ => ⟨d, ⟨rfl, range⟩, same⟩

/-- A row for every axis. -/
def rows (d : Dimension) : Exponents := Axis.all.map fun a => (a, d.exponent a)

theorem distinct_rows (d : Dimension) : d.rows.Distinct := by
  rw [Exponents.Distinct, rows, List.map_map]
  exact (List.map_id _).symm ▸ Axis.nodup_all

theorem toDimension_rows (d : Dimension) : d.rows.toDimension = d := by
  refine ext_exponent fun a => ?_
  have known : d.rows.exponent? a = some (d.exponent a) :=
    d.distinct_rows.exponent?_eq_some_iff.mpr (List.mem_map.mpr ⟨a, a.mem_all, rfl⟩)
  rw [Exponents.exponent_toDimension, Exponents.exponent, known]
  rfl

/-- The code of a dimension stands for it. -/
theorem totalOf_of_canonical {d : Dimension} {s : String} (written : d.canonical = .ok s) :
    totalOf s = .ok d := by
  have range : ∀ row ∈ d.rows, row.2.natAbs ≤ maxExponent := by
    intro row mem
    obtain ⟨a, inside, rfl⟩ := List.mem_map.mp mem
    exact (canonical_eq_ok.mp written).1 a inside
  obtain ⟨code, made, read⟩ := decompose_compose range false
  rw [compose_eq, toDimension_rows, written] at made
  obtain rfl := Except.ok.inj made
  have same : Exponents.toDimension (Exponents.shown false d.rows.inOrder) = d := by
    rw [← d.toDimension_rows]
    refine Exponents.toDimension_congr fun a => ?_
    rw [(Exponents.distinct_inOrder _).exponent_shown, Exponents.exponent,
      Exponents.exponent?_inOrder, Exponents.exponent, toDimension_rows]
  rw [totalOf, read, Except.map, same]

theorem totalOf_code {d : Dimension} (range : d.InRange) : totalOf d.code = .ok d :=
  totalOf_of_canonical (canonical_eq_ok.mpr ⟨range, rfl⟩)

theorem distinct_of_decompose {s : String} (read : decompose s = .ok v) : v.Distinct := by
  unfold decompose at read
  split at read
  next w known =>
    obtain rfl := Except.ok.inj read
    unfold readCode? at known
    split at known
    next => exact Option.some.inj known ▸ List.nodup_nil
    next =>
      split at known
      next => cases known
      next =>
        obtain ⟨rows, _, rfl⟩ := Option.map_eq_some_iff.mp known
        exact Exponents.Distinct.addAll (v := []) List.nodup_nil rows
  next => cases read

theorem totalOf_eq_ok {s : String} {d : Dimension} :
    totalOf s = .ok d ↔ ∃ v : Exponents, decompose s = .ok v ∧ v.Distinct ∧ v.toDimension = d := by
  rw [totalOf, map_eq_ok]
  exact exists_congr fun v =>
    ⟨fun ⟨read, same⟩ => ⟨read, distinct_of_decompose read, same⟩, fun ⟨read, _, same⟩ => ⟨read, same⟩⟩

/-! ### What the operations compute -/

theorem normalize_eq (s : String) : normalize s = totalOf s >>= canonical := by
  rw [normalize, totalOf]
  cases decompose s with
  | error e => rfl
  | ok v => exact compose_eq v

theorem applyExponent_eq (s : String) (nonzero : n ≠ 0) :
    applyExponent s n = totalOf s >>= fun d => (d.pow n).canonical := by
  rw [applyExponent, totalOf, beq_false_of_ne nonzero]
  cases decompose s with
  | error e => rfl
  | ok v => exact (compose_eq _).trans (congrArg canonical (v.toDimension_scale n))

theorem multiply_eq (s t : String) :
    multiply s t = totalOf s >>= fun d => totalOf t >>= fun e => (d.mul e).canonical := by
  unfold multiply totalOf
  cases decompose s with
  | error e => rfl
  | ok v =>
    cases read : decompose t with
    | error e => rfl
    | ok w =>
      have same := Exponents.toDimension_addAll (distinct_of_decompose read) v
      exact (compose_eq _).trans (congrArg canonical same)

end Dimension

end Metrology
