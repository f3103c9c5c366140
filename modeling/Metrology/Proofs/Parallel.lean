import Mathlib.Data.Option.Basic
import Metrology.Proofs.Action
import Metrology.Proofs.ExactNumber

/-!
# Parallel runs

Two actions run side by side, each from a state of its own with the same invariant. They are parallel
if both fail alike or give answers that are related. Where one of them may give up on an expansion
that does not end, the other is not held to anything after that.
-/
namespace Metrology

/-! ### Factors that stand for the same -/

/-- Factors other than zero that are the same number under a condition. Their relative errors may
differ. -/
structure Factor.Agrees {K : Type} [Zero K] (P : Prop) (f g : Factor K) : Prop where
  left : f.value ≠ 0
  right : g.value ≠ 0
  same : P → f.value = g.value

namespace Factor.Agrees

variable {K : Type} {P : Prop}

theorem symm [Zero K] {f g : Factor K} (agrees : f.Agrees P g) : g.Agrees P f :=
  ⟨agrees.right, agrees.left, fun p => (agrees.same p).symm⟩

theorem trans [Zero K] {f g h : Factor K} (first : f.Agrees P g) (second : g.Agrees P h) :
    f.Agrees P h :=
  ⟨first.left, second.right, fun p => (first.same p).trans (second.same p)⟩

theorem refl [Zero K] {f : Factor K} (nonzero : f.value ≠ 0) : f.Agrees P f :=
  ⟨nonzero, nonzero, fun _ => rfl⟩

variable [Field K] [LinearOrder K] [Scalar K] [Scalar.Exact K] {f f' g g' : Factor K}

theorem one : (Factor.one : Factor K).Agrees P Factor.one :=
  refl (by simp)

theorem mul (first : f.Agrees P f') (second : g.Agrees P g') : (f.mul g).Agrees P (f'.mul g') where
  left := by
    rw [value_mul]
    exact mul_ne_zero first.left second.left
  right := by
    rw [value_mul]
    exact mul_ne_zero first.right second.right
  same p := by rw [value_mul, value_mul, first.same p, second.same p]

/-- What a number scales is scaled alike. -/
theorem read_mul {x : K} (nonzero : x ≠ 0) (agrees : f.Agrees P g) :
    ((Factor.read x).mul f).Agrees P ((Factor.read x).mul g) :=
  mul (refl nonzero) agrees

end Factor.Agrees

/-- What holds between things in turn holds between what is there of them. -/
theorem rel_trans {α β γ : Type} {R : α → β → Prop} {S : β → γ → Prop} {T : α → γ → Prop}
    (related : ∀ a b c, R a b → S b c → T a c) {x : Option α} {y : Option β} {z : Option γ}
    (first : Option.Rel R x y) (second : Option.Rel S y z) : Option.Rel T x z := by
  cases first with
  | none =>
    cases second
    exact .none
  | some here =>
    cases second with
    | some there => exact .some (related _ _ _ here there)

theorem rel_symm {α β : Type} {R : α → β → Prop} {S : β → α → Prop} (related : ∀ a b, R a b → S b a)
    {x : Option α} {y : Option β} (first : Option.Rel R x y) : Option.Rel S y x := by
  cases first with
  | none => exact .none
  | some here => exact .some (related _ _ here)

/-! ### Outcomes that match -/

/-- An expansion was given up because it does not end. -/
def Error.isEndless : Error → Bool
  | .endlessExpansion _ => true
  | _ => false

/-- The same error, where it does not matter at which unit an endless expansion was given up. -/
def Error.Alike (e e' : Error) : Prop := e = e' ∨ e.isEndless = true ∧ e'.isEndless = true

theorem Error.Alike.refl (e : Error) : e.Alike e := .inl rfl

theorem Error.Alike.symm {e e' : Error} (alike : e.Alike e') : e'.Alike e :=
  alike.imp Eq.symm And.symm

theorem Error.Alike.trans {e e' e'' : Error} (first : e.Alike e') (second : e'.Alike e'') :
    e.Alike e'' := by
  rcases first with rfl | ⟨endless, endless'⟩
  · exact second
  · rcases second with rfl | ⟨_, endless''⟩
    · exact .inr ⟨endless, endless'⟩
    · exact .inr ⟨endless, endless''⟩

section Matching

variable {α β γ : Type} {R : α → β → Prop} {S : β → γ → Prop} {T : α → γ → Prop}

/-- Both fail alike, or both give answers and these are related. -/
inductive Matches (R : α → β → Prop) : Except Error α → Except Error β → Prop
  | failed {e e' : Error} (alike : e.Alike e') : Matches R (.error e) (.error e')
  | given {x : α} {y : β} (related : R x y) : Matches R (.ok x) (.ok y)

theorem Matches.trans {x : Except Error α} {y : Except Error β} {z : Except Error γ}
    (related : ∀ a b c, R a b → S b c → T a c) (first : Matches R x y) (second : Matches S y z) :
    Matches T x z := by
  cases first with
  | failed alike =>
    cases second with
    | failed alike' => exact .failed (alike.trans alike')
  | given here =>
    cases second with
    | given there => exact .given (related _ _ _ here there)

theorem Matches.symm {R' : β → α → Prop} {x : Except Error α} {y : Except Error β}
    (related : ∀ a b, R a b → R' b a) (first : Matches R x y) : Matches R' y x := by
  cases first with
  | failed alike => exact .failed alike.symm
  | given here => exact .given (related _ _ here)

theorem Matches.ok_of_left {a : α} {y : Except Error β} (same : Matches R (.ok a) y) :
    ∃ b, y = .ok b ∧ R a b := by
  cases same with
  | given related => exact ⟨_, rfl, related⟩

theorem Matches.some_of_right {x : Except Error (Option α)} {b : β}
    (same : Matches (Option.Rel R) x (.ok (some b))) : ∃ a, x = .ok (some a) ∧ R a b := by
  cases same with
  | given related =>
    cases related with
    | some holds => exact ⟨_, rfl, holds⟩

/-- The outcome is that an endless expansion was given up. -/
def GivesUp (x : Except Error α) : Prop := ∃ e, x = .error e ∧ e.isEndless = true

theorem Matches.givesUp_iff {x : Except Error α} {y : Except Error β} (same : Matches R x y) :
    GivesUp x ↔ GivesUp y := by
  cases same with
  | @failed e e' alike =>
    have endless : e.isEndless = true ↔ e'.isEndless = true := by
      rcases alike with rfl | ⟨here, there⟩
      · rfl
      · exact ⟨fun _ => there, fun _ => here⟩
    simp [GivesUp, endless]
  | given _ => simp [GivesUp]

theorem matches_of_givesUp {x : Except Error α} {y : Except Error β} (here : GivesUp x)
    (there : GivesUp y) : Matches R x y := by
  obtain ⟨e, rfl, endless⟩ := here
  obtain ⟨e', rfl, endless'⟩ := there
  exact .failed (.inr ⟨endless, endless'⟩)

/-- The first outcome is that an endless expansion was given up, or both match. -/
def Below (R : α → β → Prop) (x : Except Error α) (y : Except Error β) : Prop :=
  GivesUp x ∨ Matches R x y

theorem Below.trans {x : Except Error α} {y : Except Error β} {z : Except Error γ}
    (related : ∀ a b c, R a b → S b c → T a c) (first : Below R x y) (second : Below S y z) :
    Below T x z := by
  rcases first with up | same
  · exact .inl up
  · rcases second with up | same'
    · exact .inl (same.givesUp_iff.mpr up)
    · exact .inr (same.trans related same')

end Matching

section Factors

variable {K : Type} [Field K] [LinearOrder K] [Scalar K] [Scalar.Exact K] {P : Prop}
variable {f f' g g' : Factor K}

/-- No divisor is zero, so quotients are given and agree. -/
theorem Factor.Agrees.div (first : f.Agrees P f') (second : g.Agrees P g') :
    Matches (Factor.Agrees P) (f.div g) (f'.div g') := by
  rw [Factor.div_eq second.left, Factor.div_eq second.right]
  refine .given ⟨div_ne_zero first.left second.left, div_ne_zero first.right second.right,
    fun p => ?_⟩
  show f.value / g.value = f'.value / g'.value
  rw [first.same p, second.same p]

theorem Factor.Agrees.pow (agrees : f.Agrees P g) (n : Int) :
    Matches (Factor.Agrees P) (f.pow n) (g.pow n) := by
  unfold Factor.pow
  split
  next => exact .given .one
  next =>
    rw [Scalar.Exact.pow_eq (.inl agrees.left), Scalar.Exact.pow_eq (.inl agrees.right)]
    refine .given ⟨zpow_ne_zero n agrees.left, zpow_ne_zero n agrees.right, fun p => ?_⟩
    show f.value ^ n = g.value ^ n
    rw [agrees.same p]

end Factors

/-! ### Rules -/

namespace Action

variable {σ α β γ δ : Type} {I : σ → Prop} {lax : Prop} {R : α → β → Prop} {S : γ → δ → Prop}

/-- Run from any two states with the invariant, the first action keeps it. If only an endless
expansion makes it fail, that may count as an excuse; otherwise the second action keeps the invariant
too and the outcomes match. -/
def Parallel (I : σ → Prop) (lax : Prop) (R : α → β → Prop) (a : Action σ α) (b : Action σ β) :
    Prop :=
  ∀ s t, I s → I t → I (a.apply s).2 ∧
    (lax ∧ GivesUp (a.apply s).1 ∨ I (b.apply t).2 ∧ Matches R (a.apply s).1 (b.apply t).1)

namespace Parallel

theorem pure {x : α} {y : β} (related : R x y) :
    Parallel I lax R (Pure.pure x) (Pure.pure y) :=
  fun _ _ left right => ⟨left, .inr ⟨right, .given related⟩⟩

theorem get : Parallel I lax (fun s t => I s ∧ I t) (MonadState.get : Action σ σ)
    (MonadState.get : Action σ σ) :=
  fun _ _ left right => ⟨left, .inr ⟨right, .given ⟨left, right⟩⟩⟩

theorem lift {x : Except Error α} {y : Except Error β} (same : Matches R x y) :
    Parallel I lax R (liftM x : Action σ α) (liftM y : Action σ β) :=
  fun _ _ left right => ⟨left, .inr ⟨right, same⟩⟩

/-- A computation that is the same on both sides. -/
theorem liftSame (x : Except Error α) :
    Parallel I lax (fun a b => a = b ∧ x = .ok a) (liftM x : Action σ α) (liftM x : Action σ α) := by
  refine lift ?_
  cases x with
  | error e => exact .failed (.refl e)
  | ok a => exact .given ⟨rfl, rfl⟩

theorem liftBelow {x : Except Error α} {y : Except Error β} (below : Below R x y) :
    Parallel I True R (liftM x : Action σ α) (liftM y : Action σ β) :=
  fun _ _ left right => ⟨left, below.imp (⟨trivial, ·⟩) (⟨right, ·⟩)⟩

theorem bind {a : Action σ α} {b : Action σ β} {f : α → Action σ γ} {g : β → Action σ δ}
    (first : Parallel I lax R a b) (second : ∀ x y, R x y → Parallel I lax S (f x) (g y)) :
    Parallel I lax S (a >>= f) (b >>= g) := by
  intro s t left right
  rw [apply_bind, apply_bind]
  obtain ⟨kept, outcome⟩ := first s t left right
  rcases here : a.apply s with ⟨e | x, s'⟩
  · rw [here] at kept outcome
    refine ⟨kept, ?_⟩
    rcases outcome with ⟨may, e', same, endless⟩ | ⟨kept', same⟩
    · obtain rfl := Except.error.inj same
      exact .inl ⟨may, e, rfl, endless⟩
    · rcases there : b.apply t with ⟨e' | y, t'⟩
      · rw [there] at kept' same
        cases same with
        | failed alike => exact .inr ⟨kept', .failed alike⟩
      · rw [there] at same
        cases same
  · rw [here] at kept outcome
    rcases outcome with ⟨_, e', same, _⟩ | ⟨kept', same⟩
    · cases same
    · rcases there : b.apply t with ⟨e' | y, t'⟩
      · rw [there] at same
        cases same
      · rw [there] at kept' same
        cases same with
        | given related => exact second x y related s' t' kept kept'

/-- Without an excuse the outcomes match. -/
theorem outcome {a : Action σ α} {b : Action σ β} {s t : σ} (parallel : Parallel I False R a b)
    (left : I s) (right : I t) : Matches R (a.apply s).1 (b.apply t).1 := by
  obtain ⟨_, up | ⟨_, same⟩⟩ := parallel s t left right
  · exact up.1.elim
  · exact same

theorem below {a : Action σ α} {b : Action σ β} {s t : σ} (parallel : Parallel I lax R a b)
    (left : I s) (right : I t) : Below R (a.apply s).1 (b.apply t).1 := by
  obtain ⟨_, up | ⟨_, same⟩⟩ := parallel s t left right
  · exact .inl up.2
  · exact .inr same

theorem keeps {a : Action σ α} {b : Action σ β} (parallel : Parallel I False R a b) :
    a.Keeps I fun _ => True :=
  fun s holds => ⟨(parallel s s holds holds).1, fun _ _ => trivial⟩

end Parallel

/-- Run from any state with the invariant, the action keeps it and its outcome matches a fixed one. -/
def Settles (I : σ → Prop) (R : α → β → Prop) (a : Action σ α) (x : Except Error β) : Prop :=
  ∀ s, I s → I (a.apply s).2 ∧ Matches R (a.apply s).1 x

theorem Parallel.settles {a : Action σ α} {b : Action σ β} {o : σ} (parallel : Parallel I False R a b)
    (holds : I o) : Settles I R a (b.apply o).1 := by
  intro s left
  obtain ⟨kept, up | ⟨_, same⟩⟩ := parallel s o left holds
  · exact up.1.elim
  · exact ⟨kept, same⟩

/-- So its answers are related to a fixed one. -/
theorem Settles.keeps {a : Action σ α} {x : Except Error β} (settles : Settles I R a x) :
    a.Keeps I fun r => ∃ y, x = .ok y ∧ R r y := by
  intro s holds
  obtain ⟨kept, same⟩ := settles s holds
  refine ⟨kept, fun r answers => ?_⟩
  rw [answers] at same
  cases same with
  | given related => exact ⟨_, rfl, related⟩

/-- An action that settles on an answer gives one. -/
theorem Settles.yields {a : Action σ α} {y : β} (settles : Settles I R a (.ok y)) :
    a.Yields I fun x => R x y := by
  intro s holds
  obtain ⟨kept, same⟩ := settles s holds
  refine ⟨kept, ?_⟩
  rcases outcome : (a.apply s).1 with _ | x
  · rw [outcome] at same
    cases same
  · rw [outcome] at same
    cases same with
    | given related => exact ⟨x, rfl, related⟩

/-- Actions that settle on the same outcome are parallel. -/
theorem Settles.parallel {T : α → γ → Prop} {T' : β → γ → Prop}
    {a : Action σ α} {b : Action σ β} {x : Except Error γ} (first : Settles I T a x)
    (second : Settles I T' b x) (related : ∀ u v w, T u w → T' v w → R u v) :
    Parallel I lax R a b := by
  intro s t left right
  obtain ⟨kept, same⟩ := first s left
  obtain ⟨kept', same'⟩ := second t right
  have back : Matches (fun w v => T' v w) x (b.apply t).1 := same'.symm fun _ _ there => there
  exact ⟨kept, .inr ⟨kept', same.trans (fun u w v here there => related u v w here there) back⟩⟩

/-- Results that do not depend on the state are the result of one computation. -/
theorem mapM_lift {f : α → Except Error β} (xs : List α) :
    (xs.mapM fun x => (liftM (f x) : Action σ β)) = liftM (xs.mapM f) := by
  induction xs with
  | nil => rfl
  | cons x xs ih =>
    rw [List.mapM_cons, List.mapM_cons, ih]
    refine ext fun s => ?_
    rw [apply_bind, apply_lift, apply_lift]
    cases f x with
    | error e => rfl
    | ok y =>
      dsimp only
      rw [apply_bind, apply_lift]
      cases xs.mapM f <;> rfl

end Action

end Metrology
