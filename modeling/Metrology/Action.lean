import Metrology.Error

/-!
# Actions

An action changes a state and either gives an answer or fails. A failing action leaves the state it
had reached: what was looked up on the way stays known.
-/
namespace Metrology

abbrev Action (σ α : Type) : Type := ExceptT Error (StateM σ) α

namespace Action

variable {σ τ α β : Type}

def apply (a : Action σ α) (s : σ) : Except Error α × σ := (ExceptT.run a).run s

/-- An action from its effect. -/
def ofFn (f : σ → Except Error α × σ) : Action σ α := ExceptT.mk (StateT.mk f)

/-- Acts on a part of the state. -/
def onPart (view : σ → τ) (update : σ → τ → σ) (a : Action τ α) : Action σ α :=
  ofFn fun s =>
    let (answer, part) := a.apply (view s)
    (answer, update s part)

@[simp] theorem apply_ofFn (f : σ → Except Error α × σ) (s : σ) : (ofFn f).apply s = f s := rfl

@[simp] theorem apply_pure (x : α) (s : σ) : (pure x : Action σ α).apply s = (.ok x, s) := rfl

@[simp] theorem apply_throw (e : Error) (s : σ) :
    (throw e : Action σ α).apply s = (.error e, s) := rfl

@[simp] theorem apply_get (s : σ) : (get : Action σ σ).apply s = (.ok s, s) := rfl

@[simp] theorem apply_set (s s' : σ) : (set s' : Action σ PUnit).apply s = (.ok ⟨⟩, s') := rfl

@[simp] theorem apply_modify (f : σ → σ) (s : σ) :
    (modify f : Action σ PUnit).apply s = (.ok ⟨⟩, f s) := rfl

@[simp] theorem apply_lift (e : Except Error α) (s : σ) :
    (liftM e : Action σ α).apply s = (e, s) := rfl

/-- The second action starts where the first one succeeded. -/
theorem apply_bind (a : Action σ α) (f : α → Action σ β) (s : σ) :
    (a >>= f).apply s =
      match a.apply s with
      | (.ok x, s') => (f x).apply s'
      | (.error e, s') => (.error e, s') := by
  simp only [apply, ExceptT.run_bind, StateT.run_bind]
  show (match StateT.run (ExceptT.run a) s with | (r, s') => _) = _
  rcases StateT.run (ExceptT.run a) s with ⟨r, s'⟩
  cases r <;> rfl

end Action

end Metrology
