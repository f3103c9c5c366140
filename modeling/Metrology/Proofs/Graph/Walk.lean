import Mathlib.Logic.Relation
import Metrology.Graph.Routes
import Metrology.Proofs.ExactNumber

/-!
# Walks along edges

A walk goes along edges, each forwards or backwards. It carries a factor: the product of the factors
of its edges, the reciprocal for an edge taken backwards, and the sum of their relative errors. The
four ways in which two conversions compose follow the four ways in which two edges can be walked
through a middle node.
-/
namespace Metrology

/-- A walk along edges, which are found under the pair of their ends. -/
inductive Walk {K : Type} (edges : Edges K) : String → String → Type where
  | stay (a : String) : Walk edges a a
  | forth {a m b : String} (c : Conversion K) (edge : edges.get? (a, m) = some c)
      (rest : Walk edges m b) : Walk edges a b
  | back {a m b : String} (c : Conversion K) (edge : edges.get? (m, a) = some c)
      (rest : Walk edges m b) : Walk edges a b

namespace Walk

variable {K : Type} [Field K] {edges : Edges K} {a m b : String}

def factor : {a b : String} → Walk edges a b → Factor K
  | _, _, stay _ => ⟨1, 0⟩
  | _, _, forth c _ rest => ⟨c.factor.value * rest.factor.value, c.factor.error + rest.factor.error⟩
  | _, _, back c _ rest => ⟨c.factor.value⁻¹ * rest.factor.value, c.factor.error + rest.factor.error⟩

def append : {a m b : String} → Walk edges a m → Walk edges m b → Walk edges a b
  | _, _, _, stay _, next => next
  | _, _, _, forth c edge rest, next => forth c edge (rest.append next)
  | _, _, _, back c edge rest, next => back c edge (rest.append next)

def reverse : {a b : String} → Walk edges a b → Walk edges b a
  | _, _, stay a => stay a
  | _, _, forth c edge rest => rest.reverse.append (back c edge (stay _))
  | _, _, back c edge rest => rest.reverse.append (forth c edge (stay _))

theorem factor_append (w : Walk edges a m) (v : Walk edges m b) :
    (w.append v).factor =
      ⟨w.factor.value * v.factor.value, w.factor.error + v.factor.error⟩ := by
  induction w with
  | stay a => simp [append, factor]
  | forth c edge rest ih => simp [append, factor, ih, mul_assoc, add_assoc]
  | back c edge rest ih => simp [append, factor, ih, mul_assoc, add_assoc]

theorem factor_reverse (w : Walk edges a b) :
    w.reverse.factor = ⟨w.factor.value⁻¹, w.factor.error⟩ := by
  induction w with
  | stay a => simp [reverse, factor]
  | forth c edge rest ih => simp [reverse, factor, factor_append, ih, mul_comm, add_comm]
  | back c edge rest ih => simp [reverse, factor, factor_append, ih, mul_comm, add_comm]

/-- Along edges without a zero no walk comes to zero. -/
theorem factor_ne_zero (nonzero : ∀ key c, edges.get? key = some c → c.factor.value ≠ 0)
    (w : Walk edges a b) : w.factor.value ≠ 0 := by
  induction w with
  | stay a => exact one_ne_zero
  | forth c edge rest ih => exact mul_ne_zero (nonzero _ _ edge) ih
  | back c edge rest ih => exact mul_ne_zero (inv_ne_zero (nonzero _ _ edge)) ih

/-- Where every edge is the quotient of the values of its ends, so is every walk. -/
theorem value_eq {value : String → K}
    (balanced : ∀ key c, edges.get? key = some c → value key.1 = c.factor.value * value key.2)
    (nonzero : ∀ key c, edges.get? key = some c → c.factor.value ≠ 0) (w : Walk edges a b) :
    value a = w.factor.value * value b := by
  induction w with
  | stay a => rw [factor, one_mul]
  | @forth a m b c edge rest ih =>
    calc value a = c.factor.value * value m := balanced _ _ edge
      _ = c.factor.value * rest.factor.value * value b := by rw [ih, mul_assoc]
  | @back a m b c edge rest ih =>
    calc value a = c.factor.value⁻¹ * (c.factor.value * value a) :=
          (inv_mul_cancel_left₀ (nonzero _ _ edge) _).symm
      _ = c.factor.value⁻¹ * value m := by rw [← balanced _ _ edge]
      _ = c.factor.value⁻¹ * rest.factor.value * value b := by rw [ih, mul_assoc]

end Walk

namespace Network

variable {K : Type}

/-- Two nodes that an edge joins, in either direction. -/
def Adjacent (net : Network K) (a b : String) : Prop :=
  (net.edge? a b).isSome ∨ (net.edge? b a).isSome

/-- Two nodes that edges join, whatever their directions and their number. -/
def Connected (net : Network K) : String → String → Prop := Relation.ReflTransGen net.Adjacent

theorem Adjacent.symm {net : Network K} {a b : String} (h : net.Adjacent a b) :
    net.Adjacent b a := Or.symm h

theorem Connected.symm {net : Network K} {a b : String} (h : net.Connected a b) :
    net.Connected b a := by
  induction h with
  | refl => exact .refl
  | tail _ last ih => exact ih.head last.symm

theorem connected_of_walk {net : Network K} {a b : String} (w : Walk net.edges a b) :
    net.Connected a b := by
  induction w with
  | stay a => exact .refl
  | forth c edge rest ih => exact ih.head (.inl (by simp [edge?, edge]))
  | back c edge rest ih => exact ih.head (.inr (by simp [edge?, edge]))

variable [Field K]

/-- A conversion from `a` to `b` whose factor is that of some walk between them. -/
def IsPath (net : Network K) (a b : String) (c : Conversion K) : Prop :=
  c.src = a ∧ c.dest = b ∧ ∃ w : Walk net.edges a b, c.factor = w.factor

theorem IsPath.connected {net : Network K} {a b : String} {c : Conversion K}
    (path : net.IsPath a b c) : net.Connected a b := by
  obtain ⟨_, _, w, _⟩ := path
  exact connected_of_walk w

theorem IsPath.factor_ne_zero {net : Network K} {a b : String} {c : Conversion K}
    (nonzero : ∀ key c, net.edges.get? key = some c → c.factor.value ≠ 0)
    (path : net.IsPath a b c) : c.factor.value ≠ 0 := by
  obtain ⟨_, _, w, factor⟩ := path
  rw [factor]
  exact w.factor_ne_zero nonzero

/-- A registered edge is the walk along itself. -/
theorem isPath_edge {net : Network K} {a b : String} {c : Conversion K}
    (edge : net.edge? a b = some c) (src : c.src = a) (dest : c.dest = b) : net.IsPath a b c :=
  ⟨src, dest, .forth c edge (.stay b), by simp [Walk.factor]⟩

variable [LinearOrder K] [Scalar K] [Scalar.Exact K]

theorem isPath_stay (net : Network K) (dimension a : String) :
    net.IsPath a a ⟨dimension, a, a, .one⟩ :=
  ⟨rfl, rfl, .stay a, Factor.one_eq⟩

section Composition

variable {net : Network K} {a m b : String} {c d : Conversion K}

theorem IsPath.invert (path : net.IsPath a b c) (nonzero : c.factor.value ≠ 0) :
    ∃ e, c.invert = .ok e ∧ net.IsPath b a e := by
  obtain ⟨rfl, rfl, w, factor⟩ := path
  refine ⟨_, Conversion.invert_eq nonzero, rfl, rfl, w.reverse, ?_⟩
  rw [w.factor_reverse, factor]

theorem IsPath.chain (first : net.IsPath a m c) (second : net.IsPath m b d) :
    ∃ e, c.chain d = .ok e ∧ net.IsPath a b e := by
  obtain ⟨rfl, rfl, w, wFactor⟩ := first
  obtain ⟨src, rfl, v, vFactor⟩ := second
  refine ⟨_, Conversion.chain_eq src.symm, rfl, rfl, w.append v, ?_⟩
  rw [w.factor_append, wFactor, vFactor]

theorem IsPath.diverge (first : net.IsPath m a c) (second : net.IsPath m b d)
    (nonzero : c.factor.value ≠ 0) : ∃ e, c.diverge d = .ok e ∧ net.IsPath a b e := by
  obtain ⟨rfl, rfl, w, wFactor⟩ := first
  obtain ⟨src, rfl, v, vFactor⟩ := second
  refine ⟨_, Conversion.diverge_eq src.symm nonzero, rfl, rfl, w.reverse.append v, ?_⟩
  rw [Walk.factor_append, w.factor_reverse, wFactor, vFactor, div_eq_inv_mul, add_comm]

theorem IsPath.converge (first : net.IsPath a m c) (second : net.IsPath b m d)
    (nonzero : d.factor.value ≠ 0) : ∃ e, c.converge d = .ok e ∧ net.IsPath a b e := by
  obtain ⟨rfl, rfl, w, wFactor⟩ := first
  obtain ⟨rfl, dest, v, vFactor⟩ := second
  refine ⟨_, Conversion.converge_eq dest.symm nonzero, rfl, rfl, w.append v.reverse, ?_⟩
  rw [w.factor_append, v.factor_reverse, wFactor, vFactor, div_eq_mul_inv]

theorem IsPath.oppose (first : net.IsPath m a c) (second : net.IsPath b m d)
    (nonzero : c.factor.value ≠ 0) (nonzero' : d.factor.value ≠ 0) :
    ∃ e, c.oppose d = .ok e ∧ net.IsPath a b e := by
  obtain ⟨rfl, rfl, w, wFactor⟩ := first
  obtain ⟨rfl, dest, v, vFactor⟩ := second
  refine ⟨_, Conversion.oppose_eq dest.symm nonzero nonzero', rfl, rfl,
    w.reverse.append v.reverse, ?_⟩
  rw [Walk.factor_append, w.factor_reverse, v.factor_reverse, wFactor, vFactor, mul_inv]

end Composition

end Network

end Metrology
