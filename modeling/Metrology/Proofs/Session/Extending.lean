import Metrology.Proofs.Session.Knowing

/-!
# More conversions relate more units

With further conversions symbols stay joined, units still lead to SI base units and terms still join.
Only merging may come out differently, since terms may join that did not. Where they do not, all units
stay related.
-/
namespace Metrology.Session

variable {K : Type} [Scalar K] {o o' : Session K} {d : Dimension} {u v : Compound K} {t h : Term K}

/-- The same units, with conversions between the same symbols and maybe others. -/
structure Extends (o o' : Session K) : Prop where
  lexicon : o'.lexicon = o.lexicon
  edges : ∀ d es, EdgeStore.current o.lexicon o.store d = .ok es →
    ∃ es', EdgeStore.current o.lexicon o'.store d = .ok es' ∧
      ∀ key, (es.get? key).isSome → (es'.get? key).isSome

/-- Registries that are the same extend one another. -/
theorem SameRegistries.extends (same : SameRegistries o o') : Extends o o' ∧ Extends o' o := by
  refine ⟨⟨same.lexicon, fun d es registered => ⟨es, ?_, fun _ edge => edge⟩⟩,
    ⟨same.lexicon.symm, fun d es registered => ⟨es, ?_, fun _ edge => edge⟩⟩⟩
  · rw [same.edges d, registered]
  · rw [same.lexicon] at registered ⊢
    rw [← same.edges d, registered]

omit [Scalar K] in
/-- A network drawn with further conversions has the same nodes and maybe others. -/
theorem nodes_drawn_mono {lex : Lexicon K} {d : Dimension} {es es' : Edges K}
    (kept : ∀ key, (es.get? key).isSome → (es'.get? key).isSome) {node : String}
    (isNode : node ∈ (drawn lex d es).nodes) : node ∈ (drawn lex d es').nodes := by
  simp only [drawn, Network.ofEdges, List.mem_eraseDups, List.mem_append,
    List.mem_flatMap] at isNode ⊢
  refine isNode.imp_right ?_
  rintro ⟨key, isKey, own⟩
  exact ⟨key, Register.isSome_get?_iff.mp (kept key (Register.isSome_get?_iff.mpr isKey)), own⟩

variable (ext : Extends o o')
include ext

theorem Extends.coupled {a b : String} (coupled : o.Coupled d a b) : o'.Coupled d a b := by
  rcases coupled with same | ⟨es, registered, joined⟩
  · exact .inl same
  · obtain ⟨es', registered', kept⟩ := ext.edges d es registered
    rw [← ext.lexicon] at registered'
    exact .inr ⟨es', registered', Relation.ReflTransGen.mono
      (fun x y adjacent => adjacent.imp (kept (x, y)) (kept (y, x))) _ _ joined⟩

/-- Reductions still lead to SI base units, by the same steps. -/
theorem Extends.unitGrounded {bridging : Bool} {w : NamedUnit K}
    (grounded : o.UnitGrounded bridging w) : o'.UnitGrounded bridging w := by
  have lexicon := ext.lexicon
  induction grounded with
  | base axis listed read joined =>
    exact .base axis (lexicon ▸ listed) (lexicon ▸ read) (ext.coupled joined)
  | expanded axis expands read _ ih => exact .expanded axis expands (lexicon ▸ read) ih
  | @bridged w es node c axis plain registered isNode other read simple joined _ ih =>
    obtain ⟨es', registered', kept⟩ := ext.edges _ es registered
    exact .bridged axis plain (lexicon.symm ▸ registered')
      (lexicon.symm ▸ nodes_drawn_mono kept isNode) other (lexicon ▸ read) simple
      (ext.coupled joined) ih

theorem Extends.grounded (grounded : o.Grounded u) : o'.Grounded u :=
  fun t mem => ext.unitGrounded (grounded t mem)

theorem Extends.tied (tied : o.Tied d u v) : o'.Tied d u v :=
  tied.imp_right fun ⟨x, y, bare, bare', joined⟩ => ⟨x, y, bare, bare',
    joined.imp ext.coupled fun both => ⟨ext.grounded both.1, ext.grounded both.2⟩⟩

theorem Extends.joins (joined : o.Joins t h) : o'.Joins t h := by
  obtain ⟨alike, v, w, c, e, made, single, made', single', tied⟩ := joined
  exact ⟨alike, v, w, c, e, made, single, made', single', ext.tied tied⟩

/-- Units merge as before if no further terms of them join. -/
theorem Extends.merged_eq (still : ∀ t ∈ u.terms, ∀ h ∈ u.terms, o'.Joins t h → o.Joins t h) :
    o'.merged u = o.merged u := by
  have placed : placeAll o'.Joins [] u.terms = placeAll o.Joins [] u.terms :=
    placeAll_congr fun t own h other => ⟨still t own h other, ext.joins⟩
  rw [merged, merged, placed]

omit ext in
/-- Sessions with the same registries decide the same. -/
theorem SameRegistries.decides (same : SameRegistries o o') {found : Option (Conversion K)}
    (decides : o.Decides d u v found) : o'.Decides d u v found := by
  obtain ⟨forth, back⟩ := same.extends
  obtain ⟨m, n, merges, merges', tied⟩ := decides
  exact ⟨m, n, (forth.merged_eq fun _ _ _ _ => back.joins).trans merges,
    (forth.merged_eq fun _ _ _ _ => back.joins).trans merges', tied.trans ⟨forth.tied, back.tied⟩⟩

end Metrology.Session
