import Metrology.Proofs.Session.History

/-!
# Looking things up

What each of the functions that remember comes to in a given session: from memory where the key is
known, otherwise as it is computed, and then it is remembered. Merging asks for conversions between
single terms, which are conversions like any other, since a single term merges into itself.
-/
namespace Metrology

variable {K : Type} [Scalar K]

namespace Session

variable {d : Dimension} {s : Session K}

/-- The network of a dimension as it is drawn from the registries. -/
def drawn (lex : Lexicon K) (d : Dimension) (es : Edges K) : Network K :=
  Network.ofEdges ((lex.ofDimension d).map (·.asciiSymbol)) es

theorem routes_apply (d : Dimension) (s : Session K) :
    (routes d).apply s =
      match (s.chart d).routes with
      | some r => (.ok r, s)
      | none =>
        match (EdgeStore.edgesOf s.lexicon d).apply s.store with
        | (.ok es, store) => (.ok (.ofNetwork (drawn s.lexicon d es)),
            { s with store := store }.putChart d
              { s.chart d with routes := some (.ofNetwork (drawn s.lexicon d es)) })
        | (.error e, store) => (.error e, { s with store := store }) := by
  rw [routes, Action.apply_bind, Action.apply_get]
  dsimp only
  cases (s.chart d).routes with
  | some r => rfl
  | none =>
    dsimp only
    rw [Action.apply_bind, apply_onStore]
    rcases (EdgeStore.edgesOf s.lexicon d).apply s.store with ⟨_ | _, store⟩ <;> rfl

theorem network_apply (d : Dimension) (s : Session K) :
    (network d).apply s = (((routes d).apply s).1.map (·.network), ((routes d).apply s).2) := by
  rw [network, Action.apply_bind]
  rcases (routes d).apply s with ⟨_ | _, t⟩ <;> rfl

theorem route_apply (d : Dimension) (src dest : String) (s : Session K) :
    (route d src dest).apply s =
      match (routes d).apply s with
      | (.ok r, t) => (((Routes.route d.code src dest).apply r).1,
          t.putChart d { t.chart d with
            routes := some ((Routes.route d.code src dest).apply r).2 })
      | (.error e, t) => (.error e, t) := by
  rw [route, Action.apply_bind]
  rcases (routes d).apply s with ⟨_ | _, t⟩ <;> rfl

/-- Checking a unit leaves the session as it is. -/
theorem validate_apply (d : Dimension) (ref : UnitRef K) (s : Session K) :
    (validate d ref).apply s = (((validate d ref).apply s).1, s) := by
  have same : ((validate d ref).apply s).2 = s := by
    have keeps : (validate d ref).Keeps (· = s) fun _ => True := by
      refine .bind .get fun t _ => ?_
      refine .bind (.lift fun u meant => meant) fun u _ => ?_
      refine .bind (.lift fun e given => given) fun e _ => ?_
      split
      next => exact .pure trivial
      next =>
        split
        next => exact .throw _
        next => exact .throw _
    exact keeps.invariant rfl
  exact Prod.ext rfl same

/-- A unit passes if it has the dimension. -/
theorem validate_eq_ok {ref : UnitRef K} {u : Compound K} :
    ((validate d ref).apply s).1 = .ok u ↔ s.lexicon.deref ref = .ok u ∧ u.dimension = .ok d := by
  rw [validate, Action.apply_bind, Action.apply_get]
  dsimp only
  rw [Action.apply_bind, Action.apply_lift]
  cases meant : s.lexicon.deref ref with
  | error e => simp
  | ok v =>
    dsimp only
    rw [Action.apply_bind, Action.apply_lift]
    cases dimension : v.dimension with
    | error e =>
      refine ⟨(nomatch ·), fun ⟨same, own⟩ => ?_⟩
      obtain rfl := Except.ok.inj same
      rw [dimension] at own
      cases own
    | ok e =>
      dsimp only
      split
      next same =>
        subst same
        refine ⟨fun given => ?_, fun ⟨same, _⟩ => congrArg _ (Except.ok.inj same)⟩
        obtain rfl := Except.ok.inj given
        exact ⟨rfl, dimension⟩
      next differs =>
        refine ⟨fun given => ?_, fun ⟨same, own⟩ => ?_⟩
        · split at given <;> cases given
        · obtain rfl := Except.ok.inj same
          exact absurd (Except.ok.inj (dimension.symm.trans own)) differs

/-- A unit that passes is what is meant by its name. -/
theorem deref_of_validate {ref : UnitRef K} {u : Compound K}
    (given : ((validate d ref).apply s).1 = .ok u) : s.lexicon.deref ref = .ok u :=
  (validate_eq_ok.mp given).1

theorem parse_apply (ref : UnitRef K) (s : Session K) :
    (parse ref).apply s = (s.lexicon.deref ref, s) := by
  rw [parse, Action.apply_bind]
  rfl

theorem answer_apply (merge : Merging K) (d : Dimension) (src dest : UnitRef K) (s : Session K) :
    (answer merge d src dest).apply s =
      match ((validate d src).apply s).1 with
      | .error e => (.error e, s)
      | .ok u =>
        match ((validate d dest).apply s).1 with
        | .error e => (.error e, s)
        | .ok v =>
          match (s.chart d).answers.get? (u.write .ascii, v.write .ascii) with
          | some known => (.ok known, s)
          | none =>
            match (compute merge d u v).apply s with
            | (.error e, t) => (.error e, t)
            | (.ok found, t) => (.ok found, t.putChart d { t.chart d with
                answers := (t.chart d).answers.put (u.write .ascii, v.write .ascii) found }) := by
  rw [answer, Action.apply_bind, validate_apply]
  cases ((validate d src).apply s).1 with
  | error e => rfl
  | ok u =>
    dsimp only
    rw [Action.apply_bind, validate_apply]
    cases ((validate d dest).apply s).1 with
    | error e => rfl
    | ok v =>
      dsimp only
      rw [Action.apply_bind, Action.apply_get]
      dsimp only
      cases (s.chart d).answers.get? (u.write .ascii, v.write .ascii) with
      | some known => rfl
      | none =>
        dsimp only
        rw [Action.apply_bind]
        rcases (compute merge d u v).apply s with ⟨_ | _, t⟩ <;> rfl

/-- The factor of a unit to SI base units where it is not remembered. -/
def factorAnew (depth : Nat) (bridging : Bool) (unit : NamedUnit K) :
    Action (Session K) (Option (Factor K)) :=
  match unit.dimension.baseAxis? with
  | some a => reduceBase unit a
  | none =>
    match unit.expansion with
    | some expansion => do
      let expanded ← (← get).lexicon.parse expansion
      let base ← reduceTerms (reduceUnit depth bridging) Factor.one expanded.terms
      pure (base.map (Factor.read unit.expansionMultiplier).mul)
    | none =>
      if bridging then do
        let net ← network unit.dimension
        bridge (reduceUnit depth false) unit net.nodes
      else pure none

theorem reduceUnit_apply (depth : Nat) (bridging : Bool) (unit : NamedUnit K) (s : Session K) :
    (reduceUnit (depth + 1) bridging unit).apply s =
      match s.baseFactors.get? (unit.asciiSymbol, bridging) with
      | some known => (.ok known, s)
      | none =>
        match (factorAnew depth bridging unit).apply s with
        | (.error e, t) => (.error e, t)
        | (.ok found, t) => (.ok found, { t with
            baseFactors := t.baseFactors.put (unit.asciiSymbol, bridging) found }) := by
  have remember (a : Action (Session K) (Option (Factor K))) :
      (do
        let found ← a
        modify fun s => { s with
          baseFactors := s.baseFactors.put (unit.asciiSymbol, bridging) found }
        return found : Action (Session K) (Option (Factor K))).apply s =
      match a.apply s with
      | (.error e, t) => (.error e, t)
      | (.ok found, t) => (.ok found, { t with
          baseFactors := t.baseFactors.put (unit.asciiSymbol, bridging) found }) := by
    rw [Action.apply_bind]
    rcases a.apply s with ⟨_ | _, t⟩ <;> rfl
  rw [reduceUnit, Action.apply_bind, Action.apply_get]
  dsimp only
  cases s.baseFactors.get? (unit.asciiSymbol, bridging) with
  | some known => rfl
  | none =>
    dsimp only
    rw [← remember, factorAnew]
    cases unit.dimension.baseAxis? with
    | some a => rfl
    | none =>
      cases unit.expansion with
      | some expansion => simp only [bind_assoc]
      | none =>
        cases bridging with
        | true => simp only [↓reduceIte, bind_assoc]
        | false => rfl

/-! ### Single terms -/

/-- A term without its exponent stands for itself, or for nothing if it is a scalar. -/
theorem terms_of_deref {lex : Lexicon K} {t v : Term K} {c : Compound K}
    (made : t.withoutExponent = .ok v) (meant : lex.deref (.term v) = .ok c) :
    c = .one ∨ c = ⟨[v]⟩ ∧ Compound.ofTerms [v] = .ok ⟨[v]⟩ ∧ v.exponent = 1 ∧
      v.withExponent 1 = .ok v := by
  cases scalar : v.isScalar with
  | true =>
    rw [show lex.deref (.term v) = Compound.ofTerms [v] from rfl,
      Lexicon.ofTerms_of_isScalar scalar] at meant
    exact .inl (Except.ok.inj meant).symm
  | false =>
    have again : t.withoutExponent = .ok v := made
    obtain ⟨rfl, _⟩ := Term.make_eq_ok.mp (show Term.make t.unit t.scaling 1 = .ok v from made)
    replace again : Term.withExponent ⟨t.unit, t.scaling, 1⟩ 1 = .ok ⟨t.unit, t.scaling, 1⟩ := again
    have self : Compound.ofTerms [(⟨t.unit, t.scaling, 1⟩ : Term K)] =
        .ok ⟨[⟨t.unit, t.scaling, 1⟩]⟩ := by
      simp [Compound.ofTerms, Compound.piles, scalar, Compound.pile, Compound.level, again,
        Except.map, bind, Except.bind, pure, Except.pure]
    exact .inr ⟨(Except.ok.inj (meant.symm.trans self)), self, rfl, again⟩

/-- A single term merges into itself. -/
theorem mergeFactor_term {lex : Lexicon K} {t v : Term K} {c : Compound K}
    (made : t.withoutExponent = .ok v) (meant : lex.deref (.term v) = .ok c) :
    (mergeFactor c : Action (Session K) _) = return (.one, c) := by
  rcases terms_of_deref made meant with rfl | ⟨rfl, self, exponent, again⟩
  · rfl
  · refine Action.ext fun s => ?_
    have merged : (do
        let w ← (liftM (v.withExponent 1) : Action (Session K) (Term K))
        return (Factor.one, ← liftM (Compound.ofTerms [w])) :
        Action (Session K) (Factor K × Compound K)).apply s = (.ok (.one, ⟨[v]⟩), s) := by
      rw [again, Action.apply_bind, Action.apply_lift]
      dsimp only
      rw [self]
      rfl
    simpa [mergeFactor, groupTerms, joinGroup, exponent] using merged

/-- The conversion between two terms is a conversion between units. -/
theorem termConversion_eq (t head : Term K) : termConversion t head = (do
    conversionIn t.unit.dimension (.term (← t.withoutExponent)) (.term (← head.withoutExponent)) :
    Action (Session K) _) := by
  refine Action.ext fun s => ?_
  rw [termConversion, Action.apply_bind, Action.apply_bind, Action.apply_lift]
  cases made : t.withoutExponent with
  | error e => rfl
  | ok v =>
    dsimp only
    rw [Action.apply_bind, Action.apply_bind, Action.apply_lift]
    cases made' : head.withoutExponent with
    | error e => rfl
    | ok w =>
      dsimp only
      rw [conversionIn, answer_apply, answer_apply]
      cases passes : ((validate t.unit.dimension (.term v)).apply s).1 with
      | error e => rfl
      | ok x =>
        dsimp only
        cases passes' : ((validate t.unit.dimension (.term w)).apply s).1 with
        | error e => rfl
        | ok y =>
          have self := mergeFactor_term made (deref_of_validate passes)
          have self' := mergeFactor_term made' (deref_of_validate passes')
          simp only [compute, self, self']

end Session

end Metrology
