import Metrology.Proofs.Graph.Growth

/-!
# Searching a network

A search leaves a network that was grown from its source, and finds nothing only where every node is
settled, so that a further round would learn nothing. It fails only where a conversion by two edges
cannot be computed, which exact numbers never do.
-/
namespace Metrology.Network

variable {K : Type} [Scalar K] {drawn net net' : Network K}

/-- What a round over some nodes comes to: the goal is reached, or something was learned, or all
of the nodes are settled. -/
inductive Round (dimension src dest : String) (learned : Bool) (nodes : List String)
    (net net' : Network K) : Option (Conversion K) × Bool → Prop where
  | reached {c : Conversion K} (edge : net'.edge? src dest = some c) :
      Round dimension src dest learned nodes net net' (some c, true)
  | progress (goal : net'.edge? src dest = net.edge? src dest)
      (fewer : learned = true ∨ (net'.missing src).card < (net.missing src).card) :
      Round dimension src dest learned nodes net net' (none, true)
  | settled (first : learned = false) (same : net' = net)
      (all : ∀ node ∈ nodes, net.Settled dimension src node) :
      Round dimension src dest learned nodes net net' (none, false)

/-- A settled node in front changes nothing about what a round comes to. -/
theorem Round.cons {dimension src dest : String} {learned : Bool} {node : String} {nodes : List String}
    {outcome : Option (Conversion K) × Bool} (here : net.Settled dimension src node)
    (round : Round dimension src dest learned nodes net net' outcome) :
    Round dimension src dest learned (node :: nodes) net net' outcome := by
  cases round with
  | reached edge => exact .reached edge
  | progress goal fewer => exact .progress goal fewer
  | settled first same all =>
    refine .settled first same fun n member => ?_
    rcases List.mem_cons.mp member with rfl | later
    · exact here
    · exact all n later

section Cases

variable (dimension src dest : String)

/-- A search that came to an error in a conversion by two edges, in a network as it stood then. -/
def FailsToFind (net : Network K) (e : Error) : Prop :=
  ∃ now node, Grows dimension src net now ∧ now.find dimension src node = .error e

theorem FailsToFind.grows {e : Error} (grows : Grows dimension src net net')
    (fails : net'.FailsToFind dimension src e) : net.FailsToFind dimension src e := by
  obtain ⟨now, node, later, failed⟩ := fails
  exact ⟨now, node, grows.trans later, failed⟩

theorem growRound_cases (nodes : List String) (learned : Bool)
    (known : ∀ node ∈ nodes, node ∈ net.nodes) :
    (∃ outcome net', (growRound dimension src dest learned nodes).apply net = (.ok outcome, net') ∧
      Grows dimension src net net' ∧ Round dimension src dest learned nodes net net' outcome) ∨
    ∃ e net', (growRound dimension src dest learned nodes).apply net = (.error e, net') ∧
      net.FailsToFind dimension src e := by
  induction nodes generalizing net learned with
  | nil =>
    refine .inl ⟨(none, learned), net, rfl, .refl, ?_⟩
    cases learned with
    | true => exact .progress rfl (.inl rfl)
    | false => exact .settled rfl rfl (by simp)
  | cons node rest ih =>
    have knownRest : ∀ n ∈ rest, n ∈ net.nodes := fun n member =>
      known n (List.mem_cons_of_mem _ member)
    rw [growRound, Action.apply_bind, Action.apply_get]
    dsimp only
    split
    next skip =>
      refine (ih learned knownRest).imp_left fun ⟨outcome, net', run, grows, round⟩ => ?_
      exact ⟨outcome, net', run, grows, round.cons (by tauto)⟩
    next search =>
      obtain ⟨other, fresh⟩ := not_or.mp search
      rw [Action.apply_bind, Action.apply_lift]
      cases answer : net.find dimension src node with
      | error e => exact .inr ⟨e, net, rfl, net, node, .refl, answer⟩
      | ok found =>
        cases found with
        | none =>
          refine (ih learned knownRest).imp_left fun ⟨outcome, net', run, grows, round⟩ => ?_
          exact ⟨outcome, net', run, grows, round.cons (.inr (.inr answer))⟩
        | some c =>
          have step : Learns dimension src net (net.learn src node c) :=
            ⟨node, c, other, known node List.mem_cons_self, by simpa using fresh, answer, rfl⟩
          dsimp only
          rw [Action.apply_bind, Action.apply_set]
          dsimp only
          split
          next goal =>
            refine .inl ⟨(some c, true), _, rfl, .single step, .reached ?_⟩
            rw [goal, edge?_learn, if_pos rfl]
          next elsewhere =>
            rcases @ih (net.learn src node c) true knownRest with
              ⟨outcome, net', run, grows, round⟩ | ⟨e, net', run, fails⟩
            · refine .inl ⟨outcome, net', run, .head step grows, ?_⟩
              cases round with
              | reached edge => exact .reached edge
              | progress goal _ =>
                refine .progress ?_ (.inr (Nat.lt_of_le_of_lt grows.missing_le step.missing_lt))
                rw [goal, edge?_learn, if_neg (by simp [elsewhere])]
              | settled first => cases first
            · exact .inr ⟨e, net', run, fails.grows dimension src (.single step)⟩

/-- What a search by rounds comes to. -/
inductive Outcome (dimension src dest : String) (net' : Network K) :
    Option (Conversion K) → Prop where
  | reached {c : Conversion K} (edge : net'.edge? src dest = some c) :
      Outcome dimension src dest net' (some c)
  | settled (goal : net'.edge? src dest = none)
      (all : ∀ node ∈ net'.nodes, net'.Settled dimension src node) :
      Outcome dimension src dest net' none

/-- What one round gives decides whether there is a further one. -/
theorem growRounds_succ (rounds : Nat) {outcome : Option (Conversion K) × Bool}
    (run : (growRound dimension src dest false net.nodes).apply net = (.ok outcome, net')) :
    (growRounds dimension src dest (rounds + 1)).apply net =
      (match outcome with
        | (some c, _) => pure (some c)
        | (none, true) => growRounds dimension src dest rounds
        | (none, false) => pure none : Action (Network K) _).apply net' := by
  obtain ⟨_ | c, _ | _⟩ := outcome <;>
    simp only [growRounds, Action.apply_bind, Action.apply_get, run]

/-- Rounds end before the given number of them is used up, since each round but the last leaves
fewer nodes missing: any other number that exceeds the missing nodes gives the same. -/
theorem growRounds_cases (rounds : Nat) (goal : net.edge? src dest = none)
    (enough : (net.missing src).card < rounds) :
    (∃ found net', Grows dimension src net net' ∧ Outcome dimension src dest net' found ∧
      ∀ rounds', (net.missing src).card < rounds' →
        (growRounds dimension src dest rounds').apply net = (.ok found, net')) ∨
    ∃ e net', (growRounds dimension src dest rounds).apply net = (.error e, net') ∧
      net.FailsToFind dimension src e := by
  induction rounds generalizing net with
  | zero => omega
  | succ rounds ih =>
    have known : ∀ node ∈ net.nodes, node ∈ net.nodes := fun _ member => member
    rcases growRound_cases dimension src dest net.nodes false known with
      ⟨outcome, net', run, grows, round⟩ | ⟨e, net', run, fails⟩
    · have unfolded := fun rounds' => growRounds_succ dimension src dest rounds' run
      cases round with
      | reached edge =>
        refine .inl ⟨_, net', grows, .reached edge, fun rounds' more => ?_⟩
        obtain ⟨n, rfl⟩ := Nat.exists_eq_succ_of_ne_zero (Nat.ne_zero_of_lt more)
        rw [unfolded, Action.apply_pure]
      | settled _ same all =>
        subst same
        refine .inl ⟨none, _, grows, .settled goal all, fun rounds' more => ?_⟩
        obtain ⟨n, rfl⟩ := Nat.exists_eq_succ_of_ne_zero (Nat.ne_zero_of_lt more)
        rw [unfolded, Action.apply_pure]
      | progress goal' fewer =>
        have fewer := fewer.resolve_left (by simp)
        rcases ih (goal'.trans goal) (by omega) with
          ⟨found, final, growsOn, outcome, stable⟩ | ⟨e, final, run', fails⟩
        · refine .inl ⟨found, final, grows.trans growsOn, outcome, fun rounds' more => ?_⟩
          obtain ⟨n, rfl⟩ := Nat.exists_eq_succ_of_ne_zero (Nat.ne_zero_of_lt more)
          rw [unfolded]
          exact stable n (by omega)
        · refine .inr ⟨e, final, ?_, fails.grows dimension src grows⟩
          rw [unfolded]
          exact run'
    · refine .inr ⟨e, net', ?_, fails⟩
      simp only [growRounds, Action.apply_bind, Action.apply_get, run]

/-- Growing keeps to the number of nodes, which no search uses up. -/
theorem grow_cases (goal : net.edge? src dest = none) :
    (∃ found net', (grow dimension src dest).apply net = (.ok found, net') ∧
      Grows dimension src net net' ∧ (∀ c, found = some c → net'.edge? src dest = some c) ∧
      (src ∈ net.nodes → dest ∈ net.nodes → Outcome dimension src dest net' found ∧
        ∀ rounds, net.nodes.length ≤ rounds →
          (growRounds dimension src dest rounds).apply net = (.ok found, net'))) ∨
    ∃ e net', (grow dimension src dest).apply net = (.error e, net') ∧
      net.FailsToFind dimension src e := by
  rw [grow, Action.apply_bind, Action.apply_get]
  dsimp only
  split
  next both =>
    refine (growRounds_cases dimension src dest net.nodes.length goal
      (missing_card_lt both.1)).imp_left fun ⟨found, net', grows, outcome, stable⟩ => ?_
    refine ⟨found, net', stable _ (missing_card_lt both.1), grows, ?_, fun _ _ =>
      ⟨outcome, fun rounds more => stable _ (Nat.lt_of_lt_of_le (missing_card_lt both.1) more)⟩⟩
    rintro c rfl
    cases outcome with
    | reached edge => exact edge
  next outside =>
    exact .inl ⟨none, net, rfl, .refl, by simp, fun src dest => absurd ⟨src, dest⟩ outside⟩

/-! ### Any number of rounds -/

/-- A round of growing, and what comes `later` if it learned something without reaching the goal. -/
def roundThen (later : Action (Network K) (Option (Conversion K))) :
    Action (Network K) (Option (Conversion K)) := do
  let net ← get
  match ← growRound dimension src dest false net.nodes with
  | (some c, _) => return some c
  | (none, true) => later
  | (none, false) => return none

/-- Rounds of growing up to a number of them, after which there is something else. -/
def growRoundsOver (bottom : Action (Network K) (Option (Conversion K))) :
    Nat → Action (Network K) (Option (Conversion K))
  | 0 => bottom
  | rounds + 1 => roundThen dimension src dest (growRoundsOver bottom rounds)

/-- A search that grows up to a number of rounds, after which there is something else. -/
def searchOver (bottom : Action (Network K) (Option (Conversion K))) (rounds : Nat) :
    Action (Network K) (Option (Conversion K)) := do
  let net ← get
  match ← net.find dimension src dest with
  | some c => return some c
  | none =>
    if src ∈ net.nodes ∧ dest ∈ net.nodes then growRoundsOver dimension src dest bottom rounds
    else return none

theorem growRounds_eq (rounds : Nat) :
    growRounds (K := K) dimension src dest rounds =
      growRoundsOver dimension src dest (pure none) rounds := by
  induction rounds with
  | zero => rfl
  | succ rounds ih => exact congrArg (roundThen dimension src dest) ih

/-- A round that does not end the search leaves fewer nodes missing, so that what comes after more
rounds than nodes are missing is never reached. -/
theorem growRoundsOver_stable (bottom bottom' : Action (Network K) (Option (Conversion K)))
    {rounds rounds' : Nat} (enough : (net.missing src).card < rounds)
    (enough' : (net.missing src).card < rounds') :
    (growRoundsOver dimension src dest bottom rounds).apply net =
      (growRoundsOver dimension src dest bottom' rounds').apply net := by
  induction rounds generalizing net rounds' with
  | zero => omega
  | succ rounds ih =>
    obtain ⟨rounds', rfl⟩ := Nat.exists_eq_succ_of_ne_zero (Nat.ne_zero_of_lt enough')
    simp only [growRoundsOver, roundThen, Action.apply_bind, Action.apply_get]
    rcases growRound_cases dimension src dest net.nodes false fun _ member => member with
      ⟨outcome, net', run, _, round⟩ | ⟨e, net', run, _⟩
    · rw [run]
      cases round with
      | reached => rfl
      | settled => rfl
      | progress _ fewer =>
        have fewer := fewer.resolve_left (by simp)
        exact ih (by omega) (by omega)
    · rw [run]

/-- As many rounds as there are nodes are enough: a search never comes to what is after them. -/
theorem searchOver_apply (bottom : Action (Network K) (Option (Conversion K))) {rounds : Nat}
    (enough : net.nodes.length ≤ rounds) :
    (searchOver dimension src dest bottom rounds).apply net =
      (search dimension src dest).apply net := by
  rw [searchOver, search, Action.apply_bind, Action.apply_bind, Action.apply_get]
  dsimp only
  rw [Action.apply_bind, Action.apply_bind, Action.apply_lift]
  rcases net.find dimension src dest with e | _ | c
  · rfl
  · dsimp only
    rw [grow, Action.apply_bind, Action.apply_get]
    dsimp only
    split
    next both =>
      rw [growRounds_eq]
      have fewer := missing_card_lt both.1
      exact growRoundsOver_stable dimension src dest _ _ (by omega) fewer
    next => rfl
  · rfl

end Cases

variable [Field K] [LinearOrder K] [Scalar.Exact K] (dimension src dest : String)

/-- Exact numbers never fail to be composed. -/
theorem GrownFrom.not_failsToFind (grown : GrownFrom drawn net) (keyed : drawn.Drawn) {e : Error} :
    ¬ net.FailsToFind dimension src e := by
  rintro ⟨now, node, grows, failed⟩
  obtain ⟨found, answer, _⟩ := (grown.grows keyed grows).find keyed dimension src node
  rw [answer] at failed
  cases failed

theorem grow_spec (keyed : drawn.Drawn) (grown : GrownFrom drawn net)
    (goal : net.edge? src dest = none) :
    ∃ found net', (grow dimension src dest).apply net = (.ok found, net') ∧
      Grows dimension src net net' ∧ (∀ c, found = some c → drawn.IsPath src dest c) ∧
      (src ∈ net.nodes → dest ∈ net.nodes → Outcome dimension src dest net' found ∧
        ∀ rounds, net.nodes.length ≤ rounds →
          (growRounds dimension src dest rounds).apply net = (.ok found, net')) := by
  rcases grow_cases dimension src dest goal with
    ⟨found, net', run, grows, edge, outcome⟩ | ⟨e, net', _, fails⟩
  · exact ⟨found, net', run, grows,
      fun c same => (grown.grows keyed grows).paths _ c (edge c same), outcome⟩
  · exact absurd fails (grown.not_failsToFind dimension src keyed)

theorem search_spec (keyed : drawn.Drawn) (grown : GrownFrom drawn net) :
    ∃ found net', (search dimension src dest).apply net = (.ok found, net') ∧
      Grows dimension src net net' ∧ (∀ c, found = some c → drawn.IsPath src dest c) ∧
      (found = none → src ∈ net.nodes → dest ∈ net.nodes →
        Outcome dimension src dest net' none) := by
  obtain ⟨found, answer, path, nothing⟩ := grown.find keyed dimension src dest
  rw [search, Action.apply_bind, Action.apply_get]
  dsimp only
  rw [Action.apply_bind, Action.apply_lift, answer]
  dsimp only
  cases found with
  | some c => exact ⟨some c, net, rfl, .refl, path, by simp⟩
  | none =>
    obtain ⟨found, net', run, grows, path, outcome⟩ :=
      grow_spec dimension src dest keyed grown (nothing rfl).2.1
    refine ⟨found, net', run, grows, path, ?_⟩
    rintro rfl src dest
    exact (outcome src dest).1

end Metrology.Network
