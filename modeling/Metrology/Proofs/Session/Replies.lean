import Metrology.Proofs.Session.Comparing

/-!
# Replies do not show what was asked before

Every question leaves the memory of a session right, if the units that it compares are told apart by
their symbols. So a conversion that is asked for is the same after any questions, except for its
relative error: that depends on the walk that a search finds, and searches leave learned edges behind.
-/
namespace Metrology.Session

open Metrology.Action (Parallel)

variable {K : Type}

/-- The units between which conversions are looked up to answer a question: the ends of a conversion,
and the single terms of what is merged. -/
def Query.Compares [Scalar K] (lex : Lexicon K) : Query K → Compound K → Prop
  | conversion src dest, c | conversionIn _ src dest, c | convert _ src dest, c
  | convertIn _ _ src dest, c =>
    ∃ ref ∈ [src, dest], ∃ u, lex.deref ref = .ok u ∧ (u = c ∨ u.HasPart c)
  | merge _ ref, c => ∃ u, lex.deref ref = .ok u ∧ u.HasPart c
  | expand value ref, c => ∃ u x v, lex.deref ref = .ok u ∧ expandTerms lex value u.terms = .ok x ∧
    Compound.ofTerms x.2 = .ok v ∧ v.HasPart c
  | toBase _ _, _ | edge _ _ _, _ | network _, _ | route _ _ _, _ => False

/-- The conversion that a session gives after some questions. -/
def reply [Scalar K] (asked : List (Query K)) (src dest : UnitRef K) (o : Session K) :
    Except Error (Option (Conversion K)) :=
  ((conversion src dest).apply (perform (asked.map .ask) o)).1

/-! ### Questions keep the memory right -/

section
variable [Scalar K] {I : Session K → Prop} {o s : Session K} {asked : Compound K → Prop} {d : Dimension}

/-- What is meant by a unit was asked for, and so were its single terms. -/
def Asks (o : Session K) (asked : Compound K → Prop) (ref : UnitRef K) : Prop :=
  ∀ u, o.lexicon.deref ref = .ok u → asked u ∧ ∀ c, u.HasPart c → asked c

/-- Where the units that a conversion compares were asked for, so were its ends. -/
theorem asks_ends {src dest : UnitRef K}
    (compares : ∀ c, (Query.conversion src dest).Compares o.lexicon c → asked c) :
    Asks o asked src ∧ Asks o asked dest := by
  have asks (ref : UnitRef K) (mem : ref ∈ [src, dest]) : Asks o asked ref := fun u meant =>
    ⟨compares u ⟨ref, mem, u, meant, .inl rfl⟩,
      fun c part => compares c ⟨ref, mem, u, meant, .inr part⟩⟩
  exact ⟨asks src (by simp), asks dest (by simp)⟩

theorem Asks.compound {ref : UnitRef K} {u : Compound K} (asks : Asks o asked ref)
    (meant : o.lexicon.deref ref = .ok u) : Asks o asked (.compound u) := by
  intro v same
  obtain rfl := Except.ok.inj same
  exact asks u meant

/-- An invariant of sessions with the units of another one that is kept by what questions are made of,
as long as they are about units of some kind, and compare units that were asked for. -/
structure KeptAmong (o : Session K) (known asked : Compound K → Prop) (I : Session K → Prop) :
    Prop where
  lexicon : ∀ s, I s → s.lexicon = o.lexicon
  expands : ∀ (value : K) u x v, known u → expandTerms o.lexicon value u.terms = .ok x →
    Compound.ofTerms x.2 = .ok v → known v
  conversion : ∀ d src dest, Asks o asked src → Asks o asked dest →
    (conversionIn d src dest).Keeps I fun _ => True
  merging : ∀ u, known u → (∀ c, u.HasPart c → asked c) → (mergeFactor u).Keeps I fun _ => True
  reduction : ∀ u bridging, known u → (toBase u bridging).Keeps I fun _ => True
  edges : ∀ s d, I s → I { s with store := ((EdgeStore.edgesOf s.lexicon d).apply s.store).2 }
  network : ∀ d, (network d).Keeps I fun _ => True
  route : ∀ d src dest, (route d src dest).Keeps I fun _ => True

namespace KeptAmong

variable {known : Compound K → Prop} (kept : KeptAmong o known asked I)
include kept

theorem parse (ref : UnitRef K) : (parse ref).Keeps I fun u => o.lexicon.deref ref = .ok u := by
  intro s holds
  rw [parse_apply, kept.lexicon s holds]
  exact ⟨holds, fun u meant => meant⟩

theorem convertIn (value : K) {src dest : UnitRef K} (asksSrc : Asks o asked src)
    (asksDest : Asks o asked dest) : (convertIn d value src dest).Keeps I fun _ => True := by
  refine .bind (kept.conversion d src dest asksSrc asksDest) fun found _ => ?_
  split
  next => exact .pure trivial
  next =>
    exact .bind (KeptByLookups.validate d src) fun _ _ =>
      .bind (KeptByLookups.validate d dest) fun _ _ => .throw _

theorem conversionOf {src dest : UnitRef K} (asksSrc : Asks o asked src)
    (asksDest : Asks o asked dest) : (Session.conversion src dest).Keeps I fun _ => True :=
  .bind (kept.parse src) fun _ meant => .bind (.lift fun _ given => given) fun d _ =>
    kept.conversion d _ dest (asksSrc.compound meant) asksDest

theorem convert (value : K) {src dest : UnitRef K} (asksSrc : Asks o asked src)
    (asksDest : Asks o asked dest) : (Session.convert value src dest).Keeps I fun _ => True :=
  .bind (kept.parse src) fun _ meant => .bind (.lift fun _ given => given) fun _ _ =>
    kept.convertIn value (asksSrc.compound meant) asksDest

theorem merge (value : K) {ref : UnitRef K} (refers : ∀ u, o.lexicon.deref ref = .ok u → known u)
    (parts : ∀ u c, o.lexicon.deref ref = .ok u → u.HasPart c → asked c) :
    (merge value ref).Keeps I fun _ => True := by
  refine .bind (kept.parse ref) fun u meant => ?_
  exact .bind (kept.merging u (refers u meant) fun c => parts u c meant) fun _ _ => .pure trivial

/-- A unit is expanded and then merged. -/
theorem expand (value : K) {ref : UnitRef K} (refers : ∀ u, o.lexicon.deref ref = .ok u → known u)
    (parts : ∀ u x v c, o.lexicon.deref ref = .ok u → expandTerms o.lexicon value u.terms = .ok x →
      Compound.ofTerms x.2 = .ok v → v.HasPart c → asked c) :
    (Session.expand value ref).Keeps I fun _ => True := by
  refine .bind (kept.parse ref) fun u meant => ?_
  refine .bind .get fun t later => ?_
  rw [kept.lexicon t later]
  refine .bind (.lift fun x expanded => expanded) fun x expanded => ?_
  refine .bind (.lift fun v product => product) fun v product => ?_
  have own := kept.expands value u x v (refers u meant) expanded product
  refine kept.merge x.1 (fun w same => Except.ok.inj same ▸ own) fun w c same part => ?_
  obtain rfl := Except.ok.inj same
  exact parts u x v c meant expanded product part

/-- Questions keep the invariant. -/
theorem ask {q : Query K} (refers : ∀ ref ∈ q.refs, ∀ u, o.lexicon.deref ref = .ok u → known u)
    (compares : ∀ c, q.Compares o.lexicon c → asked c) (holds : I s) : I (q.after s) := by
  cases q with
  | conversion src dest =>
    obtain ⟨asksSrc, asksDest⟩ := asks_ends compares
    exact (kept.conversionOf asksSrc asksDest).invariant holds
  | conversionIn d src dest =>
    obtain ⟨asksSrc, asksDest⟩ := asks_ends compares
    exact (kept.conversion d src dest asksSrc asksDest).invariant holds
  | convert value src dest =>
    obtain ⟨asksSrc, asksDest⟩ := asks_ends compares
    exact (kept.convert value asksSrc asksDest).invariant holds
  | convertIn d value src dest =>
    obtain ⟨asksSrc, asksDest⟩ := asks_ends compares
    exact (kept.convertIn value asksSrc asksDest).invariant holds
  | merge value ref =>
    exact (kept.merge value (refers ref (by simp [Query.refs]))
      fun u c meant part => compares c ⟨u, meant, part⟩).invariant holds
  | expand value ref =>
    exact (kept.expand value (refers ref (by simp [Query.refs]))
      fun u x v c meant expanded product part =>
        compares c ⟨u, x, v, meant, expanded, product, part⟩).invariant holds
  | toBase ref bridging =>
    have keeps : (do Session.toBase (← Session.parse ref) bridging).Keeps I fun _ => True :=
      .bind (kept.parse ref) fun u meant =>
        kept.reduction u bridging (refers ref (by simp [Query.refs]) u meant)
    exact keeps.invariant holds
  | edge d src dest =>
    have same : (Query.edge d src dest).after s =
        { s with store := ((EdgeStore.edgesOf s.lexicon d).apply s.store).2 } := by
      rw [Query.after, apply_onStore, EdgeStore.find?, Action.apply_bind]
      rcases (EdgeStore.edgesOf s.lexicon d).apply s.store with ⟨_ | _, store⟩ <;> rfl
    rw [same]
    exact kept.edges s d holds
  | network d => exact (kept.network d).invariant holds
  | route d src dest => exact (kept.route d src dest).invariant holds

end KeptAmong

/-- An invariant of sessions with the registries of another one that is kept by what questions are made
of, as long as they are about units that are known and were asked for. -/
structure KeptByParts (o : Session K) (asked : Compound K → Prop) (I : Session K → Prop) : Prop where
  indexed : o.lexicon.Indexed
  registries : ∀ s, I s → SameRegistries o s
  conversion : ∀ d src dest, Asks o asked src → Asks o asked dest →
    (conversionIn d src dest).Keeps I fun _ => True
  merging : ∀ u : Compound K, u.Sound o.lexicon.Names → (∀ c, u.HasPart c → asked c) →
    (mergeFactor u).Keeps I fun _ => True
  reduction : ∀ (u : Compound K) bridging, u.Sound o.lexicon.Names →
    (toBase u bridging).Keeps I fun _ => True
  edges : ∀ s d, I s → I { s with store := ((EdgeStore.edgesOf s.lexicon d).apply s.store).2 }
  network : ∀ d, (network d).Keeps I fun _ => True
  route : ∀ d src dest, (route d src dest).Keeps I fun _ => True

namespace KeptByParts

variable (kept : KeptByParts o asked I)
include kept

/-- The units that they are about consist of units of the lexicon. -/
theorem keptAmong : KeptAmong o (·.Sound o.lexicon.Names) asked I where
  lexicon s holds := (kept.registries s holds).lexicon
  expands value u x v sound expanded product := by
    have terms := sound_of_expandTerms kept.indexed sound.terms expanded
    exact Compound.sound_of_ofTerms (fun t mem => (terms t mem).1) product
  conversion := kept.conversion
  merging := kept.merging
  reduction := kept.reduction
  edges := kept.edges
  network := kept.network
  route := kept.route

/-- Questions keep the invariant. -/
theorem ask {q : Query K} (known : ∀ ref ∈ q.refs, o.lexicon.Refers ref)
    (compares : ∀ c, q.Compares o.lexicon c → asked c) (holds : I s) : I (q.after s) :=
  kept.keptAmong.ask (fun ref mem _ meant => kept.indexed.sound_of_deref (known ref mem) meant) compares
    holds

theorem perform {questions : List (Query K)}
    (known : ∀ q ∈ questions, ∀ ref ∈ q.refs, o.lexicon.Refers ref)
    (compares : ∀ q ∈ questions, ∀ c, q.Compares o.lexicon c → asked c) (holds : I s) :
    I (Session.perform (questions.map .ask) s) := by
  induction questions generalizing s with
  | nil => exact holds
  | cons q rest ih =>
    exact ih (fun r mem => known r (List.mem_cons_of_mem _ mem))
      (fun r mem => compares r (List.mem_cons_of_mem _ mem))
      (kept.ask (known q List.mem_cons_self) (compares q List.mem_cons_self) holds)

end KeptByParts

end

section
variable [Field K] [LinearOrder K] [IsStrictOrderedRing K] [Scalar K] [Scalar.Exact K]
variable {o s : Session K} {asked : Compound K → Prop}
variable (nonzero : o.NonZero) (forgotten : o.Forgotten) (apart : ToldApart o.lexicon asked)
include nonzero forgotten apart

theorem parallel_conversion {src dest : UnitRef K} (asksSrc : Asks o asked src)
    (asksDest : Asks o asked dest) :
    Parallel (Echoes o asked) False o.ConversionsAgree (conversion src dest)
      (conversion src dest) := by
  have parses : Parallel (Echoes o asked) False (fun u v => u = v ∧ o.lexicon.deref src = .ok u)
      (parse src) (parse src) := by
    refine .bind .get fun s t ⟨echoes, echoes'⟩ => ?_
    rw [echoes.registries.lexicon, echoes'.registries.lexicon]
    exact .liftSame _
  refine .bind parses fun u _ ⟨same, meant⟩ => ?_
  subst same
  refine .bind (.liftSame _) fun d _ ⟨same, _⟩ => ?_
  subst same
  exact parallel_conversionIn nonzero forgotten apart (asksSrc.compound meant) asksDest

/-- Questions leave what is remembered right. -/
theorem keptByParts_echoes : KeptByParts o asked (Echoes o asked) where
  indexed := nonzero.lexicon.indexed
  registries _ echoes := echoes.registries
  conversion _ _ _ asksSrc asksDest :=
    (parallel_conversionIn nonzero forgotten apart asksSrc asksDest).keeps.weaken fun _ _ => trivial
  merging _ sound parts := by
    refine (parallel_mergeFactor nonzero forgotten apart fun t mem => ?_).keeps.weaken
      fun _ _ => trivial
    exact ⟨(sound.terms t mem).1, fun v c made single => parts c ⟨t, mem, v, made, single⟩⟩
  reduction _ bridging sound :=
    (parallel_toBase nonzero forgotten sound bridging).keeps.weaken fun _ _ => trivial
  edges s d echoes := echoes.withStore (echoes.registries.edgesOf d)
  network d := (parallel_network nonzero d).keeps.weaken fun _ _ => trivial
  route d src dest := (parallel_route nonzero d src dest).keeps.weaken fun _ _ => trivial

theorem Echoes.perform {questions : List (Query K)}
    (known : ∀ q ∈ questions, ∀ ref ∈ q.refs, o.lexicon.Refers ref)
    (compares : ∀ q ∈ questions, ∀ c, q.Compares o.lexicon c → asked c) (echoes : Echoes o asked s) :
    Echoes o asked (Session.perform (questions.map .ask) s) :=
  (keptByParts_echoes nonzero forgotten apart).perform known compares echoes

end

/-! ### Units that are told apart -/

section
variable [Scalar K]

/-- Units that are compared are ends of conversions or single terms of units that are known. -/
theorem Query.compares_cases {lex : Lexicon K} (indexed : lex.Indexed) {q : Query K}
    (known : ∀ ref ∈ q.refs, lex.Refers ref) {c : Compound K} (compares : q.Compares lex c) :
    (∃ ref ∈ q.refs, lex.deref ref = .ok c) ∨ ∃ u : Compound K, u.Sound lex.Names ∧ u.HasPart c := by
  have ends {src dest : UnitRef K} (refers : ∀ ref ∈ [src, dest], lex.Refers ref)
      (compares : ∃ ref ∈ [src, dest], ∃ u, lex.deref ref = .ok u ∧ (u = c ∨ u.HasPart c)) :
      (∃ ref ∈ [src, dest], lex.deref ref = .ok c) ∨ ∃ u : Compound K, u.Sound lex.Names ∧ u.HasPart c := by
    obtain ⟨ref, mem, u, meant, rfl | part⟩ := compares
    · exact .inl ⟨ref, mem, meant⟩
    · exact .inr ⟨u, indexed.sound_of_deref (refers ref mem) meant, part⟩
  cases q with
  | conversion _ _ | conversionIn _ _ _ | convert _ _ _ | convertIn _ _ _ _ =>
    exact ends known compares
  | merge _ ref =>
    obtain ⟨u, meant, part⟩ := compares
    exact .inr ⟨u, indexed.sound_of_deref (known ref (by simp [refs])) meant, part⟩
  | expand _ ref =>
    obtain ⟨u, x, v, meant, expanded, product, part⟩ := compares
    have sound := indexed.sound_of_deref (known ref (by simp [refs])) meant
    have terms := sound_of_expandTerms indexed sound.terms expanded
    exact .inr ⟨v, Compound.sound_of_ofTerms (fun t mem => (terms t mem).1) product, part⟩
  | toBase _ _ | edge _ _ _ | network _ | route _ _ _ => exact compares.elim

theorem sound_of_hasPart {lex : Lexicon K} {u c : Compound K} (sound : u.Sound lex.Names)
    (part : u.HasPart c) : c.Sound lex.Names := by
  obtain ⟨t, mem, v, made, single⟩ := part
  have own : v.Sound lex.Names := Term.sound_of_make (sound.terms t mem).1.base
    (show Term.make t.unit t.scaling 1 = .ok v from made)
  exact Compound.sound_of_ofTerms (fun w inside => List.mem_singleton.mp inside ▸ own) single

/-- The terms of a single term are in order. -/
theorem reordered_of_hasPart {u c : Compound K} (part : u.HasPart c) : c.reordered = c := by
  obtain ⟨t, _, v, made, single⟩ := part
  have meant : (blank : Session K).lexicon.deref (.term v) = .ok c := single
  rcases terms_of_deref made meant with rfl | ⟨rfl, _, exponent, _⟩
  · rfl
  · simp [Compound.reordered, Compound.above, Compound.below, exponent]

/-- They consist of units of the lexicon. -/
theorem Query.sound_of_compares {lex : Lexicon K} (indexed : lex.Indexed) {q : Query K}
    (known : ∀ ref ∈ q.refs, lex.Refers ref) {c : Compound K} (compares : q.Compares lex c) :
    c.Sound lex.Names := by
  rcases q.compares_cases indexed known compares with ⟨ref, mem, meant⟩ | ⟨u, sound, part⟩
  · exact indexed.sound_of_deref (known ref mem) meant
  · exact sound_of_hasPart sound part

/-- No two of the units that the questions compare share a symbol. -/
def TellsApart (lex : Lexicon K) (questions : List (Query K)) : Prop :=
  ∀ q ∈ questions, ∀ q' ∈ questions, ∀ u v, q.Compares lex u → q'.Compares lex v →
    u.write .ascii = v.write .ascii → u = v

/-- The units that some questions compare are told apart. -/
theorem toldApart_of_tellsApart {lex : Lexicon K} (indexed : lex.Indexed) {questions : List (Query K)}
    (known : ∀ q ∈ questions, ∀ ref ∈ q.refs, lex.Refers ref) (apart : TellsApart lex questions) :
    ToldApart lex fun c => ∃ q ∈ questions, q.Compares lex c where
  sound _ := fun ⟨q, mem, compares⟩ => q.sound_of_compares indexed (known q mem) compares
  distinct u v := fun ⟨q, mem, compares⟩ ⟨q', mem', compares'⟩ =>
    apart q mem q' mem' u v compares compares'

/-- Units of the tables share a symbol only if their terms are ordered differently. -/
theorem toldApart_of_reordered {lex : Lexicon K} (tabled : lex.Tabled) {asked : Compound K → Prop}
    (inOrder : ∀ c, asked c → c.Sound lex.Names ∧ c.reordered = c) : ToldApart lex asked where
  sound c is := (inOrder c is).1
  distinct u v is is' same := by
    obtain ⟨sound, own⟩ := inOrder u is
    obtain ⟨sound', own'⟩ := inOrder v is'
    have read := tabled.parse_write .ascii sound
    rw [same, tabled.parse_write .ascii sound', own, own'] at read
    exact (Except.ok.inj read).symm

theorem tellsApart_of_reordered {lex : Lexicon K} (tabled : lex.Tabled) {questions : List (Query K)}
    (known : ∀ q ∈ questions, ∀ ref ∈ q.refs, lex.Refers ref)
    (ordered : ∀ q ∈ questions, ∀ ref ∈ q.refs, ∀ u, lex.deref ref = .ok u → u.reordered = u) :
    TellsApart lex questions := by
  have apart : ToldApart lex fun c => ∃ q ∈ questions, q.Compares lex c := by
    refine toldApart_of_reordered tabled fun c ⟨q, mem, compares⟩ => ?_
    refine ⟨q.sound_of_compares tabled.indexed (known q mem) compares, ?_⟩
    rcases q.compares_cases tabled.indexed (known q mem) compares with
      ⟨ref, isRef, meant⟩ | ⟨u, _, part⟩
    · exact ordered q mem ref isRef c meant
    · exact reordered_of_hasPart part
  exact fun q mem q' mem' u v compares compares' =>
    apart.distinct u v ⟨q, mem, compares⟩ ⟨q', mem', compares'⟩

/-- Units that are written with their terms in order are told apart. -/
theorem tellsApart_of_texts {lex : Lexicon K} (tabled : lex.Tabled) {questions : List (Query K)}
    (texts : List String)
    (named : ∀ q ∈ questions, ∀ ref ∈ q.refs, ∃ text ∈ texts, ref = .symbol text)
    (ordered : ∀ text ∈ texts, ∀ u, lex.parse text = .ok u → u.reordered = u) :
    TellsApart lex questions := by
  refine tellsApart_of_reordered tabled (fun q mem ref isRef => ?_) fun q mem ref isRef u meant => ?_
  · obtain ⟨text, _, rfl⟩ := named q mem ref isRef
    trivial
  · obtain ⟨text, listed, rfl⟩ := named q mem ref isRef
    exact ordered text listed u meant

end

/-! ### Replies -/

/-- **Replies do not show what was asked before.** A session is made from any systems, and its units,
prefixes and conversions are changed in any way; then nothing is remembered, as after every change that
was made. From there on it is asked one list of questions or another, about units that it knows, and
the units that these and the last one compare do not share symbols. Then a conversion is the same after
either, and the same as if nothing had been asked: it fails with the same error, though an endless
expansion may be given up at another unit, or there is none, or there is one with the same ends. If
the conversions of no dimension contradict one another, it has the same factor. The relative error is
left open. -/
theorem reply_ignores_history [Field K] [LinearOrder K] [IsStrictOrderedRing K] [Scalar K]
    [Scalar.Exact K] {systems : List MeasurementSystem} {s o : Session K}
    (made : ofSystems systems = .ok s) {operations : List (Operation K)}
    (scales : ∀ operation ∈ operations, operation.Scales) (altered : operated operations s = o)
    (forgotten : o.Forgotten) {src dest : UnitRef K} {asked asked' : List (Query K)}
    (known : ∀ q ∈ .conversion src dest :: (asked ++ asked'), ∀ ref ∈ q.refs, o.lexicon.Refers ref)
    (apart : TellsApart o.lexicon (.conversion src dest :: asked))
    (apart' : TellsApart o.lexicon (.conversion src dest :: asked')) :
    Matches o.ConversionsAgree (reply asked src dest o) (reply asked' src dest o) ∧
      Matches o.ConversionsAgree (reply asked src dest o) (reply [] src dest o) := by
  have nonzero : o.NonZero := altered ▸ (nonZero_ofSystems made).operated scales
  have fresh (questions : List (Query K))
      (known : ∀ q ∈ .conversion src dest :: questions, ∀ ref ∈ q.refs, o.lexicon.Refers ref)
      (apart : TellsApart o.lexicon (.conversion src dest :: questions)) :
      Matches o.ConversionsAgree (reply questions src dest o) (reply [] src dest o) := by
    let compared (c : Compound K) : Prop :=
      ∃ q ∈ .conversion src dest :: questions, q.Compares o.lexicon c
    have told : ToldApart o.lexicon compared :=
      toldApart_of_tellsApart nonzero.lexicon.indexed known apart
    have start : Echoes o compared o := forgotten.echoes
    have echoes : Echoes o compared (perform (questions.map .ask) o) :=
      start.perform nonzero forgotten told (fun q mem => known q (List.mem_cons_of_mem _ mem))
        fun q mem c compares => ⟨q, List.mem_cons_of_mem _ mem, compares⟩
    have ⟨asksSrc, asksDest⟩ : Asks o compared src ∧ Asks o compared dest :=
      asks_ends fun c compares => ⟨_, List.mem_cons_self, compares⟩
    exact (parallel_conversion nonzero forgotten told asksSrc asksDest).outcome echoes start
  have first := fresh asked (fun q mem => known q (by grind)) apart
  have second := fresh asked' (fun q mem => known q (by grind)) apart'
  have back : Matches o.ConversionsAgree (reply [] src dest o) (reply asked' src dest o) :=
    second.symm fun _ _ => conversionsAgree_symm
  exact ⟨first.trans (S := o.ConversionsAgree) (fun _ _ _ => conversionsAgree_trans) back, first⟩

@[simp]
theorem forget_lexicon {K : Type} (s : Session K) : s.forget.lexicon = s.lexicon := rfl

theorem Balanced.forget [Field K] [Scalar K] {s : Session K} (balanced : s.Balanced) :
    s.forget.Balanced := balanced

/-- The operation that makes an event happen. -/
def Event.operation : Event K → Operation K
  | addConversion src dest factor => .step (.deed (.change (.addConversion src dest factor)))
  | removeConversion src dest => .step (.deed (.change (.removeConversion src dest)))
  | ask query => .step (.deed (.ask query))

theorem operated_events [Scalar K] (events : List (Event K)) (s : Session K) :
    operated (events.map Event.operation) s = after events s := by
  induction events generalizing s with
  | nil => rfl
  | cons e rest ih =>
    have step : e.operation.after s = e.after s := by
      cases e with
      | ask q => rfl
      | addConversion src dest factor =>
        rw [Event.operation, Operation.after, Step.after, Deed.after, Change.action, apply_discard]
        rfl
      | removeConversion src dest =>
        rw [Event.operation, Operation.after, Step.after, Deed.after, Change.action, apply_discard]
        rfl
    show operated (rest.map Event.operation) (e.operation.after s) = after rest (e.after s)
    rw [step, ih]

/-- The pixel was put right, and then everything is forgotten. -/
def composed : Session ℚ := (after typesetting typographer).forget

/-- How that comes about. -/
def composing : List (Operation ℚ) := typesetting.map Event.operation ++ [.forget]

/-- Picas and areas are asked about. -/
def measuring : List (Query ℚ) :=
  [.conversion (.symbol "P") (.symbol "px"), .convert 5 (.symbol "p2") (.symbol "P*px")]

theorem coherent_typeset : (after typesetting typographer).Coherent typographer.lexicon :=
  (coherent_ofSystems ofSystems_typographer).after (tabled_ofSystems ofSystems_typographer)
    refers_typesetting

/-- The units that are asked about are written in order. -/
theorem ordered_typeset : ∀ text ∈ ["P*px/p", "px", "P", "p2", "P*px", "p"], ∀ u,
    typographer.lexicon.parse text = .ok u → u.reordered = u := by
  have ordered : ∀ text ∈ ["P*px/p", "px", "P", "p2", "P*px", "p"],
      (typographer.lexicon.parse text).toOption.all fun u => u.reordered = u := by decide +kernel
  intro text listed u read
  have own := ordered text listed
  rw [read] at own
  simpa [Except.toOption] using own

theorem tellsApart_measuring :
    TellsApart composed.lexicon (.conversion (.symbol "P*px/p") (.symbol "px") :: measuring) := by
  rw [composed, forget_lexicon, coherent_typeset.lexicon]
  exact tellsApart_of_texts (tabled_ofSystems ofSystems_typographer) _
    (by simp [measuring, Query.refs]) ordered_typeset

/-- A pica of pixels to the point is as much as twelve pixels, whatever was asked before. -/
theorem pica_reply_unchanged :
    ofSystems [.typography] = .ok typographer ∧ (∀ operation ∈ composing, operation.Scales) ∧
      operated composing typographer = composed ∧ composed.Forgotten ∧ composed.Balanced ∧
      (∀ q ∈ .conversion (.symbol "P*px/p") (.symbol "px") :: (measuring ++ []), ∀ ref ∈ q.refs,
        composed.lexicon.Refers ref) ∧
      TellsApart composed.lexicon (.conversion (.symbol "P*px/p") (.symbol "px") :: measuring) ∧
      TellsApart composed.lexicon [.conversion (.symbol "P*px/p") (.symbol "px")] ∧
      ∃ c, reply measuring (.symbol "P*px/p") (.symbol "px") composed = .ok (some c) ∧
        c.factor.value = 12 := by
  have scales : ∀ operation ∈ composing, operation.Scales := by
    simp [composing, typesetting, Event.operation, Operation.Scales]
  have altered : operated composing typographer = composed := by
    rw [composing, operated, List.foldl_append]
    exact congrArg forget (operated_events typesetting typographer)
  have forgotten : composed.Forgotten := ⟨rfl, rfl⟩
  have balanced : composed.Balanced := by
    have fits := fits_points
    rw [coherent_typeset.lexicon] at fits
    exact (coherent_typeset.balanced (tabled_ofSystems ofSystems_typographer) fits).forget
  have known : ∀ q ∈ .conversion (.symbol "P*px/p") (.symbol "px") :: (measuring ++ []),
      ∀ ref ∈ q.refs, composed.lexicon.Refers ref := by
    simp [measuring, Query.refs, Lexicon.Refers]
  have apart := tellsApart_measuring
  have apart' : TellsApart composed.lexicon [.conversion (.symbol "P*px/p") (.symbol "px")] :=
    fun q mem q' mem' => apart q (by simp_all) q' (by simp_all)
  have fresh : reply [] (.symbol "P*px/p") (.symbol "px") composed =
      .ok (some ⟨"L", "P*px/p", "px", ⟨12, 0⟩⟩) := by decide +kernel
  have same := (reply_ignores_history ofSystems_typographer scales altered forgotten known apart
    apart').2
  rw [fresh] at same
  obtain ⟨c, given, agrees⟩ := same.some_of_right
  exact ⟨ofSystems_typographer, scales, altered, forgotten, balanced, known, apart, apart', c, given,
    agrees.factor.same balanced⟩

/-- Typography with other conversions. -/
def related (edges : List (String × String × Factor ℚ)) : Session ℚ :=
  operated (edges.map fun e => .step (.deed (.change (.addConversion e.1 e.2.1 e.2.2)))) typographer

/-- A pixel leads to a pica over the point and two areas, of which the last is `last` picas, or over
one area with a relative error. -/
def detours (last : ℚ) : Session ℚ :=
  related [("px", "p", ⟨3/4, 0⟩), ("p", "P2/p", ⟨1/144, 0⟩), ("P2/p", "p2/P", ⟨1728, 0⟩),
    ("p2/P", "P", ⟨last, 0⟩), ("px", "px2/p", ⟨4/3, 0⟩), ("px2/p", "P", ⟨3/64, 1/100⟩)]

/-- Areas of pixels and of picas are related. -/
def areas : Session ℚ := related [("px", "p", ⟨3/4, 0⟩), ("px2", "P2", ⟨1/256, 0⟩)]

/-- A unit of the given symbol that is not registered. -/
def foreign (symbol : String) (multiplier : ℚ) : UnitRef ℚ :=
  .unit ⟨"Foreign", symbol, symbol, none, .dimensionless, 0, [], some "", multiplier, none⟩

/-- The pixel was registered past the session, after it was asked about. -/
def outdated : Session ℚ :=
  operated [.step (.deed (.ask (.conversion (.symbol "px") (.symbol "p")))),
    .registerConversion "px" "p" ⟨3/4, 0⟩] typographer

/-- What a question leaves behind shows in a later reply: a learned edge makes for another relative
error, and for another factor if the conversions contradict one another; a conversion that was not
found between two units is not found between two others with the same symbols; the multipliers of
units that are not registered are taken for those of units that are; and what is done past the session
is not noticed until everything is forgotten. -/
theorem reply_shows_history :
    (reply [] (.symbol "px") (.symbol "P") (detours (1/144)) =
        .ok (some ⟨"L", "px", "P", ⟨1/16, 1/100⟩⟩) ∧
      reply [.conversion (.symbol "p") (.symbol "P")] (.symbol "px") (.symbol "P") (detours (1/144)) =
        .ok (some ⟨"L", "px", "P", ⟨1/16, 0⟩⟩)) ∧
    (reply [] (.symbol "px") (.symbol "P") (detours (1/100)) =
        .ok (some ⟨"L", "px", "P", ⟨1/16, 1/100⟩⟩) ∧
      reply [.conversion (.symbol "p") (.symbol "P")] (.symbol "px") (.symbol "P") (detours (1/100)) =
        .ok (some ⟨"L", "px", "P", ⟨9/100, 0⟩⟩)) ∧
    (reply [] (.symbol "px3/p") (.symbol "P2") areas =
        .ok (some ⟨"L2", "px3/p", "P2", ⟨3/1024, 0⟩⟩) ∧
      reply [.conversion (.symbol "p-1*px3") (.symbol "P2")] (.symbol "px3/p") (.symbol "P2") areas =
        .ok none) ∧
    (reply [] (.symbol "px") (.symbol "p") typographer = .ok none ∧
      reply [.toBase (foreign "px" 5) true, .toBase (foreign "p" 2) true] (.symbol "px") (.symbol "p")
        typographer = .ok (some ⟨"L", "px", "p", ⟨5/2, 0⟩⟩)) ∧
    reply [] (.symbol "px") (.symbol "p") outdated = .ok none ∧
      reply [] (.symbol "px") (.symbol "p") outdated.forget =
        .ok (some ⟨"L", "px", "p", ⟨3/4, 0⟩⟩) := by
  decide +kernel

end Metrology.Session
