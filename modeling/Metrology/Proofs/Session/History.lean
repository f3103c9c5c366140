import Metrology.Proofs.Session.Expansion
import Metrology.Session.Change

/-!
# Histories of a session

A session is asked, and its conversions are changed. Questions leave the registered edges as they
are, and what they have the session remember holds; a change has everything forgotten, and one that
is refused changes no registered edge. So whatever happens to a session, what it remembers holds for
all sizes that fit its conversions at that time.
-/
namespace Metrology

variable {K : Type} [Field K] [LinearOrder K] [Scalar K]
variable {lex : Lexicon K} {store store' : EdgeStore K} {s : Session K}

/-- Sizes fit a store by its registered edges alone. -/
theorem Lexicon.Fits.of_sameEdges {size : NamedUnit K → K} (fits : lex.Fits store' size)
    (same : EdgeStore.SameEdges lex store store') : lex.Fits store size :=
  ⟨fits.toAssigns, fun d es registered => fits.edges d es ((same d).trans registered),
    fits.expansions⟩

namespace Session

/-- A question to a session. -/
inductive Query (K : Type) where
  | conversion (src dest : UnitRef K)
  | conversionIn (d : Dimension) (src dest : UnitRef K)
  | convert (value : K) (src dest : UnitRef K)
  | convertIn (d : Dimension) (value : K) (src dest : UnitRef K)
  | merge (value : K) (ref : UnitRef K)
  | expand (value : K) (ref : UnitRef K)
  | toBase (ref : UnitRef K) (bridging : Bool)
  | edge (d : Dimension) (src dest : String)
  | network (d : Dimension)
  | route (d : Dimension) (src dest : String)

/-- The units that a question is about. -/
def Query.refs : Query K → List (UnitRef K)
  | conversion src dest | conversionIn _ src dest | convert _ src dest | convertIn _ _ src dest =>
    [src, dest]
  | merge _ ref | expand _ ref | toBase ref _ => [ref]
  | edge _ _ _ | network _ | route _ _ _ => []

/-- The session once the question was answered, or failed to be. -/
def Query.after (s : Session K) : Query K → Session K
  | conversion src dest => ((Session.conversion src dest).apply s).2
  | conversionIn d src dest => ((Session.conversionIn d src dest).apply s).2
  | convert value src dest => ((Session.convert value src dest).apply s).2
  | convertIn d value src dest => ((Session.convertIn d value src dest).apply s).2
  | merge value ref => ((Session.merge value ref).apply s).2
  | expand value ref => ((Session.expand value ref).apply s).2
  | toBase ref bridging => ((do Session.toBase (← parse ref) bridging).apply s).2
  | edge d src dest => ((onStore fun lex => EdgeStore.find? lex d src dest).apply s).2
  | network d => ((Session.network d).apply s).2
  | route d src dest => ((Session.route d src dest).apply s).2

/-- What happens to a session: its conversions are changed, or it is asked something. -/
inductive Event (K : Type) where
  | addConversion (src dest : String) (factor : Factor K)
  | removeConversion (src dest : String)
  | ask (query : Query K)

def Event.refs : Event K → List (UnitRef K)
  | addConversion _ _ _ | removeConversion _ _ => []
  | ask query => query.refs

/-- The session after an event. A change that is refused leaves what was looked up for it. -/
def Event.after (s : Session K) : Event K → Session K
  | addConversion src dest factor => ((Session.addConversion src dest factor).apply s).2
  | removeConversion src dest => ((Session.removeConversion src dest).apply s).2
  | ask query => query.after s

/-- The session after one event after the other. -/
def after (events : List (Event K)) (s : Session K) : Session K := events.foldl Event.after s

/-- What a session remembers holds for its own units and conversions. -/
def Coherent (lex : Lexicon K) (s : Session K) : Prop := s.Remembers lex s.store

theorem Remembers.coherent (remembers : s.Remembers lex store) : s.Coherent lex where
  lexicon := remembers.lexicon
  kept := remembers.kept
  edges _ := rfl
  routes d r known size fits := remembers.routes d r known size (fits.of_sameEdges remembers.edges)
  answers d key c known :=
    have answers := remembers.answers d key c known
    ⟨answers.1, answers.2.1, fun size fits => answers.2.2 size (fits.of_sameEdges remembers.edges)⟩
  baseFactors u bridging f found known size fits :=
    remembers.baseFactors u bridging f found known size (fits.of_sameEdges remembers.edges)

/-- A session that remembers nothing. -/
theorem coherent_of_forgotten (kept : EdgeStore.Kept lex store) {types : QuantityTypes} :
    (⟨lex, types, store, .empty, .empty⟩ : Session K).Coherent lex where
  lexicon := rfl
  kept := kept
  edges _ := rfl
  routes d r known := by simp [chart, Chart.blank] at known
  answers d key c known := by simp [chart, Chart.blank] at known
  baseFactors u bridging f _ known := by simp at known

omit [Field K] [LinearOrder K] in
/-- Loading systems touches nothing but the lexicon. -/
theorem untouched_ofSystems {systems : List MeasurementSystem} (made : ofSystems systems = .ok s) :
    s.store = .empty ∧ s.charts = .empty ∧ s.baseFactors = .empty := by
  have loads (system : MeasurementSystem) : (Lexicon.loadSystem system).Keeps
      (fun _ : Lexicon K => True) fun _ => True := fun _ _ => ⟨trivial, fun _ _ => trivial⟩
  exact kept_ofSystems (I := fun s => s.store = .empty ∧ s.charts = .empty ∧ s.baseFactors = .empty)
    ⟨rfl, rfl, rfl⟩
    (fun system => .onPart (fun _ _ => trivial) (fun _ _ same _ => same) (loads system)) made

/-- A session that was just made remembers nothing. -/
theorem coherent_ofSystems {systems : List MeasurementSystem} (made : ofSystems systems = .ok s) :
    s.Coherent s.lexicon := by
  obtain ⟨lexicon, types, store, charts, baseFactors⟩ := s
  obtain ⟨rfl, rfl, rfl⟩ := untouched_ofSystems made
  exact coherent_of_forgotten EdgeStore.kept_empty

omit [Field K] [LinearOrder K] [Scalar K] in
theorem apply_onStore {α : Type} (a : Lexicon K → Action (EdgeStore K) α) (s : Session K) :
    (onStore a).apply s =
      (((a s.lexicon).apply s.store).1, { s with store := ((a s.lexicon).apply s.store).2 }) := rfl

/-- A change of the store that fails only without any effect on the registered edges. -/
theorem Coherent.change {α : Type} {a : Lexicon K → Action (EdgeStore K) α}
    (keeps : (a lex).Keeps (EdgeStore.Kept lex) fun _ => True)
    (fails : (a lex).FailsIn (EdgeStore.SameEdges lex s.store)) (coherent : s.Coherent lex) :
    ((do
      let x ← onStore a
      modify forget
      return x : Action (Session K) α).apply s).2.Coherent lex := by
  obtain ⟨lexicon, types, store, charts, baseFactors⟩ := s
  obtain rfl : lexicon = lex := coherent.lexicon
  have kept := keeps.invariant coherent.kept
  rw [Action.apply_bind, apply_onStore]
  cases outcome : ((a lexicon).apply store).1 with
  | ok x => exact coherent_of_forgotten kept
  | error e =>
    have same := fails store e (fun _ => rfl) outcome
    exact Remembers.coherent ⟨rfl, kept, same, coherent.routes, coherent.answers,
      coherent.baseFactors⟩

variable [IsStrictOrderedRing K] [Scalar.Exact K]

section Asking

variable (tabled : lex.Tabled)
include tabled

theorem keeps_conversionIn {d : Dimension} {src dest : UnitRef K} (refersSrc : lex.Refers src)
    (refersDest : lex.Refers dest) :
    (conversionIn d src dest).Keeps (Remembers lex store)
      fun found => ∀ c, found = some c → c.Converts lex store src dest :=
  keeps_answer tabled (keepsSizes_mergeFactor tabled) refersSrc refersDest

omit [IsStrictOrderedRing K] [Scalar.Exact K] in
/-- What is meant by a unit that the lexicon knows. -/
theorem keeps_parse {ref : UnitRef K} (refers : lex.Refers ref) :
    (parse ref).Keeps (Remembers lex store)
      fun u => lex.deref ref = .ok u ∧ lex.Refers (.compound u) := by
  refine .bind .get fun s remembers => ?_
  rw [remembers.lexicon]
  exact .lift fun u meant => ⟨meant, tabled.sound_of_deref refers meant⟩

theorem keeps_conversion {src dest : UnitRef K} (refersSrc : lex.Refers src)
    (refersDest : lex.Refers dest) :
    (conversion src dest).Keeps (Remembers lex store)
      fun found => ∀ c, found = some c → c.Converts lex store src dest := by
  refine .bind (keeps_parse tabled refersSrc) fun u ⟨meant, refers⟩ => ?_
  refine .bind (.lift fun d given => given) fun d _ => ?_
  refine (keeps_conversionIn tabled refers refersDest).weaken fun found converts c same => ?_
  obtain ⟨v, w, own, rest⟩ := converts c same
  obtain rfl := Except.ok.inj own
  exact ⟨u, w, meant, rest⟩

theorem keeps_convertIn {d : Dimension} (value : K) {src dest : UnitRef K}
    (refersSrc : lex.Refers src) (refersDest : lex.Refers dest) :
    (convertIn d value src dest).Keeps (Remembers lex store) fun _ => True := by
  refine .bind (keeps_conversionIn tabled refersSrc refersDest) fun found _ => ?_
  split
  next => exact .pure trivial
  next =>
    refine .bind (keeps_validate tabled refersSrc) fun _ _ => ?_
    exact .bind (keeps_validate tabled refersDest) fun _ _ => .throw _

theorem keeps_convert (value : K) {src dest : UnitRef K} (refersSrc : lex.Refers src)
    (refersDest : lex.Refers dest) :
    (convert value src dest).Keeps (Remembers lex store) fun _ => True := by
  refine .bind (keeps_parse tabled refersSrc) fun u ⟨_, refers⟩ => ?_
  exact .bind (.lift fun d given => given) fun _ _ => keeps_convertIn tabled value refers refersDest

/-- A merged value is the same quantity. -/
theorem keeps_merge (value : K) {ref : UnitRef K} (refers : lex.Refers ref) :
    (merge value ref).Keeps (Remembers lex store)
      fun r => ∃ u, lex.deref ref = .ok u ∧ SameQuantity lex store value u r := by
  refine .bind (keeps_parse tabled refers) fun u ⟨meant, sound⟩ => ?_
  exact .bind (keepsSizes_mergeFactor tabled u sound) fun _ merged =>
    .pure ⟨u, meant, merged.sameQuantity value⟩

/-- So is an expanded one. -/
theorem keeps_expand (value : K) {ref : UnitRef K} (refers : lex.Refers ref) :
    (expand value ref).Keeps (Remembers lex store)
      fun r => ∃ u, lex.deref ref = .ok u ∧ SameQuantity lex store value u r := by
  refine .bind (keeps_parse tabled refers) fun u ⟨meant, sound⟩ => ?_
  refine .bind .get fun t remembers => ?_
  rw [remembers.lexicon]
  refine .bind (.lift fun x expanded => expanded) fun ⟨scaled, ts⟩ expanded => ?_
  refine .bind (.lift fun c product => product) fun c product => ?_
  have terms := sound_of_expandTerms tabled.indexed sound.terms expanded
  have known : lex.Refers (.compound c) :=
    Compound.sound_of_ofTerms (fun t mem => (terms t mem).1) product
  refine (keeps_merge tabled scaled known).weaken fun r ⟨d, own, same⟩ => ?_
  obtain rfl := Except.ok.inj own
  exact ⟨u, meant, (sameQuantity_of_expandTerms tabled sound expanded product).trans same⟩

/-- Questions leave what is remembered right. -/
theorem Remembers.ask (remembers : s.Remembers lex store) {q : Query K}
    (known : ∀ ref ∈ q.refs, lex.Refers ref) : (q.after s).Remembers lex store := by
  cases q with
  | conversion src dest =>
    exact (keeps_conversion tabled (known src (by simp [Query.refs]))
      (known dest (by simp [Query.refs]))).invariant remembers
  | conversionIn d src dest =>
    exact (keeps_conversionIn tabled (known src (by simp [Query.refs]))
      (known dest (by simp [Query.refs]))).invariant remembers
  | convert value src dest =>
    exact (keeps_convert tabled value (known src (by simp [Query.refs]))
      (known dest (by simp [Query.refs]))).invariant remembers
  | convertIn d value src dest =>
    exact (keeps_convertIn tabled value (known src (by simp [Query.refs]))
      (known dest (by simp [Query.refs]))).invariant remembers
  | merge value ref =>
    exact (keeps_merge tabled value (known ref (by simp [Query.refs]))).invariant remembers
  | expand value ref =>
    exact (keeps_expand tabled value (known ref (by simp [Query.refs]))).invariant remembers
  | toBase ref bridging =>
    have keeps : (do Session.toBase (← parse ref) bridging).Keeps (Remembers lex store)
        fun _ => True :=
      .bind (keeps_parse tabled (known ref (by simp [Query.refs]))) fun u ⟨_, sound⟩ =>
        (keeps_toBase tabled sound bridging).weaken fun _ _ => trivial
    exact keeps.invariant remembers
  | edge d src dest =>
    exact (keeps_onStore (.bind (keeps_edgesOf tabled d) fun _ _ =>
      .pure (Q := fun _ => True) trivial)).invariant remembers
  | network d => exact (keeps_network tabled d).invariant remembers
  | route d src dest => exact (keeps_route tabled d src dest).invariant remembers

theorem Coherent.ask (coherent : s.Coherent lex) {q : Query K}
    (known : ∀ ref ∈ q.refs, lex.Refers ref) : (q.after s).Coherent lex :=
  (Remembers.ask tabled coherent known).coherent

/-- So do changes of the conversions, which have everything forgotten unless they are refused. -/
theorem Coherent.event (coherent : s.Coherent lex) {e : Event K}
    (known : ∀ ref ∈ e.refs, lex.Refers ref) : (e.after s).Coherent lex := by
  cases e with
  | addConversion src dest factor =>
    exact coherent.change (EdgeStore.keeps_add tabled src dest factor)
      (EdgeStore.failsIn_add s.store src dest factor)
  | removeConversion src dest =>
    exact coherent.change (EdgeStore.keeps_remove tabled src dest)
      (EdgeStore.failsIn_remove s.store src dest)
  | ask q => exact coherent.ask tabled known

theorem Coherent.after (coherent : s.Coherent lex) {events : List (Event K)}
    (known : ∀ e ∈ events, ∀ ref ∈ e.refs, lex.Refers ref) :
    (Session.after events s).Coherent lex := by
  induction events generalizing s with
  | nil => exact coherent
  | cons e rest ih =>
    exact ih (coherent.event tabled (known e List.mem_cons_self))
      fun e' mem => known e' (List.mem_cons_of_mem _ mem)

end Asking

end Session

end Metrology
