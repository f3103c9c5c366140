import Metrology.Proofs.Graph.Dimensioned
import Metrology.Proofs.Session.Refusal

/-!
# Dimensions of edges in a run

Edges enter a session from the tables, the expansions of units and the caller, and the caller's come
back after units were taken out and registered again. In a run in which no symbol changes its meaning
each of these routes leads to edges between registered units of their dimension.
-/
namespace Metrology

variable {K : Type} [Scalar K]

namespace Session

/-- The lexicons of the states that a run passes through, the first and the last included. -/
def visited : List (Step K) → Session K → List (Lexicon K)
  | [], s => [s.lexicon]
  | step :: rest, s => s.lexicon :: visited rest (step.after s)

variable {s : Session K} {lexicons : List (Lexicon K)}

theorem last_mem_visited (steps : List (Step K)) (s : Session K) :
    (stepped steps s).lexicon ∈ visited steps s := by
  induction steps generalizing s with
  | nil => exact List.mem_cons_self
  | cons step rest ih => exact List.mem_cons_of_mem _ (ih (step.after s))

/-- What the session keeps about its edges. -/
structure Tended (lexicons : List (Lexicon K)) (s : Session K) : Prop where
  consistent : s.lexicon.Consistent
  store : EdgeStore.Tended lexicons s.lexicon s.store

/-- Every change keeps that, whether it is made or refused. -/
theorem Tended.change (tended : Tended lexicons s) (plain : EdgeStore.Plain lexicons)
    (visited : s.lexicon ∈ lexicons) (c : Change K) : Tended lexicons (c.action.apply s).2 := by
  refine ⟨consistent_change tended.consistent c, ?_⟩
  have indexed := tended.consistent.indexed
  obtain ⟨consistent, store⟩ := tended
  have run := c.comesTo s
  generalize c.action.apply s = outcome at run ⊢
  cases run with
  | unitRefused => exact store
  | unitAdded | unitRemoved | systemLoaded => exact store.reload
  | systemHalted loading =>
    -- the edges stay as they are, over more units
    obtain ⟨new, ⟨_, _, _, _, extended, _⟩, _⟩ := halted_of_loading consistent loading
    exact store.mono extended.found
  | edgeRefused src dest factor edit | edgeAdded src dest factor edit =>
    have kept := store.add plain visited indexed src dest factor
    rw [edit] at kept
    exact kept
  | removalRefused src dest edit | edgeRemoved src dest edit =>
    have kept := store.remove plain visited indexed src dest
    rw [edit] at kept
    exact kept

theorem Tended.step (tended : Tended lexicons s) (plain : EdgeStore.Plain lexicons)
    (visited : s.lexicon ∈ lexicons) (step : Step K) : Tended lexicons (step.after s) := by
  match step with
  | .reload => exact ⟨tended.consistent, tended.store.reload⟩
  | .deed (.ask q) =>
    obtain ⟨consistent, store⟩ := tended
    obtain ⟨lexicon, kept⟩ := registries_ask (P := EdgeStore.Tended lexicons s.lexicon)
      (fun d _ held => held.edgesOf plain visited consistent.indexed d) store q
    exact ⟨lexicon ▸ consistent, lexicon ▸ kept⟩
  | .deed (.change c) => exact tended.change plain visited c

theorem Tended.stepped (tended : Tended lexicons s) (plain : EdgeStore.Plain lexicons)
    {steps : List (Step K)} (within : ∀ lex ∈ visited steps s, lex ∈ lexicons) :
    Tended lexicons (Session.stepped steps s) := by
  induction steps generalizing s with
  | nil => exact tended
  | cons step rest ih =>
    have here := within s.lexicon List.mem_cons_self
    exact ih (tended.step plain here step) fun lex mem => within lex (List.mem_cons_of_mem _ mem)

theorem tended_ofSystems {systems : List MeasurementSystem} (made : ofSystems systems = .ok s) :
    Tended lexicons s where
  consistent := (consistent_ofSystems made).1
  store := by
    rw [(blank_of_ofSystems made).1]
    exact EdgeStore.tended_empty

/-- **Edges join units of their dimension.** Take a run in which, over all states it passes through,
symbols of units can be read, tables and expansions are of the dimension they are given for, and no
symbol changes its meaning. Then each registered edge of a dimension is kept under its ends, and both
are read as units of that dimension without prefixes. Whatever units an end named in any state, when
the edge was made for one, are registered. -/
theorem edges_of_dimension {systems : List MeasurementSystem} (made : ofSystems systems = .ok s)
    {steps : List (Step K)} (plain : EdgeStore.Plain (visited steps s)) {d : Dimension}
    {es : Edges K} (isRegistered : registered (stepped steps s) d = .ok es) :
    ∀ row ∈ es.rows, row.1 = (row.2.src, row.2.dest) ∧ ∀ text ∈ [row.2.src, row.2.dest],
      (stepped steps s).lexicon.Reads d text ∧
        ∀ lex ∈ visited steps s, ∀ u, lex.parse text = .ok u → ∀ t ∈ u.terms,
          (stepped steps s).lexicon.find? t.unit.asciiSymbol = some t.unit := by
  intro row mem
  have last := last_mem_visited steps s
  have tended := (tended_ofSystems made).stepped plain fun _ isVisited => isVisited
  have relates := tended.store.current plain last tended.consistent.indexed isRegistered row mem
  refine ⟨relates.key, fun text named => ?_⟩
  have writes : (stepped steps s).lexicon.Writes d text := by
    rcases List.mem_pair.mp named with rfl | rfl
    · exact relates.src
    · exact relates.dest
  have reads := writes.reads (plain.legible _ last)
  refine ⟨reads, fun lex isVisited u read t inside => ?_⟩
  obtain ⟨v, read', _, _, _, found⟩ := reads
  obtain rfl := (plain.concords lex isVisited _ last).parse_eq read read'
  exact found t inside

/-! ### Runs with tabled units -/

/-- The unit that is registered, if one is, is a tabled one. -/
def Step.AddsTabled : Step K → Prop
  | .deed (.change (.addUnit u)) => ∃ row, Catalogue.Declared u row
  | _ => True

/-- A lexicon of tabled units. -/
structure Charted (lex : Lexicon K) : Prop where
  consistent : lex.Consistent
  tabled : lex.Tabled

theorem Charted.remove {lex : Lexicon K} (charted : Charted lex) (symbol : String) :
    Charted (lex.remove symbol).2 := by
  have consistent := charted.consistent.remove symbol
  refine ⟨consistent, ?_, fun s u found => ⟨consistent.own s u found, ?_⟩, consistent.complete,
    fun row mem => ?_⟩
  · rw [Lexicon.prefixes_remove, charted.tabled.prefixes]
  · cases gone : lex.find? symbol with
    | none =>
      rw [Lexicon.remove, gone] at found
      exact (charted.tabled.declared s u found).2
    | some v =>
      rw [Lexicon.find?_remove gone] at found
      split at found
      next => cases found
      next => exact (charted.tabled.declared s u found).2
  · have listed := (Register.mem_rows_iff consistent.nodup).mp mem
    obtain ⟨found, ascii⟩ := (consistent.listed _ _).mp listed
    rwa [ascii]

theorem Charted.change {c : Change K} (charted : Charted s.lexicon)
    (adds : (Step.deed (.change c)).AddsTabled) : Charted (c.action.apply s).2.lexicon := by
  refine ⟨consistent_change charted.consistent c, ?_⟩
  have run := c.comesTo s
  generalize c.action.apply s = outcome at run ⊢
  cases run with
  | unitRefused | edgeRefused | edgeAdded | removalRefused | edgeRemoved => exact charted.tabled
  | unitAdded added =>
    obtain ⟨row, declared⟩ := adds
    exact charted.tabled.add declared added
  | unitRemoved symbol => exact (charted.remove symbol).tabled
  | systemHalted loading | systemLoaded loading =>
    exact (Lexicon.keeps_loadSystem _).left loading charted.tabled

theorem Charted.step {step : Step K} (charted : Charted s.lexicon) (adds : step.AddsTabled) :
    Charted (step.after s).lexicon := by
  match step with
  | .reload => exact charted
  | .deed (.ask q) =>
    show Charted (q.after s).lexicon
    rw [lexicon_ask]
    exact charted
  | .deed (.change c) => exact charted.change adds

theorem charted_visited {steps : List (Step K)} (charted : Charted s.lexicon)
    (adds : ∀ step ∈ steps, step.AddsTabled) : ∀ lex ∈ visited steps s, lex.Tabled := by
  induction steps generalizing s with
  | nil =>
    intro lex mem
    obtain rfl := List.mem_singleton.mp mem
    exact charted.tabled
  | cons step rest ih =>
    intro lex mem
    rcases List.mem_cons.mp mem with rfl | later
    · exact charted.tabled
    · exact ih (charted.step (adds step List.mem_cons_self))
        (fun other inside => adds other (List.mem_cons_of_mem _ inside)) lex later

/-- No symbol has two meanings in the tables. -/
theorem concords_of_tabled {lex lex' : Lexicon K} (tabled : lex.Tabled) (tabled' : lex'.Tabled) :
    lex.Concords lex' := by
  rintro symbol ⟨u, scaling⟩ ⟨u', scaling'⟩ resolved resolved'
  obtain ⟨row, p, declared, rfl, spells⟩ := tabled.spells_of_resolve resolved
  obtain ⟨row', p', declared', rfl, spells'⟩ := tabled'.spells_of_resolve resolved'
  obtain ⟨rfl, rfl⟩ := Catalogue.spells_unique declared.1 declared'.1 spells spells'
  rw [declared.eq declared']

/-- Tabled units are as a run needs them. -/
theorem plain_of_tabled [Field K] [LinearOrder K] [IsStrictOrderedRing K]
    (tabled : ∀ lex ∈ lexicons, lex.Tabled) : EdgeStore.Plain lexicons where
  legible lex mem s u found visible := by
    have own := tabled lex mem
    exact own.isSymbol (own.indexed s u found) visible (u.mem_symbols (.inl rfl))
  truthful lex mem d row isRow u v read read' := by
    obtain ⟨tells, tells'⟩ := EdgeStore.tells_of_rows (tabled lex mem) isRow
    exact ⟨(tells u read).total_eq, (tells' v read').total_eq⟩
  concords lex mem lex' mem' := concords_of_tabled (tabled lex mem) (tabled lex' mem')

/-- The tabled pixel. -/
def pixel : NamedUnit ℚ :=
  ⟨"pixel", "px", "px", none, .ofAxis .length, 0, [.typography], none, 1, some "length"⟩

/-- The pixel is related to the point, taken out and registered again. -/
def mending : List (Step ℚ) :=
  [.deed (.change (.addConversion "px" "p" ⟨3/4, 0⟩)), .deed (.change (.removeUnit "px")),
    .deed (.ask (.network (.ofAxis .length))), .deed (.change (.addUnit pixel)),
    .deed (.change (.addConversion "P" "px" ⟨16, 0⟩)), .reload]

/-- The edge of the pixel comes back with it. -/
theorem pixel_edge_mended :
    EdgeStore.Plain (visited mending typographer) ∧
    ∃ es, registered (stepped mending typographer) (.ofAxis .length) = .ok es ∧
      es.get? ("px", "p") = some ⟨"L", "px", "p", ⟨3/4, 0⟩⟩ ∧
      (stepped mending typographer).lexicon.Reads (.ofAxis .length) "px" ∧
      (stepped mending typographer).lexicon.Reads (.ofAxis .length) "p" := by
  have facts : typographer.lexicon.find? "px" = some pixel ∧
      (registered (stepped mending typographer) (.ofAxis .length)).toOption.map
        (·.get? ("px", "p")) = some (some ⟨"L", "px", "p", ⟨3/4, 0⟩⟩) := by decide +kernel
  obtain ⟨found, kept⟩ := facts
  have tabled := tabled_ofSystems ofSystems_typographer
  have adds : ∀ step ∈ mending, step.AddsTabled := by
    have declared := (tabled.declared "px" pixel found).2
    simpa [mending, Step.AddsTabled] using declared
  have plain : EdgeStore.Plain (visited mending typographer) :=
    plain_of_tabled (charted_visited ⟨(consistent_ofSystems ofSystems_typographer).1, tabled⟩ adds)
  obtain ⟨es, isRegistered, edge⟩ := exists_ok_of_map_eq_some kept
  have joined := edges_of_dimension ofSystems_typographer plain isRegistered _
    (Register.mem_rows_of_get? edge)
  exact ⟨plain, es, isRegistered, edge, (joined.2 "px" (by simp)).1, (joined.2 "p" (by simp)).1⟩

/-- A time under the symbol of the pixel. -/
def tick : NamedUnit ℚ := ⟨"Tick", "px", "px", none, .ofAxis .time, 0, [], none, 1, none⟩

/-- The pixel is related to the point, taken out and its symbol given to a time. -/
def mistaking : List (Step ℚ) :=
  [.deed (.change (.addConversion "px" "p" ⟨3/4, 0⟩)), .deed (.change (.removeUnit "px")),
    .deed (.change (.addUnit tick))]

/-- The edge that was made for the pixel is put back for the time of that symbol, among the
lengths. -/
theorem edge_joins_time_to_length :
    (registered (stepped mistaking typographer) (.ofAxis .length)).toOption.map
        (·.get? ("px", "p")) = some (some ⟨"L", "px", "p", ⟨3/4, 0⟩⟩) ∧
      ((stepped mistaking typographer).lexicon.parse "px" >>= Compound.dimension) =
        .ok (.ofAxis .time) ∧
      (stepped mistaking typographer).lexicon.find? "px" ≠ typographer.lexicon.find? "px" := by
  decide +kernel

end Session

end Metrology
