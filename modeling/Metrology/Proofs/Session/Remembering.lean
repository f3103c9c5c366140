import Metrology.Proofs.Graph.StoredPaths
import Metrology.Proofs.Session.Fitting
import Metrology.Session

/-!
# What a session remembers

While the registered units and conversions stay as they are, all that a session remembers holds for
every assignment of sizes that fits them: the networks are balanced, so are the answers, and the
factors of units lead to SI base units. Looking up the routes of a dimension keeps that.
-/
namespace Metrology

variable {K : Type} [Field K] [Scalar K]
variable {lex : Lexicon K} {store : EdgeStore K}

/-- A network of units of one dimension whose edges hold for the sizes. -/
structure Network.Charts (lex : Lexicon K) (size : NamedUnit K → K) (d : Dimension)
    (net : Network K) : Prop where
  drawn : net.Drawn
  balanced : ∀ key c, net.edges.get? key = some c →
    lex.textSize size key.1 = c.factor.value * lex.textSize size key.2
  nodes : ∀ node ∈ net.nodes, lex.Measured d node

variable [LinearOrder K]

/-- Routes that searches may leave over a network whose edges hold. -/
def Routes.Hold (lex : Lexicon K) (store : EdgeStore K) (d : Dimension) (r : Routes K) : Prop :=
  ∀ size, lex.Fits store size → ∃ drawn : Network K, drawn.Charts lex size d ∧ r.GrownFrom drawn

/-- A conversion that is remembered for two texts goes from the first to the second and holds. -/
def Conversion.Answers (lex : Lexicon K) (store : EdgeStore K) (key : EdgeKey)
    (c : Conversion K) : Prop :=
  c.src = key.1 ∧ c.dest = key.2 ∧ ∀ size, lex.Fits store size →
    lex.textSize size key.1 = c.factor.value * lex.textSize size key.2

/-- A factor from a unit to the SI base units of its dimension. -/
def Factor.Reduces (lex : Lexicon K) (store : EdgeStore K) (u : NamedUnit K) (f : Factor K) :
    Prop :=
  ∀ size, lex.Fits store size → size u = f.value * lex.baseSize size u.dimension

namespace Session

/-- What a session remembers while its units are those of the lexicon and its registered edges those
of the store. -/
structure Remembers (lex : Lexicon K) (store : EdgeStore K) (s : Session K) : Prop where
  lexicon : s.lexicon = lex
  kept : EdgeStore.Kept lex s.store
  edges : EdgeStore.SameEdges lex store s.store
  routes : ∀ d r, (s.chart d).routes = some r → r.Hold lex store d
  answers : ∀ d key c, (s.chart d).answers.get? key = some (some c) → c.Answers lex store key
  baseFactors : ∀ u bridging f, lex.find? u.asciiSymbol = some u →
    s.baseFactors.get? (u.asciiSymbol, bridging) = some (some f) → f.Reduces lex store u

variable {s : Session K} {d : Dimension}

omit [Field K] [Scalar K] [LinearOrder K] in
theorem chart_putChart (s : Session K) (d e : Dimension) (c : Chart K) :
    (s.putChart d c).chart e = if d = e then c else s.chart e := by
  simp only [chart, putChart, Register.get?_put]
  split <;> rfl

theorem Remembers.putChart (remembers : s.Remembers lex store) {c : Chart K}
    (routes : ∀ r, c.routes = some r → r.Hold lex store d)
    (answers : ∀ key a, c.answers.get? key = some (some a) → a.Answers lex store key) :
    (s.putChart d c).Remembers lex store := by
  refine ⟨remembers.lexicon, remembers.kept, remembers.edges, fun e r known => ?_,
    fun e key a known => ?_, remembers.baseFactors⟩
  · rw [chart_putChart] at known
    split at known
    next same => exact same ▸ routes r known
    next => exact remembers.routes e r known
  · rw [chart_putChart] at known
    split at known
    next => exact answers key a known
    next => exact remembers.answers e key a known

theorem Remembers.putRoutes (remembers : s.Remembers lex store) {r : Routes K}
    (hold : r.Hold lex store d) :
    (s.putChart d { s.chart d with routes := some r }).Remembers lex store :=
  remembers.putChart (fun _ known => Option.some.inj known ▸ hold) (remembers.answers d)

/-- An action on the store that changes no registered edge. -/
theorem keeps_onStore {α : Type} {Q : α → Prop} {a : Lexicon K → Action (EdgeStore K) α}
    (keeps : (a lex).Keeps
      (fun t => EdgeStore.Kept lex t ∧ EdgeStore.SameEdges lex store t) Q) :
    (onStore a).Keeps (Remembers lex store) Q := by
  refine .bind .get fun s remembers => ?_
  rw [remembers.lexicon]
  exact .onPart (fun t holds => ⟨holds.kept, holds.edges⟩)
    (fun t part holds kept =>
      ⟨holds.lexicon, kept.1, kept.2, holds.routes, holds.answers, holds.baseFactors⟩) keeps

variable (tabled : lex.Tabled)
include tabled

omit [LinearOrder K] in
theorem keeps_edgesOf (d : Dimension) :
    (EdgeStore.edgesOf lex d).Keeps
      (fun t => EdgeStore.Kept lex t ∧ EdgeStore.SameEdges lex store t)
      fun es => EdgeStore.current lex store d = .ok es ∧
        ∀ row ∈ es.rows, EdgeStore.Joins lex d row := by
  rintro t ⟨kept, same⟩
  have joins := EdgeStore.keeps_edgesOf tabled d
  have registered := EdgeStore.keepsSame_edgesOf lex store d
  refine ⟨⟨joins.invariant kept, registered.invariant same⟩, fun es answers => ?_⟩
  exact ⟨(same d).symm.trans answers, joins.answer kept answers⟩

variable [IsStrictOrderedRing K] [Scalar.Exact K]

theorem charts_ofEdges {size : NamedUnit K → K} (fits : lex.Fits store size) {es : Edges K}
    (registered : EdgeStore.current lex store d = .ok es)
    (joins : ∀ row ∈ es.rows, EdgeStore.Joins lex d row) :
    (Network.ofEdges ((lex.ofDimension d).map (·.asciiSymbol)) es).Charts lex size d := by
  have edge : ∀ key c, es.get? key = some c →
      key = (c.src, c.dest) ∧ lex.textSize size c.src = c.factor.value * lex.textSize size c.dest ∧
        c.factor.value ≠ 0 := by
    intro key c found
    have mem : (key, c) ∈ es.rows := Register.mem_rows_of_get? found
    have ends := joins _ mem
    have holds := fits.edge tabled registered mem ends
    exact ⟨ends.1, holds⟩
  refine ⟨⟨fun key c found => ?_, fun key c found => (edge key c found).2.2⟩,
    fun key c found => ?_, fun node mem => ?_⟩
  · obtain ⟨rfl, _⟩ := edge key c found
    exact ⟨rfl, rfl⟩
  · obtain ⟨rfl, balance, _⟩ := edge key c found
    exact balance
  · simp only [Network.ofEdges, List.mem_eraseDups, List.mem_append, List.mem_map,
      List.mem_flatMap, Register.keys] at mem
    rcases mem with ⟨u, listed, rfl⟩ | ⟨key, ⟨row, isRow, rfl⟩, isEnd⟩
    · obtain ⟨found, rfl⟩ := tabled.find?_of_ofDimension listed
      exact tabled.measured_asciiSymbol found
    · obtain ⟨same, src, dest⟩ := joins row isRow
      rw [same] at isEnd
      simp only [List.mem_cons, List.not_mem_nil, or_false] at isEnd
      rcases isEnd with rfl | rfl
      · exact src
      · exact dest

theorem keeps_routes (d : Dimension) :
    (routes d).Keeps (Remembers lex store) (Routes.Hold lex store d) := by
  refine .bind .get fun s remembers => ?_
  split
  next known found => exact .pure (remembers.routes d known found)
  next =>
    refine .bind (keeps_onStore (keeps_edgesOf tabled d)) fun es known => ?_
    refine .bind .get fun t later => ?_
    have hold : (Routes.ofNetwork (Network.ofEdges
        ((t.lexicon.ofDimension d).map (·.asciiSymbol)) es)).Hold lex store d := by
      intro size fits
      rw [later.lexicon]
      have charts := charts_ofEdges tabled fits known.1 known.2
      exact ⟨_, charts, .ofNetwork charts.drawn⟩
    exact .bind (.set (later.putRoutes hold)) fun _ _ => .pure hold

/-- The nodes of a dimension are units of that dimension. -/
theorem keeps_network (d : Dimension) :
    (network d).Keeps (Remembers lex store) fun net =>
      ∀ size, lex.Fits store size → ∀ node ∈ net.nodes, lex.Measured d node := by
  refine .bind (keeps_routes tabled d) fun r hold => .pure fun size fits node mem => ?_
  obtain ⟨drawn, charts, grown⟩ := hold size fits
  rw [grown.network.nodes] at mem
  exact charts.nodes node mem

omit [IsStrictOrderedRing K] tabled in
/-- A search keeps its routes right, and a conversion that it finds holds. -/
theorem keeps_search (d : Dimension) (src dest : String) :
    (Routes.route d.code src dest).Keeps (Routes.Hold lex store d) fun found =>
      ∀ c, found = some c → ∀ size, lex.Fits store size →
        lex.textSize size src = c.factor.value * lex.textSize size dest := by
  intro r hold
  refine ⟨fun size fits => ?_, fun found answers c isFound size fits => ?_⟩
  · obtain ⟨drawn, charts, grown⟩ := hold size fits
    obtain ⟨_, _, run, grown', _⟩ := Routes.route_spec d.code charts.drawn grown src dest
    rw [run]
    exact ⟨drawn, charts, grown'⟩
  · obtain ⟨drawn, charts, grown⟩ := hold size fits
    obtain ⟨_, _, run, _, _, path, _⟩ := Routes.route_spec d.code charts.drawn grown src dest
    rw [run] at answers
    obtain rfl := Except.ok.inj answers
    obtain ⟨_, _, w, factor⟩ := path c isFound
    rw [factor]
    exact w.value_eq charts.balanced charts.drawn.nonzero

/-- A conversion that is found between two nodes holds. -/
theorem keeps_route (d : Dimension) (src dest : String) :
    (route d src dest).Keeps (Remembers lex store) fun found =>
      ∀ c, found = some c → ∀ size, lex.Fits store size →
        lex.textSize size src = c.factor.value * lex.textSize size dest :=
  .bind (keeps_routes tabled d) fun _ hold =>
    .onPart (fun _ _ => hold) (fun _ _ remembers hold => remembers.putRoutes hold)
      (keeps_search d src dest)

end Session

end Metrology
