import Metrology.Proofs.Graph.Search

/-!
# Stored paths

What a network with remembered answers holds after any searches: every edge and every remembered
conversion goes from the first to the second unit it is kept under, and its factor is that of one
walk along registered edges. Registered edges are not overwritten. The edges need not agree with one
another.
-/
namespace Metrology.Routes

variable {K : Type}

/-- Searches made one after the other, whether they find anything or not. -/
def searches [Scalar K] (dimension : String) (calls : List EdgeKey) (r : Routes K) : Routes K :=
  calls.foldl (fun r call => ((route dimension call.1 call.2).apply r).2) r

/-- Routes that searches over `drawn` may leave. -/
structure GrownFrom [Field K] (drawn : Network K) (r : Routes K) : Prop where
  network : drawn.GrownFrom r.network
  known : ∀ key c, r.known.get? key = some (some c) → drawn.IsPath key.1 key.2 c

variable [Field K] [LinearOrder K] [Scalar K] [Scalar.Exact K]
variable {drawn : Network K} {r : Routes K} (dimension : String)

omit [LinearOrder K] [Scalar K] [Scalar.Exact K] in
theorem GrownFrom.ofNetwork (keyed : drawn.Drawn) : GrownFrom drawn (ofNetwork drawn) :=
  ⟨.refl keyed, fun key c known => by simp [Routes.ofNetwork] at known⟩

/-- A search answers, from memory or by a search of the network, which it remembers. -/
theorem route_spec (keyed : drawn.Drawn) (grown : GrownFrom drawn r) (src dest : String) :
    ∃ found r', (route dimension src dest).apply r = (.ok found, r') ∧ GrownFrom drawn r' ∧
      Network.Grows dimension src r.network r'.network ∧
      (∀ c, found = some c → drawn.IsPath src dest c) ∧
      ((r.known.get? (src, dest) = some found ∧ r' = r) ∨
        (Network.search dimension src dest).apply r.network = (.ok found, r'.network) ∧
          r'.known = r.known.put (src, dest) found) := by
  rw [route, Action.apply_bind, Action.apply_get]
  dsimp only
  cases remembered : r.known.get? (src, dest) with
  | some answer =>
    refine ⟨answer, r, rfl, grown, .refl, ?_, .inl ⟨rfl, rfl⟩⟩
    rintro c rfl
    exact grown.known _ c remembered
  | none =>
    obtain ⟨found, net', run, grows, path, _⟩ :=
      Network.search_spec dimension src dest keyed grown.network
    refine ⟨found, ⟨net', r.known.put (src, dest) found⟩, ?_,
      ⟨grown.network.grows keyed grows, ?_⟩, grows, path, .inr ⟨run, rfl⟩⟩
    · dsimp only
      rw [Action.apply_bind, Action.onPart, Action.apply_ofFn, run]
      rfl
    · intro key c known
      rw [Register.get?_put] at known
      split at known
      next same =>
        cases same
        cases known
        exact path c rfl
      next => exact grown.known key c known

theorem GrownFrom.searches (keyed : drawn.Drawn) (grown : GrownFrom drawn r)
    (calls : List EdgeKey) : GrownFrom drawn (searches dimension calls r) := by
  induction calls generalizing r with
  | nil => exact grown
  | cons call rest ih =>
    obtain ⟨_, r', run, grown', _⟩ := route_spec dimension keyed grown call.1 call.2
    rw [Routes.searches, List.foldl_cons, run]
    exact ih grown'

/-- After any searches over registered edges with factors other than zero, whatever these say: each
edge and each remembered conversion is a path, which is a conversion between the two units it is
kept under with the factor of one walk along registered edges; the registered edges are as they
were; and no further search fails, so that two conversions that share no unit are never composed. -/
theorem stored_paths_are_walks (drawn : Network K) (keyed : drawn.Drawn) (dimension : String)
    (calls : List EdgeKey) :
    let r := Routes.searches dimension calls (Routes.ofNetwork drawn)
    (∀ key c, r.network.edges.get? key = some c → drawn.IsPath key.1 key.2 c) ∧
      (∀ key c, r.known.get? key = some (some c) → drawn.IsPath key.1 key.2 c) ∧
      (∀ key c, drawn.edges.get? key = some c → r.network.edges.get? key = some c) ∧
      ∀ src dest, ∃ found, ((route dimension src dest).apply r).1 = .ok found ∧
        ∀ c, found = some c → drawn.IsPath src dest c := by
  intro r
  have grown : GrownFrom drawn r := (GrownFrom.ofNetwork keyed).searches dimension keyed calls
  refine ⟨grown.network.paths, grown.known, grown.network.kept, fun src dest => ?_⟩
  obtain ⟨found, r', run, _, _, path, _⟩ :=
    route_spec dimension keyed grown src dest
  exact ⟨found, by rw [run], path⟩

/-- Four nodes in a line, whose edges point to and fro, a shortcut that disagrees with them, and one
node apart. -/
def zigzag : Network ℚ :=
  .ofEdges ["e"] ⟨[(("a", "b"), ⟨"L", "a", "b", ⟨2, 1/100⟩⟩), (("c", "b"), ⟨"L", "c", "b", ⟨4, 0⟩⟩),
    (("c", "d"), ⟨"L", "c", "d", ⟨5, 1/50⟩⟩), (("b", "d"), ⟨"L", "b", "d", ⟨7, 0⟩⟩)]⟩

theorem zigzag_drawn : zigzag.Drawn := Network.drawn_of_rows (by decide +kernel)

/-- The disagreeing edges are no hindrance, and what is found first stays: `d` from `a` over `b`, then
`c` from `a` over `b`. -/
theorem zigzag_stored_paths : zigzag.Drawn ∧
    (∀ key c, (searches "L" [("a", "d"), ("a", "c"), ("d", "a"), ("e", "a")]
        (ofNetwork zigzag)).network.edges.get? key = some c → zigzag.IsPath key.1 key.2 c) ∧
    ((route "L" "a" "d").apply (searches "L" [("a", "d"), ("a", "c"), ("d", "a"), ("e", "a")]
        (ofNetwork zigzag))).1 = .ok (some ⟨"L", "a", "d", ⟨14, 1/100⟩⟩) :=
  ⟨zigzag_drawn,
    (stored_paths_are_walks zigzag zigzag_drawn "L"
      [("a", "d"), ("a", "c"), ("d", "a"), ("e", "a")]).1,
    by decide +kernel⟩

end Metrology.Routes
