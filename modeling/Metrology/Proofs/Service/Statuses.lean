import Metrology.Proofs.Graph.Buildable
import Metrology.Proofs.Session.Answerable
import Metrology.Service.Endpoint

/-!
# Statuses of responses

What a client got wrong is raised by the session, under the guard of an endpoint, and is answered with
status 422. The dimension of the unit that is shown is computed behind the guard: where it is out of
range, parsing and expanding fail, although the unit could be read. Nothing else can go wrong there.
-/
namespace Metrology

/-- The error is one of the input: text that is no expression, or an expression without a meaning. -/
def Error.isInput (e : Error) : Bool := e.kind = .form || e.kind = .meaning

theorem Error.isInput_of_isOutOfRange {e : Error} (out : e.isOutOfRange) : e.isInput := by
  cases e <;> first | rfl | cases out

/-! ### Describing a dimension -/

theorem Dimension.brings_composeAxes (keepZeros : Bool) (v : Exponents) (axes : List Axis) :
    Brings (fun _ => True) (·.kind = .meaning) (composeAxes keepZeros v axes) := by
  induction axes with
  | nil => exact trivial
  | cons a axes ih =>
    rw [composeAxes]
    split
    next => exact ih
    next =>
      split
      next => exact rfl
      next => exact ih.map fun _ _ => trivial

theorem Dimension.brings_decompose (code : String) :
    Brings (fun _ => True) (·.kind = .meaning) (decompose code) := by
  unfold decompose
  split
  next => exact trivial
  next => exact rfl

/-- A code is normalized or has no meaning. -/
theorem Dimension.brings_normalize (code : String) :
    Brings (fun _ => True) (·.kind = .meaning) (normalize code) :=
  (brings_decompose code).bind fun v _ => (brings_composeAxes false v Axis.all).map fun _ _ => trivial

section
variable {K : Type} [Scalar K]

omit [Scalar K] in
theorem Term.brings_make (u : NamedUnit K) (scaling : Option (Prefix K)) (n : Int) :
    Brings (fun _ => True) (·.kind = .meaning) (make u scaling n) :=
  .of_given (fun _ _ => trivial) fun _ => kind_of_make

/-- The SI base unit of an axis may not be registered, but its symbol is well-formed. -/
theorem Lexicon.brings_siTerm (lex : Lexicon K) (a : Axis) :
    Brings (fun _ => True) (·.kind = .meaning) (lex.siTerm a) := by
  rw [siTerm, parseTerm, parseExpression_siSymbol]
  exact .of_given (fun _ _ => trivial) fun _ => kind_of_term

omit [Scalar K] in
theorem Compound.brings_level (ps : List (Pile K)) :
    Brings (fun _ => True) (·.kind = .meaning) (level ps) :=
  (Brings.mapM (Q := fun _ => True) fun p _ => Term.brings_make p.head.unit p.head.scaling p.exponent)
    |>.weaken (fun _ _ => trivial) fun _ meaning => meaning

theorem Session.ends_siUnit (v : Exponents) :
    (siUnit v : Action (Session K) (Compound K)).Ends (fun _ => True) (fun _ => True)
      (·.kind = .meaning) := by
  refine .bind .get fun s _ => .bind (.mapM (R := fun _ => True) fun row _ => ?_) fun ts _ => .lift ?_
  · refine .bind (.lift (s.lexicon.brings_siTerm row.1)) fun t _ => ?_
    exact .lift (Term.brings_make t.unit t.scaling row.2)
  · exact (Compound.brings_level _).map fun _ _ => trivial

end

namespace Service

/-- What is looked up of a dimension: its canonical code, its exponents and its SI unit. -/
def describe (code : String) : Action (Session Float) (String × Exponents × Compound Float) := do
  let normal ← Dimension.normalize code
  let v ← Dimension.decompose normal
  return (normal, v, ← Session.siUnit v)

theorem ends_describe (code : String) :
    (describe code).Ends (fun _ => True) (fun _ => True) (·.kind = .meaning) := by
  refine .bind (.lift (Dimension.brings_normalize code)) fun normal _ => ?_
  refine .bind (.lift (Dimension.brings_decompose normal)) fun v _ => ?_
  exact .bind (Session.ends_siUnit v) fun _ _ => .pure trivial

/-! ### Inquiries -/

/-- A request with a body that its endpoint accepts. -/
inductive Inquiry where
  | parse (symbol : String)
  | expand (request : ExpandRequest)
  | normalize (code : String)
  | convert (request : ConvertRequest)

namespace Inquiry

def endpoint : Inquiry → Endpoint
  | parse _ => .parseUnit
  | expand _ => .expandUnit
  | normalize _ => .normalizeDimension
  | convert _ => .convert

/-- The body is accepted and read as the inquiry. -/
def ReadFrom (doc : Document) : Inquiry → Prop
  | parse symbol => symbolField doc "symbol" = .ok symbol
  | expand request => ExpandRequest.read doc = .ok request
  | normalize code => codeField doc "code" = .ok code
  | convert request => ConvertRequest.read doc = .ok request

def respond : Inquiry → StateM (Session Float) Response
  | parse symbol => parseUnit symbol
  | expand request => expandUnit request
  | normalize code => normalizeDimension code
  | convert request => Service.convert request

theorem respond_of_readFrom {fields : List (String × Document)} {i : Inquiry}
    (accepted : i.ReadFrom (.record fields)) :
    i.endpoint.respond (some (.record fields)) = i.respond := by
  cases i <;> simp only [ReadFrom] at accepted <;>
    simp only [endpoint, Endpoint.respond, withBody, accepted, single, Except.mapError, respond]

/-- How an inquiry may go. -/
inductive Course where
  /-- the session raises the error, under the guard of the endpoint -/
  | refused (e : Error)
  /-- the session gives a unit, but the error is raised when its dimension is shown -/
  | unshown (e : Error)
  /-- nothing joins the units of a conversion -/
  | unjoined
  | answered
  deriving DecidableEq

/-- A unit is shown with its dimension. -/
def Course.ofUnit (unit : Compound Float) : Course :=
  match unit.dimension with
  | .ok _ => answered
  | .error e => unshown e

/-- How the inquiry goes in a session. -/
def course (s : Session Float) : Inquiry → Course
  | parse symbol =>
    match ((Session.parse (.symbol symbol)).apply s).1 with
    | .ok unit => .ofUnit unit
    | .error e => .refused e
  | expand request =>
    match ((Session.expand request.value (.symbol request.symbol)).apply s).1 with
    | .ok scaled => .ofUnit scaled.2
    | .error e => .refused e
  | normalize code =>
    match ((describe code).apply s).1 with
    | .ok _ => .answered
    | .error e => .refused e
  | convert request =>
    match ((Session.conversion (.symbol request.src) (.symbol request.dest)).apply s).1 with
    | .ok none => .unjoined
    | .ok (some _) => .answered
    | .error e => .refused e

/-- What a refusal says beside its message: parsing tells where an expression is malformed. -/
def details : Inquiry → Error → List (String × Document)
  | parse _, .malformed error _ => [("position", .integer error.position)]
  | _, _ => []

end Inquiry

theorem respond_run {α : Type} (a : Action (Session Float) α) (onError : Error → Response)
    (make : Session Float → α → Except Error Response) (s : Session Float) :
    ((respond a onError make).run s).1 =
      match (a.apply s).1 with
      | .error e => onError e
      | .ok x => match make (a.apply s).2 x with
        | .ok response => response
        | .error _ => failure := by
  show (respond a onError make s).1 = _
  unfold respond
  rcases a.apply s with ⟨_ | x, s'⟩
  · rfl
  · dsimp only
    cases make s' x <;> rfl

/-- Each term of a unit with a dimension can be shown. -/
theorem termDocuments_of_dimension {unit : Compound Float} {d : Dimension}
    (given : unit.dimension = .ok d) : ∃ docs, unit.terms.mapM termDocument = .ok docs := by
  refine mapM_isOk fun t mem => ?_
  obtain ⟨f, own⟩ := (Compound.dimension_eq_ok_iff.mp given).1 t mem
  exact ⟨_, bind_eq_ok.mpr ⟨f, own, rfl⟩⟩

namespace Inquiry

/-- The answer of an endpoint to an error of the session. -/
def answerTo (e : Error) : Inquiry → Response
  | parse _ => answerError e true
  | expand _ | convert _ => answerError e false
  | normalize _ => if e.kind = .meaning then answerError e false else failure

/-- The response is one to an inquiry that goes this way. -/
def Fits (i : Inquiry) (response : Response) : Course → Prop
  | .refused e => response = i.answerTo e
  | .unshown _ => response = failure
  | .unjoined => ∃ text, response = refuse 404 text []
  | .answered => response.status = 200

theorem fits_parse (symbol : String) (s : Session Float) :
    (parse symbol).Fits (((parse symbol).respond.run s).1) ((parse symbol).course s) := by
  rw [respond, parseUnit, respond_run, course]
  cases ((Session.parse (.symbol symbol)).apply s).1 with
  | error e => rfl
  | ok unit =>
    dsimp only [Course.ofUnit]
    cases shown : unit.dimension with
    | error e => rfl
    | ok d =>
      obtain ⟨docs, each⟩ := termDocuments_of_dimension shown
      rw [each]
      rfl

theorem fits_expand (request : ExpandRequest) (s : Session Float) :
    (expand request).Fits (((expand request).respond.run s).1) ((expand request).course s) := by
  rw [respond, expandUnit, respond_run, course]
  cases ((Session.expand request.value (.symbol request.symbol)).apply s).1 with
  | error e => rfl
  | ok scaled =>
    dsimp only [Course.ofUnit]
    cases scaled.2.dimension <;> rfl

theorem fits_normalize (code : String) (s : Session Float) :
    (normalize code).Fits (((normalize code).respond.run s).1) ((normalize code).course s) := by
  show Fits _ ((Service.respond (describe code) _ _).run s).1 _
  rw [respond_run, course]
  cases ((describe code).apply s).1 <;> rfl

theorem fits_convert (request : ConvertRequest) (s : Session Float) :
    (convert request).Fits (((convert request).respond.run s).1) ((convert request).course s) := by
  rw [respond, Service.convert, respond_run, course]
  rcases ((Session.conversion (.symbol request.src) (.symbol request.dest)).apply s).1 with
    e | _ | c
  · rfl
  · exact ⟨_, rfl⟩
  · rfl

/-- Every inquiry is answered as it goes. -/
theorem fits_respond (i : Inquiry) (s : Session Float) : i.Fits (i.respond.run s).1 (i.course s) := by
  cases i with
  | parse symbol => exact fits_parse symbol s
  | expand request => exact fits_expand request s
  | normalize code => exact fits_normalize code s
  | convert request => exact fits_convert request s

variable {i : Inquiry} {s : Session Float} {e : Error}

/-- A dimension that is described can only be refused for its meaning. -/
theorem meaning_of_normalize {code : String} (refused : (normalize code).course s = .refused e) :
    e.kind = .meaning := by
  rw [course] at refused
  cases described : ((describe code).apply s).1 with
  | ok found =>
    rw [described] at refused
    cases refused
  | error e' =>
    rw [described] at refused
    obtain rfl := Course.refused.inj refused
    exact ((ends_describe code).outcome trivial).failed described

/-- Every endpoint answers an error of the input with its message. -/
theorem answerTo_of_isInput (refused : i.course s = .refused e) (input : e.isInput) :
    ∃ text, e.message = some text ∧ i.answerTo e = refuse 422 text (i.details e) := by
  cases i with
  | parse => cases e <;> first | exact ⟨_, rfl, rfl⟩ | cases input
  | expand | convert => cases e <;> first | exact ⟨_, rfl, rfl⟩ | cases input
  | normalize =>
    have meaning := meaning_of_normalize refused
    cases e <;> first | exact ⟨_, rfl, rfl⟩ | cases meaning

theorem answerTo_of_not_isInput (other : e.isInput = false) (i : Inquiry) :
    i.answerTo e = failure := by
  cases i <;> cases e <;> first | rfl | cases other

/-- A unit is not shown because its dimension is out of range. -/
theorem outOfRange_of_unshown (unshown : i.course s = .unshown e) : e.isOutOfRange := by
  have ofUnit {unit : Compound Float} (unshown : Course.ofUnit unit = .unshown e) :
      e.isOutOfRange := by
    unfold Course.ofUnit at unshown
    split at unshown
    next => cases unshown
    next e' failed =>
      obtain rfl := Course.unshown.inj unshown
      exact unit.brings_dimension.failed failed
  cases i with
  | parse | expand =>
    rw [course] at unshown
    split at unshown
    next => exact ofUnit unshown
    next => cases unshown
  | normalize | convert =>
    rw [course] at unshown
    split at unshown <;> cases unshown

theorem course_eq_unjoined_iff : i.course s = .unjoined ↔ ∃ request, i = .convert request ∧
    ((Session.conversion (.symbol request.src) (.symbol request.dest)).apply s).1 = .ok none := by
  have ofUnit (unit : Compound Float) : Course.ofUnit unit ≠ .unjoined := by
    unfold Course.ofUnit
    split <;> exact fun same => nomatch same
  constructor
  · intro unjoined
    cases i with
    | parse | expand =>
      rw [course] at unjoined
      split at unjoined
      next => exact absurd unjoined (ofUnit _)
      next => cases unjoined
    | normalize =>
      rw [course] at unjoined
      split at unjoined <;> cases unjoined
    | convert request =>
      rw [course] at unjoined
      split at unjoined
      next none => exact ⟨request, rfl, none⟩
      next => cases unjoined
      next => cases unjoined
  · rintro ⟨request, rfl, none⟩
    rw [course, none]

end Inquiry

/-- An inquiry is answered by its endpoint. -/
theorem answer_of_readFrom {request : Request} {fields : List (String × Document)} {i : Inquiry}
    (named : Endpoint.ofTarget? request.target = some i.endpoint)
    (posted : String.ofList (request.method.toList.map Char.toUpper) = "POST")
    (sent : request.body = some (.record fields)) (accepted : i.ReadFrom (.record fields)) :
    answer request = i.respond := by
  have method : i.endpoint.method = "POST" := by cases i <;> rfl
  rw [answer, named]
  dsimp only
  rw [if_pos (posted.trans method.symm), sent, Inquiry.respond_of_readFrom accepted]

/-- An error of the input that the session raises is answered with status 422 and its message, and a
conversion for which nothing joins the units with 404, as nothing else is. An error that is raised
when a unit is shown, by parsing or expanding, says that its dimension is out of range: it too is one
of the input, but it fails the service. -/
theorem statuses_of_inquiries {request : Request} {fields : List (String × Document)} {i : Inquiry}
    (s : Session Float) (named : Endpoint.ofTarget? request.target = some i.endpoint)
    (posted : String.ofList (request.method.toList.map Char.toUpper) = "POST")
    (sent : request.body = some (.record fields)) (accepted : i.ReadFrom (.record fields)) :
    let response := ((answer request).run s).1
    (∀ e, i.course s = .refused e → e.isInput →
      ∃ text, e.message = some text ∧ response = refuse 422 text (i.details e)) ∧
    (∀ e, i.course s = .refused e → e.isInput = false → response = failure) ∧
    (∀ e, i.course s = .unshown e → e.isOutOfRange ∧ e.isInput ∧ response = failure) ∧
    (i.course s = .answered → response.status = 200) ∧
    (response.status = 404 ↔ ∃ request, i = .convert request ∧
      ((Session.conversion (.symbol request.src) (.symbol request.dest)).apply s).1 = .ok none) := by
  intro response
  have fits : i.Fits response (i.course s) := by
    have same : response = (i.respond.run s).1 := by
      rw [← answer_of_readFrom named posted sent accepted]
    exact same ▸ i.fits_respond s
  refine ⟨fun e refused input => ?_, fun e refused other => ?_, fun e unshown => ?_,
    fun answered => ?_, ?_⟩
  · obtain ⟨text, message, same⟩ := Inquiry.answerTo_of_isInput refused input
    rw [refused] at fits
    exact ⟨text, message, fits.trans same⟩
  · rw [refused] at fits
    exact fits.trans (Inquiry.answerTo_of_not_isInput other i)
  · have out := Inquiry.outOfRange_of_unshown unshown
    rw [unshown] at fits
    exact ⟨out, Error.isInput_of_isOutOfRange out, fits⟩
  · rw [answered] at fits
    exact fits
  · rw [← Inquiry.course_eq_unjoined_iff]
    constructor
    · intro missing
      cases course : i.course s with
      | refused e =>
        rw [course] at fits
        cases input : e.isInput with
        | true =>
          obtain ⟨text, _, same⟩ := Inquiry.answerTo_of_isInput course input
          rw [fits.trans same] at missing
          cases missing
        | false =>
          rw [fits.trans (Inquiry.answerTo_of_not_isInput input i)] at missing
          cases missing
      | unshown e =>
        rw [course] at fits
        rw [show response = failure from fits] at missing
        cases missing
      | unjoined => rfl
      | answered =>
        rw [course] at fits
        cases missing.symm.trans fits
    · intro unjoined
      rw [unjoined] at fits
      obtain ⟨text, same⟩ := fits
      rw [same]
      rfl

/-! ### Reading a large volume -/

/-- A session with the units of the SI. -/
def metric : Session Float := (Session.ofSystems [.si]).toOption.getD Session.blank

theorem ofSystems_metric : Session.ofSystems [.si] = .ok metric :=
  eq_ok_getD (by decide +kernel) Session.blank

/-- A request for the reading of a symbol. -/
def reading (symbol : String) : Request :=
  ⟨"POST", "/api/units/parse", some (.record [("symbol", .text symbol)])⟩

/-- A unit that is not registered is refused, with its name and no position. -/
theorem reading_refused : (Inquiry.parse "furlong").course metric = .refused (.unknownUnit "furlong") ∧
    ∃ text, (Error.unknownUnit "furlong").message = some text ∧
      ((answer (reading "furlong")).run metric).1 = refuse 422 text [] := by
  have named : Endpoint.ofTarget? (reading "furlong").target = some .parseUnit := by decide +kernel
  have refused : (Inquiry.parse "furlong").course metric = .refused (.unknownUnit "furlong") := by
    decide +kernel
  have statuses := statuses_of_inquiries (i := .parse "furlong") metric named (by decide +kernel) rfl rfl
  exact ⟨refused, statuses.1 _ refused rfl⟩

/-- Two lengths to the ninth power can be read but not shown: the service fails. -/
theorem reading_fails : Session.ofSystems [.si] = .ok metric ∧
    (Inquiry.parse "m9*km9").course metric = .unshown (.dimensionOutOfRange 18 'L') ∧
    (Error.dimensionOutOfRange 18 'L').kind = .meaning ∧
    ((answer (reading "m9*km9")).run metric).1.status = 500 :=
  ⟨ofSystems_metric, by decide +kernel⟩

end Service

end Metrology
