import Metrology.Error.Message
import Metrology.Service.Request
import Metrology.Service.Target
import Metrology.Session.Change

/-!
# Endpoints

The service answers requests over one session. What a client got wrong is answered with status 422
and its message, a pair of units that nothing joins with 404; an error outside the guarded part of
an endpoint, or one of arithmetic, is a failure of the service.
-/
namespace Metrology.Service

structure Request where
  method : String
  /-- the path, and perhaps a query -/
  target : String
  body : Option Document

/-- Failures of the service have no body. -/
structure Response where
  status : Nat
  body : Option Document

def version : String := "0.1.0"

def succeed (doc : Document) : Response := ⟨200, some doc⟩

def failure : Response := ⟨500, none⟩

/-- A list of one detail with a message. -/
def refuse (status : Nat) (message : String) (more : List (String × Document)) : Response :=
  ⟨status, some (.record [("detail", .list [.record (("message", .text message) :: more)])])⟩

/-- The answer to a body of the wrong form. -/
def invalid (places : List String) : Response :=
  ⟨422, some (.record [("invalid", .list (places.map .text))])⟩

/-- The answer to an error in the guarded part of an endpoint. -/
def answerError (e : Error) (withPosition : Bool) : Response :=
  match e.kind, e.message with
  | .form, some message =>
    match e with
    | .malformed error _ =>
      refuse 422 message (if withPosition then [("position", .integer error.position)] else [])
    | _ => refuse 422 message []
  | .meaning, some message => refuse 422 message []
  | _, _ => failure

/-- A response made from what a session answered. The making may fail as well. -/
def respond {α : Type} (a : Action (Session Float) α) (onError : Error → Response)
    (make : Session Float → α → Except Error Response) : StateM (Session Float) Response := fun s =>
  match a.apply s with
  | (.error e, s') => (onError e, s')
  | (.ok x, s') => match make s' x with
    | .ok response => (response, s')
    | .error _ => (failure, s')

def quantityTypeName (s : Session Float) (d : Dimension) : Document :=
  .ofText? ((s.quantityTypes.find? d).map (·.name))

def termDocument (t : Term Float) : Except Error Document := do
  let d ← t.dimension
  return .record [
    ("symbol", .text (t.write .ascii)),
    ("unit", .text t.unit.name),
    ("prefix", .ofText? (t.scaling.map (·.name))),
    ("exponent", .integer t.exponent),
    ("dimension", .text d.code)]

/-- Reads a compound symbol into its canonical form and its terms. -/
def parseUnit (symbol : String) : StateM (Session Float) Response :=
  respond (Session.parse (.symbol symbol)) (answerError · true) fun s unit => do
    let d ← unit.dimension
    let terms ← unit.terms.mapM termDocument
    return succeed (.record [
      ("ascii_symbol", .text (unit.write .ascii)),
      ("unicode_symbol", .text (unit.write .unicode)),
      ("dimension", .text d.code),
      ("quantity_type", quantityTypeName s d),
      ("terms", .list terms)])

/-- Expands named derived units. -/
def expandUnit (request : ExpandRequest) : StateM (Session Float) Response :=
  respond (Session.expand request.value (.symbol request.symbol)) (answerError · false)
    fun _ scaled => do
    let d ← scaled.2.dimension
    return succeed (.record [
      ("value", .ofFloat scaled.1),
      ("ascii_symbol", .text (scaled.2.write .ascii)),
      ("unicode_symbol", .text (scaled.2.write .unicode)),
      ("dimension", .text d.code)])

/-- Puts a dimension code into canonical form and names its axes. -/
def normalizeDimension (code : String) : StateM (Session Float) Response :=
  let guarded (e : Error) : Response := if e.kind = .meaning then answerError e false else failure
  let look : Action (Session Float) (String × Exponents × Compound Float) := do
    let normal ← Dimension.normalize code
    let v ← Dimension.decompose normal
    return (normal, v, ← Session.siUnit v)
  respond look guarded fun s (normal, v, unit) => do
    return succeed (.record [
      ("code", .text normal),
      ("axes", .record (v.map fun row => (row.1.letter.toString, .integer row.2))),
      ("names", .record (v.map fun row => (row.1.letter.toString, .text row.1.name))),
      ("si_unit", .text (unit.write .ascii)),
      ("quantity_type", quantityTypeName s v.toDimension)])

/-- Converts a value between two units of one dimension. -/
def convert (request : ConvertRequest) : StateM (Session Float) Response :=
  respond (Session.conversion (.symbol request.src) (.symbol request.dest)) (answerError · false)
    fun _ found =>
    match found with
    | none => .ok (refuse 404 (((Error.noPath request.src request.dest).message).getD "") [])
    | some c => .ok (succeed (.record [
        ("value", .ofFloat (request.value * c.factor.value)),
        ("src", .text c.src),
        ("dest", .text c.dest),
        ("factor", .ofFloat c.factor.value),
        ("relative_error", .ofFloat c.factor.error),
        ("dimension", .text c.dimension)]))

/-- Reads a body and goes on with it, unless it is of the wrong form. -/
def withBody {α : Type} (body : Option Document) (read : Document → Except (List String) α)
    (next : α → StateM (Session Float) Response) : StateM (Session Float) Response :=
  match body with
  | some (.record fields) => match read (.record fields) with
    | .ok request => next request
    | .error places => pure (invalid places)
  | _ => pure (invalid ["body"])

inductive Endpoint where
  | health | parseUnit | expandUnit | normalizeDimension | convert
  deriving DecidableEq, Repr

namespace Endpoint

def all : List Endpoint := [health, parseUnit, expandUnit, normalizeDimension, convert]

def path : Endpoint → String
  | health => "/api/health"
  | parseUnit => "/api/units/parse"
  | expandUnit => "/api/units/expand"
  | normalizeDimension => "/api/dimensions/normalize"
  | convert => "/api/convert"

def method : Endpoint → String
  | health => "GET"
  | _ => "POST"

def ofPath? (path : String) : Option Endpoint := all.find? fun e => e.path = path

/-- The endpoint that a target names. Slashes at the end of its path are passed over. -/
def ofTarget? (target : String) : Option Endpoint :=
  let path := Target.path target
  (ofPath? path).orElse fun _ => ofPath? (Target.withoutSlashes path)

/-- What an endpoint makes of a body. -/
def respond (body : Option Document) : Endpoint → StateM (Session Float) Response
  | health => pure (succeed (.record [("status", .text "ok"), ("version", .text version)]))
  | parseUnit => withBody body (fun doc => single (symbolField doc "symbol")) Service.parseUnit
  | expandUnit => withBody body ExpandRequest.read Service.expandUnit
  | normalizeDimension =>
    withBody body (fun doc => single (codeField doc "code")) Service.normalizeDimension
  | convert => withBody body ConvertRequest.read Service.convert

end Endpoint

/-- A response with a plain detail. -/
def plain (status : Nat) (detail : String) : Response :=
  ⟨status, some (.record [("detail", .text detail)])⟩

/-- The response to a request. Methods are named in either case. -/
def answer (request : Request) : StateM (Session Float) Response :=
  match Endpoint.ofTarget? request.target with
  | none => pure (plain 404 "Not Found")
  | some endpoint =>
    if String.ofList (request.method.toList.map Char.toUpper) = endpoint.method then
      endpoint.respond request.body
    else pure (plain 405 "Method Not Allowed")

end Metrology.Service
