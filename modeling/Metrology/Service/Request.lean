import Metrology.Service.Document

/-!
# Requests

The bodies that the endpoints take. A body is refused with the places of its faults: a field that is
missing, of the wrong kind, too long, empty or, where a conversion is asked for, not finite.
-/
namespace Metrology.Service

/-- Code points that the symbol of a unit may have. -/
def maxSymbolLength : Nat := 200

/-- A field as it was read, or the place of its fault. -/
abbrev Field (α : Type) := Except String α

def place (name : String) : String := "body." ++ name

def symbolField (body : Document) (name : String) : Field String :=
  match body.field? name with
  | some (.text s) => if s.length ≤ maxSymbolLength then .ok s else .error (place name)
  | _ => .error (place name)

def finite (x : Float) : Field Float := if x.isFinite then .ok x else .error (place "value")

/-- The number of a value, 1 where none is given. An integer must not exceed every double. -/
def valueField (body : Document) : Field Float :=
  match body.field? "value" with
  | none => .ok 1.0
  | some (.number x) => .ok x
  | some (.integer n) => finite (Float.ofInt n)
  | some (.truth b) => .ok (if b then 1.0 else 0.0)
  | some (.text s) => match Text.readFloat? s with
    | some x => .ok x
    | none => .error (place "value")
  | some _ => .error (place "value")

/-- The number of a value that must be finite. -/
def finiteValueField (body : Document) : Field Float := do finite (← valueField body)

/-- A code without the white space around it. -/
def codeField (body : Document) (name : String) : Field String :=
  match body.field? name with
  | some (.text s) =>
    let code := Text.strip s
    if code.isEmpty then .error (place name) else .ok code
  | _ => .error (place name)

/-- The places of the faults of two fields, in alphabetical order. -/
def both {α β : Type} (x : Field α) (y : Field β) : Except (List String) (α × β) :=
  match x, y with
  | .ok a, .ok b => .ok (a, b)
  | .ok _, .error q => .error [q]
  | .error p, .ok _ => .error [p]
  | .error p, .error q => .error (if p ≤ q then [p, q] else [q, p])

def single {α : Type} (x : Field α) : Except (List String) α := x.mapError ([·])

structure ConvertRequest where
  value : Float
  src : String
  dest : String

def ConvertRequest.read (body : Document) : Except (List String) ConvertRequest :=
  match both (symbolField body "dest") (symbolField body "src"), finiteValueField body with
  | .ok (dest, src), .ok value => .ok ⟨value, src, dest⟩
  | .error places, .ok _ => .error places
  | .ok _, .error p => .error [p]
  | .error places, .error p => .error (places ++ [p])

structure ExpandRequest where
  value : Float
  symbol : String

def ExpandRequest.read (body : Document) : Except (List String) ExpandRequest :=
  (both (symbolField body "symbol") (valueField body)).map fun (symbol, value) => ⟨value, symbol⟩

end Metrology.Service
