import Metrology.Error
import Metrology.Text.Blank
import Metrology.Text.Capital

/-!
# Systems of measurement
-/
namespace Metrology

inductive MeasurementSystem where
  | si | siAccepted | everyday | imperial | us | scientific | astronomical | nautical | typography
  deriving DecidableEq, Repr

namespace MeasurementSystem

/-- Every system, in the order in which they are loaded. -/
def all : List MeasurementSystem :=
  [si, siAccepted, everyday, imperial, us, scientific, astronomical, nautical, typography]

def name : MeasurementSystem → String
  | si => "SI"
  | siAccepted => "SI_ACCEPTED"
  | everyday => "COMMON"
  | imperial => "IMPERIAL"
  | us => "US"
  | scientific => "SCIENTIFIC"
  | astronomical => "ASTRONOMICAL"
  | nautical => "NAUTICAL"
  | typography => "TYPOGRAPHY"

def ofName? (name : String) : Option MeasurementSystem := all.find? fun s => s.name = name

/-- The system with exactly this name. -/
def named (name : String) : Except Error MeasurementSystem :=
  match ofName? name with
  | some s => .ok s
  | none => .error (.unknownSystem name)

/-- The system with this name in either case, with or without white space around it. -/
def search (text : String) : Except Error MeasurementSystem :=
  (named (Text.capitalised (Text.strip text))).mapError fun _ => .unknownSystem text

theorem mem_all (s : MeasurementSystem) : s ∈ all := by cases s <;> decide

theorem ofName?_name (s : MeasurementSystem) : ofName? s.name = some s := by cases s <;> decide

end MeasurementSystem

end Metrology
