import Metrology.Catalogue.Row

/-!
# Derived quantities

The quantities of several axes or of higher powers, with their units and conversions.
-/
namespace Metrology.Catalogue

def area : QuantityRow where
  name := "area"
  dimension := "L2"
  units := [
    unit "hectare" "ha" [.siAccepted],
    unit "acre" "ac" [.imperial, .us]]
  conversions := [⟨"ha", "m2", 10000⟩, ⟨"ac", "m2", 4046.8564224⟩, ⟨"ac", "yd2", 4840⟩]

def volume : QuantityRow where
  name := "volume"
  dimension := "L3"
  units := [
    { unit "litre" "L" [.siAccepted] with group := PrefixGroup.metric },
    unit "US fluid ounce" "US fl oz" [.us],
    unit "US pint" "US pt" [.us],
    unit "US quart" "US qt" [.us],
    unit "US gallon" "US gal" [.us],
    unit "imperial fluid ounce" "imp fl oz" [.imperial],
    unit "imperial pint" "imp pt" [.imperial],
    unit "imperial quart" "imp qt" [.imperial],
    unit "imperial gallon" "imp gal" [.imperial]]
  conversions :=
    [⟨"m3", "L", 1000⟩, ⟨"US gal", "in3", 231⟩, ⟨"US gal", "US qt", 4⟩, ⟨"US qt", "US pt", 2⟩,
     ⟨"US pt", "US fl oz", 16⟩, ⟨"imp gal", "L", 4.54609⟩, ⟨"imp gal", "imp qt", 4⟩,
     ⟨"imp qt", "imp pt", 2⟩, ⟨"imp pt", "imp fl oz", 20⟩]

def velocity : QuantityRow where
  name := "velocity"
  dimension := "LT-1"
  units := [
    { unit "knot" "kn" [.nautical] with expansion := some "nmi*h-1" }]
  conversions := []

def acceleration : QuantityRow where
  name := "acceleration"
  dimension := "LT-2"
  units := []
  conversions := []

def density : QuantityRow where
  name := "density"
  dimension := "ML-3"
  units := []
  conversions := []

def force : QuantityRow where
  name := "force"
  dimension := "MLT-2"
  units := [
    { unit "newton" "N" [.si] with group := PrefixGroup.metric, expansion := some "kg*m*s-2" },
    unit "pound force" "lbf" [.imperial, .us]]
  conversions := [⟨"lbf", "N", 4.4482216152605⟩]

def energy : QuantityRow where
  name := "energy"
  dimension := "ML2T-2"
  units := [
    { unit "joule" "J" [.si] with group := PrefixGroup.metric, expansion := some "kg*m2*s-2" },
    { unit "electronvolt" "eV" [.scientific] with group := PrefixGroup.metric },
    { unit "calorie" "cal" [.everyday] with group := PrefixGroup.metric }]
  conversions := [⟨"eV", "J", 1.602176634e-19⟩, ⟨"cal", "J", 4.184⟩]

def pressure : QuantityRow where
  name := "pressure"
  dimension := "ML-1T-2"
  units := [
    { unit "pascal" "Pa" [.si] with group := PrefixGroup.metric, expansion := some "kg*m-1*s-2" },
    unit "atmosphere" "atm" [.scientific],
    unit "millimetre of mercury" "mmHg" [.scientific],
    unit "inch of mercury" "inHg" [.us]]
  conversions := [⟨"mmHg", "Pa", 133.322387415⟩, ⟨"atm", "Pa", 101325⟩, ⟨"inHg", "mmHg", 25.4⟩]

def power : QuantityRow where
  name := "power"
  dimension := "ML2T-3"
  units := [
    { unit "watt" "W" [.si] with group := PrefixGroup.metric, expansion := some "kg*m2*s-3" }]
  conversions := []

def frequency : QuantityRow where
  name := "frequency"
  dimension := "T-1"
  units := [
    { unit "hertz" "Hz" [.si] with group := PrefixGroup.metric, expansion := some "s-1" },
    { unit "becquerel" "Bq" [.si] with group := PrefixGroup.metric, expansion := some "s-1" }]
  conversions := []

def electricCharge : QuantityRow where
  name := "electric charge"
  dimension := "TI"
  units := [
    { unit "coulomb" "C" [.si] with group := PrefixGroup.metric, expansion := some "s*A" }]
  conversions := []

def voltage : QuantityRow where
  name := "voltage"
  dimension := "ML2T-3I-1"
  units := [
    { unit "volt" "V" [.si] with group := PrefixGroup.metric, expansion := some "kg*m2*s-3*A-1" }]
  conversions := []

def resistance : QuantityRow where
  name := "resistance"
  dimension := "ML2T-3I-2"
  units := [
    { unit "ohm" "ohm" [.si] with unicodeSymbol := "Ω", group := PrefixGroup.metric }]
  conversions := [⟨"ohm", "kg*m2*s-3*A-2", 1⟩]

def conductance : QuantityRow where
  name := "conductance"
  dimension := "M-1L-2T3I2"
  units := [
    { unit "siemens" "S" [.si] with
      group := PrefixGroup.metric, expansion := some "kg-1*m-2*s3*A2" }]
  conversions := []

def capacitance : QuantityRow where
  name := "capacitance"
  dimension := "M-1L-2T4I2"
  units := [
    { unit "farad" "F" [.si] with group := PrefixGroup.metric, expansion := some "kg-1*m-2*s4*A2" }]
  conversions := []

def inductance : QuantityRow where
  name := "inductance"
  dimension := "ML2T-2I-2"
  units := [
    { unit "henry" "H" [.si] with group := PrefixGroup.metric, expansion := some "kg*m2*s-2*A-2" }]
  conversions := []

def magneticFlux : QuantityRow where
  name := "magnetic flux"
  dimension := "ML2T-2I-1"
  units := [
    { unit "weber" "Wb" [.si] with group := PrefixGroup.metric }]
  conversions := [⟨"Wb", "kg*m2*s-2*A-1", 1⟩]

def magneticFluxDensity : QuantityRow where
  name := "magnetic flux density"
  dimension := "MT-2I-1"
  units := [
    { unit "tesla" "T" [.si] with group := PrefixGroup.metric, expansion := some "kg*s-2*A-1" }]
  conversions := []

def solidAngle : QuantityRow where
  name := "solid angle"
  dimension := "A2"
  units := [
    { unit "steradian" "sr" [.si] with
      group := PrefixGroup.smallEngineering, expansion := some "rad2" }]
  conversions := []

def luminousFlux : QuantityRow where
  name := "luminous flux"
  dimension := "A2J"
  units := [
    { unit "lumen" "lm" [.si] with group := PrefixGroup.metric, expansion := some "cd*rad2" }]
  conversions := []

def illuminance : QuantityRow where
  name := "illuminance"
  dimension := "L-2A2J"
  units := [
    { unit "lux" "lx" [.si] with group := PrefixGroup.metric, expansion := some "cd*rad2*m-2" }]
  conversions := []

def radiationDose : QuantityRow where
  name := "radiation dose"
  dimension := "L2T-2"
  units := [
    { unit "gray" "Gy" [.si] with group := PrefixGroup.metric },
    { unit "sievert" "Sv" [.si] with group := PrefixGroup.metric }]
  conversions := [⟨"Gy", "m2*s-2", 1⟩, ⟨"Sv", "m2*s-2", 1⟩]

def catalyticActivity : QuantityRow where
  name := "catalytic activity"
  dimension := "T-1N"
  units := [
    { unit "katal" "kat" [.si] with group := PrefixGroup.metric, expansion := some "mol*s-1" }]
  conversions := []

/-- In the order in which they are loaded. -/
def derivedQuantities : List QuantityRow :=
  [area, volume, velocity, acceleration, density, force, energy, pressure, power, frequency,
   electricCharge, voltage, resistance, conductance, capacitance, inductance, magneticFlux,
   magneticFluxDensity, solidAngle, luminousFlux, illuminance, radiationDose, catalyticActivity]

end Metrology.Catalogue
