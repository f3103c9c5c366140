import Metrology.Catalogue.Row

/-!
# Base quantities

Pure numbers and the quantities of a single axis, with their units and conversions.
-/
namespace Metrology.Catalogue

def dimensionless : QuantityRow where
  name := "dimensionless"
  dimension := "1"
  units := [
    unit "scalar" "" [.everyday],
    unit "percentage" "%" [.everyday],
    { unit "parts per thousand" "ppt" [.everyday] with unicodeSymbol := "‰" },
    unit "parts per million" "ppm" [.everyday],
    unit "parts per billion" "ppb" [.everyday]]
  conversions := [⟨"", "%", 100⟩, ⟨"%", "ppt", 10⟩, ⟨"ppt", "ppm", 1000⟩, ⟨"ppm", "ppb", 1000⟩]

def mass : QuantityRow where
  name := "mass"
  dimension := "M"
  units := [
    { unit "gram" "g" [.si] with group := PrefixGroup.metric },
    unit "tonne" "t" [.siAccepted],
    unit "grain" "gr" [.imperial, .us],
    unit "ounce" "oz" [.imperial, .us],
    unit "pound" "lb" [.imperial, .us],
    unit "stone" "st" [.imperial],
    unit "short ton" "ton" [.us]]
  conversions :=
    [⟨"t", "kg", 1000⟩, ⟨"lb", "kg", 0.45359237⟩, ⟨"gr", "mg", 64.79891⟩, ⟨"lb", "oz", 16⟩,
     ⟨"st", "lb", 14⟩, ⟨"ton", "lb", 2000⟩]

/-- A parsec is 648000 / π astronomical units. -/
def length : QuantityRow where
  name := "length"
  dimension := "L"
  units := [
    { unit "metre" "m" [.si] with group := PrefixGroup.metric },
    unit "astronomical unit" "au" [.siAccepted, .astronomical],
    unit "light year" "ly" [.astronomical],
    { unit "parsec" "pc" [.astronomical] with group := PrefixGroup.largeEngineering },
    unit "pixel" "px" [.typography],
    unit "point" "p" [.typography],
    unit "pica" "P" [.typography],
    unit "inch" "in" [.imperial, .us],
    unit "foot" "ft" [.imperial, .us],
    unit "yard" "yd" [.imperial, .us],
    unit "mile" "mi" [.imperial, .us],
    unit "league" "le" [.imperial, .us],
    unit "fathom" "ftm" [.nautical],
    unit "nautical mile" "nmi" [.nautical]]
  conversions :=
    [⟨"yd", "m", 0.9144⟩, ⟨"ft", "m", 0.3048⟩, ⟨"in", "mm", 25.4⟩, ⟨"in", "px", 96⟩,
     ⟨"in", "p", 72⟩, ⟨"in", "P", 6⟩, ⟨"ft", "in", 12⟩, ⟨"yd", "ft", 3⟩, ⟨"mi", "yd", 1760⟩,
     ⟨"le", "mi", 3⟩, ⟨"au", "m", 149597870700⟩, ⟨"ly", "m", 9460730472580800⟩,
     ⟨"pc", "au", 206264.80624709636⟩, ⟨"ftm", "yd", 2⟩, ⟨"nmi", "m", 1852⟩]

/-- A turn is 2π radians. -/
def angle : QuantityRow where
  name := "angle"
  dimension := "A"
  units := [
    { unit "radian" "rad" [.si] with group := PrefixGroup.metric },
    { unit "degree" "deg" [.siAccepted] with unicodeSymbol := "°" },
    { unit "arcminute" "arcmin" [.siAccepted] with
      unicodeSymbol := "′", alternateSymbol := some "'" },
    { unit "arcsecond" "arcsec" [.siAccepted] with
      unicodeSymbol := "″", alternateSymbol := some "\"", group := PrefixGroup.smallEngineering },
    unit "gradian" "grad" [.everyday],
    unit "turn" "turn" [.everyday]]
  conversions :=
    [⟨"turn", "rad", 6.283185307179586⟩, ⟨"turn", "deg", 360⟩, ⟨"deg", "arcmin", 60⟩,
     ⟨"arcmin", "arcsec", 60⟩, ⟨"turn", "grad", 400⟩]

def data : QuantityRow where
  name := "data"
  dimension := "D"
  units := [
    { unit "bit" "b" [.everyday] with group := PrefixGroup.large },
    { unit "byte" "B" [.everyday] with group := PrefixGroup.large }]
  conversions := [⟨"B", "b", 8⟩]

def currency : QuantityRow where
  name := "currency"
  dimension := "C"
  units := [
    unit "troy ounce of gold" "XAU" [.everyday]]
  conversions := []

def time : QuantityRow where
  name := "time"
  dimension := "T"
  units := [
    { unit "second" "s" [.si] with group := PrefixGroup.metric },
    unit "minute" "min" [.siAccepted],
    unit "hour" "h" [.siAccepted],
    unit "day" "d" [.siAccepted],
    unit "week" "w" [.everyday],
    unit "month" "mo" [.everyday],
    unit "year" "y" [.everyday]]
  conversions :=
    [⟨"min", "s", 60⟩, ⟨"h", "min", 60⟩, ⟨"d", "h", 24⟩, ⟨"w", "d", 7⟩, ⟨"y", "mo", 12⟩,
     ⟨"y", "d", 365.2425⟩]

def electricCurrent : QuantityRow where
  name := "electric current"
  dimension := "I"
  units := [
    { unit "ampere" "A" [.si] with group := PrefixGroup.metric }]
  conversions := []

/-- The conversions relate differences of temperature, not readings of a thermometer. -/
def temperature : QuantityRow where
  name := "temperature"
  dimension := "H"
  units := [
    { unit "kelvin" "K" [.si] with group := PrefixGroup.metric },
    { unit "celsius" "degC" [.siAccepted] with unicodeSymbol := "°C" },
    { unit "fahrenheit" "degF" [.us, .imperial] with unicodeSymbol := "°F" },
    { unit "rankine" "degR" [.imperial] with unicodeSymbol := "°R" }]
  conversions := [⟨"degC", "K", 1⟩, ⟨"degF", "degR", 1⟩, ⟨"K", "degR", 1.8⟩]

def amountOfSubstance : QuantityRow where
  name := "amount of substance"
  dimension := "N"
  units := [
    { unit "mole" "mol" [.si] with group := PrefixGroup.metric }]
  conversions := []

def luminousIntensity : QuantityRow where
  name := "luminous intensity"
  dimension := "J"
  units := [
    { unit "candela" "cd" [.si] with group := PrefixGroup.metric }]
  conversions := []

/-- In the order in which they are loaded. -/
def baseQuantities : List QuantityRow :=
  [dimensionless, mass, length, angle, data, currency, time, electricCurrent, temperature,
   amountOfSubstance, luminousIntensity]

end Metrology.Catalogue
