import Metrology.Prefix
import Metrology.Scalar

/-!
# Tabled prefixes
-/
namespace Metrology.Catalogue

structure PrefixRow where
  name : String
  symbol : String
  multiplier : Decimal
  group : PrefixGroup
  deriving DecidableEq, Repr

def small : PrefixGroup := PrefixGroup.smallMetric
def smallStep : PrefixGroup := PrefixGroup.smallMetric ||| PrefixGroup.smallEngineering
def large : PrefixGroup := PrefixGroup.largeMetric
def largeStep : PrefixGroup := PrefixGroup.largeMetric ||| PrefixGroup.largeEngineering
def binary : PrefixGroup := PrefixGroup.binary

/-- The metric prefixes from the smallest, then the powers of 1024. -/
def prefixRows : List PrefixRow := [
  ⟨"quecto", "q", 1e-30, smallStep⟩,
  ⟨"ronto", "r", 1e-27, smallStep⟩,
  ⟨"yocto", "y", 1e-24, smallStep⟩,
  ⟨"zepto", "z", 1e-21, smallStep⟩,
  ⟨"atto", "a", 1e-18, smallStep⟩,
  ⟨"femto", "f", 1e-15, smallStep⟩,
  ⟨"pico", "p", 1e-12, smallStep⟩,
  ⟨"nano", "n", 1e-9, smallStep⟩,
  ⟨"micro", "u", 1e-6, smallStep⟩,
  ⟨"milli", "m", 1e-3, smallStep⟩,
  ⟨"centi", "c", 1e-2, small⟩,
  ⟨"deci", "d", 1e-1, small⟩,
  ⟨"deca", "da", 1e1, large⟩,
  ⟨"hecto", "h", 1e2, large⟩,
  ⟨"kilo", "k", 1e3, largeStep⟩,
  ⟨"mega", "M", 1e6, largeStep⟩,
  ⟨"giga", "G", 1e9, largeStep⟩,
  ⟨"tera", "T", 1e12, largeStep⟩,
  ⟨"peta", "P", 1e15, largeStep⟩,
  ⟨"exa", "E", 1e18, largeStep⟩,
  ⟨"zetta", "Z", 1e21, largeStep⟩,
  ⟨"yotta", "Y", 1e24, largeStep⟩,
  ⟨"ronna", "R", 1e27, largeStep⟩,
  ⟨"quetta", "Q", 1e30, largeStep⟩,
  ⟨"kibi", "Ki", 1024, binary⟩,
  ⟨"mebi", "Mi", 1048576, binary⟩,
  ⟨"gibi", "Gi", 1073741824, binary⟩,
  ⟨"tebi", "Ti", 1099511627776, binary⟩,
  ⟨"pebi", "Pi", 1125899906842624, binary⟩,
  ⟨"exbi", "Ei", 1152921504606846976, binary⟩,
  ⟨"zebi", "Zi", 1180591620717411303424, binary⟩,
  ⟨"yobi", "Yi", 1208925819614629174706176, binary⟩]

/-- Micro is the one prefix with a Unicode symbol of its own. -/
def unicodeOf (symbol : String) : String := if symbol = "u" then "μ" else symbol

def PrefixRow.toPrefix {K : Type} [Scalar K] (row : PrefixRow) : Prefix K :=
  ⟨row.name, row.symbol, unicodeOf row.symbol, Scalar.ofDecimal row.multiplier, row.group⟩

/-- The table of all tabled prefixes. Their symbols are distinct, so each is added. -/
def prefixes {K : Type} [Scalar K] : PrefixTable K :=
  prefixRows.foldl (fun t row => (t.add row.toPrefix).toOption.getD t) .empty

end Metrology.Catalogue
