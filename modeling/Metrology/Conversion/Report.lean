import Metrology.Conversion
import Metrology.Factor.Report

/-!
# Reporting conversions

A conversion is told as what one of its source unit is in its destination unit.
-/
namespace Metrology.Conversion

def text (c : Conversion Float) : String := "1 " ++ c.src ++ " = " ++ c.factor.text ++ " " ++ c.dest

end Metrology.Conversion
