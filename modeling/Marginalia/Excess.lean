/-!
# Excess

Bounds on what is read and made. A numeral has a greatest number of digits, and values are nested,
and folders made inside each other, only to a greatest depth.
-/

namespace Marginalia

inductive Excess where
  | digits (count : Nat)
  | depth
  deriving DecidableEq, Repr

/-- The greatest depth, in levels of one unit each. What takes more than one unit a level is
nested accordingly less deep. -/
def deepest : Nat := 985

end Marginalia
