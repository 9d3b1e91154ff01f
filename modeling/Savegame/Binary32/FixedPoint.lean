import Savegame.Binary32.Basic

/-!
# Fixed point

A number as a whole count of ten-thousandths in 32 bits, the form in which newer records hold
angles. Multiplying and dividing each round once to binary32.
-/

namespace Savegame.Binary32

/-- Steps per unit of the fixed-point form. -/
def precision : Nat := 10000

def toFixedPoint (x : Binary32) : Int32 :=
  (x.scale precision).round

def ofFixedPoint (n : Int32) : Binary32 :=
  (ofInt n.toInt).divide precision

end Savegame.Binary32
