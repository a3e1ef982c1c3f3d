import FiraClient.Library.Circle
import FiraClient.Number

/-!
# The angle functions of `util.h`

Templates over the floating-point type, read here at the types the controller is read at. They need
a division and `rint`, which the controller does not.
-/

namespace FiraClient

/-- `rint` in the default rounding mode: to the nearest integer, ties to the even one. -/
class Rint (R : Type) where
  rint : R → R

export Rint (rint)

instance : Rint ℚ where
  rint := fun x => Turn.rint x

/-- `M_2PI`: the `double` nearest to the literal is twice `M_PI`. -/
def m2Pi : ℚ := 2 * mPi

variable {R : Type} [Add R] [Sub R] [Neg R] [Mul R] [Div R] [LT R] [DecidableLT R] [CMath R]
  [Rint R]

def absBound (x range : R) : R :=
  let x := if x < -range then -range else x
  if x > range then range else x

def angleMod (angle : R) : R := angle - lit m2Pi * rint (angle / lit m2Pi)

def angleLong (angle : R) : R :=
  if angle < lit 0 then lit m2Pi + angle else -lit m2Pi + angle

def anglePos (angle : R) : R := fmod (angle + lit m2Pi) (lit m2Pi)

def angleDiff (a b : R) : R :=
  let d := a - b
  d - lit m2Pi * rint (d / lit m2Pi)

def angleDist (a b : R) : R := fabs (angleMod (a - b))

def avgAngle (left right : R) : R :=
  let left := if left < right then left + lit (2 * mPi) else left
  let result := (left + right) / lit 2
  if result > lit mPi then result - lit (2 * mPi) else result

def absBoundAngle (boundAngle tolerance a : R) : R :=
  let x := angleMod (a - boundAngle)
  let x := absBound x tolerance
  angleMod (x + boundAngle)

end FiraClient
