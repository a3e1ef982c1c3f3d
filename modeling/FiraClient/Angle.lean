import FiraClient.Number

/-!
# The angle functions of `main.cpp`
-/

namespace FiraClient

variable {R : Type} [Add R] [Sub R] [LT R] [DecidableLT R] [CMath R]

def to180range (angle : R) : R :=
  let angle := fmod angle (lit (2 * mPi))
  if angle < lit (-mPi) then angle + lit (2 * mPi)
  else if angle > lit mPi then angle - lit (2 * mPi)
  else angle

def smallestAngleDiff (target source : R) : R :=
  let a := fmod (target + lit (2 * mPi)) (lit (2 * mPi)) -
    fmod (source + lit (2 * mPi)) (lit (2 * mPi))
  if a > lit mPi then a - lit (2 * mPi)
  else if a < lit (-mPi) then a + lit (2 * mPi)
  else a

end FiraClient
