import FiraClient.Library.Turn
import Mathlib.Data.Rat.Floor

/-!
# The numbers the client computes with

The controller is written once, over any type with the arithmetic, the comparison and the `math.h`
functions it uses of `double`. Literals and constant expressions are rationals. The instance below
reads `double` as the exact rationals; `FiraClient.Double` adds the infinities and NaN.
-/

namespace FiraClient

/-- What the client uses of `double` beyond `+`, `-`, `*` and `<`: the literals, `fmod` and
`fabs`. -/
class CMath (R : Type) where
  lit : ℚ → R
  fmod : R → R → R
  fabs : R → R

export CMath (lit fmod fabs)

instance : CMath ℚ where
  lit := id
  fmod := Turn.fmod
  fabs := fun x => |x|

@[simp]
theorem lit_rat (q : ℚ) : (lit q : ℚ) = q := rfl

@[simp]
theorem fmod_rat (x y : ℚ) : fmod x y = Turn.fmod x y := rfl

@[simp]
theorem fabs_rat (x : ℚ) : fabs x = |x| := rfl

/-- `M_PI`, the `double` nearest to π, as the exact rational it is. -/
def mPi : ℚ := 884279719003555 / 281474976710656

theorem mPi_pos : 0 < mPi := by
  norm_num [mPi]

end FiraClient
