import FiraClient.Library.Extended
import FiraClient.Number

/-!
# Doubles with infinities and NaN

The second reading of `double`: exact rationals, the two infinities and NaN.
-/

namespace FiraClient

abbrev Double := Extended ℚ

instance : CMath Double where
  lit := Extended.finite
  fmod := Extended.fmod
  fabs := Extended.abs

@[simp]
theorem lit_double (q : ℚ) : (lit q : Double) = Extended.finite q := rfl

@[simp]
theorem fmod_double (x y : Double) : fmod x y = Extended.fmod x y := rfl

@[simp]
theorem fabs_double (x : Double) : fabs x = Extended.abs x := rfl

/-- What is relied on of `atan2`: a NaN argument gives NaN, and any others an angle within a half
turn. -/
structure IsAtan2 (atan2 : Double → Double → Double) : Prop where
  nan_left : ∀ x, atan2 .nan x = .nan
  nan_right : ∀ y, atan2 y .nan = .nan
  range : ∀ y x, y ≠ .nan → x ≠ .nan → ∃ bearing : ℚ, |bearing| ≤ mPi ∧ atan2 y x = .finite bearing

end FiraClient
