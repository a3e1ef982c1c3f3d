import FiraClient.Proof.Normalizers

/-!
# Bounding an angle to an interval of the circle

`abs_bound_angle` takes the angle relative to the centre of the interval, clamps the representative
`angle_mod` picks, and turns back. While the tolerance is below half a turn the clamped value is
itself the representative of the result relative to the centre, whatever the two roundings pick.
-/

namespace FiraClient

open AddCommGroup Turn

theorem angleDist_eq (a b : ℚ) : angleDist a b = circleDist (2 * mPi) (a - b) :=
  (circleDist_eq_abs mPi_pos (angleMod_modEq (a - b)) (abs_angleMod_le (a - b))).symm

theorem angleDist_comm (a b : ℚ) : angleDist a b = angleDist b a := by
  rw [angleDist_eq, angleDist_eq, ← circleDist_neg two_mPi_pos, neg_sub]

theorem angleDist_le_add (a b c : ℚ) : angleDist a c ≤ angleDist a b + angleDist b c := by
  rw [angleDist_eq, angleDist_eq, angleDist_eq, ← sub_add_sub_cancel a b c]
  exact circleDist_add_le two_mPi_pos _ _

theorem angleDist_of_modEq {a b : ℚ} (hmod : a ≡ b [PMOD 2 * mPi]) : angleDist a b = 0 := by
  have hdiff := hmod.sub_right b
  rw [sub_self] at hdiff
  rw [angleDist_eq, circleDist_eq_abs mPi_pos hdiff.symm (by rw [abs_zero]; exact mPi_pos.le),
    abs_zero]

section AbsBound

variable {x range : ℚ} (hrange : 0 ≤ range)

include hrange

theorem absBound_eq : absBound x range = max (-range) (min range x) := by
  unfold absBound
  rcases lt_or_ge x (-range) with hlow | hlow
  · have hself : ¬-range > range := by linarith
    rw [if_pos hlow, if_neg hself, min_eq_right (by linarith), max_eq_left hlow.le]
  · rw [if_neg (not_lt.mpr hlow)]
    rcases lt_or_ge range x with hhigh | hhigh
    · rw [if_pos hhigh, min_eq_left hhigh.le, max_eq_right (by linarith)]
    · rw [if_neg (not_lt.mpr hhigh), min_eq_right hhigh, max_eq_right hlow]

theorem abs_absBound_le : |absBound x range| ≤ range := by
  rw [absBound_eq hrange, abs_le]
  exact ⟨le_max_left _ _, max_le (by linarith) (min_le_left _ _)⟩

theorem absBound_of_abs_le (hx : |x| ≤ range) : absBound x range = x := by
  obtain ⟨hlow, hhigh⟩ := abs_le.mp hx
  rw [absBound_eq hrange, min_eq_right hhigh, max_eq_right hlow]

/-- A value that is out of range moves to the end on its own side. -/
theorem absBound_of_lt (hx : range < |x|) :
    |absBound x range| = range ∧ |absBound x range - x| = |x| - range := by
  rw [absBound_eq hrange]
  rcases lt_abs.mp hx with hhigh | hlow
  · have hpos : 0 < x := lt_of_le_of_lt hrange hhigh
    rw [min_eq_left hhigh.le, max_eq_right (by linarith), abs_of_nonneg hrange, abs_of_pos hpos,
      abs_of_neg (by linarith)]
    exact ⟨rfl, by ring⟩
  · have hneg : x < 0 := by linarith
    rw [min_eq_right (by linarith), max_eq_left (by linarith), abs_neg, abs_of_nonneg hrange,
      abs_of_neg hneg, abs_of_pos (by linarith)]
    exact ⟨rfl, by ring⟩

end AbsBound

/-- `r` is the angle of the interval around `boundAngle` that is closest to `a`. -/
structure BoundsAngle (boundAngle tolerance a r : ℚ) : Prop where
  abs_le : |r| ≤ mPi
  within : angleDist r boundAngle ≤ tolerance
  keeps : angleDist a boundAngle ≤ tolerance → r ≡ a [PMOD 2 * mPi]
  atEnd : tolerance < angleDist a boundAngle → angleDist r boundAngle = tolerance
  closest : ∀ y, angleDist y boundAngle ≤ tolerance → angleDist r a ≤ angleDist y a

/-- The clamped value represents the result relative to the centre. -/
theorem clamped_modEq (boundAngle tolerance a : ℚ) :
    absBound (angleMod (a - boundAngle)) tolerance ≡
      absBoundAngle boundAngle tolerance a - boundAngle [PMOD 2 * mPi] := by
  have hback := (angleMod_modEq
    (absBound (angleMod (a - boundAngle)) tolerance + boundAngle)).sub_right boundAngle
  rw [add_sub_cancel_right] at hback
  exact hback.symm

section Bound

variable {tolerance : ℚ} (htolerance : 0 ≤ tolerance) (hhalf : tolerance < mPi)
  (boundAngle a : ℚ)

include htolerance

theorem absBoundAngle_modEq_of_le (hin : angleDist a boundAngle ≤ tolerance) :
    absBoundAngle boundAngle tolerance a ≡ a [PMOD 2 * mPi] := by
  have hclamped := clamped_modEq boundAngle tolerance a
  rw [absBound_of_abs_le htolerance hin] at hclamped
  have hback := (hclamped.symm.trans (angleMod_modEq (a - boundAngle))).add_right boundAngle
  rwa [sub_add_cancel, sub_add_cancel] at hback

/-- What the clamp took off is the way that is left. -/
theorem angleDist_absBoundAngle_of_lt (hout : tolerance < angleDist a boundAngle) :
    angleDist (absBoundAngle boundAngle tolerance a) a = angleDist a boundAngle - tolerance := by
  have hmoved : absBound (angleMod (a - boundAngle)) tolerance - angleMod (a - boundAngle) ≡
      absBoundAngle boundAngle tolerance a - a [PMOD 2 * mPi] := by
    have hdiff := (clamped_modEq boundAngle tolerance a).sub (angleMod_modEq (a - boundAngle))
    rwa [sub_sub_sub_cancel_right] at hdiff
  have hlength : |absBound (angleMod (a - boundAngle)) tolerance - angleMod (a - boundAngle)| =
      angleDist a boundAngle - tolerance := (absBound_of_lt htolerance hout).2
  have hle : angleDist a boundAngle ≤ mPi := abs_angleMod_le _
  rw [angleDist_eq, circleDist_eq_abs mPi_pos hmoved (by linarith), hlength]

include hhalf

theorem angleDist_absBoundAngle :
    angleDist (absBoundAngle boundAngle tolerance a) boundAngle =
      |absBound (angleMod (a - boundAngle)) tolerance| := by
  rw [angleDist_eq]
  exact circleDist_eq_abs mPi_pos (clamped_modEq boundAngle tolerance a)
    ((abs_absBound_le htolerance).trans hhalf.le)

theorem absBoundAngle_bounds :
    BoundsAngle boundAngle tolerance a (absBoundAngle boundAngle tolerance a) := by
  refine ⟨abs_angleMod_le _, ?_, absBoundAngle_modEq_of_le htolerance boundAngle a, ?_, ?_⟩
  · rw [angleDist_absBoundAngle htolerance hhalf]
    exact abs_absBound_le htolerance
  · intro hout
    rw [angleDist_absBoundAngle htolerance hhalf]
    exact (absBound_of_lt htolerance hout).1
  · intro y hy
    rcases le_or_gt (angleDist a boundAngle) tolerance with hin | hout
    · rw [angleDist_of_modEq (absBoundAngle_modEq_of_le htolerance boundAngle a hin)]
      exact abs_nonneg _
    · have htriangle := angleDist_le_add a y boundAngle
      calc
        angleDist (absBoundAngle boundAngle tolerance a) a
            = angleDist a boundAngle - tolerance :=
          angleDist_absBoundAngle_of_lt htolerance boundAngle a hout
        _ ≤ angleDist a y := by linarith
        _ = angleDist y a := angleDist_comm a y

theorem absBoundAngle_idempotent :
    absBoundAngle boundAngle tolerance (absBoundAngle boundAngle tolerance a) =
      absBoundAngle boundAngle tolerance a := by
  have hbound : |absBound (angleMod (a - boundAngle)) tolerance| ≤ tolerance :=
    abs_absBound_le htolerance
  have hrelative : angleMod (absBoundAngle boundAngle tolerance a - boundAngle) =
      absBound (angleMod (a - boundAngle)) tolerance :=
    (eq_of_modEq_of_abs_lt_half
      ((clamped_modEq boundAngle tolerance a).trans (angleMod_modEq _).symm)
      (lt_of_le_of_lt hbound hhalf) (abs_angleMod_le _)).symm
  rw [absBoundAngle, hrelative, absBound_of_abs_le htolerance hbound]
  rfl

/-- **`abs_bound_angle` clamps on the circle.** -/
theorem absBoundAngle_clamps :
    BoundsAngle boundAngle tolerance a (absBoundAngle boundAngle tolerance a) ∧
      absBoundAngle boundAngle tolerance (absBoundAngle boundAngle tolerance a) =
        absBoundAngle boundAngle tolerance a :=
  ⟨absBoundAngle_bounds htolerance hhalf boundAngle a,
    absBoundAngle_idempotent htolerance hhalf boundAngle a⟩

end Bound

/-- An interval over the end of the range, several turns up, and an angle on its far side. -/
theorem absBoundAngle_clamps_across :
    BoundsAngle 22 (1 / 2) (-1) (absBoundAngle 22 (1 / 2) (-1)) ∧
      absBoundAngle 22 (1 / 2) (absBoundAngle 22 (1 / 2) (-1)) =
        absBoundAngle 22 (1 / 2) (-1 : ℚ) :=
  absBoundAngle_clamps (by norm_num) (by norm_num [mPi]) 22 (-1)

end FiraClient
