import FiraClient.Proof.BoundAngle

/-!
# Representatives of an angle

`angle_pos` adds one turn before it takes the truncated remainder, so it gives the representative in
`[0, 2π)` down to one turn below zero; further down the remainder is negative. `angle_long` and
`avg_angle` work on an angle that is reduced already, where one turn is enough.
-/

namespace FiraClient

open AddCommGroup Turn

/-! ### `angle_pos` -/

/-- What is asked of the three reductions of an angle. -/
structure Interchangeable (angle : ℚ) : Prop where
  pos_nonneg : 0 ≤ anglePos angle
  pos_le : anglePos angle ≤ 2 * mPi
  pos_modEq : anglePos angle ≡ angle [PMOD 2 * mPi]
  mod_pos : angleMod (anglePos angle) = angleMod angle ∨
    |angleMod (anglePos angle)| = mPi ∧ |angleMod angle| = mPi
  pos_mod : anglePos (angleMod angle) = anglePos angle
  le_long : mPi ≤ |angleLong (angleMod angle)|
  long_le : |angleLong (angleMod angle)| ≤ 2 * mPi
  long_modEq : angleLong (angleMod angle) ≡ angle [PMOD 2 * mPi]

section Reductions

variable {angle : ℚ}

theorem anglePos_modEq (angle : ℚ) : anglePos angle ≡ angle [PMOD 2 * mPi] :=
  fmod_add_turn_modEq angle

theorem anglePos_of_le (hle : -(2 * mPi) ≤ angle) : anglePos angle = forward (2 * mPi) angle :=
  fmod_add_turn_of_le hle

theorem anglePos_of_lt (hlt : angle < -(2 * mPi)) :
    anglePos angle = -forward (2 * mPi) (-angle) :=
  fmod_add_turn_of_lt hlt

/-- Further than a turn below zero the remainder is negative, unless it is zero. -/
theorem anglePos_nonneg_iff :
    0 ≤ anglePos angle ↔ -(2 * mPi) ≤ angle ∨ ∃ k : ℤ, angle = k * (2 * mPi) := by
  constructor
  · intro hnonneg
    rcases le_or_gt (-(2 * mPi)) angle with hle | hlt
    · exact Or.inl hle
    · have hforward := forward_nonneg two_mPi_pos (-angle)
      rw [anglePos_of_lt hlt] at hnonneg
      have hzero : anglePos angle = 0 := by
        rw [anglePos_of_lt hlt]
        linarith
      obtain ⟨k, hk⟩ := modEq_iff_eq_add_zsmul.mp (anglePos_modEq angle)
      rw [hzero, zero_add, zsmul_eq_mul] at hk
      exact Or.inr ⟨k, hk⟩
  · rintro (hle | ⟨k, rfl⟩)
    · rw [anglePos_of_le hle]
      exact forward_nonneg two_mPi_pos angle
    · rcases le_or_gt (-(2 * mPi)) (k * (2 * mPi)) with hle | hlt
      · rw [anglePos_of_le hle]
        exact forward_nonneg two_mPi_pos _
      · have hmod : 0 ≡ -(k * (2 * mPi)) [PMOD 2 * mPi] := by
          rw [modEq_iff_eq_add_zsmul]
          exact ⟨-k, by rw [zsmul_eq_mul]; push_cast; ring⟩
        rw [anglePos_of_lt hlt, forward_eq two_mPi_pos hmod le_rfl two_mPi_pos, neg_zero]

theorem anglePos_lt (angle : ℚ) : anglePos angle < 2 * mPi :=
  (abs_lt.mp (abs_fmod_lt _ two_mPi_pos)).2

theorem anglePos_of_nonneg (hnonneg : 0 ≤ anglePos angle) :
    anglePos angle = forward (2 * mPi) angle :=
  (forward_eq two_mPi_pos (anglePos_modEq angle) hnonneg (anglePos_lt angle)).symm

theorem anglePos_angleMod (angle : ℚ) :
    anglePos (angleMod angle) = forward (2 * mPi) angle := by
  have hpos := mPi_pos
  have hlow := (abs_le.mp (abs_angleMod_le angle)).1
  rw [anglePos_of_le (by linarith)]
  exact forward_congr two_mPi_pos (angleMod_modEq angle)

theorem angleMod_congr {a b : ℚ} (hmod : a ≡ b [PMOD 2 * mPi]) :
    angleMod a = angleMod b ∨ |angleMod a| = mPi ∧ |angleMod b| = mPi :=
  eq_or_abs_eq_half ((angleMod_modEq a).trans (hmod.trans (angleMod_modEq b).symm))
    (abs_angleMod_le a) (abs_angleMod_le b)

theorem angleLong_modEq (angle : ℚ) : angleLong angle ≡ angle [PMOD 2 * mPi] := by
  rw [modEq_iff_eq_add_zsmul]
  simp only [angleLong, lit_rat, m2Pi]
  split_ifs
  · exact ⟨-1, by simp⟩
  · exact ⟨1, by simp⟩

/-- The secondary angle is the rest of the turn the other way round. -/
theorem abs_angleLong (hle : |angle| ≤ mPi) : |angleLong angle| = 2 * mPi - |angle| := by
  have hpos := mPi_pos
  obtain ⟨hlow, hhigh⟩ := abs_le.mp hle
  simp only [angleLong, lit_rat, m2Pi]
  split_ifs with hneg
  · rw [abs_of_neg hneg, abs_of_pos (by linarith)]
    ring
  · rw [abs_of_nonneg (not_lt.mp hneg), abs_of_nonpos (by linarith)]
    ring

/-- **The representatives of an angle are interchangeable exactly when** the angle is not more than a
turn below zero or is a whole number of turns. -/
theorem representatives_interchangeable_iff (angle : ℚ) :
    Interchangeable angle ↔ -(2 * mPi) ≤ angle ∨ ∃ k : ℤ, angle = k * (2 * mPi) := by
  rw [← anglePos_nonneg_iff]
  refine ⟨Interchangeable.pos_nonneg, fun hnonneg => ?_⟩
  have hle := abs_angleMod_le angle
  have hlong := abs_angleLong hle
  have hmod := abs_nonneg (angleMod angle)
  exact {
    pos_nonneg := hnonneg
    pos_le := (anglePos_lt angle).le
    pos_modEq := anglePos_modEq angle
    mod_pos := angleMod_congr (anglePos_modEq angle)
    pos_mod := (anglePos_angleMod angle).trans (anglePos_of_nonneg hnonneg).symm
    le_long := by linarith
    long_le := by linarith
    long_modEq := (angleLong_modEq _).trans (angleMod_modEq angle) }

/-- A little more than a turn below zero. -/
theorem representatives_not_interchangeable : ¬Interchangeable (-7) := by
  intro hinterchangeable
  have hnonneg := hinterchangeable.pos_nonneg
  revert hnonneg
  decide +kernel

end Reductions

/-! ### `avg_angle` -/

/-- `middle` halves the counterclockwise turn from `right` to `left`. -/
structure Bisects (left right middle : ℚ) : Prop where
  lt_middle : -mPi < middle
  middle_le : middle ≤ mPi
  midway : (middle - right) - (left - middle) ≡ 0 [PMOD 2 * mPi]
  turn_lt : forward (2 * mPi) (middle - right) < mPi
  turn_half : 2 * forward (2 * mPi) (middle - right) = forward (2 * mPi) (left - right)
  equidistant : angleDist middle left = angleDist middle right

section Average

variable (left right : Set.Ioc (-mPi) mPi)

/-- The counterclockwise turn from `right` to `left`. -/
def ahead : ℚ := forward (2 * mPi) (left - right)

theorem ahead_nonneg : 0 ≤ ahead left right := forward_nonneg two_mPi_pos _

theorem ahead_lt : ahead left right < 2 * mPi := forward_lt two_mPi_pos _

/-- The first wrap puts `left` ahead of `right`. -/
theorem left_raised_eq :
    (if left < right then (left : ℚ) + 2 * mPi else left) = right + ahead left right := by
  have hleft := left.2.1
  have hleft' := left.2.2
  have hright := right.2.1
  have hright' := right.2.2
  rw [ahead]
  split_ifs with hlt
  · have hlt' : (left : ℚ) < right := hlt
    have hmod : (left : ℚ) - right + 2 * mPi ≡ left - right [PMOD 2 * mPi] := by
      rw [modEq_iff_eq_add_zsmul]
      exact ⟨-1, by simp⟩
    rw [forward_eq two_mPi_pos hmod (by linarith) (by linarith)]
    ring
  · have hle : (right : ℚ) ≤ left := not_lt.mp hlt
    rw [forward_eq two_mPi_pos modEq_rfl (by linarith) (by linarith)]
    ring

/-- The second wrap takes off the turn the first may have put on. -/
theorem avgAngle_eq :
    avgAngle (left : ℚ) right =
      if mPi < right + ahead left right / 2 then right + ahead left right / 2 - 2 * mPi
      else right + ahead left right / 2 := by
  have hmiddle : (right + ahead left right + right) / 2 = right + ahead left right / 2 := by ring
  have hraised := left_raised_eq left right
  simp only [avgAngle, lit_rat, Subtype.coe_lt_coe, hraised, hmiddle, gt_iff_lt]

theorem avgAngle_bounds :
    -mPi < avgAngle (left : ℚ) right ∧ avgAngle (left : ℚ) right ≤ mPi := by
  have hnonneg := ahead_nonneg left right
  have hlt := ahead_lt left right
  have hright := right.2.1
  have hright' := right.2.2
  rw [avgAngle_eq]
  split_ifs with hover
  · constructor <;> linarith
  · constructor <;> linarith

theorem avgAngle_modEq :
    avgAngle (left : ℚ) right ≡ right + ahead left right / 2 [PMOD 2 * mPi] := by
  rw [modEq_iff_eq_add_zsmul, avgAngle_eq]
  split_ifs
  · exact ⟨1, by simp⟩
  · exact ⟨0, by simp⟩

theorem middle_sub_right_modEq :
    ahead left right / 2 ≡ avgAngle (left : ℚ) right - right [PMOD 2 * mPi] := by
  have hmod := (avgAngle_modEq left right).sub_right (right : ℚ)
  rw [add_sub_cancel_left] at hmod
  exact hmod.symm

theorem middle_sub_left_modEq :
    -(ahead left right / 2) ≡ avgAngle (left : ℚ) right - left [PMOD 2 * mPi] := by
  have hturn : ahead left right ≡ left - right [PMOD 2 * mPi] := forward_modEq two_mPi_pos _
  have hmod := (middle_sub_right_modEq left right).sub hturn
  have hhalf : ahead left right / 2 - ahead left right = -(ahead left right / 2) := by ring
  rwa [hhalf, sub_sub_sub_cancel_right] at hmod

/-- **`avg_angle` bisects** the turn between two normalized angles. -/
theorem avgAngle_bisects : Bisects left right (avgAngle (left : ℚ) right) := by
  have hnonneg := ahead_nonneg left right
  have hlt := ahead_lt left right
  obtain ⟨hlow, hhigh⟩ := avgAngle_bounds left right
  have hright := middle_sub_right_modEq left right
  have hleft := middle_sub_left_modEq left right
  have hhalf : forward (2 * mPi) (avgAngle (left : ℚ) right - right) = ahead left right / 2 :=
    forward_eq two_mPi_pos hright (by linarith) (by linarith)
  refine ⟨hlow, hhigh, ?_, ?_, ?_, ?_⟩
  · have hsum := (hright.add hleft).symm
    rwa [add_neg_cancel, ← neg_sub (left : ℚ), ← sub_eq_add_neg] at hsum
  · rw [hhalf]
    linarith
  · rw [hhalf, ahead]
    ring
  · rw [angleDist_eq, angleDist_eq, ← circleDist_congr two_mPi_pos hleft,
      circleDist_neg two_mPi_pos, circleDist_congr two_mPi_pos hright]

end Average

end FiraClient
