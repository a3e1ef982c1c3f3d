import FiraClient.Pid

/-!
# Angles read exactly

Over the rationals `to180range` and `smallestAngleDiff` are one truncated remainder and one
corrective turn. What they are worth follows: congruence modulo a turn for every argument, and a
magnitude of at most a half turn. The front `PID` selects is then within `11π/20` of the objective.
-/

namespace FiraClient

open AddCommGroup Turn

theorem two_mPi_pos : 0 < 2 * mPi := by
  have hpos := mPi_pos
  linarith

/-- The order of the two tests does not matter: they exclude each other. -/
theorem to180range_eq (angle : ℚ) :
    to180range angle = wrapOnce mPi (Turn.fmod angle (2 * mPi)) := by
  have hpos := mPi_pos
  simp only [to180range, wrapOnce, fmod_rat, lit_rat]
  split_ifs with hlow hhigh
  · linarith
  · rfl
  · rfl
  · rfl

theorem smallestAngleDiff_eq (target source : ℚ) :
    smallestAngleDiff target source =
      wrapOnce mPi (Turn.fmod (target + 2 * mPi) (2 * mPi) -
        Turn.fmod (source + 2 * mPi) (2 * mPi)) := rfl

theorem to180range_modEq (angle : ℚ) : to180range angle ≡ angle [PMOD 2 * mPi] := by
  rw [to180range_eq]
  exact (wrapOnce_modEq mPi _).trans (fmod_modEq angle _)

theorem abs_to180range_le (angle : ℚ) : |to180range angle| ≤ mPi := by
  have hpos := mPi_pos
  have hfmod : |Turn.fmod angle (2 * mPi)| < 2 * mPi := abs_fmod_lt angle two_mPi_pos
  rw [to180range_eq]
  exact abs_wrapOnce_le (by linarith)

theorem fmod_add_turn_modEq (angle : ℚ) :
    Turn.fmod (angle + 2 * mPi) (2 * mPi) ≡ angle [PMOD 2 * mPi] := by
  apply (fmod_modEq _ _).trans
  rw [modEq_iff_eq_add_zsmul]
  exact ⟨-1, by simp⟩

theorem smallestAngleDiff_modEq (target source : ℚ) :
    smallestAngleDiff target source ≡ target - source [PMOD 2 * mPi] := by
  rw [smallestAngleDiff_eq]
  apply (wrapOnce_modEq mPi _).trans
  exact (fmod_add_turn_modEq target).sub (fmod_add_turn_modEq source)

/-- One corrective turn is enough for angles that are not a turn or more below zero: the remainder
of each after the added turn is then in `[0, 2π)`. -/
theorem abs_smallestAngleDiff_le {target source : ℚ} (htarget : -(2 * mPi) ≤ target)
    (hsource : -(2 * mPi) ≤ source) : |smallestAngleDiff target source| ≤ mPi := by
  have hpos := mPi_pos
  have htnonneg := fmod_nonneg (x := target + 2 * mPi) (by linarith) two_mPi_pos
  have htlt := fmod_lt (x := target + 2 * mPi) (by linarith) two_mPi_pos
  have hsnonneg := fmod_nonneg (x := source + 2 * mPi) (by linarith) two_mPi_pos
  have hslt := fmod_lt (x := source + 2 * mPi) (by linarith) two_mPi_pos
  rw [smallestAngleDiff_eq]
  apply abs_wrapOnce_le
  rw [abs_le]
  constructor <;> linarith

def frontLimit : ℚ := mPi / 2 + mPi / 20

theorem selectFront_of_le {angleRob angleObj : ℚ}
    (hle : |smallestAngleDiff angleRob angleObj| ≤ frontLimit) :
    selectFront angleRob angleObj = (false, smallestAngleDiff angleRob angleObj) := by
  simp only [selectFront, fabs_rat, lit_rat]
  exact if_neg (not_lt.mpr hle)

theorem selectFront_of_lt {angleRob angleObj : ℚ}
    (hlt : frontLimit < |smallestAngleDiff angleRob angleObj|) :
    selectFront angleRob angleObj =
      (true, smallestAngleDiff (to180range (angleRob + mPi)) angleObj) := by
  simp only [selectFront, fabs_rat, lit_rat]
  exact if_pos hlt

section Range

variable {angleRob angleObj : ℚ} (hrob : |angleRob| ≤ mPi) (hobj : |angleObj| ≤ mPi)

include hrob hobj

theorem abs_error_front_le : |smallestAngleDiff angleRob angleObj| ≤ mPi := by
  have hpos := mPi_pos
  have hrobLow := (abs_le.mp hrob).1
  have hobjLow := (abs_le.mp hobj).1
  exact abs_smallestAngleDiff_le (by linarith) (by linarith)

theorem abs_error_back_eq :
    |smallestAngleDiff (to180range (angleRob + mPi)) angleObj| =
      mPi - |smallestAngleDiff angleRob angleObj| := by
  have hback : |smallestAngleDiff (to180range (angleRob + mPi)) angleObj| ≤ mPi :=
    abs_error_front_le (abs_to180range_le _) hobj
  refine abs_eq_half_sub_of_modEq_add_half ?_ hback (abs_error_front_le hrob hobj)
  have hturned : to180range (angleRob + mPi) - angleObj ≡ angleRob + mPi - angleObj
      [PMOD 2 * mPi] := (to180range_modEq (angleRob + mPi)).sub_right angleObj
  have hfront := (smallestAngleDiff_modEq angleRob angleObj).symm.add_right mPi
  rw [show angleRob + mPi - angleObj = angleRob - angleObj + mPi by ring] at hturned
  exact (smallestAngleDiff_modEq _ _).trans (hturned.trans hfront)

/-- **The selected front.** Whichever front `PID` drives with, the objective is at most `11π/20`
away from it. -/
theorem abs_selectFront_le : |(selectFront angleRob angleObj).2| ≤ 11 * mPi / 20 := by
  have hpos := mPi_pos
  rcases le_or_gt |smallestAngleDiff angleRob angleObj| frontLimit with hle | hlt
  · rw [selectFront_of_le hle]
    unfold frontLimit at hle
    linarith
  · rw [selectFront_of_lt hlt, abs_error_back_eq hrob hobj]
    unfold frontLimit at hlt
    linarith

end Range

end FiraClient
