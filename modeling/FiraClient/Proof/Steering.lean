import FiraClient.Proof.Envelope
import Mathlib.Data.Sign.Basic

/-!
# Steering towards the objective

The remembered error never exceeds what the selection of the front lets through, and at large
errors the proportional term outweighs anything the derivative term can remember.
-/

namespace FiraClient

/-- A call as the main loop makes it: an orientation off the wire, brought into range, and any
bearing `atan2` can give. -/
structure Sighting where
  orientation : ℚ
  bearing : ℚ
  abs_bearing_le : |bearing| ≤ mPi
  index : Int32

def Sighting.input (sighting : Sighting) : PidInput ℚ where
  heading := to180range sighting.orientation
  bearing := sighting.bearing
  index := sighting.index

theorem Sighting.abs_error_le (sighting : Sighting) :
    |sighting.input.error| ≤ 11 * mPi / 20 :=
  abs_selectFront_le (abs_to180range_le sighting.orientation) sighting.abs_bearing_le

theorem abs_lastError_le (sightings : List Sighting) :
    |pid.after (initialError : ℚ) (sightings.map Sighting.input)| ≤ 11 * mPi / 20 := by
  refine pid.after_induction (fun lastError => |lastError| ≤ 11 * mPi / 20)
    (fun input => |input.error| ≤ 11 * mPi / 20) (fun _ _ hinput _ => hinput) ?_ _ ?_
  · have hpos := mPi_pos
    rw [initialError, lit_rat, abs_zero]
    linarith
  · intro input hinput
    obtain ⟨sighting, _, rfl⟩ := List.mem_map.mp hinput
    exact sighting.abs_error_le

theorem sign_normalize (value : ℚ) : SignType.sign (normalize value) = SignType.sign value := by
  rw [normalize_eq]
  rcases lt_trichotomy value 0 with hneg | rfl | hpos
  · have hclamped : max (-30) (min 30 value) < 0 :=
      max_lt (by norm_num) (lt_of_le_of_lt (min_le_right _ _) hneg)
    rw [sign_neg hclamped, sign_neg hneg]
  · norm_num
  · have hclamped : 0 < max (-30) (min 30 value) :=
      lt_max_of_lt_right (lt_min (by norm_num) hpos)
    rw [sign_pos hclamped, sign_pos hpos]

/-- Past a ninth of the largest error, the memory cannot turn the control value round. -/
theorem sign_motorSpeed {error lastError : ℚ} (hlast : |lastError| ≤ 11 * mPi / 20)
    (herror : 11 * mPi / 180 < |error|) :
    SignType.sign (motorSpeed error lastError) = SignType.sign error := by
  have hpos := mPi_pos
  obtain ⟨hlow, hhigh⟩ := abs_le.mp hlast
  have hvalue : motorSpeed error lastError = 20 * error + 5 / 2 * (error - lastError) := rfl
  rcases lt_abs.mp herror with hright | hleft
  · have herrorPos : 0 < error := by linarith
    have hvaluePos : 0 < motorSpeed error lastError := by
      rw [hvalue]
      linarith
    rw [sign_pos hvaluePos, sign_pos herrorPos]
  · have herrorNeg : error < 0 := by linarith
    have hvalueNeg : motorSpeed error lastError < 0 := by
      rw [hvalue]
      linarith
    rw [sign_neg hvalueNeg, sign_neg herrorNeg]

/-- **Steering is towards the objective on every run.** -/
theorem steers_towards_objective (sightings : List Sighting) (next : Sighting) :
    |pid.after (initialError : ℚ) (sightings.map Sighting.input)| ≤ 11 * mPi / 20 ∧
      (11 * mPi / 180 < |next.input.error| →
        let command := pid.emit (pid.after initialError (sightings.map Sighting.input)) next.input
        command.leftMotorSpeed - command.rightMotorSpeed ≠ 0 ∧
          SignType.sign (command.leftMotorSpeed - command.rightMotorSpeed) =
            SignType.sign next.input.error) := by
  have hlast := abs_lastError_le sightings
  refine ⟨hlast, fun herror => ?_⟩
  have hne : next.input.error ≠ 0 := by
    have hpos := mPi_pos
    exact abs_pos.mp (by linarith)
  have hsign : SignType.sign (normalize (motorSpeed next.input.error
      (pid.after initialError (sightings.map Sighting.input)))) =
        SignType.sign next.input.error := by
    rw [sign_normalize, sign_motorSpeed hlast herror]
  intro command
  rw [show command.leftMotorSpeed - command.rightMotorSpeed = _ from pidCommand_difference _ _]
  refine ⟨?_, hsign⟩
  rw [← sign_ne_zero, hsign, sign_ne_zero]
  exact hne

end FiraClient
