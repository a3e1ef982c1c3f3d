import FiraClient.Library.Circle
import FiraClient.Proof.Envelope

/-!
# The controller on the circle

Which front `PID` selects depends on the distance of the heading from the bearing on the circle and
on nothing else, and the error it then works with is the one representative below half a turn of the
angle between that front and the bearing. So a change of both angles that keeps the angle between
them changes nothing, a reflection changes the signs, and turning the robot round changes the driving
mode.
-/

namespace FiraClient

open AddCommGroup Turn

/-- A heading and a bearing in the range in which `PID` gets them. -/
structure Facing where
  heading : ℚ
  bearing : ℚ
  abs_heading_le : |heading| ≤ mPi
  abs_bearing_le : |bearing| ≤ mPi

namespace Facing

def input (facing : Facing) (index : Int32) : PidInput ℚ where
  heading := facing.heading
  bearing := facing.bearing
  index := index

def reversed (facing : Facing) : Bool := (selectFront facing.heading facing.bearing).1

/-- The error `PID` uses and stores. -/
def error (facing : Facing) : ℚ := (selectFront facing.heading facing.bearing).2

def distance (facing : Facing) : ℚ := circleDist (2 * mPi) (facing.heading - facing.bearing)

/-- The direction of the front the robot drives with. -/
def front (facing : Facing) : ℚ :=
  if facing.reversed then facing.heading + mPi else facing.heading

/-! ### The selected front -/

section Selection

variable (facing : Facing)

theorem abs_front_error :
    |smallestAngleDiff facing.heading facing.bearing| = facing.distance :=
  (circleDist_eq_abs mPi_pos (smallestAngleDiff_modEq _ _)
    (abs_error_front_le facing.abs_heading_le facing.abs_bearing_le)).symm

theorem selectFront_of_distance_le (hle : facing.distance ≤ 11 * mPi / 20) :
    selectFront facing.heading facing.bearing =
      (false, smallestAngleDiff facing.heading facing.bearing) := by
  apply selectFront_of_le
  rw [abs_front_error, frontLimit]
  linarith

theorem selectFront_of_lt_distance (hlt : 11 * mPi / 20 < facing.distance) :
    selectFront facing.heading facing.bearing =
      (true, smallestAngleDiff (to180range (facing.heading + mPi)) facing.bearing) := by
  apply selectFront_of_lt
  rw [abs_front_error, frontLimit]
  linarith

theorem reversed_iff : facing.reversed = true ↔ 11 * mPi / 20 < facing.distance := by
  rcases le_or_gt facing.distance (11 * mPi / 20) with hle | hlt
  · have hselect := selectFront_of_distance_le facing hle
    exact iff_of_false (by simp [reversed, hselect]) (not_lt.mpr hle)
  · have hselect := selectFront_of_lt_distance facing hlt
    exact iff_of_true (by simp [reversed, hselect]) hlt

theorem error_modEq : facing.error ≡ facing.front - facing.bearing [PMOD 2 * mPi] := by
  rcases le_or_gt facing.distance (11 * mPi / 20) with hle | hlt
  · have hfront : facing.front = facing.heading :=
      if_neg (facing.reversed_iff.not.mpr (not_lt.mpr hle))
    have herror : facing.error = smallestAngleDiff facing.heading facing.bearing :=
      congrArg Prod.snd (selectFront_of_distance_le facing hle)
    rw [herror, hfront]
    exact smallestAngleDiff_modEq _ _
  · have hfront : facing.front = facing.heading + mPi := if_pos (facing.reversed_iff.mpr hlt)
    have herror : facing.error =
        smallestAngleDiff (to180range (facing.heading + mPi)) facing.bearing :=
      congrArg Prod.snd (selectFront_of_lt_distance facing hlt)
    rw [herror, hfront]
    exact (smallestAngleDiff_modEq _ _).trans ((to180range_modEq _).sub_right _)

theorem abs_error_le : |facing.error| ≤ 11 * mPi / 20 :=
  abs_selectFront_le facing.abs_heading_le facing.abs_bearing_le

theorem abs_error_lt_mPi : |facing.error| < mPi := by
  have hpos := mPi_pos
  have hle := facing.abs_error_le
  linarith

theorem abs_error_eq :
    |facing.error| = circleDist (2 * mPi) (facing.front - facing.bearing) :=
  (circleDist_eq_abs mPi_pos facing.error_modEq facing.abs_error_lt_mPi.le).symm

theorem abs_error_of_reversed (hreversed : facing.reversed = true) :
    |facing.error| = mPi - facing.distance := by
  have hfront : facing.front - facing.bearing = facing.heading - facing.bearing + mPi := by
    rw [front, if_pos hreversed]
    ring
  rw [abs_error_eq, hfront, circleDist_add_half mPi_pos, distance]

/-- **The front `PID` selects**: the back exactly past `11π/20`, with the error that is left to the
chosen front. -/
theorem selects_front :
    (facing.reversed = true ↔ 11 * mPi / 20 < facing.distance) ∧
      facing.error ≡ facing.front - facing.bearing [PMOD 2 * mPi] ∧
      |facing.error| = circleDist (2 * mPi) (facing.front - facing.bearing) ∧
      |facing.error| ≤ 11 * mPi / 20 ∧
      (facing.reversed = true → |facing.error| < 9 * mPi / 20) := by
  refine ⟨facing.reversed_iff, facing.error_modEq, facing.abs_error_eq, facing.abs_error_le, ?_⟩
  intro hreversed
  have hlt := facing.reversed_iff.mp hreversed
  rw [abs_error_of_reversed facing hreversed]
  linarith

/-- The error is the only representative of the angle to the chosen front within half a turn. -/
theorem error_eq {error : ℚ} (hmod : error ≡ facing.front - facing.bearing [PMOD 2 * mPi])
    (hle : |error| ≤ mPi) : facing.error = error :=
  eq_of_modEq_of_abs_lt_half (facing.error_modEq.trans hmod.symm) facing.abs_error_lt_mPi hle

end Selection

/-! ### Changes of the two angles -/

def rotated (facing : Facing) (angle : ℚ) : Facing where
  heading := to180range (facing.heading + angle)
  bearing := to180range (facing.bearing + angle)
  abs_heading_le := abs_to180range_le _
  abs_bearing_le := abs_to180range_le _

def mirrored (facing : Facing) : Facing where
  heading := -facing.heading
  bearing := -facing.bearing
  abs_heading_le := by rw [abs_neg]; exact facing.abs_heading_le
  abs_bearing_le := by rw [abs_neg]; exact facing.abs_bearing_le

/-- The robot turned round. -/
def turned (facing : Facing) : Facing where
  heading := to180range (facing.heading + mPi)
  bearing := facing.bearing
  abs_heading_le := abs_to180range_le _
  abs_bearing_le := facing.abs_bearing_le

section Changes

variable (facing : Facing)

theorem reversed_congr {other : Facing} (hdistance : other.distance = facing.distance) :
    other.reversed = facing.reversed := by
  rw [Bool.eq_iff_iff, reversed_iff, reversed_iff, hdistance]

theorem rotated_modEq (angle : ℚ) :
    (facing.rotated angle).heading - (facing.rotated angle).bearing ≡
      facing.heading - facing.bearing [PMOD 2 * mPi] := by
  have hmod := (to180range_modEq (facing.heading + angle)).sub
    (to180range_modEq (facing.bearing + angle))
  rwa [add_sub_add_right_eq_sub] at hmod

theorem reversed_rotated (angle : ℚ) : (facing.rotated angle).reversed = facing.reversed :=
  facing.reversed_congr (circleDist_congr two_mPi_pos (facing.rotated_modEq angle))

theorem error_rotated (angle : ℚ) : (facing.rotated angle).error = facing.error := by
  refine error_eq _ (facing.error_modEq.trans ?_) facing.abs_error_lt_mPi.le
  have hmod := (facing.rotated_modEq angle).symm
  rw [front, front, reversed_rotated]
  split
  · have hback := hmod.add_right mPi
    rwa [sub_add_eq_add_sub, sub_add_eq_add_sub] at hback
  · exact hmod

theorem reversed_mirrored : facing.mirrored.reversed = facing.reversed := by
  have hneg : -facing.heading - -facing.bearing = -(facing.heading - facing.bearing) := by ring
  apply facing.reversed_congr
  rw [distance, mirrored, hneg, circleDist_neg two_mPi_pos, distance]

theorem error_mirrored : facing.mirrored.error = -facing.error := by
  refine error_eq _ ((neg_modEq_neg.mpr facing.error_modEq).trans ?_) ?_
  · rw [front, front, reversed_mirrored]
    split
    · -- the two backs are a turn apart
      rw [modEq_iff_eq_add_zsmul]
      refine ⟨1, ?_⟩
      rw [one_zsmul, mirrored]
      ring
    · rw [mirrored, neg_sub, neg_sub_neg]
      exact modEq_rfl
  · rw [abs_neg]
    exact facing.abs_error_lt_mPi.le

theorem distance_turned : facing.turned.distance = mPi - facing.distance := by
  have hmod := (to180range_modEq (facing.heading + mPi)).sub_right facing.bearing
  rw [distance, turned, circleDist_congr two_mPi_pos hmod, add_sub_right_comm,
    circleDist_add_half mPi_pos, distance]

section Turned

variable (hdistance : facing.distance < 9 * mPi / 20 ∨ 11 * mPi / 20 < facing.distance)

include hdistance

theorem reversed_turned : facing.turned.reversed = !facing.reversed := by
  have hpos := mPi_pos
  have hiff : facing.turned.reversed = true ↔ ¬facing.reversed = true := by
    rw [reversed_iff, reversed_iff, distance_turned, not_lt]
    rcases hdistance with hnear | hfar
    · exact iff_of_true (by linarith) (by linarith)
    · exact iff_of_false (by linarith) (by linarith)
  rw [Bool.eq_iff_iff, hiff, Bool.not_eq_true, Bool.not_eq_true']

theorem error_turned : facing.turned.error = facing.error := by
  refine error_eq _ (facing.error_modEq.trans ?_) facing.abs_error_lt_mPi.le
  have hmod := (to180range_modEq (facing.heading + mPi)).symm
  rw [front, front, reversed_turned facing hdistance]
  cases facing.reversed with
  | false =>
      -- turned round twice, a turn further
      have hback : facing.heading ≡ to180range (facing.heading + mPi) + mPi [PMOD 2 * mPi] := by
        have hturn : facing.heading ≡ facing.heading + mPi + mPi [PMOD 2 * mPi] := by
          rw [modEq_iff_eq_add_zsmul]
          exact ⟨1, by rw [one_zsmul]; ring⟩
        exact hturn.trans (hmod.add_right mPi)
      exact hback.sub_right facing.bearing
  | true => exact hmod.sub_right facing.bearing

end Turned

end Changes

end Facing

/-! ### The command -/

theorem normalize_neg (value : ℚ) : normalize (-value) = -normalize value := by
  simp only [normalize, lit_rat]
  split_ifs <;> linarith

theorem motorSpeed_neg (error lastError : ℚ) :
    motorSpeed (-error) (-lastError) = -motorSpeed error lastError := by
  simp only [motorSpeed, lit_rat]
  ring

theorem wheelSpeeds_neg (reversed : Bool) (value : ℚ) :
    wheelSpeeds reversed (-value) = (wheelSpeeds reversed value).swap := by
  rcases lt_trichotomy value 0 with hneg | rfl | hpos
  · cases reversed <;>
      simp [wheelSpeeds_false, wheelSpeeds_true, hneg, not_lt.mpr hneg.le, sub_eq_add_neg]
  · cases reversed <;> simp [wheelSpeeds_false, wheelSpeeds_true]
  · cases reversed <;>
      simp [wheelSpeeds_false, wheelSpeeds_true, hpos, not_lt.mpr hpos.le, sub_eq_add_neg]

theorem wheelSpeeds_not (reversed : Bool) (value : ℚ) :
    wheelSpeeds (!reversed) value =
      (-(wheelSpeeds reversed value).2, -(wheelSpeeds reversed value).1) := by
  cases reversed with
  | false =>
      rw [Bool.not_false, wheelSpeeds_true, wheelSpeeds_false]
      split_ifs
      · ext <;> ring
      · ext <;> ring
  | true =>
      rw [Bool.not_true, wheelSpeeds_true, wheelSpeeds_false]
      split_ifs
      · ext <;> ring
      · ext <;> ring

/-- What a call of `PID` makes of the remembered error: the two wheel speeds and the error it
remembers. -/
def outcome (lastError : ℚ) (input : PidInput ℚ) : ℚ × ℚ × ℚ :=
  ((pid.emit lastError input).leftMotorSpeed, (pid.emit lastError input).rightMotorSpeed,
    pid.next lastError input)

theorem outcome_eq (lastError : ℚ) (facing : Facing) (index : Int32) :
    outcome lastError (facing.input index) =
      let speeds := wheelSpeeds facing.reversed (normalize (motorSpeed facing.error lastError))
      (speeds.1, speeds.2, facing.error) := rfl

/-- **The symmetry of the controller** under a rotation, a reflection, and a robot turned round. -/
theorem pid_symmetric (facing : Facing) (lastError : ℚ) (index : Int32) :
    (∀ angle, outcome lastError ((facing.rotated angle).input index) =
        outcome lastError (facing.input index)) ∧
      (outcome (-lastError) (facing.mirrored.input index) =
        let (left, right, error) := outcome lastError (facing.input index)
        (right, left, -error)) ∧
      (facing.distance < 9 * mPi / 20 ∨ 11 * mPi / 20 < facing.distance →
        outcome lastError (facing.turned.input index) =
          let (left, right, error) := outcome lastError (facing.input index)
          (-right, -left, error)) := by
  refine ⟨fun angle => ?_, ?_, fun hdistance => ?_⟩
  · rw [outcome_eq, outcome_eq, Facing.reversed_rotated, Facing.error_rotated]
  · rw [outcome_eq, outcome_eq, Facing.reversed_mirrored, Facing.error_mirrored, motorSpeed_neg,
      normalize_neg, wheelSpeeds_neg]
    rfl
  · rw [outcome_eq, outcome_eq, Facing.reversed_turned facing hdistance,
      Facing.error_turned facing hdistance, wheelSpeeds_not]

end FiraClient
