import FiraClient.Proof.Frames
import FiraClient.Proof.Front
import Mathlib.Tactic.FinCases

/-!
# The envelope of a wheel command

What `wheelSpeeds` makes of a control value, branch by branch: the difference of the two wheels is
the control value in every one of them, one wheel always runs at the base speed, and the sign of the
speeds is the driving mode.
-/

namespace FiraClient

open Net

theorem normalize_eq (value : ℚ) : normalize value = max (-30) (min 30 value) := by
  simp only [normalize, lit_rat]
  rcases lt_or_ge 30 value with hhigh | hhigh
  · rw [if_pos hhigh, min_eq_left hhigh.le]
    norm_num
  · rw [if_neg (not_lt.mpr hhigh), min_eq_right hhigh]
    rcases lt_or_ge value (-30) with hlow | hlow
    · rw [if_pos hlow, max_eq_left hlow.le]
    · rw [if_neg (not_lt.mpr hlow), max_eq_right hlow]

theorem normalize_low (value : ℚ) : -30 ≤ normalize value := by
  rw [normalize_eq]
  exact le_max_left _ _

theorem normalize_high (value : ℚ) : normalize value ≤ 30 := by
  rw [normalize_eq]
  exact max_le (by norm_num) (min_le_left _ _)

theorem wheelSpeeds_false (value : ℚ) :
    wheelSpeeds false value = if 0 < value then (30, 30 - value) else (30 + value, 30) := rfl

theorem wheelSpeeds_true (value : ℚ) :
    wheelSpeeds true value = if 0 < value then (-30 + value, -30) else (-30, -30 - value) := rfl

/-- Every branch, the two that overwrite the first ones included, drives the wheels apart by the
control value. -/
theorem wheelSpeeds_sub (reversed : Bool) (value : ℚ) :
    (wheelSpeeds reversed value).1 - (wheelSpeeds reversed value).2 = value := by
  cases reversed with
  | false =>
      rw [wheelSpeeds_false]
      split_ifs <;> ring
  | true =>
      rw [wheelSpeeds_true]
      split_ifs <;> ring

theorem wheelSpeeds_saturated (reversed : Bool) (value : ℚ) :
    |(wheelSpeeds reversed value).1| = 30 ∨ |(wheelSpeeds reversed value).2| = 30 := by
  cases reversed with
  | false =>
      rw [wheelSpeeds_false]
      split_ifs <;> norm_num
  | true =>
      rw [wheelSpeeds_true]
      split_ifs <;> norm_num

section Mode

variable {value : ℚ} (hlow : -30 ≤ value) (hhigh : value ≤ 30)

include hlow hhigh

theorem wheelSpeeds_forward :
    (wheelSpeeds false value).1 ∈ Set.Icc 0 30 ∧ (wheelSpeeds false value).2 ∈ Set.Icc 0 30 := by
  rw [wheelSpeeds_false]
  split_ifs with hpos
  · exact ⟨⟨by norm_num, le_refl _⟩, by linarith, by linarith⟩
  · exact ⟨⟨by linarith, by linarith⟩, by norm_num, le_refl _⟩

theorem wheelSpeeds_backward :
    (wheelSpeeds true value).1 ∈ Set.Icc (-30) 0 ∧
      (wheelSpeeds true value).2 ∈ Set.Icc (-30) 0 := by
  rw [wheelSpeeds_true]
  split_ifs with hpos
  · exact ⟨⟨by linarith, by linarith⟩, le_refl _, by norm_num⟩
  · exact ⟨⟨le_refl _, by norm_num⟩, by linarith, by linarith⟩

end Mode

/-- What a command promises of the call it was computed for and of the error remembered before. -/
structure Envelope (lastError : ℚ) (input : PidInput ℚ) (command : WheelCommand ℚ) : Prop where
  forward : input.reversed = false →
    command.leftMotorSpeed ∈ Set.Icc 0 30 ∧ command.rightMotorSpeed ∈ Set.Icc 0 30
  backward : input.reversed = true →
    command.leftMotorSpeed ∈ Set.Icc (-30) 0 ∧ command.rightMotorSpeed ∈ Set.Icc (-30) 0
  saturated : |command.leftMotorSpeed| = 30 ∨ |command.rightMotorSpeed| = 30
  difference : command.leftMotorSpeed - command.rightMotorSpeed =
    max (-30) (min 30 (20 * input.error + 5 / 2 * (input.error - lastError)))

section Magnitude

variable {lastError : ℚ} {input : PidInput ℚ} {command : WheelCommand ℚ}
  (henvelope : Envelope lastError input command)

include henvelope

theorem Envelope.left_mem : command.leftMotorSpeed ∈ Set.Icc (-30) 30 := by
  cases hmode : input.reversed with
  | false => exact Set.Icc_subset_Icc_left (by norm_num) (henvelope.forward hmode).1
  | true => exact Set.Icc_subset_Icc_right (by norm_num) (henvelope.backward hmode).1

theorem Envelope.right_mem : command.rightMotorSpeed ∈ Set.Icc (-30) 30 := by
  cases hmode : input.reversed with
  | false => exact Set.Icc_subset_Icc_left (by norm_num) (henvelope.forward hmode).2
  | true => exact Set.Icc_subset_Icc_right (by norm_num) (henvelope.backward hmode).2

end Magnitude

theorem pidCommand_difference (lastError : ℚ) (input : PidInput ℚ) :
    (pidCommand lastError input).leftMotorSpeed - (pidCommand lastError input).rightMotorSpeed =
      normalize (motorSpeed input.error lastError) :=
  wheelSpeeds_sub _ _

theorem pidCommand_envelope (lastError : ℚ) (input : PidInput ℚ) :
    Envelope lastError input (pidCommand lastError input) where
  forward := fun hmode => by
    simp only [pidCommand, hmode]
    exact wheelSpeeds_forward (normalize_low _) (normalize_high _)
  backward := fun hmode => by
    simp only [pidCommand, hmode]
    exact wheelSpeeds_backward (normalize_low _) (normalize_high _)
  saturated := wheelSpeeds_saturated _ _
  difference := by
    rw [pidCommand_difference, normalize_eq]
    rfl

/-- **The wheel command envelope**, for every state of the controller and for every packet of every
run of the main loop, whose remembered error is then the one the run before the packet left. -/
theorem wheel_command_envelope :
    (∀ lastError input, Envelope lastError input (pidCommand lastError input)) ∧
      ∀ (setup : Setup ℚ) (start : LoopState ℚ) (outcomes : List Recvfrom),
        ∀ sent ∈ ((mainLoop setup).emitted start outcomes).flatten,
          ∃ earlier outcome later command, outcomes = earlier ++ outcome :: later ∧
            sent ∈ (mainLoop setup).emit ((mainLoop setup).after start earlier) outcome ∧
            sent.packet = command.packet ∧
            Envelope ((mainLoop setup).after start earlier).lastError
              (sent.call.input setup.atan2) command := by
  refine ⟨pidCommand_envelope, fun setup start outcomes sent hsent => ?_⟩
  obtain ⟨batch, hbatch, hsent⟩ := List.mem_flatten.mp hsent
  obtain ⟨earlier, outcome, later, houtcomes, rfl⟩ :=
    (mainLoop setup).exists_of_mem_emitted hbatch
  have hrefines := mainLoop_refines setup
  cases hcall : blueCallOf setup outcome with
  | none =>
      rw [(hrefines.idle _ _ hcall).2] at hsent
      cases hsent
  | some call =>
      have hemit := (hrefines.active ((mainLoop setup).after start earlier) _ _ hcall).2
      refine ⟨earlier, outcome, later, ?_⟩
      rw [hemit, List.mem_singleton] at hsent ⊢
      subst hsent
      exact ⟨_, houtcomes, rfl, rfl, pidCommand_envelope _ _⟩

end FiraClient
