import FiraClient.Double
import FiraClient.Proof.Envelope
import Mathlib.Data.List.Induction

/-!
# Recovery from bad values

How NaN flows through the controller. On finite inputs every function of it agrees with its rational
reading. A NaN error passes both clamps, since no comparison with it holds, and reaches a wheel; it
also stays in `lastError`, and spoils the next command whatever the next inputs are. The call after
that has an error of its own to remember, so the damage ends there.
-/

namespace FiraClient

open Extended

/-! ### Finite inputs -/

section Finite

theorem two_mPi_ne_zero : 2 * mPi ≠ 0 := ne_of_gt two_mPi_pos

@[simp]
theorem to180range_finite (angle : ℚ) :
    to180range (finite angle : Double) = finite (to180range angle) := by
  simp only [to180range, lit_double, fmod_double, fmod_finite _ two_mPi_ne_zero,
    finite_lt_finite, gt_iff_lt, finite_add, finite_sub, lit_rat, fmod_rat]
  split_ifs <;> rfl

@[simp]
theorem smallestAngleDiff_finite (target source : ℚ) :
    smallestAngleDiff (finite target : Double) (finite source) =
      finite (smallestAngleDiff target source) := by
  simp only [smallestAngleDiff, lit_double, fmod_double, fmod_finite _ two_mPi_ne_zero,
    finite_lt_finite, gt_iff_lt, finite_add, finite_sub, lit_rat, fmod_rat]
  split_ifs <;> rfl

@[simp]
theorem selectFront_finite (angleRob angleObj : ℚ) :
    selectFront (finite angleRob : Double) (finite angleObj) =
      ((selectFront angleRob angleObj).1, finite (selectFront angleRob angleObj).2) := by
  simp only [selectFront, lit_double, fabs_double, smallestAngleDiff_finite, abs_finite,
    finite_lt_finite, gt_iff_lt, finite_add, to180range_finite, lit_rat, fabs_rat]
  split_ifs <;> rfl

@[simp]
theorem motorSpeed_finite (error lastError : ℚ) :
    motorSpeed (finite error : Double) (finite lastError) =
      finite (motorSpeed error lastError) := by
  simp [motorSpeed]

@[simp]
theorem normalize_finite (value : ℚ) :
    normalize (finite value : Double) = finite (normalize value) := by
  simp only [normalize, lit_double, finite_lt_finite, gt_iff_lt, lit_rat]
  split_ifs <;> simp_all

@[simp]
theorem wheelSpeeds_finite (reversed : Bool) (value : ℚ) :
    wheelSpeeds reversed (finite value : Double) =
      (finite (wheelSpeeds reversed value).1, finite (wheelSpeeds reversed value).2) := by
  simp only [wheelSpeeds, lit_double, finite_lt_finite, gt_iff_lt, lit_rat, finite_add,
    finite_sub, finite_neg]
  cases reversed <;> split_ifs <;> simp_all

theorem pidCommand_finite (lastError heading bearing : ℚ) (index : Int32) :
    pidCommand (finite lastError : Double) ⟨finite heading, finite bearing, index⟩ =
      { leftMotorSpeed :=
          finite (pidCommand lastError ⟨heading, bearing, index⟩).leftMotorSpeed
        rightMotorSpeed :=
          finite (pidCommand lastError ⟨heading, bearing, index⟩).rightMotorSpeed
        index := index } := by
  simp [pidCommand, PidInput.reversed, PidInput.error]

end Finite

/-! ### NaN -/

section NaN

theorem to180range_eq_nan {angle : Double} (hangle : ∀ q, angle ≠ finite q) :
    to180range angle = nan := by
  cases angle with
  | nan => simp [to180range]
  | inf negative => simp [to180range]
  | finite q => exact absurd rfl (hangle q)

/-- Neither angle of a NaN error is known, and no comparison with it asks for the other front. -/
theorem selectFront_nan_left (angleObj : Double) :
    selectFront nan angleObj = (false, nan) := by
  simp [selectFront, smallestAngleDiff]

theorem selectFront_nan_right (angleRob : Double) :
    selectFront angleRob nan = (false, nan) := by
  simp [selectFront, smallestAngleDiff]

theorem normalize_motorSpeed_nan (error : Double) : normalize (motorSpeed error nan) = nan := by
  simp [motorSpeed, normalize]

theorem wheelSpeeds_nan (reversed : Bool) :
    (wheelSpeeds reversed (nan : Double)).1 = nan ∨
      (wheelSpeeds reversed (nan : Double)).2 = nan := by
  cases reversed <;> simp [wheelSpeeds]

theorem pidCommand_nan (input : PidInput Double) :
    (pidCommand nan input).leftMotorSpeed = nan ∨
      (pidCommand nan input).rightMotorSpeed = nan := by
  simp only [pidCommand, normalize_motorSpeed_nan]
  exact wheelSpeeds_nan input.reversed

end NaN

/-! ### Runs of frames -/

/-- The pose of a frame's robot determines an angle error: its orientation is finite, and `atan2` is
not given a NaN. -/
def SoundPose (setup : Setup Double) (detection : Frame Double) (robot : Robot Double) : Prop :=
  let call := callFor setup detection robot
  (∃ q, robot.orientation = finite q) ∧
    call.objective.y - call.robot.y ≠ nan ∧ call.objective.x - call.robot.x ≠ nan

/-- Everything a frame's first blue robot is driven by is finite. -/
structure FiniteInputs (setup : Setup Double) (detection : Frame Double) (robot : Robot Double) :
    Prop where
  orientation : ∃ q, robot.orientation = finite q
  x : ∃ q, robot.x = finite q
  y : ∃ q, robot.y = finite q
  objectiveX : ∃ q, (callFor setup detection robot).objective.x = finite q
  objectiveY : ∃ q, (callFor setup detection robot).objective.y = finite q

def ValidCommand (command : Command Double) : Prop :=
  ∃ left right : ℚ, command.wheelLeft = finite left ∧ command.wheelRight = finite right ∧
    left ∈ Set.Icc (-30) 30 ∧ right ∈ Set.Icc (-30) 30

/-- The last frame that reached `PID`. -/
def lastDriven (frames : List (Frame Double)) : Option (Frame Double) :=
  (frames.filter fun detection => detection.robotsBlue.head?.isSome).getLast?

variable {setup : Setup Double}

theorem soundPose_of_finiteInputs {detection : Frame Double} {robot : Robot Double}
    (hfinite : FiniteInputs setup detection robot) : SoundPose setup detection robot := by
  obtain ⟨x, hx⟩ := hfinite.x
  obtain ⟨y, hy⟩ := hfinite.y
  obtain ⟨objectiveX, hobjectiveX⟩ := hfinite.objectiveX
  obtain ⟨objectiveY, hobjectiveY⟩ := hfinite.objectiveY
  refine ⟨hfinite.orientation, ?_, ?_⟩
  · rw [hobjectiveY]
    simp [callFor, Robot.toField, fieldWidth, hy]
  · rw [hobjectiveX]
    simp [callFor, Robot.toField, fieldLength, hx]

section Atan2

variable (hatan2 : IsAtan2 setup.atan2) {detection : Frame Double} {robot : Robot Double}

include hatan2

theorem input_of_soundPose (hsound : SoundPose setup detection robot) :
    ∃ heading bearing : ℚ, (callFor setup detection robot).input setup.atan2 =
      ⟨finite heading, finite bearing, 0⟩ := by
  obtain ⟨⟨orientation, horientation⟩, hy, hx⟩ := hsound
  obtain ⟨bearing, -, hbearing⟩ := hatan2.range _ _ hy hx
  refine ⟨to180range orientation, bearing, ?_⟩
  rw [PidCall.input, hbearing]
  simp [callFor, Robot.toField, horientation]

theorem error_of_not_soundPose (hsound : ¬SoundPose setup detection robot) :
    ((callFor setup detection robot).input setup.atan2).error = nan := by
  by_cases horientation : ∃ q, robot.orientation = finite q
  · have hbearing : ((callFor setup detection robot).input setup.atan2).bearing = nan := by
      by_contra hne
      refine hsound ⟨horientation, fun hy => hne ?_, fun hx => hne ?_⟩
      · rw [PidCall.input, hy]
        exact hatan2.nan_left _
      · rw [PidCall.input, hx]
        exact hatan2.nan_right _
    rw [PidInput.error, hbearing, selectFront_nan_right]
  · have hheading : ((callFor setup detection robot).input setup.atan2).heading = nan :=
      to180range_eq_nan fun q hq => horientation ⟨q, hq⟩
    rw [PidInput.error, hheading, selectFront_nan_left]

/-- What the frames so far leave in `lastError`: a number when the last frame that reached `PID` had
a sound pose, and NaN when it had not. -/
theorem lastError_after_frames (frames : List (Frame Double)) :
    (∃ q, (frameLoop setup).after initialError frames = finite q ∧
      ∀ previous, lastDriven frames = some previous →
        ∀ robot, previous.robotsBlue.head? = some robot → SoundPose setup previous robot) ∨
    ((frameLoop setup).after initialError frames = nan ∧
      ∃ previous robot, lastDriven frames = some previous ∧
        previous.robotsBlue.head? = some robot ∧ ¬SoundPose setup previous robot) := by
  induction frames using List.reverseRecOn with
  | nil => exact Or.inl ⟨0, rfl, by simp [lastDriven]⟩
  | append_singleton frames detection ih =>
      rw [Mealy.after_append, Mealy.after_cons, Mealy.after_nil]
      cases hhead : detection.robotsBlue.head? with
      | none =>
          have hcall : firstBlueCall setup detection = none := by
            rw [firstBlueCall, hhead, Option.map_none]
          have hdriven : lastDriven (frames ++ [detection]) = lastDriven frames := by
            simp [lastDriven, List.filter_append, hhead]
          have hnext : (frameLoop setup).next ((frameLoop setup).after initialError frames)
              detection = (frameLoop setup).after initialError frames :=
            ((frameLoop_refines setup).idle _ _ hcall).1
          rw [hnext, hdriven]
          exact ih
      | some robot =>
          have hcall : firstBlueCall setup detection = some (callFor setup detection robot) := by
            rw [firstBlueCall, hhead, Option.map_some]
          have hdriven : lastDriven (frames ++ [detection]) = some detection := by
            simp [lastDriven, List.filter_append, hhead]
          have hnext : (frameLoop setup).next ((frameLoop setup).after initialError frames)
              detection = ((callFor setup detection robot).input setup.atan2).error :=
            ((frameLoop_refines setup).active _ _ _ hcall).1
          rw [hnext, hdriven]
          by_cases hsound : SoundPose setup detection robot
          · obtain ⟨heading, bearing, hinput⟩ := input_of_soundPose hatan2 hsound
            refine Or.inl ⟨(selectFront heading bearing).2, ?_, ?_⟩
            · rw [hinput, PidInput.error, selectFront_finite]
            · rintro previous ⟨⟩ other hother
              rw [hhead] at hother
              cases hother
              exact hsound
          · exact Or.inr ⟨error_of_not_soundPose hatan2 hsound, detection, robot, rfl, hhead,
              hsound⟩

/-- **Recovery from bad values.** After any frames, a frame with finite inputs gets a valid command
exactly when the frame that reached `PID` before it, if there is one, had a sound pose. -/
theorem command_valid_iff_previous_sound (earlier : List (Frame Double))
    (hhead : detection.robotsBlue.head? = some robot)
    (hfinite : FiniteInputs setup detection robot) :
    ∃ sent command,
      (frameLoop setup).emit ((frameLoop setup).after initialError earlier) detection = [sent] ∧
        sent.packet.commands = [command] ∧
        (ValidCommand command ↔
          ∀ previous, lastDriven earlier = some previous →
            ∀ other, previous.robotsBlue.head? = some other → SoundPose setup previous other) := by
  have hcall : firstBlueCall setup detection = some (callFor setup detection robot) := by
    rw [firstBlueCall, hhead, Option.map_some]
  obtain ⟨heading, bearing, hinput⟩ :=
    input_of_soundPose hatan2 (soundPose_of_finiteInputs hfinite)
  refine ⟨_, _, ((frameLoop_refines setup).active _ _ _ hcall).2, rfl, ?_⟩
  rcases lastError_after_frames hatan2 earlier with ⟨lastError, hlast, hsound⟩ | ⟨hlast, hbad⟩
  · refine iff_of_true ?_ hsound
    have henvelope := pidCommand_envelope lastError ⟨heading, bearing, 0⟩
    refine ⟨_, _, ?_, ?_, henvelope.left_mem, henvelope.right_mem⟩
    · change (pidCommand _ _).leftMotorSpeed = _
      rw [id, hlast, hinput, pidCommand_finite]
    · change (pidCommand _ _).rightMotorSpeed = _
      rw [id, hlast, hinput, pidCommand_finite]
  · refine iff_of_false ?_ ?_
    · rintro ⟨left, right, hleft, hright, -⟩
      change (pidCommand _ _).leftMotorSpeed = _ at hleft
      change (pidCommand _ _).rightMotorSpeed = _ at hright
      rw [id, hlast] at hleft hright
      rcases pidCommand_nan ((callFor setup detection robot).input setup.atan2) with hnan | hnan
      · rw [hnan] at hleft
        cases hleft
      · rw [hnan] at hright
        cases hright
    · obtain ⟨previous, other, hprevious, hother, hnot⟩ := hbad
      exact fun hsound => hnot (hsound previous hprevious other hother)

end Atan2

section Example

/-- `atan2` as it is for points straight ahead, where the angle is zero. -/
def aheadAtan2 : Double → Double → Double
  | .nan, _ => .nan
  | _, .nan => .nan
  | _, _ => .finite 0

theorem isAtan2_aheadAtan2 : IsAtan2 aheadAtan2 where
  nan_left := fun _ => rfl
  nan_right := fun y => by cases y <;> rfl
  range := fun y x hy hx => by
    refine ⟨0, by simp [mPi_pos.le], ?_⟩
    cases y <;> cases x <;> first | contradiction | rfl

def shippedSetup : Setup Double where
  parser := ⟨fun _ => none, fun packet _ => packet⟩
  atan2 := aheadAtan2
  defineObjective := defineObjective
  myRobotsAreYellow := false

/-- A robot with its objective, the origin of the field, straight ahead. -/
def robotFacing (orientation : Double) : Robot Double :=
  ⟨0, finite (-1), finite (-13 / 20), orientation, finite 0, finite 0, finite 0⟩

def frameFacing (orientation : Double) : Frame Double := ⟨none, [], [robotFacing orientation]⟩

theorem finiteInputs_robotFacing (orientation : ℚ) :
    FiniteInputs shippedSetup (frameFacing (finite orientation))
      (robotFacing (finite orientation)) where
  orientation := ⟨_, rfl⟩
  x := ⟨_, rfl⟩
  y := ⟨_, rfl⟩
  objectiveX := ⟨0, rfl⟩
  objectiveY := ⟨0, rfl⟩

/-- After a frame whose orientation is NaN, the command for a frame of finite inputs has a NaN
wheel speed. -/
theorem command_after_nan_frame :
    IsAtan2 shippedSetup.atan2 ∧
      FiniteInputs shippedSetup (frameFacing (finite 0)) (robotFacing (finite 0)) ∧
      ((frameLoop shippedSetup).emit
        ((frameLoop shippedSetup).after initialError [frameFacing nan])
        (frameFacing (finite 0))).map (fun sent => sent.packet.commands.map Command.wheelLeft) =
          [[nan]] := by
  exact ⟨isAtan2_aheadAtan2, finiteInputs_robotFacing 0, by decide +kernel⟩

/-- One more frame of finite inputs between the two, and the command is valid. -/
theorem command_valid_after_sound_frame :
    ∃ sent command,
      (frameLoop shippedSetup).emit
        ((frameLoop shippedSetup).after initialError [frameFacing nan, frameFacing (finite 1)])
        (frameFacing (finite 0)) = [sent] ∧
        sent.packet.commands = [command] ∧ ValidCommand command := by
  have hsound : SoundPose shippedSetup (frameFacing (finite 1)) (robotFacing (finite 1)) :=
    soundPose_of_finiteInputs (finiteInputs_robotFacing 1)
  obtain ⟨sent, command, hsent, hcommand, hiff⟩ :=
    command_valid_iff_previous_sound isAtan2_aheadAtan2 [frameFacing nan, frameFacing (finite 1)]
      rfl (finiteInputs_robotFacing 0)
  refine ⟨sent, command, hsent, hcommand, hiff.mpr ?_⟩
  intro previous hprevious other hother
  obtain rfl : frameFacing (finite 1) = previous := Option.some.inj hprevious
  obtain rfl : robotFacing (finite 1) = other := Option.some.inj hother
  exact hsound

end Example

end FiraClient
