import FiraClient.Proof.Frames

/-!
# Whom a command is addressed to

The identity of a robot passes from its place in the frame's list to `PID`'s index, and from there to
the id of the command; its `robot_id` is never read. The team is the constant `false`.
-/

namespace FiraClient

section Frame

variable {R : Type} [Add R] [Sub R] [Neg R] [Mul R] [LT R] [DecidableLT R] [CMath R]
  (setup : Setup R)

def teamOf (detection : Frame R) : List (Robot R) :=
  if setup.myRobotsAreYellow then detection.robotsYellow else detection.robotsBlue

/-- Every command of a sent packet names the robot whose pose the wheel speeds were computed from,
and the team the user has set, which that robot is taken from. -/
def Addressed (detection : Frame R) (sent : Sent R) : Prop :=
  ∀ command ∈ sent.packet.commands,
    command.id = sent.call.robot.robotId ∧
      command.yellowteam = setup.myRobotsAreYellow ∧
      ∃ robot ∈ teamOf setup detection, sent.call.robot = robot.toField

/-- **Commands reach the robot they were computed for** exactly when the frame has no blue robot, or
the team is blue and the first robot listed happens to have id 0. -/
theorem commands_addressed_iff (lastError : R) (detection : Frame R) :
    (∀ sent ∈ (frameBody setup lastError detection).2,
        sent.packet = (pidCommand lastError (sent.call.input setup.atan2)).packet) ∧
      ((∀ sent ∈ (frameBody setup lastError detection).2, Addressed setup detection sent) ↔
        ∀ robot, detection.robotsBlue.head? = some robot →
          setup.myRobotsAreYellow = false ∧ robot.robotId = 0) := by
  cases hhead : detection.robotsBlue.head? with
  | none =>
      have hcall : firstBlueCall setup detection = none := by
        rw [firstBlueCall, hhead, Option.map_none]
      rw [frameBody_of_none setup lastError hcall]
      simp
  | some robot =>
      have hcall : firstBlueCall setup detection = some (callFor setup detection robot) := by
        rw [firstBlueCall, hhead, Option.map_some]
      rw [frameBody_of_some setup lastError hcall]
      simp only [List.forall_mem_singleton, Option.some.injEq, forall_eq']
      refine ⟨rfl, ?_⟩
      have hmem : robot ∈ detection.robotsBlue := List.mem_of_mem_head? hhead
      simp only [Addressed, callLoop, callFor, WheelCommand.packet, sendCommand, Packet.commands,
        List.forall_mem_singleton, pidCommand, PidCall.input, Robot.toField]
      constructor
      · rintro ⟨hid, hteam, -⟩
        exact ⟨hteam.symm, hid.symm⟩
      · rintro ⟨hteam, hid⟩
        refine ⟨hid.symm, hteam.symm, robot, ?_, rfl⟩
        rw [teamOf, hteam]
        exact hmem

end Frame

/-- A robot with id 1 at the head of the list: its command goes to robot 0. A yellow team: the
command goes to a blue robot. -/
theorem commands_not_addressed :
    let setup (yellow : Bool) : Setup ℚ :=
      { parser := ⟨fun _ => none, fun packet _ => packet⟩
        atan2 := fun _ _ => 0
        defineObjective := defineObjective
        myRobotsAreYellow := yellow }
    let robot (id : UInt32) : Robot ℚ := ⟨id, -1, -13 / 20, 0, 0, 0, 0⟩
    let detection (id : UInt32) : Frame ℚ := ⟨none, [robot id], [robot id]⟩
    (¬∀ sent ∈ (frameBody (setup false) initialError (detection 1)).2,
        Addressed (setup false) (detection 1) sent) ∧
      ¬∀ sent ∈ (frameBody (setup true) initialError (detection 0)).2,
        Addressed (setup true) (detection 0) sent := by
  intro setup robot detection
  constructor
  · intro h
    obtain ⟨hid, -⟩ := h _ List.mem_cons_self _ List.mem_cons_self
    exact absurd hid (by decide)
  · intro h
    obtain ⟨-, hteam, -⟩ := h _ List.mem_cons_self _ List.mem_cons_self
    exact absurd hteam (by decide)

end FiraClient
