import FiraClient.Proof.Parsers
import FiraClient.Proof.Serialized

/-!
# Messages there and back

What is written is read back as what `MergeFrom` makes of a new message, which is the message itself
unless one of its doubles is the negative zero: it is not written, and comes back as zero. The bytes
of messages one after the other are read as the messages merged in this order.
-/

namespace FiraClient

open Pb

namespace Pb

/-! ### The negative zero -/

def negativeZero : Binary64 := ⟨0x8000000000000000⟩

theorem nonzero_eq_false_iff (value : Binary64) :
    value.nonzero = false ↔ value = zero ∨ value = negativeZero := by
  obtain ⟨bits⟩ := value
  have hmask : bits &&& 0x7FFFFFFFFFFFFFFF = 0 ↔ bits.toNat % 2 ^ 63 = 0 := by
    rw [← UInt64.toNat_inj, UInt64.toNat_and]
    exact iff_of_eq (congrArg (· = 0) (Nat.and_two_pow_sub_one_eq_mod bits.toNat 63))
  have hzero : (⟨bits⟩ : Binary64) = zero ↔ bits.toNat = 0 := by
    rw [zero, Binary64.mk.injEq, ← UInt64.toNat_inj]
    rfl
  have hnegative : (⟨bits⟩ : Binary64) = negativeZero ↔ bits.toNat = 2 ^ 63 := by
    rw [negativeZero, Binary64.mk.injEq, ← UInt64.toNat_inj]
    rfl
  have hlt := bits.toNat_lt
  rw [Binary64.nonzero, decide_eq_false_iff_not, not_ne_iff, hmask, hzero, hnegative]
  omega

@[simp]
theorem mergeDouble_zero_iff (value : Binary64) :
    mergeDouble zero value = value ↔ negativeZero ≠ value := by
  unfold mergeDouble
  cases hvalue : value.nonzero with
  | true =>
      have hne : value ≠ negativeZero := by
        rintro rfl
        exact absurd hvalue (by decide)
      simp [hne.symm]
  | false =>
      rcases (nonzero_eq_false_iff value).mp hvalue with rfl | rfl <;> decide

@[simp]
theorem mergeUInt32_zero (value : UInt32) : mergeUInt32 0 value = value := by
  unfold mergeUInt32
  split
  · rfl
  · rename_i hzero
    exact (not_ne_iff.mp hzero).symm

end Pb

/-! ### What a new message becomes -/

def Ball.doubles (ball : Ball Binary64) : List Binary64 :=
  [ball.x, ball.y, ball.z, ball.vx, ball.vy, ball.vz]

def Robot.doubles (robot : Robot Binary64) : List Binary64 :=
  [robot.x, robot.y, robot.orientation, robot.vx, robot.vy, robot.vorientation]

def Field.doubles (field : Field Binary64) : List Binary64 :=
  [field.width, field.length, field.goalWidth, field.goalDepth]

def Frame.doubles (frame : Frame Binary64) : List Binary64 :=
  frame.ball.toList.flatMap Ball.doubles ++ frame.robotsYellow.flatMap Robot.doubles ++
    frame.robotsBlue.flatMap Robot.doubles

def Pb.Environment.doubles (environment : Environment Binary64) : List Binary64 :=
  environment.frame.toList.flatMap Frame.doubles ++
    environment.field.toList.flatMap Field.doubles

def Command.doubles (command : Command Binary64) : List Binary64 :=
  [command.wheelLeft, command.wheelRight]

def Packet.doubles (packet : Packet Binary64) : List Binary64 :=
  packet.commands.flatMap Command.doubles

theorem Ball.mergeFrom_cleared_iff (ball : Ball Binary64) :
    Ball.cleared.mergeFrom ball = ball ↔ negativeZero ∉ ball.doubles := by
  obtain ⟨x, y, z, vx, vy, vz⟩ := ball
  simp [mergeFrom, cleared, doubles]

theorem Robot.mergeFrom_cleared_iff (robot : Robot Binary64) :
    Robot.cleared.mergeFrom robot = robot ↔ negativeZero ∉ robot.doubles := by
  obtain ⟨robotId, x, y, orientation, vx, vy, vorientation⟩ := robot
  simp [mergeFrom, cleared, doubles]

theorem Field.mergeFrom_cleared_iff (field : Field Binary64) :
    Field.cleared.mergeFrom field = field ↔ negativeZero ∉ field.doubles := by
  obtain ⟨width, length, goalWidth, goalDepth⟩ := field
  simp [mergeFrom, cleared, doubles]

theorem Command.mergeFrom_cleared_iff (command : Command Binary64) :
    Command.cleared.mergeFrom command = command ↔ negativeZero ∉ command.doubles := by
  obtain ⟨id, yellowteam, wheelLeft, wheelRight⟩ := command
  simp [mergeFrom, cleared, doubles]

theorem map_eq_self_iff {α : Type} {f : α → α} (items : List α) :
    items.map f = items ↔ ∀ item ∈ items, f item = item := by
  conv_lhs => rhs; rw [← List.map_id items]
  exact List.map_inj_left

theorem Frame.mergeFrom_cleared_iff (frame : Frame Binary64) :
    Frame.cleared.mergeFrom frame = frame ↔ negativeZero ∉ frame.doubles := by
  obtain ⟨ball, robotsYellow, robotsBlue⟩ := frame
  cases ball with
  | none => simp [mergeFrom, cleared, doubles, map_eq_self_iff, Robot.mergeFrom_cleared_iff]
  | some ball =>
      simp [mergeFrom, cleared, mutableBall, doubles, map_eq_self_iff,
        Robot.mergeFrom_cleared_iff, Ball.mergeFrom_cleared_iff]

theorem Pb.Environment.mergeFrom_cleared_iff (environment : Environment Binary64) :
    Environment.cleared.mergeFrom environment = environment ↔
      negativeZero ∉ environment.doubles := by
  obtain ⟨step, frame, field, goalsBlue, goalsYellow⟩ := environment
  cases frame <;> cases field <;>
    simp [mergeFrom, cleared, mutableFrame, mutableField, doubles, Frame.mergeFrom_cleared_iff,
      Field.mergeFrom_cleared_iff]

theorem Packet.mergeFrom_cleared_iff (packet : Packet Binary64) :
    Packet.cleared.mergeFrom packet = packet ↔ negativeZero ∉ packet.doubles := by
  obtain ⟨cmd⟩ := packet
  cases cmd with
  | none => simp [mergeFrom, cleared, doubles, commands]
  | some cmd =>
      obtain ⟨robotCommands⟩ := cmd
      simp [mergeFrom, cleared, mutableCmd, Commands.mergeFrom, Commands.cleared, doubles, commands,
        map_eq_self_iff, Command.mergeFrom_cleared_iff]

theorem serializeToString_eq_true {size : ℕ} {bytes data : List UInt8}
    (hserialize : serializeToString size bytes = (true, data)) : size < 2 ^ 31 ∧ data = bytes := by
  unfold serializeToString at hserialize
  split at hserialize
  · cases hserialize
  · rename_i hsize
    exact ⟨(le_intMax_iff size).mp (not_lt.mp hsize), (Prod.mk.inj hserialize).2.symm⟩

/-! ### Merging -/

section Merging

theorem mergeDouble_assoc (first second third : Binary64) :
    mergeDouble first (mergeDouble second third) =
      mergeDouble (mergeDouble first second) third := by
  unfold mergeDouble
  split <;> simp_all

theorem mergeUInt32_assoc (first second third : UInt32) :
    mergeUInt32 first (mergeUInt32 second third) =
      mergeUInt32 (mergeUInt32 first second) third := by
  unfold mergeUInt32
  split <;> simp_all

theorem Ball.mergeFrom_assoc (first second third : Ball Binary64) :
    first.mergeFrom (second.mergeFrom third) = (first.mergeFrom second).mergeFrom third := by
  simp only [mergeFrom, mergeDouble_assoc]

theorem Robot.mergeFrom_assoc (first second third : Robot Binary64) :
    first.mergeFrom (second.mergeFrom third) = (first.mergeFrom second).mergeFrom third := by
  simp only [mergeFrom, mergeDouble_assoc, mergeUInt32_assoc]

theorem Field.mergeFrom_assoc (first second third : Field Binary64) :
    first.mergeFrom (second.mergeFrom third) = (first.mergeFrom second).mergeFrom third := by
  simp only [mergeFrom, mergeDouble_assoc]

@[simp]
theorem Ball.mergeFrom_cleared (ball : Ball Binary64) : ball.mergeFrom Ball.cleared = ball := rfl

@[simp]
theorem Robot.mergeFrom_cleared (robot : Robot Binary64) :
    robot.mergeFrom Robot.cleared = robot := rfl

@[simp]
theorem Field.mergeFrom_cleared (field : Field Binary64) :
    field.mergeFrom Field.cleared = field := rfl

theorem Frame.mergeFrom_assoc (first second third : Frame Binary64) :
    first.mergeFrom (second.mergeFrom third) = (first.mergeFrom second).mergeFrom third := by
  obtain ⟨ball, yellow, blue⟩ := first
  obtain ⟨ball', yellow', blue'⟩ := second
  obtain ⟨ball'', yellow'', blue''⟩ := third
  cases ball'' <;> cases ball' <;>
    simp [mergeFrom, mutableBall, Ball.mergeFrom_assoc, Robot.mergeFrom_assoc]

@[simp]
theorem Frame.mergeFrom_cleared (frame : Frame Binary64) :
    frame.mergeFrom Frame.cleared = frame := by
  simp [mergeFrom, cleared]

/-- `merged` has in every field what the accessors of the two messages give: the scalar of the
second where it is not zero and else that of the first, also in the nested messages, and the robots
of both. -/
structure Pb.Environment.Merged (first second merged : Environment Binary64) : Prop where
  step : merged.step = if second.step ≠ 0 then second.step else first.step
  goalsBlue : merged.goalsBlue = if second.goalsBlue ≠ 0 then second.goalsBlue else first.goalsBlue
  goalsYellow :
    merged.goalsYellow = if second.goalsYellow ≠ 0 then second.goalsYellow else first.goalsYellow
  hasFrame : merged.frame.isSome = (first.frame.isSome || second.frame.isSome)
  hasField : merged.field.isSome = (first.field.isSome || second.field.isSome)
  hasBall : merged.mutableFrame.ball.isSome =
    (first.mutableFrame.ball.isSome || second.mutableFrame.ball.isSome)
  ball : merged.mutableFrame.mutableBall.doubles =
    List.zipWith mergeDouble first.mutableFrame.mutableBall.doubles
      second.mutableFrame.mutableBall.doubles
  field : merged.mutableField.doubles =
    List.zipWith mergeDouble first.mutableField.doubles second.mutableField.doubles
  robotsYellow : merged.mutableFrame.robotsYellow =
    first.mutableFrame.robotsYellow ++
      second.mutableFrame.robotsYellow.map Robot.cleared.mergeFrom
  robotsBlue : merged.mutableFrame.robotsBlue =
    first.mutableFrame.robotsBlue ++ second.mutableFrame.robotsBlue.map Robot.cleared.mergeFrom

theorem Ball.doubles_injective : Function.Injective Ball.doubles := by
  rintro ⟨x, y, z, vx, vy, vz⟩ ⟨x', y', z', vx', vy', vz'⟩ hdoubles
  simpa [doubles] using hdoubles

theorem Field.doubles_injective : Function.Injective Field.doubles := by
  rintro ⟨width, length, goalWidth, goalDepth⟩ ⟨width', length', goalWidth', goalDepth'⟩ hdoubles
  simpa [doubles] using hdoubles

/-- A message that may be absent, from its presence and what its accessor gives. -/
theorem option_eq_of_getD {M : Type} {cleared : M} {value value' : Option M}
    (hisSome : value.isSome = value'.isSome) (hgetD : value.getD cleared = value'.getD cleared) :
    value = value' := by
  cases value <;> cases value' <;> simp_all

theorem Frame.mergeFrom_isSome_ball (frame source : Frame Binary64) :
    (frame.mergeFrom source).ball.isSome = (frame.ball.isSome || source.ball.isSome) := by
  unfold mergeFrom
  cases source.ball <;> simp

theorem Frame.mergeFrom_mutableBall (frame source : Frame Binary64) :
    (frame.mergeFrom source).mutableBall = frame.mutableBall.mergeFrom source.mutableBall := by
  unfold mergeFrom mutableBall
  cases source.ball <;> rfl

theorem Pb.Environment.mergeFrom_mutableFrame (environment source : Environment Binary64) :
    (environment.mergeFrom source).mutableFrame =
      environment.mutableFrame.mergeFrom source.mutableFrame := by
  unfold mergeFrom mutableFrame
  cases source.frame
  · exact (Frame.mergeFrom_cleared _).symm
  · rfl

theorem Pb.Environment.mergeFrom_mutableField (environment source : Environment Binary64) :
    (environment.mergeFrom source).mutableField =
      environment.mutableField.mergeFrom source.mutableField := by
  unfold mergeFrom mutableField
  cases source.field <;> rfl

theorem Pb.Environment.merged_mergeFrom (first second : Environment Binary64) :
    Merged first second (first.mergeFrom second) where
  step := rfl
  goalsBlue := rfl
  goalsYellow := rfl
  hasFrame := by
    unfold mergeFrom
    cases second.frame <;> simp
  hasField := by
    unfold mergeFrom
    cases second.field <;> simp
  hasBall := by
    rw [mergeFrom_mutableFrame, Frame.mergeFrom_isSome_ball]
  ball := by
    rw [mergeFrom_mutableFrame, Frame.mergeFrom_mutableBall]
    rfl
  field := by
    rw [mergeFrom_mutableField]
    rfl
  robotsYellow := by
    rw [mergeFrom_mutableFrame]
    rfl
  robotsBlue := by
    rw [mergeFrom_mutableFrame]
    rfl

theorem Pb.Environment.Merged.unique {first second merged merged' : Environment Binary64}
    (hmerged : Merged first second merged) (hmerged' : Merged first second merged') :
    merged = merged' := by
  have hball : merged.mutableFrame.ball = merged'.mutableFrame.ball :=
    option_eq_of_getD (hmerged.hasBall.trans hmerged'.hasBall.symm)
      (Ball.doubles_injective (hmerged.ball.trans hmerged'.ball.symm))
  have hyellow := hmerged.robotsYellow.trans hmerged'.robotsYellow.symm
  have hblue := hmerged.robotsBlue.trans hmerged'.robotsBlue.symm
  have hframe : merged.frame = merged'.frame :=
    option_eq_of_getD (hmerged.hasFrame.trans hmerged'.hasFrame.symm)
      (Frame.ext hball hyellow hblue)
  have hfield : merged.field = merged'.field :=
    option_eq_of_getD (hmerged.hasField.trans hmerged'.hasField.symm)
      (Field.doubles_injective (hmerged.field.trans hmerged'.field.symm))
  exact Environment.ext (hmerged.step.trans hmerged'.step.symm) hframe hfield
    (hmerged.goalsBlue.trans hmerged'.goalsBlue.symm)
    (hmerged.goalsYellow.trans hmerged'.goalsYellow.symm)

theorem Pb.Environment.mergeFrom_assoc (first second third : Environment Binary64) :
    first.mergeFrom (second.mergeFrom third) = (first.mergeFrom second).mergeFrom third := by
  obtain ⟨step, frame, field, blue, yellow⟩ := first
  obtain ⟨step', frame', field', blue', yellow'⟩ := second
  obtain ⟨step'', frame'', field'', blue'', yellow''⟩ := third
  cases frame'' <;> cases frame' <;> cases field'' <;> cases field' <;>
    simp [mergeFrom, mutableFrame, mutableField, mergeUInt32_assoc, Frame.mergeFrom_assoc,
      Field.mergeFrom_assoc]

/-- **Merging is an action.** `MergeFrom` gives the one environment that has in every field what
`Merged` says. Environments merged one into the other are merged in one go, a new one that is merged
in changes nothing, and merging into a new one changes nothing but negative zeros. -/
theorem environment_mergeFrom_action (first second third : Pb.Environment Binary64) :
    (∀ merged, Environment.Merged first second merged ↔ merged = first.mergeFrom second) ∧
      first.mergeFrom (second.mergeFrom third) = (first.mergeFrom second).mergeFrom third ∧
      first.mergeFrom Environment.cleared = first ∧
      (Environment.cleared.mergeFrom first = first ↔ negativeZero ∉ first.doubles) := by
  refine ⟨fun merged => ⟨fun hmerged => ?_, ?_⟩, first.mergeFrom_assoc second third, rfl,
    first.mergeFrom_cleared_iff⟩
  · exact hmerged.unique (first.merged_mergeFrom second)
  · rintro rfl
    exact first.merged_mergeFrom second

end Merging

/-! ### Written and read -/

section Messages

variable (reader : RepeatedReader)

/-- **The round trip.** What `SerializeToString` gives for an environment is read as the environment
merged into a new one, and this is the same one unless it has a negative zero. -/
theorem environment_round_trip {environment : Pb.Environment Binary64} {data : List UInt8}
    (hserialize : serializeToString environment.byteSize environment.serializeToArray =
      (true, data)) :
    parseFromArray Environment.cleared (Environment.mergePartialFromCodedStream reader) data =
        (true, Environment.cleared.mergeFrom environment) ∧
      (Environment.cleared.mergeFrom environment = environment ↔
        negativeZero ∉ environment.doubles) := by
  obtain ⟨hsize, rfl⟩ := serializeToString_eq_true hserialize
  exact ⟨parseFromArray_of_absorbs (Environment.realizes reader) Environment.cleared
    (environment.absorbs 98 hsize), environment.mergeFrom_cleared_iff⟩

theorem absorbs_environments {environments : List (Pb.Environment Binary64)}
    (hsizes : ∀ environment ∈ environments, environment.byteSize < 2 ^ 31) (depth : ℕ) :
    Wire.Absorbs Environment.schema (depth + 2)
      (environments.flatMap Environment.serializeToArray)
      fun message => environments.foldl Environment.mergeFrom message :=
  .flatMap fun environment hmem => environment.absorbs depth (hsizes environment hmem)

theorem byteSize_lt_of_mem {environments : List (Pb.Environment Binary64)}
    (hlength : (environments.flatMap Environment.serializeToArray).length < 2 ^ 31)
    {environment : Pb.Environment Binary64} (hmem : environment ∈ environments) :
    environment.byteSize < 2 ^ 31 := by
  rw [environment.byteSize_eq]
  exact (List.sublist_flatten_of_mem (List.mem_map_of_mem hmem)).length_le.trans_lt hlength

/-- **Concatenation is merging.** Any number of written environments, one after the other, are read
as one: as what `MergeFrom` makes of a new environment with each of them in turn. The size of an
array is an `int`. -/
theorem concatenation_merges {environments : List (Pb.Environment Binary64)}
    (hlength : (environments.flatMap Environment.serializeToArray).length < 2 ^ 31) :
    parseFromArray Environment.cleared (Environment.mergePartialFromCodedStream reader)
        (environments.flatMap Environment.serializeToArray) =
      (true, environments.foldl Environment.mergeFrom Environment.cleared) :=
  parseFromArray_of_absorbs (Environment.realizes reader) Environment.cleared
    (absorbs_environments (fun _ => byteSize_lt_of_mem hlength) 98)

end Messages

/-- An environment with a ball and a blue robot at one. -/
def sampleEnvironment : Pb.Environment Binary64 :=
  ⟨1, some ⟨some ⟨⟨0x3FF0000000000000⟩, zero, zero, zero, zero, zero⟩, [],
    [⟨2, ⟨0x3FF0000000000000⟩, zero, zero, zero, zero, zero⟩]⟩, none, 0, 3⟩

theorem environment_round_trip_limitReader :
    parseFromArray Environment.cleared (Environment.mergePartialFromCodedStream limitReader)
        [8, 1, 18, 24, 10, 9, 9, 0, 0, 0, 0, 0, 0, 0xF0, 0x3F,
          26, 11, 8, 2, 17, 0, 0, 0, 0, 0, 0, 0xF0, 0x3F, 40, 3] =
      (true, sampleEnvironment) := by
  have hserialize : serializeToString sampleEnvironment.byteSize
      sampleEnvironment.serializeToArray =
        (true, [8, 1, 18, 24, 10, 9, 9, 0, 0, 0, 0, 0, 0, 0xF0, 0x3F,
          26, 11, 8, 2, 17, 0, 0, 0, 0, 0, 0, 0xF0, 0x3F, 40, 3]) := by
    decide +kernel
  have htrip := environment_round_trip limitReader hserialize
  exact htrip.1.trans (congrArg _ (htrip.2.mpr (by decide +kernel)))

/-- The second has the ball at two and another robot, and no goals. -/
theorem concatenation_merges_later_wins :
    parseFromArray Environment.cleared (Environment.mergePartialFromCodedStream limitReader)
        ([8, 1, 18, 24, 10, 9, 9, 0, 0, 0, 0, 0, 0, 0xF0, 0x3F,
            26, 11, 8, 2, 17, 0, 0, 0, 0, 0, 0, 0xF0, 0x3F, 40, 3] ++
          [8, 2, 18, 15, 10, 9, 9, 0, 0, 0, 0, 0, 0, 0, 0x40, 26, 2, 8, 5]) =
      (true, ⟨2, some ⟨some ⟨⟨0x4000000000000000⟩, zero, zero, zero, zero, zero⟩, [],
        [⟨2, ⟨0x3FF0000000000000⟩, zero, zero, zero, zero, zero⟩,
          ⟨5, zero, zero, zero, zero, zero, zero⟩]⟩, none, 0, 3⟩) := by
  have hlength : ([sampleEnvironment,
      ⟨2, some ⟨some ⟨⟨0x4000000000000000⟩, zero, zero, zero, zero, zero⟩, [],
        [⟨5, zero, zero, zero, zero, zero, zero⟩]⟩, none, 0, 0⟩].flatMap
      Environment.serializeToArray).length < 2 ^ 31 := by
    decide +kernel
  exact (congrArg _ (by decide +kernel)).trans
    ((concatenation_merges limitReader hlength).trans (by decide +kernel))

end FiraClient
