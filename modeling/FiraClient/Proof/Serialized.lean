import FiraClient.Proof.Schemas

/-!
# What a written message does

The size of a message is the number of the bytes that are written for it. Reading these bytes does
to any message what `MergeFrom` does: a scalar that is zero is not written and changes nothing, a
nested message is merged into the one that is there, and repeated messages are appended.
-/

namespace FiraClient

open Pb

namespace Pb

/-! ### Writers -/

theorem writeTag_eq {n : ℕ} {number : UInt32} (hnumber : number.toNat = n) (hn : n < 2 ^ 29)
    (type : WireType) : writeTag number type = Varint.encode (8 * n + type.value.toNat) := by
  subst hnumber
  rw [writeTag, writeTagToArray, writeVarint32ToArray_eq, toNat_makeTag hn]

theorem length_writeTag {number : UInt32} (hnumber : number.toNat < 16) (type : WireType) :
    (writeTag number type).length = 1 := by
  have htype : type.value.toNat < 8 := by
    cases type <;> decide
  rw [writeTag_eq rfl (by omega), Varint.encode_of_lt (by omega)]
  rfl

theorem length_writeDouble {number : UInt32} (hnumber : number.toNat < 16) (value : Binary64) :
    (writeDoubleUnlessZero number value).length = doubleSize value := by
  unfold writeDoubleUnlessZero doubleSize
  split
  · rw [writeDoubleToArray, List.length_append, length_writeTag hnumber,
      writeLittleEndian64ToArray, Wire.length_toLittleEndian]
  · rfl

theorem length_writeUInt32 {number : UInt32} (hnumber : number.toNat < 16) (value : UInt32) :
    (writeUInt32UnlessZero number value).length = uint32SizeUnlessZero value := by
  unfold writeUInt32UnlessZero uint32SizeUnlessZero
  split
  · rw [writeUInt32ToArray, List.length_append, length_writeTag hnumber, uint32Size,
      varintSize32_eq]
  · rfl

theorem length_writeMessage {number : UInt32} (hnumber : number.toNat < 16) {size : ℕ}
    {bytes : List UInt8} (hsize : size = bytes.length) :
    (writeMessageToArray number size bytes).length = 1 + lengthDelimitedSize size := by
  rw [writeMessageToArray, List.length_append, length_writeTag hnumber, List.length_append,
    lengthDelimitedSize, varintSize32_eq, hsize]
  omega

theorem length_flatMap_writeMessage {α : Type} {number : UInt32} (hnumber : number.toNat < 16)
    (items : List α) {size : α → ℕ} {bytes : α → List UInt8}
    (hsize : ∀ item, size item = (bytes item).length) :
    (items.flatMap fun item => writeMessageToArray number (size item) (bytes item)).length =
      1 * items.length + (items.map fun item => lengthDelimitedSize (size item)).sum := by
  induction items with
  | nil => rfl
  | cons item items ih =>
      rw [List.flatMap_cons, List.length_append, length_writeMessage hnumber (hsize item), ih,
        List.length_cons, List.map_cons, List.sum_cons]
      omega

/-! ### What the writers' bytes do -/

section Absorbs

variable {M N : Type} {schema : List (Wire.Field M)} {depth : ℕ} (number : UInt32)

theorem absorbs_writeDouble {set : M → Binary64 → M} (get : M → Binary64) (value : Binary64)
    (hfield : Wire.lookup schema (8 * number.toNat + 1) = some (doubleField number.toNat set))
    (hnumber : number.toNat < 2 ^ 29)
    (hset : ∀ message, set message (get message) = message) :
    Wire.Absorbs schema depth (writeDoubleUnlessZero number value) fun message =>
      set message (mergeDouble (get message) value) := by
  have hdecode : ∀ rest, doubleDecoder.decode (writeLittleEndian64ToArray value.bits ++ rest) =
      some (value, rest) := by
    intro rest
    have hlength : (writeLittleEndian64ToArray value.bits).length = 8 :=
      Wire.length_toLittleEndian 8 value.bits.toNat
    have hbits : value.bits.toNat < 256 ^ 8 := value.bits.toNat_lt
    simp only [doubleDecoder, Wire.cut_append hlength, Option.map_some]
    rw [writeLittleEndian64ToArray, Wire.littleEndian_toLittleEndian hbits, UInt64.ofNat_toNat]
  have hfixed : WireType.fixed64.value.toNat = 1 := rfl
  have hwrites : Wire.Absorbs schema depth (writeDoubleToArray number value) fun message =>
      set message value := by
    rw [writeDoubleToArray, writeTag_eq rfl hnumber, hfixed]
    exact Wire.absorbs_value hfield (by omega) hdecode
  refine (Wire.Absorbs.ite fun _ => hwrites).congr fun message => ?_
  unfold mergeDouble
  split
  · rfl
  · exact (hset message).symm

theorem decode_writeVarint32 {α : Type} (convert : ℕ → α) (value : UInt32) (rest : List UInt8) :
    (varintDecoder convert).decode (writeVarint32ToArray value ++ rest) =
      some (convert value.toNat, rest) := by
  have hfits : value.toNat < 128 ^ 10 := value.toNat_lt.trans (by decide)
  simp only [varintDecoder, writeVarint32ToArray_eq, Varint.decode_encode (by decide) hfits,
    Option.map_some]

theorem absorbs_writeUInt32 {set : M → UInt32 → M} (get : M → UInt32) (value : UInt32)
    (hfield : Wire.lookup schema (8 * number.toNat) = some (uint32Field number.toNat set))
    (hnumber : 0 < number.toNat ∧ number.toNat < 2 ^ 29)
    (hset : ∀ message, set message (get message) = message) :
    Wire.Absorbs schema depth (writeUInt32UnlessZero number value) fun message =>
      set message (mergeUInt32 (get message) value) := by
  have hvarint : WireType.varint.value.toNat = 0 := rfl
  have hwrites : Wire.Absorbs schema depth (writeUInt32ToArray number value) fun message =>
      set message value := by
    rw [writeUInt32ToArray, writeTag_eq rfl hnumber.2, hvarint]
    refine Wire.absorbs_value hfield (by omega) fun rest => ?_
    rw [decode_writeVarint32, UInt32.ofNat_toNat]
  refine (Wire.Absorbs.ite fun _ => hwrites).congr fun message => ?_
  unfold mergeUInt32
  split
  · rfl
  · exact (hset message).symm

theorem absorbs_writeBool {set : M → Bool → M} (get : M → Bool) (value : Bool)
    (hfield : Wire.lookup schema (8 * number.toNat) = some (boolField number.toNat set))
    (hnumber : 0 < number.toNat ∧ number.toNat < 2 ^ 29)
    (hset : ∀ message, set message (get message) = message) :
    Wire.Absorbs schema depth (if value then writeBoolToArray number value else []) fun message =>
      set message (if value then value else get message) := by
  have hvarint : WireType.varint.value.toNat = 0 := rfl
  have hwrites : value = true → Wire.Absorbs schema depth (writeBoolToArray number value)
      fun message => set message value := by
    rintro rfl
    rw [writeBoolToArray, writeTag_eq rfl hnumber.2, hvarint]
    refine Wire.absorbs_value hfield (by omega) fun rest => ?_
    rw [decode_writeVarint32]
    rfl
  refine (Wire.Absorbs.ite hwrites).congr fun message => ?_
  split
  · rfl
  · exact (hset message).symm

theorem absorbs_writeMessage {inner : List (Wire.Field N)} {get : M → N} {set : M → N → M}
    (hfield : Wire.lookup schema (8 * number.toNat + 2) =
      some (messageField number.toNat inner get set))
    (hnumber : number.toNat < 2 ^ 29) {size : ℕ} {bytes : List UInt8}
    (hsize : size = bytes.length) (hlength : size < 2 ^ 31) {change : N → N}
    (hbytes : Wire.Absorbs inner depth bytes change) :
    Wire.Absorbs schema (depth + 1) (writeMessageToArray number size bytes) fun message =>
      set message (change (get message)) := by
  have hdelimited : WireType.lengthDelimited.value.toNat = 2 := rfl
  subst hsize
  rw [writeMessageToArray, writeTag_eq rfl hnumber, hdelimited, writeVarint32ToArray_eq,
    UInt32.toNat_ofNat', Nat.mod_eq_of_lt (hlength.trans (by decide))]
  exact Wire.absorbs_message hfield (by omega) hlength hbytes

end Absorbs

end Pb

/-! ### Sizes -/

theorem Pb.doubleSize_le (value : Binary64) : doubleSize value ≤ 9 := by
  unfold doubleSize
  split <;> decide

theorem Pb.uint32SizeUnlessZero_le (value : UInt32) : uint32SizeUnlessZero value ≤ 6 := by
  have hlog := log2_lt value
  unfold uint32SizeUnlessZero uint32Size varintSize32
  split
  · have hor : Nat.log2 (value ||| 0x1).toNat = Nat.log2 value.toNat := by
      rw [UInt32.toNat_or]
      exact log2_or_one value.toNat
    simp only [hor]
    omega
  · decide

section Sizes

theorem Ball.byteSize_eq (ball : Ball Binary64) : ball.byteSize = ball.serializeToArray.length := by
  simp (disch := decide) only [byteSize, serializeToArray, List.length_append, length_writeDouble]

theorem Robot.byteSize_eq (robot : Robot Binary64) :
    robot.byteSize = robot.serializeToArray.length := by
  simp (disch := decide) only [byteSize, serializeToArray, List.length_append, length_writeDouble,
    length_writeUInt32]

theorem Field.byteSize_eq (field : Field Binary64) :
    field.byteSize = field.serializeToArray.length := by
  simp (disch := decide) only [byteSize, serializeToArray, List.length_append, length_writeDouble]

theorem Command.byteSize_eq (command : Command Binary64) :
    command.byteSize = command.serializeToArray.length := by
  have hbool : (if command.yellowteam then writeBoolToArray 2 command.yellowteam else []).length =
      if command.yellowteam then 1 + 1 else 0 := by
    cases command.yellowteam <;> decide +kernel
  simp (disch := decide) only [byteSize, serializeToArray, List.length_append, length_writeDouble,
    length_writeUInt32, hbool]

theorem Frame.byteSize_eq (frame : Frame Binary64) :
    frame.byteSize = frame.serializeToArray.length := by
  simp (disch := decide) only [byteSize, serializeToArray, List.length_append,
    length_flatMap_writeMessage _ _ Robot.byteSize_eq]
  cases frame.ball with
  | none =>
      simp only [List.length_nil]
      omega
  | some ball =>
      have hball := length_writeMessage (show (1 : UInt32).toNat < 16 by decide) ball.byteSize_eq
      simp only [hball]
      omega

theorem Commands.byteSize_eq (commands : Commands Binary64) :
    commands.byteSize = commands.serializeToArray.length :=
  (length_flatMap_writeMessage (by decide) commands.robotCommands Command.byteSize_eq).symm

theorem Packet.byteSize_eq (packet : Packet Binary64) :
    packet.byteSize = packet.serializeToArray.length := by
  unfold byteSize serializeToArray
  cases packet.cmd with
  | none => rfl
  | some cmd => exact (length_writeMessage (by decide) cmd.byteSize_eq).symm

theorem Pb.Environment.byteSize_eq (environment : Environment Binary64) :
    environment.byteSize = environment.serializeToArray.length := by
  simp (disch := decide) only [byteSize, serializeToArray, List.length_append, length_writeUInt32]
  have hframe (frame : Frame Binary64) :=
    length_writeMessage (show (2 : UInt32).toNat < 16 by decide) frame.byteSize_eq
  have hfield (field : Field Binary64) :=
    length_writeMessage (show (3 : UInt32).toNat < 16 by decide) field.byteSize_eq
  cases environment.frame <;> cases environment.field <;>
    simp only [hframe, hfield, List.length_nil]

theorem Ball.byteSize_lt (ball : Ball Binary64) : ball.byteSize < 2 ^ 31 := by
  have hdouble := doubleSize_le
  grind [Ball.byteSize]

theorem Robot.byteSize_lt (robot : Robot Binary64) : robot.byteSize < 2 ^ 31 := by
  have hdouble := doubleSize_le
  have huint32 := uint32SizeUnlessZero_le
  grind [Robot.byteSize]

theorem Field.byteSize_lt (field : Field Binary64) : field.byteSize < 2 ^ 31 := by
  have hdouble := doubleSize_le
  grind [Field.byteSize]

theorem Command.byteSize_lt (command : Command Binary64) : command.byteSize < 2 ^ 31 := by
  have hdouble := doubleSize_le
  have huint32 := uint32SizeUnlessZero_le
  grind [Command.byteSize]

theorem Packet.cmd_byteSize_lt {packet : Packet Binary64} (hsize : packet.byteSize < 2 ^ 31)
    {cmd : Commands Binary64} (hcmd : packet.cmd = some cmd) : cmd.byteSize < 2 ^ 31 := by
  simp only [byteSize, hcmd, lengthDelimitedSize] at hsize
  omega

theorem Pb.Environment.frame_byteSize_lt {environment : Environment Binary64}
    (hsize : environment.byteSize < 2 ^ 31) {frame : Frame Binary64}
    (hframe : environment.frame = some frame) : frame.byteSize < 2 ^ 31 := by
  simp only [byteSize, hframe, lengthDelimitedSize] at hsize
  omega

/-- **Sizes.** The size of a message is the number of the bytes that are then written, where the
`int` it is totalled in holds it: always for a ball, a robot, a field and a command, and for the
others if it is below `2 ^ 31`. The messages in these then have such sizes themselves. -/
theorem written_bytes_counted :
    (∀ ball : Ball Binary64,
        ball.byteSize < 2 ^ 31 ∧ ball.byteSize = ball.serializeToArray.length) ∧
      (∀ robot : Robot Binary64,
        robot.byteSize < 2 ^ 31 ∧ robot.byteSize = robot.serializeToArray.length) ∧
      (∀ field : Field Binary64,
        field.byteSize < 2 ^ 31 ∧ field.byteSize = field.serializeToArray.length) ∧
      (∀ command : Command Binary64,
        command.byteSize < 2 ^ 31 ∧ command.byteSize = command.serializeToArray.length) ∧
      (∀ frame : Frame Binary64,
        frame.byteSize < 2 ^ 31 → frame.byteSize = frame.serializeToArray.length) ∧
      (∀ commands : Commands Binary64,
        commands.byteSize < 2 ^ 31 → commands.byteSize = commands.serializeToArray.length) ∧
      (∀ packet : Packet Binary64, packet.byteSize < 2 ^ 31 →
        packet.byteSize = packet.serializeToArray.length ∧
          ∀ cmd, packet.cmd = some cmd → cmd.byteSize < 2 ^ 31) ∧
      ∀ environment : Pb.Environment Binary64, environment.byteSize < 2 ^ 31 →
        environment.byteSize = environment.serializeToArray.length ∧
          ∀ frame, environment.frame = some frame → frame.byteSize < 2 ^ 31 :=
  ⟨fun ball => ⟨ball.byteSize_lt, ball.byteSize_eq⟩,
    fun robot => ⟨robot.byteSize_lt, robot.byteSize_eq⟩,
    fun field => ⟨field.byteSize_lt, field.byteSize_eq⟩,
    fun command => ⟨command.byteSize_lt, command.byteSize_eq⟩,
    fun frame _ => frame.byteSize_eq,
    fun commands _ => commands.byteSize_eq,
    fun packet hsize => ⟨packet.byteSize_eq, fun _ => packet.cmd_byteSize_lt hsize⟩,
    fun environment hsize =>
      ⟨environment.byteSize_eq, fun _ => environment.frame_byteSize_lt hsize⟩⟩

/-- A frame with one robot: eleven bytes of it, two in front of them, and two in front of these. -/
theorem written_bytes_counted_robot :
    (⟨0, some ⟨none, [], [⟨1, ⟨0x3FF0000000000000⟩, zero, zero, zero, zero, zero⟩]⟩, none, 0, 0⟩ :
      Pb.Environment Binary64).serializeToArray.length = 15 :=
  have hsize := written_bytes_counted.2.2.2.2.2.2.2
    ⟨0, some ⟨none, [], [⟨1, ⟨0x3FF0000000000000⟩, zero, zero, zero, zero, zero⟩]⟩, none, 0, 0⟩
    (by decide +kernel)
  hsize.1.symm.trans (by decide +kernel)

end Sizes

/-! ### The messages -/

section Leaves

variable (depth : ℕ)

theorem Ball.absorbs (ball : Ball Binary64) :
    Wire.Absorbs Ball.schema depth ball.serializeToArray fun message => message.mergeFrom ball :=
  Wire.Absorbs.congr
    ((((((absorbs_writeDouble 1 Ball.x ball.x rfl (by decide) fun _ => rfl).append
      (absorbs_writeDouble 2 Ball.y ball.y rfl (by decide) fun _ => rfl)).append
      (absorbs_writeDouble 3 Ball.z ball.z rfl (by decide) fun _ => rfl)).append
      (absorbs_writeDouble 4 Ball.vx ball.vx rfl (by decide) fun _ => rfl)).append
      (absorbs_writeDouble 5 Ball.vy ball.vy rfl (by decide) fun _ => rfl)).append
      (absorbs_writeDouble 6 Ball.vz ball.vz rfl (by decide) fun _ => rfl))
    fun _ => rfl

theorem Robot.absorbs (robot : Robot Binary64) :
    Wire.Absorbs Robot.schema depth robot.serializeToArray
      fun message => message.mergeFrom robot :=
  Wire.Absorbs.congr
    (((((((absorbs_writeUInt32 1 Robot.robotId robot.robotId rfl (by decide) fun _ => rfl).append
      (absorbs_writeDouble 2 Robot.x robot.x rfl (by decide) fun _ => rfl)).append
      (absorbs_writeDouble 3 Robot.y robot.y rfl (by decide) fun _ => rfl)).append
      (absorbs_writeDouble 4 Robot.orientation robot.orientation rfl (by decide)
        fun _ => rfl)).append
      (absorbs_writeDouble 5 Robot.vx robot.vx rfl (by decide) fun _ => rfl)).append
      (absorbs_writeDouble 6 Robot.vy robot.vy rfl (by decide) fun _ => rfl)).append
      (absorbs_writeDouble 7 Robot.vorientation robot.vorientation rfl (by decide) fun _ => rfl))
    fun _ => rfl

theorem Field.absorbs (field : Field Binary64) :
    Wire.Absorbs Field.schema depth field.serializeToArray
      fun message => message.mergeFrom field :=
  Wire.Absorbs.congr
    ((((absorbs_writeDouble 1 Field.width field.width rfl (by decide) fun _ => rfl).append
      (absorbs_writeDouble 2 Field.length field.length rfl (by decide) fun _ => rfl)).append
      (absorbs_writeDouble 3 Field.goalWidth field.goalWidth rfl (by decide) fun _ => rfl)).append
      (absorbs_writeDouble 4 Field.goalDepth field.goalDepth rfl (by decide) fun _ => rfl))
    fun _ => rfl

theorem Command.absorbs (command : Command Binary64) :
    Wire.Absorbs Command.schema depth command.serializeToArray
      fun message => message.mergeFrom command :=
  Wire.Absorbs.congr
    ((((absorbs_writeUInt32 1 Command.id command.id rfl (by decide) fun _ => rfl).append
      (absorbs_writeBool 2 Command.yellowteam command.yellowteam rfl (by decide)
        fun _ => rfl)).append
      (absorbs_writeDouble 6 Command.wheelLeft command.wheelLeft rfl (by decide)
        fun _ => rfl)).append
      (absorbs_writeDouble 7 Command.wheelRight command.wheelRight rfl (by decide) fun _ => rfl))
    fun _ => rfl

end Leaves

/-! ### Messages with messages in them -/

/-- A field of a frame as it stands in the bytes. -/
inductive FrameField where
  | ball (value : Ball Binary64)
  | robotYellow (robot : Robot Binary64)
  | robotBlue (robot : Robot Binary64)

namespace FrameField

def number : FrameField → UInt32
  | .ball _ => 1
  | .robotYellow _ => 2
  | .robotBlue _ => 3

def byteSize : FrameField → ℕ
  | .ball value => value.byteSize
  | .robotYellow robot => robot.byteSize
  | .robotBlue robot => robot.byteSize

def serializeToArray : FrameField → List UInt8
  | .ball value => value.serializeToArray
  | .robotYellow robot => robot.serializeToArray
  | .robotBlue robot => robot.serializeToArray

def write (field : FrameField) : List UInt8 :=
  writeMessageToArray field.number field.byteSize field.serializeToArray

theorem byteSize_eq (field : FrameField) : field.byteSize = field.serializeToArray.length := by
  cases field
  · exact Ball.byteSize_eq _
  · exact Robot.byteSize_eq _
  · exact Robot.byteSize_eq _

theorem byteSize_lt (field : FrameField) : field.byteSize < 2 ^ 31 := by
  cases field
  · exact Ball.byteSize_lt _
  · exact Robot.byteSize_lt _
  · exact Robot.byteSize_lt _

end FrameField

/-- The fields in the order in which they are written. -/
def Frame.fields (frame : Frame Binary64) : List FrameField :=
  frame.ball.toList.map .ball ++ frame.robotsYellow.map .robotYellow ++
    frame.robotsBlue.map .robotBlue

/-- What reading a field does to a frame. -/
def Frame.add (frame : Frame Binary64) : FrameField → Frame Binary64
  | .ball value => { frame with ball := some (frame.mutableBall.mergeFrom value) }
  | .robotYellow robot =>
      { frame with robotsYellow := frame.robotsYellow ++ [Robot.cleared.mergeFrom robot] }
  | .robotBlue robot =>
      { frame with robotsBlue := frame.robotsBlue ++ [Robot.cleared.mergeFrom robot] }

theorem Frame.foldl_add_yellow (robots : List (Robot Binary64)) (frame : Frame Binary64) :
    (robots.map FrameField.robotYellow).foldl Frame.add frame =
      { frame with
        robotsYellow := frame.robotsYellow ++ robots.map Robot.cleared.mergeFrom } := by
  induction robots generalizing frame with
  | nil => simp
  | cons robot robots ih => simp [ih, add]

theorem Frame.foldl_add_blue (robots : List (Robot Binary64)) (frame : Frame Binary64) :
    (robots.map FrameField.robotBlue).foldl Frame.add frame =
      { frame with
        robotsBlue := frame.robotsBlue ++ robots.map Robot.cleared.mergeFrom } := by
  induction robots generalizing frame with
  | nil => simp
  | cons robot robots ih => simp [ih, add]

theorem Frame.foldl_add_fields (frame source : Frame Binary64) :
    source.fields.foldl Frame.add frame = frame.mergeFrom source := by
  rw [fields, List.foldl_append, List.foldl_append, foldl_add_yellow, foldl_add_blue]
  unfold mergeFrom
  cases source.ball <;> rfl

theorem Frame.serializeToArray_fields (frame : Frame Binary64) :
    frame.serializeToArray = frame.fields.flatMap FrameField.write := by
  simp only [fields, List.flatMap_append, List.flatMap_map]
  unfold serializeToArray
  cases frame.ball with
  | none => rfl
  | some ball =>
      rw [Option.toList_some, List.flatMap_singleton]
      rfl

theorem Commands.foldl_commands (robotCommands : List (Command Binary64))
    (commands : Commands Binary64) :
    robotCommands.foldl (fun commands command =>
        { robotCommands := commands.robotCommands ++ [Command.cleared.mergeFrom command] })
        commands =
      { robotCommands :=
          commands.robotCommands ++ robotCommands.map Command.cleared.mergeFrom } := by
  induction robotCommands generalizing commands with
  | nil => simp
  | cons command robotCommands ih => simp [ih]

section Nested

variable (depth : ℕ)

theorem FrameField.absorbs (field : FrameField) :
    Wire.Absorbs Frame.schema (depth + 1) field.write fun frame => frame.add field := by
  cases field with
  | ball value =>
      exact .congr (absorbs_writeMessage 1 rfl (by decide) value.byteSize_eq value.byteSize_lt
        (value.absorbs depth)) fun _ => rfl
  | robotYellow robot =>
      exact .congr (absorbs_writeMessage 2 rfl (by decide) robot.byteSize_eq robot.byteSize_lt
        (robot.absorbs depth)) fun _ => rfl
  | robotBlue robot =>
      exact .congr (absorbs_writeMessage 3 rfl (by decide) robot.byteSize_eq robot.byteSize_lt
        (robot.absorbs depth)) fun _ => rfl

theorem FrameField.absorbs_all (fields : List FrameField) :
    Wire.Absorbs Frame.schema (depth + 1) (fields.flatMap FrameField.write)
      fun frame => fields.foldl Frame.add frame :=
  .flatMap fun field _ => field.absorbs depth

theorem Frame.absorbs (frame : Frame Binary64) :
    Wire.Absorbs Frame.schema (depth + 1) frame.serializeToArray
      fun message => message.mergeFrom frame := by
  rw [serializeToArray_fields]
  exact (FrameField.absorbs_all depth frame.fields).congr fun message =>
    message.foldl_add_fields frame

theorem Commands.absorbs (commands : Commands Binary64) :
    Wire.Absorbs Commands.schema (depth + 1) commands.serializeToArray
      fun message => message.mergeFrom commands := by
  have hcommand : ∀ command : Command Binary64, Wire.Absorbs Commands.schema (depth + 1)
      (writeMessageToArray 1 command.byteSize command.serializeToArray)
      fun message =>
        { robotCommands := message.robotCommands ++ [Command.cleared.mergeFrom command] } :=
    fun command => .congr (absorbs_writeMessage 1 rfl (by decide) command.byteSize_eq
      command.byteSize_lt (command.absorbs depth)) fun _ => rfl
  refine Wire.Absorbs.congr (.flatMap fun command _ => hcommand command) fun message => ?_
  rw [Commands.foldl_commands, mergeFrom]

/-- For any message with such a field of number 1. -/
theorem Packet.absorbs_cmd {M : Type} {schema : List (Wire.Field M)}
    {get : M → Commands Binary64} {set : M → Commands Binary64 → M}
    (hfield : Wire.lookup schema 10 = some (messageField 1 Commands.schema get set))
    (packet : Packet Binary64) (hsize : packet.byteSize < 2 ^ 31) :
    Wire.Absorbs schema (depth + 2) packet.serializeToArray fun message =>
      match packet.cmd with
      | some cmd => set message ((get message).mergeFrom cmd)
      | none => message := by
  unfold serializeToArray
  cases hcmd : packet.cmd with
  | none => exact .nil
  | some cmd =>
      exact absorbs_writeMessage 1 hfield (by decide) cmd.byteSize_eq
        (packet.cmd_byteSize_lt hsize hcmd) (cmd.absorbs depth)

theorem Packet.absorbs (packet : Packet Binary64) (hsize : packet.byteSize < 2 ^ 31) :
    Wire.Absorbs Packet.schema (depth + 2) packet.serializeToArray
      fun message => message.mergeFrom packet := by
  refine (packet.absorbs_cmd depth rfl hsize).congr fun message => ?_
  unfold mergeFrom
  cases packet.cmd <;> rfl

theorem Pb.Environment.serializeToArray_elim (environment : Environment Binary64) :
    environment.serializeToArray =
      writeUInt32UnlessZero 1 environment.step ++
        (environment.frame.elim [] fun frame =>
          writeMessageToArray 2 frame.byteSize frame.serializeToArray) ++
        (environment.field.elim [] fun field =>
          writeMessageToArray 3 field.byteSize field.serializeToArray) ++
        writeUInt32UnlessZero 4 environment.goalsBlue ++
        writeUInt32UnlessZero 5 environment.goalsYellow := by
  unfold serializeToArray
  cases environment.frame <;> cases environment.field <;> rfl

theorem Pb.Environment.absorbs (environment : Environment Binary64)
    (hsize : environment.byteSize < 2 ^ 31) :
    Wire.Absorbs Environment.schema (depth + 2) environment.serializeToArray
      fun message => message.mergeFrom environment := by
  have hframe : Wire.Absorbs Environment.schema (depth + 2)
      (environment.frame.elim [] fun frame =>
        writeMessageToArray 2 frame.byteSize frame.serializeToArray)
      fun message => { message with frame := (message.mergeFrom environment).frame } := by
    unfold mergeFrom
    cases hframe : environment.frame with
    | none => exact .nil
    | some frame =>
        exact .congr (absorbs_writeMessage 2 rfl (by decide) frame.byteSize_eq
          (environment.frame_byteSize_lt hsize hframe) (frame.absorbs depth)) fun _ => rfl
  have hfield : Wire.Absorbs Environment.schema (depth + 2)
      (environment.field.elim [] fun field =>
        writeMessageToArray 3 field.byteSize field.serializeToArray)
      fun message => { message with field := (message.mergeFrom environment).field } := by
    unfold mergeFrom
    cases environment.field with
    | none => exact .nil
    | some field =>
        exact .congr (absorbs_writeMessage 3 rfl (by decide) field.byteSize_eq
          field.byteSize_lt (field.absorbs (depth + 1))) fun _ => rfl
  rw [serializeToArray_elim]
  exact Wire.Absorbs.congr
    (((((absorbs_writeUInt32 1 Environment.step environment.step rfl (by decide)
        fun _ => rfl).append hframe).append hfield).append
      (absorbs_writeUInt32 4 Environment.goalsBlue environment.goalsBlue rfl (by decide)
        fun _ => rfl)).append
      (absorbs_writeUInt32 5 Environment.goalsYellow environment.goalsYellow rfl (by decide)
        fun _ => rfl))
    fun _ => rfl

end Nested

end FiraClient
