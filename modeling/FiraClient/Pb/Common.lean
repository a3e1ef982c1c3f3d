import FiraClient.MainLoop
import FiraClient.Pb.Generated

/-!
# The generated messages

The classes of `common.pb.cc`, less those without data: for each of them the parser, the writer, the
size and the merge. A message that is written has the size computed just before as its cached size.
A size is totalled in an `int`: none of its terms is negative, so below `2 ^ 31` no sum on the way
overflows and the numbers here are those of the source; it promises nothing beyond.
`Environment` is the whole message here; the client looks at its frame.
-/

namespace FiraClient

open Pb

structure Field (R : Type) where
  width : R
  length : R
  goalWidth : R
  goalDepth : R
deriving DecidableEq, Repr

namespace Pb

@[ext]
structure Environment (R : Type) where
  step : UInt32
  frame : Option (Frame R)
  field : Option (Field R)
  goalsBlue : UInt32
  goalsYellow : UInt32
deriving DecidableEq, Repr

def Environment.seen {R : Type} (environment : Environment R) : FiraClient.Environment R where
  frame := environment.frame

def zero : Binary64 := ⟨0⟩

/-- `case` of a field of type `double`, of number `number`. -/
def doubleCase {M : Type} (number tag : UInt32) (set : M → Binary64 → M)
    (jumps : List (UInt32 × Label)) (expectsEnd : Bool) : FieldCase M where
  number := number
  tag := tag
  repeated := false
  read := readPrimitive readDouble none set
  jumps := jumps
  expectsEnd := expectsEnd

def uint32Case {M : Type} (number tag : UInt32) (set : M → UInt32 → M)
    (jumps : List (UInt32 × Label)) (expectsEnd : Bool) : FieldCase M where
  number := number
  tag := tag
  repeated := false
  read := readPrimitive readUInt32 (some failedVarint32) set
  jumps := jumps
  expectsEnd := expectsEnd

def boolCase {M : Type} (number tag : UInt32) (set : M → Bool → M)
    (jumps : List (UInt32 × Label)) (expectsEnd : Bool) : FieldCase M where
  number := number
  tag := tag
  repeated := false
  read := readPrimitive readBool none set
  jumps := jumps
  expectsEnd := expectsEnd

/-- `case` of a message-typed field: `get` is its `mutable` accessor. -/
def messageCase {M N : Type} (number tag : UInt32) (get : M → N) (set : M → N → M)
    (merge : Merge N) (jumps : List (UInt32 × Label)) (expectsEnd : Bool) : FieldCase M where
  number := number
  tag := tag
  repeated := false
  read := subMessage get set (readMessage merge)
  jumps := jumps
  expectsEnd := expectsEnd

/-- `case` of a repeated message: every element is added before it is read. -/
def repeatedCase {M N : Type} (reader : RepeatedReader) (number tag : UInt32) (empty : N)
    (add : M → N → M) (merge : Merge N) (jumps : List (UInt32 × Label)) (expectsEnd : Bool) :
    FieldCase M where
  number := number
  tag := tag
  repeated := true
  read := subMessage (fun _ => empty) add (reader.read merge)
  jumps := jumps
  expectsEnd := expectsEnd

def writeDoubleUnlessZero (number : UInt32) (value : Binary64) : List UInt8 :=
  if value.nonzero then writeDoubleToArray number value else []

def writeUInt32UnlessZero (number : UInt32) (value : UInt32) : List UInt8 :=
  if value ≠ 0 then writeUInt32ToArray number value else []

def doubleSize (value : Binary64) : Nat :=
  if value.nonzero then 1 + 8 else 0

def uint32SizeUnlessZero (value : UInt32) : Nat :=
  if value ≠ 0 then 1 + uint32Size value else 0

/-- `if (from.x() != 0) set_x(from.x())`. -/
def mergeDouble (value source : Binary64) : Binary64 :=
  if source.nonzero then source else value

def mergeUInt32 (value source : UInt32) : UInt32 :=
  if source ≠ 0 then source else value

/-- `MessageLite::ParseFromArray`: the message is cleared first. -/
def parseFromArray {M : Type} (cleared : M) (merge : Merge M) (data : List UInt8) : Bool × M :=
  match merge cleared (.ofArray data) with
  | (message, some input) => (input.consumedEntireMessage, message)
  | (message, none) => (false, message)

/-- `MessageLite::SerializeToString`: its result and the string. -/
def serializeToString (byteSize : Nat) (bytes : List UInt8) : Bool × List UInt8 :=
  if (byteSize : Int) > intMax then (false, []) else (true, bytes)

end Pb

/-! ### Ball -/

namespace Ball

def cleared : Ball Binary64 := ⟨zero, zero, zero, zero, zero, zero⟩

def cases : List (FieldCase (Ball Binary64)) :=
  [doubleCase 1 9 (fun ball x => { ball with x := x }) [(17, .parse 2)] false,
    doubleCase 2 17 (fun ball y => { ball with y := y }) [(25, .parse 3)] false,
    doubleCase 3 25 (fun ball z => { ball with z := z }) [(33, .parse 4)] false,
    doubleCase 4 33 (fun ball vx => { ball with vx := vx }) [(41, .parse 5)] false,
    doubleCase 5 41 (fun ball vy => { ball with vy := vy }) [(49, .parse 6)] false,
    doubleCase 6 49 (fun ball vz => { ball with vz := vz }) [] true]

def mergePartialFromCodedStream : Merge (Ball Binary64) := mergeCases cases

def serializeToArray (ball : Ball Binary64) : List UInt8 :=
  writeDoubleUnlessZero 1 ball.x ++ writeDoubleUnlessZero 2 ball.y ++
    writeDoubleUnlessZero 3 ball.z ++ writeDoubleUnlessZero 4 ball.vx ++
    writeDoubleUnlessZero 5 ball.vy ++ writeDoubleUnlessZero 6 ball.vz

def byteSize (ball : Ball Binary64) : Nat :=
  doubleSize ball.x + doubleSize ball.y + doubleSize ball.z + doubleSize ball.vx +
    doubleSize ball.vy + doubleSize ball.vz

def mergeFrom (ball source : Ball Binary64) : Ball Binary64 where
  x := mergeDouble ball.x source.x
  y := mergeDouble ball.y source.y
  z := mergeDouble ball.z source.z
  vx := mergeDouble ball.vx source.vx
  vy := mergeDouble ball.vy source.vy
  vz := mergeDouble ball.vz source.vz

end Ball

/-! ### Robot -/

namespace Robot

def cleared : Robot Binary64 := ⟨0, zero, zero, zero, zero, zero, zero⟩

def cases : List (FieldCase (Robot Binary64)) :=
  [uint32Case 1 8 (fun robot robotId => { robot with robotId := robotId }) [(17, .parse 2)] false,
    doubleCase 2 17 (fun robot x => { robot with x := x }) [(25, .parse 3)] false,
    doubleCase 3 25 (fun robot y => { robot with y := y }) [(33, .parse 4)] false,
    doubleCase 4 33 (fun robot orientation => { robot with orientation := orientation })
      [(41, .parse 5)] false,
    doubleCase 5 41 (fun robot vx => { robot with vx := vx }) [(49, .parse 6)] false,
    doubleCase 6 49 (fun robot vy => { robot with vy := vy }) [(57, .parse 7)] false,
    doubleCase 7 57 (fun robot vorientation => { robot with vorientation := vorientation }) []
      true]

def mergePartialFromCodedStream : Merge (Robot Binary64) := mergeCases cases

def serializeToArray (robot : Robot Binary64) : List UInt8 :=
  writeUInt32UnlessZero 1 robot.robotId ++ writeDoubleUnlessZero 2 robot.x ++
    writeDoubleUnlessZero 3 robot.y ++ writeDoubleUnlessZero 4 robot.orientation ++
    writeDoubleUnlessZero 5 robot.vx ++ writeDoubleUnlessZero 6 robot.vy ++
    writeDoubleUnlessZero 7 robot.vorientation

def byteSize (robot : Robot Binary64) : Nat :=
  uint32SizeUnlessZero robot.robotId + doubleSize robot.x + doubleSize robot.y +
    doubleSize robot.orientation + doubleSize robot.vx + doubleSize robot.vy +
    doubleSize robot.vorientation

def mergeFrom (robot source : Robot Binary64) : Robot Binary64 where
  robotId := mergeUInt32 robot.robotId source.robotId
  x := mergeDouble robot.x source.x
  y := mergeDouble robot.y source.y
  orientation := mergeDouble robot.orientation source.orientation
  vx := mergeDouble robot.vx source.vx
  vy := mergeDouble robot.vy source.vy
  vorientation := mergeDouble robot.vorientation source.vorientation

end Robot

/-! ### Field -/

namespace Field

def cleared : Field Binary64 := ⟨zero, zero, zero, zero⟩

def cases : List (FieldCase (Field Binary64)) :=
  [doubleCase 1 9 (fun field width => { field with width := width }) [(17, .parse 2)] false,
    doubleCase 2 17 (fun field length => { field with length := length }) [(25, .parse 3)] false,
    doubleCase 3 25 (fun field goalWidth => { field with goalWidth := goalWidth })
      [(33, .parse 4)] false,
    doubleCase 4 33 (fun field goalDepth => { field with goalDepth := goalDepth }) [] true]

def mergePartialFromCodedStream : Merge (Field Binary64) := mergeCases cases

def serializeToArray (field : Field Binary64) : List UInt8 :=
  writeDoubleUnlessZero 1 field.width ++ writeDoubleUnlessZero 2 field.length ++
    writeDoubleUnlessZero 3 field.goalWidth ++ writeDoubleUnlessZero 4 field.goalDepth

def byteSize (field : Field Binary64) : Nat :=
  doubleSize field.width + doubleSize field.length + doubleSize field.goalWidth +
    doubleSize field.goalDepth

def mergeFrom (field source : Field Binary64) : Field Binary64 where
  width := mergeDouble field.width source.width
  length := mergeDouble field.length source.length
  goalWidth := mergeDouble field.goalWidth source.goalWidth
  goalDepth := mergeDouble field.goalDepth source.goalDepth

end Field

/-! ### Frame -/

namespace Frame

def cleared : Frame Binary64 := ⟨none, [], []⟩

def mutableBall (frame : Frame Binary64) : Ball Binary64 :=
  frame.ball.getD Ball.cleared

def cases (reader : RepeatedReader) : List (FieldCase (Frame Binary64)) :=
  [messageCase 1 10 mutableBall (fun frame ball => { frame with ball := some ball })
      Ball.mergePartialFromCodedStream [(18, .parse 2)] false,
    repeatedCase reader 2 18 Robot.cleared
      (fun frame robot => { frame with robotsYellow := frame.robotsYellow ++ [robot] })
      Robot.mergePartialFromCodedStream [(18, .parseLoop 2), (26, .parseLoop 3)] false,
    repeatedCase reader 3 26 Robot.cleared
      (fun frame robot => { frame with robotsBlue := frame.robotsBlue ++ [robot] })
      Robot.mergePartialFromCodedStream [(26, .parseLoop 3)] true]

def mergePartialFromCodedStream (reader : RepeatedReader) : Merge (Frame Binary64) :=
  mergeCases (cases reader)

def serializeToArray (frame : Frame Binary64) : List UInt8 :=
  (match frame.ball with
    | some ball => writeMessageToArray 1 ball.byteSize ball.serializeToArray
    | none => []) ++
    frame.robotsYellow.flatMap
      (fun robot => writeMessageToArray 2 robot.byteSize robot.serializeToArray) ++
    frame.robotsBlue.flatMap
      fun robot => writeMessageToArray 3 robot.byteSize robot.serializeToArray

def byteSize (frame : Frame Binary64) : Nat :=
  (match frame.ball with
    | some ball => 1 + lengthDelimitedSize ball.byteSize
    | none => 0) +
    1 * frame.robotsYellow.length +
    (frame.robotsYellow.map fun robot => lengthDelimitedSize robot.byteSize).sum +
    1 * frame.robotsBlue.length +
    (frame.robotsBlue.map fun robot => lengthDelimitedSize robot.byteSize).sum

def mergeFrom (frame source : Frame Binary64) : Frame Binary64 where
  ball :=
    match source.ball with
    | some ball => some (frame.mutableBall.mergeFrom ball)
    | none => frame.ball
  -- the elements are copied by merging each into a new one
  robotsYellow := frame.robotsYellow ++ source.robotsYellow.map Robot.cleared.mergeFrom
  robotsBlue := frame.robotsBlue ++ source.robotsBlue.map Robot.cleared.mergeFrom

end Frame

/-! ### Command, Commands and Packet -/

namespace Command

def cleared : Command Binary64 := ⟨0, false, zero, zero⟩

def cases : List (FieldCase (Command Binary64)) :=
  [uint32Case 1 8 (fun command id => { command with id := id }) [(16, .parse 2)] false,
    boolCase 2 16 (fun command yellowteam => { command with yellowteam := yellowteam })
      [(49, .parse 6)] false,
    doubleCase 6 49 (fun command wheelLeft => { command with wheelLeft := wheelLeft })
      [(57, .parse 7)] false,
    doubleCase 7 57 (fun command wheelRight => { command with wheelRight := wheelRight }) [] true]

def mergePartialFromCodedStream : Merge (Command Binary64) := mergeCases cases

def serializeToArray (command : Command Binary64) : List UInt8 :=
  writeUInt32UnlessZero 1 command.id ++
    (if command.yellowteam then writeBoolToArray 2 command.yellowteam else []) ++
    writeDoubleUnlessZero 6 command.wheelLeft ++ writeDoubleUnlessZero 7 command.wheelRight

def byteSize (command : Command Binary64) : Nat :=
  uint32SizeUnlessZero command.id + (if command.yellowteam then 1 + 1 else 0) +
    doubleSize command.wheelLeft + doubleSize command.wheelRight

def mergeFrom (command source : Command Binary64) : Command Binary64 where
  id := mergeUInt32 command.id source.id
  yellowteam := if source.yellowteam then source.yellowteam else command.yellowteam
  wheelLeft := mergeDouble command.wheelLeft source.wheelLeft
  wheelRight := mergeDouble command.wheelRight source.wheelRight

end Command

namespace Commands

def cleared : Commands Binary64 := ⟨[]⟩

def cases (reader : RepeatedReader) : List (FieldCase (Commands Binary64)) :=
  [repeatedCase reader 1 10 Command.cleared
      (fun commands command => { robotCommands := commands.robotCommands ++ [command] })
      Command.mergePartialFromCodedStream [(10, .parseLoop 1)] true]

def mergePartialFromCodedStream (reader : RepeatedReader) : Merge (Commands Binary64) :=
  mergeCases (cases reader)

def serializeToArray (commands : Commands Binary64) : List UInt8 :=
  commands.robotCommands.flatMap
    fun command => writeMessageToArray 1 command.byteSize command.serializeToArray

def byteSize (commands : Commands Binary64) : Nat :=
  1 * commands.robotCommands.length +
    (commands.robotCommands.map fun command => lengthDelimitedSize command.byteSize).sum

def mergeFrom (commands source : Commands Binary64) : Commands Binary64 where
  robotCommands := commands.robotCommands ++ source.robotCommands.map Command.cleared.mergeFrom

end Commands

namespace Packet

def cleared : Packet Binary64 := ⟨none⟩

def mutableCmd (packet : Packet Binary64) : Commands Binary64 :=
  packet.cmd.getD Commands.cleared

def cases (reader : RepeatedReader) : List (FieldCase (Packet Binary64)) :=
  [messageCase 1 10 mutableCmd (fun _ cmd => { cmd := some cmd })
      (Commands.mergePartialFromCodedStream reader) [] true]

def mergePartialFromCodedStream (reader : RepeatedReader) : Merge (Packet Binary64) :=
  mergeCases (cases reader)

def serializeToArray (packet : Packet Binary64) : List UInt8 :=
  match packet.cmd with
  | some cmd => writeMessageToArray 1 cmd.byteSize cmd.serializeToArray
  | none => []

def byteSize (packet : Packet Binary64) : Nat :=
  match packet.cmd with
  | some cmd => 1 + lengthDelimitedSize cmd.byteSize
  | none => 0

def mergeFrom (packet source : Packet Binary64) : Packet Binary64 where
  cmd :=
    match source.cmd with
    | some cmd => some (packet.mutableCmd.mergeFrom cmd)
    | none => packet.cmd

end Packet

/-! ### Environment -/

namespace Pb.Environment

def cleared : Environment Binary64 := ⟨0, none, none, 0, 0⟩

def mutableFrame (environment : Environment Binary64) : Frame Binary64 :=
  environment.frame.getD Frame.cleared

def mutableField (environment : Environment Binary64) : Field Binary64 :=
  environment.field.getD Field.cleared

def cases (reader : RepeatedReader) : List (FieldCase (Environment Binary64)) :=
  [uint32Case 1 8 (fun environment step => { environment with step := step }) [(18, .parse 2)]
      false,
    messageCase 2 18 mutableFrame
      (fun environment frame => { environment with frame := some frame })
      (Frame.mergePartialFromCodedStream reader) [(26, .parse 3)] false,
    messageCase 3 26 mutableField
      (fun environment field => { environment with field := some field })
      Field.mergePartialFromCodedStream [(32, .parse 4)] false,
    uint32Case 4 32 (fun environment goalsBlue => { environment with goalsBlue := goalsBlue })
      [(40, .parse 5)] false,
    uint32Case 5 40
      (fun environment goalsYellow => { environment with goalsYellow := goalsYellow }) [] true]

def mergePartialFromCodedStream (reader : RepeatedReader) : Merge (Environment Binary64) :=
  mergeCases (cases reader)

def serializeToArray (environment : Environment Binary64) : List UInt8 :=
  writeUInt32UnlessZero 1 environment.step ++
    (match environment.frame with
      | some frame => writeMessageToArray 2 frame.byteSize frame.serializeToArray
      | none => []) ++
    (match environment.field with
      | some field => writeMessageToArray 3 field.byteSize field.serializeToArray
      | none => []) ++
    writeUInt32UnlessZero 4 environment.goalsBlue ++
    writeUInt32UnlessZero 5 environment.goalsYellow

def byteSize (environment : Environment Binary64) : Nat :=
  uint32SizeUnlessZero environment.step +
    (match environment.frame with
      | some frame => 1 + lengthDelimitedSize frame.byteSize
      | none => 0) +
    (match environment.field with
      | some field => 1 + lengthDelimitedSize field.byteSize
      | none => 0) +
    uint32SizeUnlessZero environment.goalsBlue + uint32SizeUnlessZero environment.goalsYellow

def mergeFrom (environment source : Environment Binary64) : Environment Binary64 where
  step := mergeUInt32 environment.step source.step
  frame :=
    match source.frame with
    | some frame => some (environment.mutableFrame.mergeFrom frame)
    | none => environment.frame
  field :=
    match source.field with
    | some field => some (environment.mutableField.mergeFrom field)
    | none => environment.field
  goalsBlue := mergeUInt32 environment.goalsBlue source.goalsBlue
  goalsYellow := mergeUInt32 environment.goalsYellow source.goalsYellow

/-- `ParseFromArray` of the client's packet, as the main loop uses it. -/
def parser (reader : RepeatedReader) : Parser Binary64 where
  decode := fun data =>
    match parseFromArray cleared (mergePartialFromCodedStream reader) data with
    | (true, environment) => some environment.seen
    | (false, _) => none
  leftover := fun _ data =>
    (parseFromArray cleared (mergePartialFromCodedStream reader) data).2.seen

end Pb.Environment

end FiraClient
