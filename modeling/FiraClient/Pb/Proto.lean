import FiraClient.Library.Schema
import FiraClient.Pb.Common

/-!
# The messages as they are declared

The schemas of `common.proto`: the fields with their types and numbers, and no more. The tag of a
field is its number with the shape of its type.
-/

namespace FiraClient

open Pb

namespace Pb

variable {M N : Type}

def doubleDecoder : Wire.Decoder Binary64 where
  decode := fun bytes =>
    (Wire.cut 8 bytes).map fun piece => (⟨UInt64.ofNat (Wire.littleEndian piece.1)⟩, piece.2)
  decode_le := by
    intro bytes result hdecode
    obtain ⟨piece, hcut, rfl⟩ := Option.map_eq_some_iff.mp hdecode
    exact Wire.length_le_of_cut hcut

def varintDecoder {α : Type} (convert : ℕ → α) : Wire.Decoder α where
  decode := fun bytes =>
    (Varint.decode 10 bytes).map fun decoded => (convert decoded.1, decoded.2)
  decode_le := by
    intro bytes result hdecode
    obtain ⟨decoded, hdecoded, rfl⟩ := Option.map_eq_some_iff.mp hdecode
    exact (Varint.length_lt_of_decode hdecoded).le

def doubleField (number : ℕ) (set : M → Binary64 → M) : Wire.Field M :=
  Wire.valueField (8 * number + 1) doubleDecoder set

def uint32Field (number : ℕ) (set : M → UInt32 → M) : Wire.Field M :=
  Wire.valueField (8 * number) (varintDecoder UInt32.ofNat) set

def boolField (number : ℕ) (set : M → Bool → M) : Wire.Field M :=
  Wire.valueField (8 * number) (varintDecoder fun value => decide (value % 2 ^ 64 ≠ 0)) set

def messageField (number : ℕ) (fields : List (Wire.Field N)) (get : M → N) (set : M → N → M) :
    Wire.Field M :=
  Wire.messageField (8 * number + 2) fields get set

/-- Every element starts out empty. -/
def repeatedField (number : ℕ) (fields : List (Wire.Field N)) (empty : N) (add : M → N → M) :
    Wire.Field M :=
  messageField number fields (fun _ => empty) add

end Pb

def Ball.schema : List (Wire.Field (Ball Binary64)) :=
  [doubleField 1 fun ball x => { ball with x := x },
    doubleField 2 fun ball y => { ball with y := y },
    doubleField 3 fun ball z => { ball with z := z },
    doubleField 4 fun ball vx => { ball with vx := vx },
    doubleField 5 fun ball vy => { ball with vy := vy },
    doubleField 6 fun ball vz => { ball with vz := vz }]

def Robot.schema : List (Wire.Field (Robot Binary64)) :=
  [uint32Field 1 fun robot robotId => { robot with robotId := robotId },
    doubleField 2 fun robot x => { robot with x := x },
    doubleField 3 fun robot y => { robot with y := y },
    doubleField 4 fun robot orientation => { robot with orientation := orientation },
    doubleField 5 fun robot vx => { robot with vx := vx },
    doubleField 6 fun robot vy => { robot with vy := vy },
    doubleField 7 fun robot vorientation => { robot with vorientation := vorientation }]

def Field.schema : List (Wire.Field (Field Binary64)) :=
  [doubleField 1 fun field width => { field with width := width },
    doubleField 2 fun field length => { field with length := length },
    doubleField 3 fun field goalWidth => { field with goalWidth := goalWidth },
    doubleField 4 fun field goalDepth => { field with goalDepth := goalDepth }]

def Frame.schema : List (Wire.Field (Frame Binary64)) :=
  [messageField 1 Ball.schema Frame.mutableBall fun frame ball => { frame with ball := some ball },
    repeatedField 2 Robot.schema Robot.cleared fun frame robot =>
      { frame with robotsYellow := frame.robotsYellow ++ [robot] },
    repeatedField 3 Robot.schema Robot.cleared fun frame robot =>
      { frame with robotsBlue := frame.robotsBlue ++ [robot] }]

def Pb.Environment.schema : List (Wire.Field (Environment Binary64)) :=
  [uint32Field 1 fun environment step => { environment with step := step },
    messageField 2 Frame.schema Environment.mutableFrame fun environment frame =>
      { environment with frame := some frame },
    messageField 3 Field.schema Environment.mutableField fun environment field =>
      { environment with field := some field },
    uint32Field 4 fun environment goalsBlue => { environment with goalsBlue := goalsBlue },
    uint32Field 5 fun environment goalsYellow => { environment with goalsYellow := goalsYellow }]

def Command.schema : List (Wire.Field (Command Binary64)) :=
  [uint32Field 1 fun command id => { command with id := id },
    boolField 2 fun command yellowteam => { command with yellowteam := yellowteam },
    doubleField 6 fun command wheelLeft => { command with wheelLeft := wheelLeft },
    doubleField 7 fun command wheelRight => { command with wheelRight := wheelRight }]

def Commands.schema : List (Wire.Field (Commands Binary64)) :=
  [repeatedField 1 Command.schema Command.cleared fun commands command =>
      { robotCommands := commands.robotCommands ++ [command] }]

def Packet.schema : List (Wire.Field (Packet Binary64)) :=
  [messageField 1 Commands.schema Packet.mutableCmd fun _ cmd => { cmd := some cmd }]

end FiraClient
