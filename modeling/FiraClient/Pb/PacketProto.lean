import FiraClient.Pb.Proto

/-!
# The packet with replacements

`packet.proto` and `replacement.proto`: the packet that the other end may be sent. It has one field
more than the one of `common.proto`; its commands are declared as they are there, by `command.proto`.
-/

namespace FiraClient

open Pb

structure BallReplacement (R : Type) where
  x : R
  y : R
  vx : R
  vy : R
deriving DecidableEq, Repr

structure RobotReplacement (R : Type) where
  position : Option (Robot R)
  yellowteam : Bool
  turnon : Bool
deriving DecidableEq, Repr

structure Replacement (R : Type) where
  ball : Option (BallReplacement R)
  robots : List (RobotReplacement R)
deriving DecidableEq, Repr

structure PacketProto.Packet (R : Type) where
  cmd : Option (Commands R)
  replace : Option (Replacement R)
deriving DecidableEq, Repr

def BallReplacement.cleared : BallReplacement Binary64 := ⟨zero, zero, zero, zero⟩

def BallReplacement.schema : List (Wire.Field (BallReplacement Binary64)) :=
  [doubleField 1 fun ball x => { ball with x := x },
    doubleField 2 fun ball y => { ball with y := y },
    doubleField 3 fun ball vx => { ball with vx := vx },
    doubleField 4 fun ball vy => { ball with vy := vy }]

def RobotReplacement.cleared : RobotReplacement Binary64 := ⟨none, false, false⟩

def RobotReplacement.schema : List (Wire.Field (RobotReplacement Binary64)) :=
  [messageField 1 Robot.schema (fun robot => robot.position.getD Robot.cleared)
      fun robot position => { robot with position := some position },
    boolField 5 fun robot yellowteam => { robot with yellowteam := yellowteam },
    boolField 6 fun robot turnon => { robot with turnon := turnon }]

def Replacement.cleared : Replacement Binary64 := ⟨none, []⟩

def Replacement.schema : List (Wire.Field (Replacement Binary64)) :=
  [messageField 1 BallReplacement.schema (fun replace => replace.ball.getD BallReplacement.cleared)
      fun replace ball => { replace with ball := some ball },
    repeatedField 2 RobotReplacement.schema RobotReplacement.cleared fun replace robot =>
      { replace with robots := replace.robots ++ [robot] }]

namespace PacketProto.Packet

def cleared : PacketProto.Packet Binary64 := ⟨none, none⟩

def schema : List (Wire.Field (PacketProto.Packet Binary64)) :=
  [messageField 1 Commands.schema (fun packet => packet.cmd.getD Commands.cleared)
      fun packet cmd => { packet with cmd := some cmd },
    messageField 2 Replacement.schema (fun packet => packet.replace.getD Replacement.cleared)
      fun packet replace => { packet with replace := some replace }]

/-- What the packet of `common.proto` has of it. -/
def seen {R : Type} (packet : PacketProto.Packet R) : FiraClient.Packet R where
  cmd := packet.cmd

end PacketProto.Packet

end FiraClient
