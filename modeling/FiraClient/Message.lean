import Mathlib.Data.Rat.Defs

/-!
# The messages

The protobuf messages of `common.proto` that the client reads or writes. A message-typed field is
optional and a scalar field has its default, as in proto3; `Environment` keeps the one field the
client looks at.
-/

namespace FiraClient

variable {R : Type}

structure Ball (R : Type) where
  x : R
  y : R
  z : R
  vx : R
  vy : R
  vz : R
deriving DecidableEq, Repr

structure Robot (R : Type) where
  robotId : UInt32
  x : R
  y : R
  orientation : R
  vx : R
  vy : R
  vorientation : R
deriving DecidableEq, Repr

@[ext]
structure Frame (R : Type) where
  ball : Option (Ball R)
  robotsYellow : List (Robot R)
  robotsBlue : List (Robot R)
deriving DecidableEq, Repr

structure Environment (R : Type) where
  frame : Option (Frame R)
deriving DecidableEq, Repr

structure Command (R : Type) where
  id : UInt32
  yellowteam : Bool
  wheelLeft : R
  wheelRight : R
deriving DecidableEq, Repr

structure Commands (R : Type) where
  robotCommands : List (Command R)
deriving DecidableEq, Repr

structure Packet (R : Type) where
  cmd : Option (Commands R)
deriving DecidableEq, Repr

/-- The commands a packet carries; the accessor of an absent `cmd` gives none. -/
def Packet.commands (packet : Packet R) : List (Command R) :=
  match packet.cmd with
  | none => []
  | some cmd => cmd.robotCommands

end FiraClient
