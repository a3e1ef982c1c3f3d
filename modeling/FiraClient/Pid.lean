import FiraClient.Angle
import FiraClient.Library.Mealy
import FiraClient.Message

/-!
# The controller

`PID` of `main.cpp` and `GrSim_Client::sendCommand`. The static `lastError` is the state of a
machine whose inputs are the calls. What `PID` computes depends on a call through the robot's
heading, the bearing `atan2` gives to the objective, and the index; `PidInput` is these three.
-/

namespace FiraClient

structure Objective (R : Type) where
  x : R
  y : R
  angle : R
deriving DecidableEq, Repr

structure PidInput (R : Type) where
  heading : R
  bearing : R
  index : Int32
deriving DecidableEq, Repr

/-- The arguments of a call of `sendCommand`, less the team flag `PID` always passes as `false`. -/
structure WheelCommand (R : Type) where
  leftMotorSpeed : R
  rightMotorSpeed : R
  index : Int32
deriving DecidableEq, Repr

section Controller

variable {R : Type} [Add R] [Sub R] [Neg R] [Mul R] [LT R] [DecidableLT R] [CMath R]

def selectFront (angleRob angleObj : R) : Bool × R :=
  let error := smallestAngleDiff angleRob angleObj
  if fabs error > lit (mPi / 2 + mPi / 20) then
    let angleRob := to180range (angleRob + lit mPi)
    (true, smallestAngleDiff angleRob angleObj)
  else
    (false, error)

def motorSpeed (error lastError : R) : R :=
  let kp : R := lit 20
  let kd : R := lit (5 / 2)
  kp * error + kd * (error - lastError)

/-- The two conditional assignments under the comment `Normalize`. -/
def normalize (motorSpeed : R) : R :=
  let motorSpeed := if motorSpeed > lit 30 then lit 30 else motorSpeed
  if motorSpeed < lit (-30) then lit (-30) else motorSpeed

def wheelSpeeds (reversed : Bool) (motorSpeed : R) : R × R :=
  let baseSpeed : R := lit 30
  let speeds :=
    if motorSpeed > lit 0 then (baseSpeed, baseSpeed - motorSpeed)
    else (baseSpeed + motorSpeed, baseSpeed)
  -- going backwards recomputes both wheels
  if reversed then
    if motorSpeed > lit 0 then (-baseSpeed + motorSpeed, -baseSpeed)
    else (-baseSpeed, -baseSpeed - motorSpeed)
  else speeds

def PidInput.reversed (input : PidInput R) : Bool :=
  (selectFront input.heading input.bearing).1

/-- The final value of `error`, the one `lastError` keeps. -/
def PidInput.error (input : PidInput R) : R :=
  (selectFront input.heading input.bearing).2

def pidCommand (lastError : R) (input : PidInput R) : WheelCommand R :=
  let speeds := wheelSpeeds input.reversed (normalize (motorSpeed input.error lastError))
  { leftMotorSpeed := speeds.1
    rightMotorSpeed := speeds.2
    index := input.index }

/-- `PID` over its static variable: a call sends one command and leaves its own error. -/
def pid : Mealy R (PidInput R) (WheelCommand R) where
  next := fun _ input => input.error
  emit := pidCommand

def initialError : R := lit 0

end Controller

section Call

variable {R : Type}

structure PidCall (R : Type) where
  robot : Robot R
  objective : Objective R
  index : Int32
deriving DecidableEq, Repr

def PidCall.input [Sub R] (atan2 : R → R → R) (call : PidCall R) : PidInput R where
  heading := call.robot.orientation
  bearing := atan2 (call.objective.y - call.robot.y) (call.objective.x - call.robot.x)
  index := call.index

/-- The packet `GrSim_Client::sendCommand` serializes: one command, its `int` id stored in an
unsigned field. -/
def sendCommand (leftWheelVel rightWheelVel : R) (myRobotsAreYellow : Bool) (id : Int32) :
    Packet R where
  cmd := some
    { robotCommands :=
        [{ id := id.toUInt32
           yellowteam := myRobotsAreYellow
           wheelLeft := leftWheelVel
           wheelRight := rightWheelVel }] }

def WheelCommand.packet (command : WheelCommand R) : Packet R :=
  sendCommand command.leftMotorSpeed command.rightMotorSpeed false command.index

end Call

end FiraClient
