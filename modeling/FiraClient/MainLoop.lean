import FiraClient.Net.SslClient
import FiraClient.Pid

/-!
# The main loop

One iteration of `main` for each outcome of `recvfrom`. `packet`, `lastError` and the client live
across iterations. What is not in the repository's own sources, or is left for its user to fill in,
is a `Setup`: the decoder of the generated messages, `atan2`, the strategy and the team flag.
-/

namespace FiraClient

open Net

/-- `ParseFromArray` replaces the packet by the message the bytes decode to, or fails and leaves
it with any contents. -/
structure Parser (R : Type) where
  decode : List UInt8 → Option (Environment R)
  leftover : Environment R → List UInt8 → Environment R

def Parser.parseFromArray {R : Type} (parser : Parser R) (packet : Environment R)
    (bytes : List UInt8) : Bool × Environment R :=
  match parser.decode bytes with
  | some decoded => (true, decoded)
  | none => (false, parser.leftover packet bytes)

structure Setup (R : Type) where
  parser : Parser R
  atan2 : R → R → R
  defineObjective : Robot R → Ball R → Objective R
  myRobotsAreYellow : Bool

/-- The strategy the repository ships: the three globals, which nothing assigns. -/
def defineObjective {R : Type} [CMath R] (_robot : Robot R) (_ball : Ball R) : Objective R :=
  ⟨lit 0, lit 0, lit 0⟩

structure Sent (R : Type) where
  call : PidCall R
  packet : Packet R
deriving DecidableEq, Repr

structure LoopState (R : Type) where
  visionClient : RoboCupSSLClient
  packet : Environment R
  lastError : R

def maxDataGramSize : Nat := 65536

section Receive

variable {R : Type} (setup : Setup R)

/-- `RoboCupSSLClient::receive` from the outcome of its `recvfrom` on. -/
def receive (client : RoboCupSSLClient) (packet : Environment R) (outcome : Recvfrom) :
    Bool × RoboCupSSLClient × Environment R :=
  let src : Address := ⟨Vector.replicate 16 0, 0⟩
  let received := client.mc.received maxDataGramSize src outcome
  let client := { client with mc := received.2.2.1 }
  if received.1 > 0 then
    let parsed := setup.parser.parseFromArray packet received.2.1
    (parsed.1, client, parsed.2)
  else
    (false, client, packet)

end Receive

section Body

variable {R : Type} [Add R] [Sub R] [Neg R] [Mul R] [LT R] [DecidableLT R] [CMath R]
  (setup : Setup R)

def fieldWidth : R := lit (13 / 10 / 2)

def fieldLength : R := lit (17 / 10 / 2)

def Robot.toField (robot : Robot R) : Robot R :=
  { robot with
    x := (fieldLength + robot.x) * lit 100
    y := (fieldWidth + robot.y) * lit 100
    orientation := to180range robot.orientation }

def Ball.toField (ball : Ball R) : Ball R :=
  { ball with
    x := (fieldLength + ball.x) * lit 100
    y := (fieldWidth + ball.y) * lit 100 }

/-- The accessor of a message field: absent, it reads as the default message. -/
def Frame.getBall (frame : Frame R) : Ball R :=
  frame.ball.getD ⟨lit 0, lit 0, lit 0, lit 0, lit 0, lit 0⟩

def blueCalls (ball : Ball R) : Nat → List (Robot R) → List (PidCall R)
  | _, [] => []
  | i, robot :: robots =>
      let robot := robot.toField
      if i = 0 then
        { robot := robot
          objective := setup.defineObjective robot ball
          index := Int32.ofNat i } :: blueCalls ball (i + 1) robots
      else blueCalls ball (i + 1) robots

/-- The calls of `PID` for a frame. The team flag is not read and the yellow robots are not looked
at. -/
def frameCalls (detection : Frame R) : List (PidCall R) :=
  blueCalls setup detection.getBall.toField 0 detection.robotsBlue

def runCalls (lastError : R) (calls : List (PidCall R)) : R × List (Sent R) :=
  let inputs := calls.map (PidCall.input setup.atan2)
  (pid.after lastError inputs,
    List.zipWith (fun call command => ⟨call, command.packet⟩) calls (pid.emitted lastError inputs))

def frameBody (lastError : R) (detection : Frame R) : R × List (Sent R) :=
  runCalls setup lastError (frameCalls setup detection)

def loopBody (state : LoopState R) (outcome : Recvfrom) : LoopState R × List (Sent R) :=
  let received := receive setup state.visionClient state.packet outcome
  let state := { state with visionClient := received.2.1, packet := received.2.2 }
  if received.1 then
    match state.packet.frame with
    | some detection =>
        let processed := frameBody setup state.lastError detection
        ({ state with lastError := processed.1 }, processed.2)
    | none => (state, [])
  else
    (state, [])

def mainLoop : Mealy (LoopState R) Recvfrom (List (Sent R)) where
  next := fun state outcome => (loopBody setup state outcome).1
  emit := fun state outcome => (loopBody setup state outcome).2

def frameLoop : Mealy R (Frame R) (List (Sent R)) where
  next := fun lastError detection => (frameBody setup lastError detection).1
  emit := fun lastError detection => (frameBody setup lastError detection).2

end Body

end FiraClient
