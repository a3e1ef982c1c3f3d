import FiraClient.MainLoop
import FiraClient.Net.GrSim

/-!
# The program

`main` with the calls it makes, over the doubles of the wire. The endless loop is cut off after any
number of iterations, one for each item of `stack`: what the storage of its `src` held.
-/

namespace FiraClient

open Net Interaction Pb

structure MainState where
  visionClient : RoboCupSSLClient
  commandClient : GrSimClient
  packet : Environment Binary64
  lastError : Binary64

/-- What the storage of the objects held before their constructors ran. -/
structure MainMemory where
  mc : UDP
  addresses : Address × Address
  sinZero : Vector UInt8 8

namespace Program

section Receive

variable (setup : Setup Binary64)

/-- `RoboCupSSLClient::receive`. -/
def receive (memory : Address) (client : RoboCupSSLClient) (packet : Environment Binary64) :
    Prog libc (Bool × RoboCupSSLClient × Environment Binary64) := do
  let src ← Address.new memory
  let received ← client.mc.recv maxDataGramSize src
  let client := { client with mc := received.2.2.1 }
  let result :=
    if received.1 > 0 then
      let parsed := setup.parser.parseFromArray packet received.2.1
      (parsed.1, client, parsed.2)
    else (false, client, packet)
  let _ ← received.2.2.2.destroy
  return result

end Receive

variable [Add Binary64] [Sub Binary64] [Neg Binary64] [Mul Binary64] [LT Binary64]
  [DecidableLT Binary64] [CMath Binary64] (setup : Setup Binary64)

/-- `PID`, from its static variable to its static variable. -/
def PID (lastError : Binary64) (call : PidCall Binary64) (grSimClient : GrSimClient) :
    Prog libc Binary64 := do
  let input := call.input setup.atan2
  let command := pidCommand lastError input
  grSimClient.sendCommand command.leftMotorSpeed command.rightMotorSpeed false command.index
  return input.error

/-- The loop over the blue robots, from one of them on. -/
def blueRobots (grSimClient : GrSimClient) (ball : Ball Binary64) :
    Nat → List (Robot Binary64) → Binary64 → Prog libc Binary64
  | _, [], lastError => return lastError
  | i, robot :: robots, lastError => do
      let robot := robot.toField
      if i = 0 then
        let o := setup.defineObjective robot ball
        let lastError ← PID setup lastError ⟨robot, o, Int32.ofNat i⟩ grSimClient
        blueRobots grSimClient ball (i + 1) robots lastError
      else
        blueRobots grSimClient ball (i + 1) robots lastError

/-- One round of the `while` loop. -/
def iteration (state : MainState) (memory : Address) : Prog libc MainState := do
  let received ← receive setup memory state.visionClient state.packet
  let state := { state with visionClient := received.2.1, packet := received.2.2 }
  if received.1 then
    match state.packet.frame with
    | some detection => do
        let lastError ← blueRobots setup state.commandClient detection.getBall.toField 0
          detection.robotsBlue state.lastError
        return { state with lastError := lastError }
    | none => return state
  else
    return state

/-- Up to the loop. The outcome of `open` is not looked at. -/
def start (memory : MainMemory) : Prog libc MainState := do
  let mc ← UDP.new memory.mc
  let visionClient : RoboCupSSLClient := ⟨mc, 10002, "224.5.23.2", ""⟩
  let opened ← visionClient.open memory.addresses false
  let commandClient ← GrSimClient.new memory.sinZero
  return { visionClient := opened.2
           commandClient := commandClient
           packet := ⟨none⟩
           lastError := initialError }

def main (memory : MainMemory) (stack : List Address) : Prog libc MainState := do
  let state ← start memory
  runAll (iteration setup) state stack

end Program

end FiraClient
