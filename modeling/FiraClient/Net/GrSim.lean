import FiraClient.Net.Udp
import FiraClient.Pb.Common

/-!
# `GrSim_Client`
-/

namespace FiraClient.Net

open Interaction Pb

structure GrSimClient where
  dgramSocket : Int
  dest : SockAddrIn
deriving DecidableEq, Repr

namespace GrSimClient

/-- The destination, with what the storage held in `sin_zero`, which nothing sets. The address is
what `inet_aton` makes of `127.0.0.1`. -/
def destination (zero : Vector UInt8 8) : SockAddrIn where
  port := htons 20011
  addr := ⟨127, 0, 0, 1⟩
  zero := zero

/-- The constructor. The outcome of `socket` is not looked at. -/
def new (memory : Vector UInt8 8) : Prog libc GrSimClient := do
  let dgramSocket ← call .socket
  return { dgramSocket := dgramSocket, dest := destination memory }

/-- Neither the outcome of `SerializeToString` nor that of `sendto` is looked at. -/
def sendCommand (client : GrSimClient) (leftWheelVel rightWheelVel : Binary64)
    (myRobotsAreYellow : Bool) (id : Int32) : Prog libc Unit := do
  let packet := FiraClient.sendCommand leftWheelVel rightWheelVel myRobotsAreYellow id
  let env := (serializeToString packet.byteSize packet.serializeToArray).2
  let _ ← call (.sendto client.dgramSocket env env.length client.dest.storage sizeofSockaddr)
  return ()

end GrSimClient

end FiraClient.Net
