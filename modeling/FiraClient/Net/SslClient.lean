import FiraClient.Net.Udp

/-!
# `RoboCupSSLClient`
-/

namespace FiraClient.Net

open Interaction

structure RoboCupSSLClient where
  mc : UDP
  port : Int
  netAddress : String
  netInterface : String
deriving DecidableEq, Repr

namespace RoboCupSSLClient

def close (client : RoboCupSSLClient) : Prog libc RoboCupSSLClient := do
  let mc ← client.mc.close
  return { client with mc := mc }

/-- The address the group is joined on: the interface, when one is named. The result of resolving it
is not used. -/
def setInterface (client : RoboCupSSLClient) (interface : Address) : Prog libc Address :=
  if client.netInterface.length > 0 then do
    let resolved ← interface.setHost client.netInterface client.port
    return resolved.2
  else
    interface.setAny 0

/-- The second half of `open`. `memory` is what the storage of its two addresses held; their
destructors run at its end. The result of resolving the group is not used either. -/
def subscribe (client : RoboCupSSLClient) (memory : Address × Address) : Prog libc Bool := do
  let multiaddr ← Address.new memory.1
  let interface ← Address.new memory.2
  let resolved ← multiaddr.setHost client.netAddress client.port
  let multiaddr := resolved.2
  let interface ← client.setInterface interface
  let added ← client.mc.addMulticast multiaddr interface
  let _ ← interface.destroy
  let _ ← multiaddr.destroy
  return added

def «open» (client : RoboCupSSLClient) (memory : Address × Address) (blocking : Bool) :
    Prog libc (Bool × RoboCupSSLClient) := do
  let client ← client.close
  let opened ← client.mc.open client.port true true blocking
  let client := { client with mc := opened.2 }
  if opened.1 then
    let added ← client.subscribe memory
    return (added, client)
  else
    return (false, client)

end RoboCupSSLClient

end FiraClient.Net
