import FiraClient.Net.Udp

/-!
# Lifetimes of the network objects

What a caller can do with one `UDP` object that it does not copy, and with any number of `Address`
objects.
-/

namespace FiraClient.Net

open Interaction

inductive UdpOp where
  | open (port : Int) (sharePortForMulticasting multicastIncludeLocalhost blocking : Bool)
  | addMulticast (multiaddr interface : Address)
  | send (data : List UInt8) (length : Int) (dest : Address)
  | recv (length : Int) (src : Address)
  | wait (timeoutMs : Int)
  | close
deriving DecidableEq, Repr

def UDP.exec (udp : UDP) : UdpOp → Prog libc UDP
  | .open port sharePortForMulticasting multicastIncludeLocalhost blocking => do
      let opened ← udp.open port sharePortForMulticasting multicastIncludeLocalhost blocking
      return opened.2
  | .addMulticast multiaddr interface => do
      let _ ← udp.addMulticast multiaddr interface
      return udp
  | .send data length dest => do
      let sent ← udp.send data length dest
      return sent.2
  | .recv length src => do
      let received ← udp.recv length src
      return received.2.2.1
  | .wait timeoutMs => do
      let _ ← udp.wait timeoutMs
      return udp
  | .close => udp.close

def UDP.lifetime (memory : UDP) (operations : List UdpOp) : Prog libc UDP := do
  let udp ← UDP.new memory
  runAll UDP.exec udp operations

/-- What a call of the object returns. -/
inductive UdpResult where
  | void
  | bool (value : Bool)
  | int (value : Int)
deriving DecidableEq, Repr

/-- `exec` with what the call returns. -/
def UDP.invoke (udp : UDP) : UdpOp → Prog libc (UdpResult × UDP)
  | .open port sharePortForMulticasting multicastIncludeLocalhost blocking => do
      let opened ← udp.open port sharePortForMulticasting multicastIncludeLocalhost blocking
      return (.bool opened.1, opened.2)
  | .addMulticast multiaddr interface => do
      let added ← udp.addMulticast multiaddr interface
      return (.bool added, udp)
  | .send data length dest => do
      let sent ← udp.send data length dest
      return (.bool sent.1, sent.2)
  | .recv length src => do
      let received ← udp.recv length src
      return (.int received.1, received.2.2.1)
  | .wait timeoutMs => do
      let ready ← udp.wait timeoutMs
      return (.bool ready, udp)
  | .close => do
      let udp ← udp.close
      return (.void, udp)

/-- The live `Address` objects. -/
abbrev Addresses := Nat → Option Address

/-- An operation on the objects of the given indices. `memory` is what the storage of a new object
held. -/
inductive AddressOp where
  | new (i : Nat) (memory : Address)
  | copyNew (i j : Nat) (memory : Address)
  | destroy (i : Nat)
  | setHost (i : Nat) (hostname : String) (port : Int)
  | setAny (i : Nat) (port : Int)
  | copy (i j : Nat)
  | reset (i : Nat)
  | clear (i : Nat)
  | equals (i j : Nat)
  | recv (i : Nat) (udp : UDP) (length : Int)
deriving DecidableEq, Repr

namespace Addresses

def set (addresses : Addresses) (i : Nat) (address : Option Address) : Addresses :=
  Function.update addresses i address

/-- An operation on the object of index `i`; there is nothing to do when it is not live. -/
def withLive (addresses : Addresses) (i : Nat) (operation : Address → Prog libc Addresses) :
    Prog libc Addresses :=
  match addresses i with
  | some address => operation address
  | none => return addresses

def modify (addresses : Addresses) (i : Nat) (operation : Address → Prog libc Address) :
    Prog libc Addresses :=
  addresses.withLive i fun address => do
    let address ← operation address
    return addresses.set i (some address)

def exec (addresses : Addresses) : AddressOp → Prog libc Addresses
  | .new i memory => do
      let address ← Address.new memory
      return addresses.set i (some address)
  | .copyNew i j memory => addresses.withLive j fun src => do
      let address ← Address.copyNew memory src
      return addresses.set i (some address)
  | .destroy i => addresses.withLive i fun address => do
      let _ ← address.destroy
      return addresses.set i none
  | .setHost i hostname port => addresses.modify i fun address => do
      let resolved ← address.setHost hostname port
      return resolved.2
  | .setAny i port => addresses.modify i fun address => address.setAny port
  | .copy i j => addresses.withLive j fun src => addresses.modify i fun address => address.copy src
  | .reset i => addresses.modify i Address.reset
  | .clear i => addresses.modify i Address.clear
  | .equals i j => addresses.withLive i fun address => addresses.withLive j fun other => do
      let _ ← address.equals other
      return addresses
  | .recv i udp length => addresses.modify i fun address => do
      let received ← udp.recv length address
      return received.2.2.2

/-- `exec` as an operation that returns nothing. -/
def invoke (addresses : Addresses) (operation : AddressOp) : Prog libc (Unit × Addresses) := do
  let addresses ← addresses.exec operation
  return ((), addresses)

end Addresses

end FiraClient.Net
