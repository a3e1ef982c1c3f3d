import FiraClient.Net.Libc
import Mathlib.Logic.Function.Basic

/-!
# A network that loses nothing

Programs on hosts of their own, each with one socket, and what the network between them makes of
their calls. A socket can be reached at its address once it is bound, which the first datagram it
sends does too. What is sent to an address waits in order at the socket there until it is received;
a `recvfrom` fails only if nothing waits. When things arrive is left to the order of the calls, and
`poll` may return anything. A datagram to a socket that is not bound goes nowhere.
-/

namespace FiraClient.Net

open Interaction

structure Network (P : Type) where
  /-- The descriptor of the socket of each program. -/
  fd : P → Int
  address : P → SockAddrIn
  names : String → Option SockAddr

/-- A socket, as the host of it has it: the datagrams that wait there, with their sources. -/
structure Socket where
  bound : Bool
  waiting : List (List UInt8 × SockAddrIn)
deriving DecidableEq, Repr

namespace Network

variable {P : Type} [DecidableEq P] (net : Network P)

def start : P → Socket := fun _ => ⟨false, []⟩

/-- What the socket of a program is after `sender` has sent this to that address. -/
def deliver (sender : P) (data : List UInt8) (dest : Vector UInt8 16) (destLen : Nat) (party : P)
    (socket : Socket) : Socket :=
  let socket := if party = sender then { socket with bound := true } else socket
  if socket.bound ∧ dest = (net.address party).storage ∧ destLen = 16 then
    { socket with waiting := socket.waiting ++ [(data, net.address sender)] }
  else socket

def step (sockets : P → Socket) (event : Event (labelled libc P)) : P → Socket :=
  match event with
  | ⟨(party, .bind fd _ _), ret⟩ =>
      if fd = net.fd party ∧ (ret : Int) = 0 then
        Function.update sockets party { sockets party with bound := true }
      else sockets
  | ⟨(sender, .sendto fd data size dest destLen), ret⟩ =>
      if fd = net.fd sender ∧ (0 : Int) ≤ ret then
        fun party => net.deliver sender (data.take size) dest destLen party (sockets party)
      else sockets
  | ⟨(party, .recvfrom fd _), .datagram _ _⟩ =>
      if fd = net.fd party then
        Function.update sockets party
          { sockets party with waiting := (sockets party).waiting.tail }
      else sockets
  | _ => sockets

/-- What a `recvfrom` on the socket gets. -/
def received (socket : Socket) : Recvfrom :=
  match socket.waiting with
  | [] => .failed
  | (payload, source) :: _ => .datagram payload source

def Allowed (sockets : P → Socket) (event : Event (labelled libc P)) : Prop :=
  match event with
  | ⟨(party, .socket), fd⟩ => fd = net.fd party
  | ⟨(party, .bind fd _ port), ret⟩ =>
      fd = net.fd party ∧ (ret : Int) = 0 → port = (net.address party).port
  | ⟨(_, .getaddrinfo hostname), res⟩ => res = net.names hostname
  | ⟨(sender, .sendto fd _ size _ _), ret⟩ => fd = net.fd sender → ret = (size : Int)
  | ⟨(party, .recvfrom fd _), outcome⟩ =>
      fd = net.fd party → outcome = received (sockets party)
  | ⟨(_, .close _), _⟩ | ⟨(_, .getfl _), _⟩ | ⟨(_, .setfl _ _), _⟩ | ⟨(_, .setsockopt _ _), _⟩
  | ⟨(_, .poll _ _), _⟩ | ⟨(_, .memset _), _⟩ | ⟨(_, .memcpy _), _⟩ | ⟨(_, .memcmp _), _⟩ => True

instance (sockets : P → Socket) :
    (event : Event (labelled libc P)) → Decidable (net.Allowed sockets event)
  | ⟨(_, .socket), _⟩ => inferInstanceAs (Decidable ((_ : Int) = _))
  | ⟨(_, .bind _ _ _), _⟩ => inferInstanceAs (Decidable ((_ : Int) = _ ∧ (_ : Int) = 0 → _ = _))
  | ⟨(_, .getaddrinfo _), _⟩ => inferInstanceAs (Decidable ((_ : Option SockAddr) = _))
  | ⟨(_, .sendto _ _ _ _ _), _⟩ => inferInstanceAs (Decidable ((_ : Int) = _ → (_ : Int) = _))
  | ⟨(_, .recvfrom _ _), _⟩ => inferInstanceAs (Decidable ((_ : Int) = _ → (_ : Recvfrom) = _))
  | ⟨(_, .close _), _⟩ | ⟨(_, .getfl _), _⟩ | ⟨(_, .setfl _ _), _⟩ | ⟨(_, .setsockopt _ _), _⟩
  | ⟨(_, .poll _ _), _⟩ | ⟨(_, .memset _), _⟩ | ⟨(_, .memcpy _), _⟩ | ⟨(_, .memcmp _), _⟩ =>
      .isTrue trivial

/-- The histories of this network. -/
def monitor : Monitor (labelled libc P) (P → Socket) where
  step := net.step
  Allowed := net.Allowed

instance (sockets : P → Socket) (event : Event (labelled libc P)) :
    Decidable (net.monitor.Allowed sockets event) :=
  inferInstanceAs (Decidable (net.Allowed sockets event))

end Network

end FiraClient.Net
