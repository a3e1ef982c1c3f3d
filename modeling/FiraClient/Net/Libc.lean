import FiraClient.Library.Interaction
import Mathlib.Data.Rat.Defs

/-!
# The calls into the C library

What `netraw.cpp` calls of the system and of `string.h`, as an interface: socket addresses as the
bytes they are, the arguments of each call, and the type of its outcome. A memory function has no
outcome; its call records how many bytes of an address buffer it touches.
-/

namespace FiraClient.Net

open Interaction

structure InAddr where
  a : UInt8
  b : UInt8
  c : UInt8
  d : UInt8
deriving DecidableEq, Repr

def inaddrAny : InAddr := ⟨0, 0, 0, 0⟩

/-- The low 16 bits of an `int`; `highByte` and `lowByte` are its network order. -/
def htons (port : Int) : UInt16 := UInt16.ofInt port

def highByte (port : UInt16) : UInt8 := (port >>> 8).toUInt8

def lowByte (port : UInt16) : UInt8 := port.toUInt8

/-- `ntohl` of `s_addr`. -/
def InAddr.ntohl (addr : InAddr) : UInt32 :=
  addr.a.toUInt32 <<< 24 ||| addr.b.toUInt32 <<< 16 ||| addr.c.toUInt32 <<< 8 ||| addr.d.toUInt32

/-- `ntohs` of a port stored in these two bytes. -/
def ntohs (high low : UInt8) : UInt16 := high.toUInt16 <<< 8 ||| low.toUInt16

structure SockAddrIn where
  port : UInt16
  addr : InAddr
  zero : Vector UInt8 8
deriving DecidableEq, Repr

/-- What `getaddrinfo` resolves a name to; `inet6` keeps what follows the family. -/
inductive SockAddr where
  | inet (addr : SockAddrIn)
  | inet6 (body : Vector UInt8 26)
deriving DecidableEq, Repr

def SockAddrIn.bytes (addr : SockAddrIn) : List UInt8 :=
  [2, 0, highByte addr.port, lowByte addr.port, addr.addr.a, addr.addr.b, addr.addr.c,
    addr.addr.d] ++ addr.zero.toList

def SockAddr.bytes : SockAddr → List UInt8
  | .inet addr => addr.bytes
  | .inet6 body => [10, 0] ++ body.toList

def SockAddr.addrlen (addr : SockAddr) : Nat := addr.bytes.length

@[simp]
theorem SockAddrIn.length_bytes (addr : SockAddrIn) : addr.bytes.length = 16 := by
  simp [SockAddrIn.bytes]

/-- The sixteen bytes of a `sockaddr_in`, as `sendto` takes them. -/
def SockAddrIn.storage (addr : SockAddrIn) : Vector UInt8 16 :=
  ⟨addr.bytes.toArray, SockAddrIn.length_bytes addr⟩

@[simp]
theorem SockAddr.addrlen_inet (addr : SockAddrIn) : (SockAddr.inet addr).addrlen = 16 := by
  simp [SockAddr.addrlen, SockAddr.bytes]

@[simp]
theorem SockAddr.addrlen_inet6 (body : Vector UInt8 26) :
    (SockAddr.inet6 body).addrlen = 28 := by
  simp [SockAddr.addrlen, SockAddr.bytes]

/-- The outcome of `recvfrom` on an IPv4 socket. -/
inductive Recvfrom where
  | failed
  | datagram (payload : List UInt8) (source : SockAddrIn)
deriving DecidableEq, Repr

inductive SockOpt where
  | reuseaddr
  | multicastLoop
  | multicastTtl (ttl : Nat)
  | addMembership (multiaddr interface : InAddr)
  | multicastIf (interface : InAddr)
deriving DecidableEq, Repr

inductive LibcCall where
  | socket
  | close (fd : Int)
  | getfl (fd : Int)
  | setfl (fd : Int) (flags : Nat)
  | setsockopt (fd : Int) (opt : SockOpt)
  | bind (fd : Int) (addr : InAddr) (port : UInt16)
  | getaddrinfo (hostname : String)
  | sendto (fd : Int) (data : List UInt8) (size : Nat) (dest : Vector UInt8 16) (destLen : Nat)
  | recvfrom (fd : Int) (size : Nat)
  | poll (fd : Int) (timeoutMs : Int)
  | memset (size : Nat)
  | memcpy (size : Nat)
  | memcmp (size : Nat)
deriving DecidableEq, Repr

@[reducible]
def LibcCall.Answer : LibcCall → Type
  | .getaddrinfo _ => Option SockAddr
  | .recvfrom _ _ => Recvfrom
  | .memset _ | .memcpy _ | .memcmp _ => Unit
  | _ => Int

instance : (request : LibcCall) → DecidableEq request.Answer
  | .getaddrinfo _ => inferInstanceAs (DecidableEq (Option SockAddr))
  | .recvfrom _ _ => inferInstanceAs (DecidableEq Recvfrom)
  | .memset _ | .memcpy _ | .memcmp _ => inferInstanceAs (DecidableEq Unit)
  | .socket | .close _ | .getfl _ | .setfl _ _ | .setsockopt _ _ | .bind _ _ _
  | .sendto _ _ _ _ _ | .poll _ _ => inferInstanceAs (DecidableEq Int)

abbrev libc : Interface := ⟨LibcCall, LibcCall.Answer⟩

abbrev call (request : LibcCall) : Prog libc request.Answer := perform (I := libc) request

abbrev callIf (condition : Prop) [Decidable condition] (request : LibcCall) : Prog libc Unit :=
  performIf (I := libc) condition request

end FiraClient.Net
