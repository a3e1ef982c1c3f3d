import FiraClient.Net.Address
import Mathlib.Data.Int.ModEq

/-!
# `Net::UDP`
-/

namespace FiraClient.Net

open Interaction

structure UDP where
  fd : Int
  sentPackets : UInt32
  sentBytes : UInt32
  recvPackets : UInt32
  recvBytes : UInt32
deriving DecidableEq, Repr

/-- An `int` passed as a `size_t`. -/
def sizeT (length : Int) : Nat := (length % 2 ^ 64).toNat

/-- A `ssize_t` stored in an `int`. -/
def intOfSsize (size : Int) : Int := size.bmod (2 ^ 32)

/-- What `recvfrom` returns when it was given room for `size` bytes. -/
def Recvfrom.len (size : Nat) : Recvfrom → Int
  | .failed => -1
  | .datagram payload _ => min payload.length size

def Recvfrom.data (size : Nat) : Recvfrom → List UInt8
  | .failed => []
  | .datagram payload _ => payload.take size

/-- What `recvfrom` leaves in a source address it was given `src.addrLen` bytes for. -/
def Recvfrom.source (src : Address) : Recvfrom → Address
  | .failed => src
  | .datagram _ source =>
      { addr := overwrite src.addr source.bytes src.addrLen, addrLen := source.bytes.length }

def oNonblock : Nat := 2048

namespace UDP

def isOpen (udp : UDP) : Bool := udp.fd ≥ 0

def close (udp : UDP) : Prog libc UDP := do
  callIf (udp.fd ≥ 0) (.close udp.fd)
  return { fd := -1, sentPackets := 0, sentBytes := 0, recvPackets := 0, recvBytes := 0 }

def new (memory : UDP) : Prog libc UDP := { memory with fd := -1 }.close

def destroy (udp : UDP) : Prog libc UDP := udp.close

def «open» (udp : UDP) (port : Int)
    (sharePortForMulticasting multicastIncludeLocalhost blocking : Bool) :
    Prog libc (Bool × UDP) := do
  let ttl := 32
  -- open the socket
  callIf (udp.fd ≥ 0) (.close udp.fd)
  let fd ← call .socket
  let udp := { udp with fd := fd }
  -- set socket as non-blocking
  let flags ← call (.getfl udp.fd)
  let flags := if flags < 0 then 0 else flags.toNat
  let _ ← call (.setfl udp.fd (flags ||| if blocking then 0 else oNonblock))
  -- the outcomes of the next two are only printed
  callIf sharePortForMulticasting (.setsockopt udp.fd .reuseaddr)
  callIf multicastIncludeLocalhost (.setsockopt udp.fd .multicastLoop)
  let ret ← call (.setsockopt udp.fd (.multicastTtl ttl))
  if ret ≠ 0 then
    return (false, udp)
  -- bind socket to port if nonzero
  callIf (port ≠ 0) (.bind udp.fd inaddrAny (htons port))
  return (true, udp)

def addMulticast (udp : UDP) (multiaddr interface : Address) : Prog libc Bool := do
  let ret ← call (.setsockopt udp.fd
    (.addMembership multiaddr.getInAddr interface.getInAddr))
  if ret ≠ 0 then
    return false
  -- set multicast output interface
  let ret ← call (.setsockopt udp.fd (.multicastIf interface.getInAddr))
  return ret == 0

/-- `send` from the outcome of its `sendto` on. -/
def sent (udp : UDP) (length ret : Int) : Bool × UDP :=
  let len := intOfSsize ret
  let udp :=
    if len > 0 then
      { udp with
        sentPackets := udp.sentPackets + 1
        sentBytes := udp.sentBytes + UInt32.ofInt len }
    else udp
  (len == length, udp)

def send (udp : UDP) (data : List UInt8) (length : Int) (dest : Address) :
    Prog libc (Bool × UDP) := do
  let ret ← call (.sendto udp.fd data (sizeT length) dest.addr dest.addrLen)
  return udp.sent length ret

def countReceived (udp : UDP) (len : Int) : UDP :=
  if len > 0 then
    { udp with
      recvPackets := udp.recvPackets + 1
      recvBytes := udp.recvBytes + UInt32.ofInt len }
  else udp

@[simp]
theorem fd_sent (udp : UDP) (length ret : Int) : (udp.sent length ret).2.fd = udp.fd := by
  simp only [sent]
  split <;> rfl

/-- `recv` from the outcome of its `recvfrom` on: the result, what `data` receives, the object and
the source address. -/
def received (udp : UDP) (length : Int) (src : Address) (outcome : Recvfrom) :
    Int × List UInt8 × UDP × Address :=
  let len := intOfSsize (outcome.len (sizeT length))
  (len, outcome.data (sizeT length), udp.countReceived len,
    outcome.source { src with addrLen := sizeofSockaddr })

@[simp]
theorem fd_received (udp : UDP) (length : Int) (src : Address) (outcome : Recvfrom) :
    (udp.received length src outcome).2.2.1.fd = udp.fd := by
  simp only [received, countReceived]
  split <;> rfl

def recv (udp : UDP) (length : Int) (src : Address) :
    Prog libc (Int × List UInt8 × UDP × Address) := do
  let outcome ← call (.recvfrom udp.fd (sizeT length))
  return udp.received length src outcome

def wait (udp : UDP) (timeoutMs : Int) : Prog libc Bool := do
  let ret ← call (.poll udp.fd timeoutMs)
  return ret == 1

end UDP

end FiraClient.Net
