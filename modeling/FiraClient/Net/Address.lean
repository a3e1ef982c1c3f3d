import FiraClient.Net.Libc

/-!
# `Net::Address`

A `sockaddr` of sixteen bytes and a length. The length comes from outside and nothing compares it
with the size of the storage. A `memcpy` of more bytes than that is undefined behaviour in the
source; here it fills the storage and its call records how long it was.
-/

namespace FiraClient.Net

open Interaction

/-- `sizeof(sockaddr)`, which is also `sizeof(sockaddr_in)`. -/
def sizeofSockaddr : Nat := 16

structure Address where
  addr : Vector UInt8 16
  addrLen : Nat
deriving DecidableEq, Repr

/-- What `memcpy` leaves in a storage it was given `size` bytes of `src` for. -/
def overwrite (storage : Vector UInt8 16) (src : List UInt8) (size : Nat) : Vector UInt8 16 :=
  Vector.ofFn fun i => if i.val < size then src[i.val]?.getD storage[i] else storage[i]

namespace Address

def mzero (self : Address) : Prog libc Address := do
  call (.memset sizeofSockaddr)
  return { self with addr := Vector.replicate 16 0 }

def reset (self : Address) : Prog libc Address := do
  call (.memset sizeofSockaddr)
  return { self with addr := Vector.replicate 16 0, addrLen := 0 }

/-- The default constructor, over whatever the storage held. -/
def new (memory : Address) : Prog libc Address := memory.reset

def clear (self : Address) : Prog libc Address := self.reset

def destroy (self : Address) : Prog libc Address := self.reset

def copy (self src : Address) : Prog libc Address := do
  call (.memcpy src.addrLen)
  return { addr := overwrite self.addr src.addr.toList src.addrLen, addrLen := src.addrLen }

/-- The copy constructor: the storage is not initialized before the copy. -/
def copyNew (memory src : Address) : Prog libc Address := memory.copy src

/-- `operator==`. -/
def equals (self a : Address) : Prog libc Bool := do
  if self.addrLen = a.addrLen then
    call (.memcmp self.addrLen)
    return self.addr.toList.take self.addrLen == a.addr.toList.take self.addrLen
  else
    return false

/-- `sin_family == AF_INET`. -/
def isInet (self : Address) : Bool := self.addr[0] == 2 && self.addr[1] == 0

def setPort (self : Address) (port : UInt16) : Address :=
  { self with addr := (self.addr.set 2 (highByte port)).set 3 (lowByte port) }

def setInAddr (self : Address) (addr : InAddr) : Address :=
  { self with
    addr := (((self.addr.set 4 addr.a).set 5 addr.b).set 6 addr.c).set 7 addr.d }

def getInAddr (self : Address) : InAddr :=
  ⟨self.addr[4], self.addr[5], self.addr[6], self.addr[7]⟩

@[simp]
theorem getInAddr_setPort (self : Address) (port : UInt16) :
    (self.setPort port).getInAddr = self.getInAddr := by
  simp [setPort, getInAddr]

@[simp]
theorem getInAddr_setInAddr (self : Address) (addr : InAddr) :
    (self.setInAddr addr).getInAddr = addr := by
  simp [setInAddr, getInAddr]

def setHost (self : Address) (hostname : String) (port : Int) : Prog libc (Bool × Address) := do
  let res ← call (.getaddrinfo hostname)
  match res with
  | none => return (false, self)
  | some res =>
      let self ← self.mzero
      let self := { self with addrLen := res.addrlen }
      call (.memcpy self.addrLen)
      let self := { self with addr := overwrite self.addr res.bytes self.addrLen }
      return (true, if self.isInet then self.setPort (htons port) else self)

def setAny (self : Address) (port : Int) : Prog libc Address := do
  let self ← self.mzero
  let self := self.setInAddr inaddrAny
  let self := self.setPort (htons port)
  return { self with addrLen := sizeofSockaddr }

/-- The stream `print` writes to and the text. A null address goes to `stdout`, whatever `out`
is. -/
def print {File : Type} (stdout out : File) (self : Address) : File × String :=
  if self.addrLen = 0 then (stdout, "null")
  else if self.isInet then
    let a := self.getInAddr.ntohl
    let p := ntohs self.addr[2] self.addr[3]
    (out, toString ((a >>> 24) &&& 0xFF) ++ "." ++ toString ((a >>> 16) &&& 0xFF) ++ "." ++
      toString ((a >>> 8) &&& 0xFF) ++ "." ++ toString (a &&& 0xFF) ++ ":" ++ toString p)
  else (out, "?")

end Address

end FiraClient.Net
