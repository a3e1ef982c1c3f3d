import FiraClient.Net.Udp

/-!
# The test programs of `netraw.cpp`

`EchoServer`, cut off after any number of rounds of its endless loop, and `EchoClient` over what is
to be read from its input. Both keep a message in a buffer of `Size + 1` bytes and end it with a
zero at an index that comes from `recv`; nothing is written for an index outside of the buffer, and
a round returns the indices it wrote at.
-/

namespace FiraClient.Net

open Interaction

namespace Echo

/-- `Size`. -/
def size : Nat := 32

/-- `char msg[Size+1]`. -/
abbrev Msg := Vector UInt8 33

def InBounds (index : Int) : Prop := 0 ≤ index ∧ index ≤ size

instance (index : Int) : Decidable (InBounds index) := inferInstanceAs (Decidable (_ ∧ _))

/-- What is left of a buffer whose first bytes are written. -/
def fill (msg : Msg) (data : List UInt8) : Msg where
  toArray := (data.take 33 ++ msg.toList.drop data.length).toArray
  size_toArray := by
    rw [List.size_toArray, List.length_append, List.length_take, List.length_drop,
      Vector.length_toList]
    omega

/-- `msg[l] = 0`. -/
def terminate (msg : Msg) (l : Int) : Msg :=
  if InBounds l then msg.setIfInBounds l.toNat 0 else msg

/-- The string in the buffer: what `strlen` measures and `%s` prints. -/
def text (msg : Msg) : List UInt8 := msg.toList.takeWhile (· ≠ 0)

/-! ### The server -/

structure Server where
  net : UDP
  addr : Address
  msg : Msg

def Server.round (server : Server) : Prog libc (List Int × Server) := do
  let ready ← server.net.wait (-1)
  if ready then
    let received ← server.net.recv size server.addr
    let l := received.1
    let server : Server := ⟨received.2.2.1, received.2.2.2, fill server.msg received.2.1⟩
    if l > 0 then
      let msg := terminate server.msg l
      let sent ← server.net.send msg.toList l server.addr
      return ([l], { server with net := sent.2, msg := msg })
    else
      return ([], server)
  else
    return ([], server)

def Server.rounds : Nat → Server → Prog libc (List Int × Server)
  | 0, server => return ([], server)
  | n + 1, server => do
      let first ← server.round
      let rest ← Server.rounds n first.2
      return (first.1 ++ rest.1, rest.2)

/-- What the storage of the three objects held. -/
structure Memory where
  net : UDP
  addr : Address
  raddr : Address
  msg : Msg

/-- `EchoServer`. The outcome of `open` is not looked at. -/
def echoServer (memory : Memory) (port : Int) (rounds : Nat) : Prog libc (List Int × Server) := do
  let net ← UDP.new memory.net
  let addr ← Address.new memory.addr
  let opened ← net.open port false false false
  Server.rounds rounds ⟨opened.2, addr, memory.msg⟩

/-! ### The client -/

/-- What `fgets` reads when it may read that many bytes: up to a newline, and with it. -/
def line : Nat → List UInt8 → List UInt8
  | 0, _ => []
  | _, [] => []
  | n + 1, c :: stdin => if c = 10 then [c] else c :: line n stdin

theorem line_ne_nil {n : Nat} {stdin : List UInt8} (hsome : stdin ≠ []) :
    line (n + 1) stdin ≠ [] := by
  cases stdin with
  | nil => exact absurd rfl hsome
  | cons c stdin =>
      unfold line
      split <;> exact List.cons_ne_nil _ _

/-- What `fgets(msg,Size,stdin)` reads, time after time, until there is nothing left and it returns a
null pointer. -/
def lines (stdin : List UInt8) : List (List UInt8) :=
  if stdin = [] then []
  else
    let first := line (size - 1) stdin
    first :: lines (stdin.drop first.length)
termination_by stdin.length
decreasing_by
  have hsome : stdin ≠ [] := ‹¬stdin = []›
  have hline : 0 < (line (size - 1) stdin).length := List.length_pos_iff.mpr (line_ne_nil hsome)
  have hstdin := List.length_pos_iff.mpr hsome
  rw [List.length_drop]
  exact Nat.sub_lt hstdin hline

structure Client where
  net : UDP
  addr : Address
  raddr : Address
  msg : Msg

/-- What a round of the client shows: where it ended the reply, and the text it printed. -/
structure Shown where
  index : Int
  reply : List UInt8
deriving DecidableEq, Repr

def Client.round (client : Client) (line : List UInt8) : Prog libc (Shown × Client) := do
  let msg := fill client.msg (line ++ [0])
  let l := (text msg).length
  let sent ← client.net.send msg.toList l client.addr
  let net := sent.2
  let _ ← net.wait 1000
  let received ← net.recv size client.raddr
  let l := received.1
  let msg := terminate (fill msg received.2.1) l
  return (⟨l, text msg⟩, { client with net := received.2.2.1, raddr := received.2.2.2, msg := msg })

def Client.rounds : Client → List (List UInt8) → Prog libc (List Shown × Client)
  | client, [] => return ([], client)
  | client, line :: lines => do
      let first ← client.round line
      let rest ← Client.rounds first.2 lines
      return (first.1 :: rest.1, rest.2)

/-- `EchoClient`. -/
def echoClient (memory : Memory) (hostname : String) (port : Int) (stdin : List UInt8) :
    Prog libc (List Shown) := do
  let net ← UDP.new memory.net
  let addr ← Address.new memory.addr
  let raddr ← Address.new memory.raddr
  let resolved ← addr.setHost hostname port
  let opened ← net.open 0 false false false
  let shown ← Client.rounds ⟨opened.2, resolved.2, raddr, memory.msg⟩ (lines stdin)
  let _ ← shown.2.raddr.destroy
  let _ ← shown.2.addr.destroy
  let _ ← shown.2.net.destroy
  return shown.1

end Echo

end FiraClient.Net
