import FiraClient.Net.Network
import FiraClient.Proof.Exchanges

/-!
# What a client and a server get from each other

One history of both, in any order of their calls, over a network that loses nothing. What reaches
the server was sent by the client, and what reaches the client was sent by the server, as long as
each uses its own socket, the client sends to the server, and the server to where something has come
from.
-/

namespace FiraClient

open Net Interaction

def Exchange.fd : Exchange → Int
  | .socket fd => fd
  | .polled fd _ _ => fd
  | .received fd _ => fd
  | .sent fd _ _ _ _ => fd

/-- A datagram that was received, with its source. -/
def Exchange.datagram : Exchange → Option (List UInt8 × SockAddrIn)
  | .received _ (.datagram payload source) => some (payload, source)
  | _ => none

/-- What is sent, with the address it goes to. -/
def Exchange.message : Exchange → Option (List UInt8 × Vector UInt8 16 × Nat)
  | .sent _ data _ dest destLen => some (data, dest, destLen)
  | _ => none

namespace Net.Echo

inductive Party where
  | client
  | server
deriving DecidableEq, Repr

/-! ### What a party exchanges -/

section Wires

variable {party : Party} {history : History (labelled libc Party)}

/-- What of an event of the party is seen from outside. -/
def wireOf (party : Party) (event : Event (labelled libc Party)) : Option Exchange :=
  ((partOf party event).bind exchangeOf).map Exchange.onWire

def wire (party : Party) (history : History (labelled libc Party)) : List Exchange :=
  history.filterMap (wireOf party)

def sentBy (party : Party) (history : History (labelled libc Party)) : List (List UInt8) :=
  (wire party history).filterMap Exchange.data

def receivedBy (party : Party) (history : History (labelled libc Party)) :
    List (List UInt8 × SockAddrIn) :=
  (wire party history).filterMap Exchange.datagram

theorem wire_eq : wire party history = (exchanges (part party history)).map Exchange.onWire := by
  rw [exchanges, part, List.filterMap_filterMap, List.map_filterMap]
  rfl

@[simp]
theorem wire_append (first second : History (labelled libc Party)) :
    wire party (first ++ second) = wire party first ++ wire party second :=
  List.filterMap_append

@[simp]
theorem sentBy_append (first second : History (labelled libc Party)) :
    sentBy party (first ++ second) = sentBy party first ++ sentBy party second := by
  simp only [sentBy, wire_append, List.filterMap_append]

@[simp]
theorem receivedBy_append (first second : History (labelled libc Party)) :
    receivedBy party (first ++ second) = receivedBy party first ++ receivedBy party second := by
  simp only [receivedBy, wire_append, List.filterMap_append]

theorem wire_earlier {earlier : History (labelled libc Party)} (hbefore : earlier <+: history) :
    wire party earlier <+: wire party history :=
  hbefore.filterMap _

theorem mem_wire {event : Event (labelled libc Party)} {exchange : Exchange}
    (hmem : event ∈ history) (hwire : wireOf party event = some exchange) :
    exchange ∈ wire party history :=
  List.mem_filterMap.mpr ⟨event, hmem, hwire⟩

theorem split_wire {before after : List Exchange} {exchange : Exchange}
    (hwire : wire party history = before ++ exchange :: after) :
    ∃ earlier event later, history = earlier ++ event :: later ∧ wire party earlier = before ∧
      wireOf party event = some exchange := by
  obtain ⟨first, rest, rfl, hfirst, hrest⟩ := List.filterMap_eq_append_iff.mp hwire
  obtain ⟨quiet, event, later, rfl, hquiet, hevent, -⟩ := List.filterMap_eq_cons_iff.mp hrest
  refine ⟨first ++ quiet, event, later, (List.append_assoc _ _ _).symm, ?_, hevent⟩
  rw [wire_append, show wire party first = before from hfirst,
    show wire party quiet = [] from List.filterMap_eq_nil_iff.mpr hquiet, List.append_nil]

end Wires

/-! ### What the network delivers -/

/-- What has arrived at each of the two, received or not, is what the other has sent: to the server
at least in part, as it may not have been bound at first. -/
structure Delivered (net : Network Party) (history : History (labelled libc Party))
    (sockets : Party → Socket) : Prop where
  toServer : ((receivedBy .server history ++ (sockets .server).waiting).map Prod.fst).Sublist
    (sentBy .client history)
  source : ∀ datagram ∈ receivedBy .server history ++ (sockets .server).waiting,
    datagram.2 = net.address .client ∧ (sockets .client).bound = true
  toClient : receivedBy .client history ++ (sockets .client).waiting =
    (sentBy .server history).map fun payload => (payload, net.address .server)

/-- What the two programs do with their sockets: they use their own, the client sends to the server,
and the server to where something has come from. -/
def Proper (net : Network Party) (history : History (labelled libc Party))
    (event : Event (labelled libc Party)) : Prop :=
  match event with
  | ⟨(.client, .sendto fd _ _ dest destLen), _⟩ =>
      fd = net.fd .client ∧ dest = (net.address .server).storage ∧ destLen = 16
  | ⟨(.server, .sendto fd _ _ dest destLen), _⟩ =>
      fd = net.fd .server ∧ destLen = 16 ∧
        ∃ datagram ∈ receivedBy .server history, dest = datagram.2.storage
  | ⟨(party, .recvfrom fd _), _⟩ => fd = net.fd party
  | _ => True

section Delivery

variable {net : Network Party} {history : History (labelled libc Party)}
  {sockets : Party → Socket}

/-- The step lemma: `arrived` is what the event brings to the server. -/
theorem Delivered.next (hdelivered : Delivered net history sockets)
    {event : Event (labelled libc Party)} {next : Party → Socket}
    (arrived : List (List UInt8 × SockAddrIn))
    (hbound : (sockets .client).bound = true → (next .client).bound = true)
    (hserver : receivedBy .server [event] ++ (next .server).waiting =
      (sockets .server).waiting ++ arrived)
    (harrived : (arrived.map Prod.fst).Sublist (sentBy .client [event]))
    (hsource : ∀ datagram ∈ arrived,
      datagram.2 = net.address .client ∧ (next .client).bound = true)
    (hclient : receivedBy .client [event] ++ (next .client).waiting =
      (sockets .client).waiting ++
        (sentBy .server [event]).map fun payload => (payload, net.address .server)) :
    Delivered net (history ++ [event]) next where
  toServer := by
    rw [receivedBy_append, sentBy_append, List.append_assoc, hserver, ← List.append_assoc,
      List.map_append]
    exact hdelivered.toServer.append harrived
  source := by
    rw [receivedBy_append, List.append_assoc, hserver, ← List.append_assoc]
    refine List.forall_mem_append.mpr ⟨fun datagram hmem => ?_, hsource⟩
    exact (hdelivered.source datagram hmem).imp_right hbound
  toClient := by
    rw [receivedBy_append, sentBy_append, List.append_assoc, hclient, ← List.append_assoc,
      hdelivered.toClient, List.map_append]

/-- What nothing is sent or received by changes nothing. -/
theorem Delivered.quiet (hdelivered : Delivered net history sockets)
    {event : Event (labelled libc Party)} {next : Party → Socket}
    (hwaiting : ∀ party, (next party).waiting = (sockets party).waiting)
    (hbound : (sockets .client).bound = true → (next .client).bound = true)
    (hsent : ∀ party, sentBy party [event] = [])
    (hreceived : ∀ party, receivedBy party [event] = []) :
    Delivered net (history ++ [event]) next := by
  refine hdelivered.next [] hbound ?_ (List.nil_sublist _) (List.forall_mem_nil _) ?_
  · rw [hreceived, hwaiting, List.nil_append, List.append_nil]
  · rw [hreceived, hsent, hwaiting, List.nil_append, List.map_nil, List.append_nil]

theorem Delivered.binds (hdelivered : Delivered net history sockets) {party : Party}
    (fd : Int) (addr : InAddr) (port : UInt16) (ret : Int) :
    Delivered net (history ++ [⟨(party, .bind fd addr port), ret⟩])
      (net.step sockets ⟨(party, .bind fd addr port), ret⟩) := by
  have hstep (other : Party) :
      (net.step sockets ⟨(party, .bind fd addr port), ret⟩ other).waiting =
          (sockets other).waiting ∧
        ((sockets other).bound = true →
          (net.step sockets ⟨(party, .bind fd addr port), ret⟩ other).bound = true) := by
    by_cases hbind : fd = net.fd party ∧ ret = 0
    · rw [show net.step sockets ⟨(party, .bind fd addr port), ret⟩ =
        Function.update sockets party { sockets party with bound := true } from if_pos hbind]
      by_cases hother : other = party
      · subst hother
        simp
      · simp [Function.update_of_ne hother]
    · rw [show net.step sockets ⟨(party, .bind fd addr port), ret⟩ = sockets from if_neg hbind]
      exact ⟨rfl, id⟩
  exact hdelivered.quiet (fun other => (hstep other).1) (hstep .client).2
    (fun other => by cases party <;> cases other <;> rfl)
    fun other => by cases party <;> cases other <;> rfl

theorem Delivered.client_sends (hdelivered : Delivered net history sockets)
    (haddresses : (net.address .client).storage ≠ (net.address .server).storage)
    (data : List UInt8) (size : Nat) (ret : Int) :
    Delivered net
      (history ++ [⟨(.client, .sendto (net.fd .client) data size
        (net.address .server).storage 16), ret⟩])
      fun party => net.deliver .client (data.take size) (net.address .server).storage 16 party
        (sockets party) := by
  have hclient : net.deliver .client (data.take size) (net.address .server).storage 16 .client
      (sockets .client) = { sockets .client with bound := true } :=
    if_neg fun hreached => haddresses hreached.2.1.symm
  by_cases hbound : (sockets .server).bound = true
  · have hserver : net.deliver .client (data.take size) (net.address .server).storage 16 .server
        (sockets .server) = { sockets .server with
          waiting := (sockets .server).waiting ++ [(data.take size, net.address .client)] } :=
      if_pos ⟨hbound, rfl, rfl⟩
    refine hdelivered.next [(data.take size, net.address .client)] (fun _ => by rw [hclient])
      (by rw [hserver]; rfl) (List.Sublist.refl _)
      (List.forall_mem_singleton.mpr ⟨rfl, by rw [hclient]⟩) ?_
    rw [hclient]
    exact (List.append_nil _).symm
  · have hserver : net.deliver .client (data.take size) (net.address .server).storage 16 .server
        (sockets .server) = sockets .server :=
      if_neg fun hreached => hbound hreached.1
    refine hdelivered.next [] (fun _ => by rw [hclient]) ?_ (List.nil_sublist _)
      (List.forall_mem_nil _) ?_
    · rw [hserver]
      exact (List.append_nil _).symm
    · rw [hclient]
      exact (List.append_nil _).symm

theorem Delivered.server_sends (hdelivered : Delivered net history sockets)
    (haddresses : (net.address .client).storage ≠ (net.address .server).storage)
    {datagram : List UInt8 × SockAddrIn} (hmem : datagram ∈ receivedBy .server history)
    (data : List UInt8) (size : Nat) (ret : Int) :
    Delivered net
      (history ++ [⟨(.server, .sendto (net.fd .server) data size datagram.2.storage 16), ret⟩])
      fun party => net.deliver .server (data.take size) datagram.2.storage 16 party
        (sockets party) := by
  obtain ⟨hsource, hbound⟩ := hdelivered.source datagram (List.mem_append_left _ hmem)
  rw [hsource]
  have hclient : net.deliver .server (data.take size) (net.address .client).storage 16 .client
      (sockets .client) = { sockets .client with
        waiting := (sockets .client).waiting ++ [(data.take size, net.address .server)] } :=
    if_pos ⟨hbound, rfl, rfl⟩
  have hserver : net.deliver .server (data.take size) (net.address .client).storage 16 .server
      (sockets .server) = { sockets .server with bound := true } :=
    if_neg fun hreached => haddresses hreached.2.1
  refine hdelivered.next [] (fun hclientBound => by rw [hclient]; exact hclientBound) ?_
    (List.nil_sublist _) (List.forall_mem_nil _) ?_
  · rw [hserver]
    exact (List.append_nil _).symm
  · rw [hclient]
    rfl

theorem waiting_of_received {socket : Socket} {payload : List UInt8} {source : SockAddrIn}
    (hreceived : .datagram payload source = Network.received socket) :
    socket.waiting = (payload, source) :: socket.waiting.tail := by
  unfold Network.received at hreceived
  split at hreceived
  · cases hreceived
  · rename_i payload' source' rest hwaiting
    obtain ⟨rfl, rfl⟩ := Recvfrom.datagram.inj hreceived
    rw [hwaiting, List.tail_cons]

theorem Delivered.receives (hdelivered : Delivered net history sockets) {party : Party}
    (size : Nat) {outcome : Recvfrom} (houtcome : outcome = Network.received (sockets party)) :
    Delivered net (history ++ [⟨(party, .recvfrom (net.fd party) size), outcome⟩])
      (net.step sockets ⟨(party, .recvfrom (net.fd party) size), outcome⟩) := by
  cases outcome with
  | failed =>
      exact hdelivered.quiet (fun _ => rfl) id (fun other => by cases party <;> cases other <;> rfl)
        fun other => by cases party <;> cases other <;> rfl
  | datagram payload source =>
      have hwaiting := waiting_of_received houtcome
      have hstep : net.step sockets
          ⟨(party, .recvfrom (net.fd party) size), .datagram payload source⟩ =
            Function.update sockets party
              { sockets party with waiting := (sockets party).waiting.tail } := if_pos rfl
      rw [hstep]
      refine hdelivered.next [] ?_ ?_ (List.nil_sublist _) (List.forall_mem_nil _) ?_
      · cases party <;> exact id
      · cases party with
        | client => exact (List.append_nil _).symm
        | server => exact hwaiting.symm.trans (List.append_nil _).symm
      · cases party with
        | client => exact hwaiting.symm.trans (List.append_nil _).symm
        | server => exact (List.append_nil _).symm

theorem Delivered.step (hdelivered : Delivered net history sockets)
    (haddresses : (net.address .client).storage ≠ (net.address .server).storage)
    {event : Event (labelled libc Party)} (hallowed : net.Allowed sockets event)
    (hproper : Proper net history event) :
    Delivered net (history ++ [event]) (net.step sockets event) := by
  obtain ⟨⟨party, call⟩, answer⟩ := event
  cases call with
  | sendto fd data size dest destLen =>
      cases party with
      | client =>
          obtain ⟨rfl, rfl, rfl⟩ := hproper
          have hret : answer = (size : Int) := hallowed rfl
          have hstep : net.step sockets ⟨(.client, .sendto (net.fd .client) data size
              (net.address .server).storage 16), answer⟩ = fun party =>
                net.deliver .client (data.take size) (net.address .server).storage 16 party
                  (sockets party) :=
            if_pos ⟨rfl, hret ▸ Int.natCast_nonneg size⟩
          rw [hstep]
          exact hdelivered.client_sends haddresses data size answer
      | server =>
          obtain ⟨rfl, rfl, datagram, hmem, rfl⟩ := hproper
          have hret : answer = (size : Int) := hallowed rfl
          have hstep : net.step sockets ⟨(.server, .sendto (net.fd .server) data size
              datagram.2.storage 16), answer⟩ = fun party =>
                net.deliver .server (data.take size) datagram.2.storage 16 party
                  (sockets party) :=
            if_pos ⟨rfl, hret ▸ Int.natCast_nonneg size⟩
          rw [hstep]
          exact hdelivered.server_sends haddresses hmem data size answer
  | recvfrom fd size =>
      obtain rfl : fd = net.fd party := by cases party <;> exact hproper
      exact hdelivered.receives size (hallowed rfl)
  | bind fd addr port => exact hdelivered.binds fd addr port answer
  | _ =>
      exact hdelivered.quiet (fun _ => rfl) id (fun other => by cases party <;> cases other <;> rfl)
        fun other => by cases party <;> cases other <;> rfl

/-- The run lemma. -/
theorem delivered_of_accepts
    (haddresses : (net.address .client).storage ≠ (net.address .server).storage)
    (haccepts : net.monitor.Accepts Network.start history)
    (hproper : ∀ earlier event, earlier ++ [event] <+: history → Proper net earlier event) :
    Delivered net history (net.monitor.after Network.start history) := by
  induction history using List.reverseRecOn with
  | nil => exact ⟨List.Sublist.refl _, List.forall_mem_nil _, rfl⟩
  | append_singleton earlier event ih =>
      rw [Monitor.accepts_append] at haccepts
      obtain ⟨hearlier, hevent⟩ := forall_prefix_concat.mp hproper
      rw [Monitor.after_append]
      exact (ih haccepts.1 hearlier).step haddresses haccepts.2.1 hevent

end Delivery

end Net.Echo

end FiraClient
