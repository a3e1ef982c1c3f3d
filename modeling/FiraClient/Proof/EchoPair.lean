import FiraClient.Proof.Delivery
import FiraClient.Proof.Echo

/-!
# The two echo programs together

A run of both over a network that loses nothing, in any order of their calls. The server sends what
it has received: so every reply the client receives is a string it has sent, in their order and
once. If the server has always answered before the client receives, each reply is that to its own
line.
-/

namespace FiraClient

open Net Interaction

namespace Net.Echo

section Programs

/-! ### Rounds cut off anywhere -/

/-- What the server sends for a datagram, and the address it sends it to. -/
def backTo (datagram : List UInt8 × SockAddrIn) : Option (List UInt8 × Vector UInt8 16 × Nat) :=
  if datagram.1 = [] then none else some (datagram.1.take size, datagram.2.storage, 16)

theorem prefix_append_cases {α : Type} {part first second : List α}
    (hbefore : part <+: first ++ second) :
    part <+: first ∨ ∃ later, part = first ++ later ∧ later <+: second := by
  rcases List.prefix_or_prefix_of_prefix hbefore (List.prefix_append first second) with
    hshorter | ⟨later, rfl⟩
  · exact Or.inl hshorter
  · exact Or.inr ⟨later, rfl, (List.prefix_append_right_inj first).mp hbefore⟩

/-- A whole round sends for what it has received. -/
theorem messages_roundOf (fd : Int) (round : Round) :
    (roundOf fd round).filterMap Exchange.message =
      ((roundOf fd round).filterMap Exchange.datagram).filterMap backTo := by
  obtain ⟨ready, outcome⟩ := round
  by_cases hready : ready = 1
  · subst hready
    cases outcome with
    | failed => rfl
    | datagram payload source =>
        by_cases hempty : payload = []
        · subst hempty
          rfl
        · simp [roundOf, Round.answer, answer, backTo, hempty, List.filterMap_cons,
            Exchange.message, Exchange.datagram]
  · simp [roundOf, Round.answer, hready, List.filterMap_cons, Exchange.message, Exchange.datagram]

/-- A part of a round has sent nothing. -/
theorem messages_of_prefix_roundOf {fd : Int} {round : Round} {exchanged : List Exchange}
    (hbefore : exchanged <+: roundOf fd round) :
    exchanged.filterMap Exchange.message = [] ∨ exchanged = roundOf fd round := by
  have hquiet : (Exchange.polled fd (-1) round.ready ::
      if round.ready = 1 then [.received fd round.outcome] else []).filterMap
        Exchange.message = [] := by
    split <;> rfl
  rcases prefix_append_cases hbefore with hfront | ⟨later, rfl, hlater⟩
  · have hnone := hfront.filterMap Exchange.message
    rw [hquiet] at hnone
    exact Or.inl (List.prefix_nil.mp hnone)
  · cases hanswer : round.answer with
    | none =>
        rw [hanswer] at hlater
        rw [List.prefix_nil.mp hlater, List.append_nil]
        exact Or.inl hquiet
    | some reply =>
        rw [hanswer] at hlater
        rcases List.prefix_cons_iff.mp hlater with rfl | ⟨none, rfl, hnone⟩
        · rw [List.append_nil]
          exact Or.inl hquiet
        · rw [List.prefix_nil.mp hnone, roundOf, hanswer]
          exact Or.inr rfl

/-- Wherever the server is in its rounds, it has sent for what it has received, in this order. -/
theorem messages_answer {fd : Int} {rounds : List Round} {exchanged : List Exchange}
    (hbefore : exchanged <+: rounds.flatMap (roundOf fd)) :
    exchanged.filterMap Exchange.message <+:
      (exchanged.filterMap Exchange.datagram).filterMap backTo := by
  induction rounds generalizing exchanged with
  | nil =>
      rw [List.prefix_nil.mp hbefore]
      exact List.nil_prefix
  | cons round rounds ih =>
      rw [List.flatMap_cons] at hbefore
      rcases prefix_append_cases hbefore with hpart | ⟨later, rfl, hlater⟩
      · rcases messages_of_prefix_roundOf hpart with hnone | rfl
        · rw [hnone]
          exact List.nil_prefix
        · exact messages_roundOf fd round ▸ List.prefix_rfl
      · rw [List.filterMap_append, List.filterMap_append, List.filterMap_append, messages_roundOf,
          List.prefix_append_right_inj]
        exact ih hlater

theorem map_message (exchanged : List Exchange) :
    (exchanged.filterMap Exchange.message).map Prod.fst = exchanged.filterMap Exchange.data := by
  rw [List.map_filterMap]
  refine congrArg (exchanged.filterMap ·) (funext fun exchange => ?_)
  cases exchange <;> rfl

/-- Datagrams that are not too long come back whole, unless they are empty. -/
theorem map_backTo {datagrams : List (List UInt8 × SockAddrIn)}
    (hshort : ∀ datagram ∈ datagrams, datagram.1.length ≤ size) :
    (datagrams.filterMap backTo).map Prod.fst = (datagrams.map Prod.fst).filter (· ≠ []) := by
  induction datagrams with
  | nil => rfl
  | cons datagram datagrams ih =>
      obtain ⟨hfirst, hrest⟩ := List.forall_mem_cons.mp hshort
      by_cases hempty : datagram.1 = []
      · simp [backTo, hempty, ih hrest]
      · simp [backTo, hempty, ih hrest, List.take_of_length_le hfirst]

variable {net : Network Party} {joint : History (labelled libc Party)} {party : Party}

theorem wireOf_eq_some {event : Event (labelled libc Party)} {seen : Exchange}
    (hwire : wireOf party event = some seen) :
    ∃ own exchange, event = own.labelled party ∧ exchangeOf own = some exchange ∧
      exchange.onWire = seen := by
  obtain ⟨exchange, hexchange, hseen⟩ := Option.map_eq_some_iff.mp hwire
  obtain ⟨own, hown, hof⟩ := Option.bind_eq_some_iff.mp hexchange
  exact ⟨own, exchange, partOf_eq_some.mp hown, hof, hseen⟩

theorem wireOf_eq_socket {event : Event (labelled libc Party)} {fd : Int}
    (hwire : wireOf party event = some (.socket fd)) : event = ⟨(party, .socket), fd⟩ := by
  obtain ⟨⟨call, answer⟩, exchange, rfl, hof, hseen⟩ := wireOf_eq_some hwire
  cases call with
  | socket =>
      obtain rfl := Option.some.inj hof
      injection hseen with hfd
      subst hfd
      rfl
  | sendto | recvfrom | poll =>
      obtain rfl := Option.some.inj hof
      cases hseen
  | _ => cases hof

theorem wireOf_eq_received {event : Event (labelled libc Party)} {fd : Int} {outcome : Recvfrom}
    (hwire : wireOf party event = some (.received fd outcome)) :
    ∃ size, event = ⟨(party, .recvfrom fd size), outcome⟩ := by
  obtain ⟨⟨call, answer⟩, exchange, rfl, hof, hseen⟩ := wireOf_eq_some hwire
  cases call with
  | recvfrom fd' size =>
      obtain rfl := Option.some.inj hof
      injection hseen with hfd houtcome
      subst hfd houtcome
      exact ⟨size, rfl⟩
  | socket | sendto | poll =>
      obtain rfl := Option.some.inj hof
      cases hseen
  | _ => cases hof

/-- The socket a program is given is the one that the network knows. -/
theorem fd_of_socket (haccepts : net.monitor.Accepts Network.start joint) {fd : Int}
    (hmem : .socket fd ∈ wire party joint) : fd = net.fd party := by
  obtain ⟨event, hevent, hwire⟩ := List.mem_filterMap.mp hmem
  obtain ⟨earlier, later, rfl⟩ := List.append_of_mem hevent
  rw [Monitor.accepts_append] at haccepts
  rw [wireOf_eq_socket hwire] at haccepts
  exact haccepts.2.1

/-! ### What the programs do -/

/-- The exchanges of the client are those of its rounds with the server, those of the server those
of its own rounds up to some point. -/
structure Behaves (net : Network Party) (joint : History (labelled libc Party)) (stdin : List UInt8)
    (clientRounds serverRounds : List Round) : Prop where
  length_eq : clientRounds.length = (lines stdin).length
  client : wire .client joint = .socket (net.fd .client) ::
    (List.zipWith (exchangedFor (net.fd .client) ⟨(net.address .server).storage, 16⟩) (lines stdin)
      clientRounds).flatten
  server : wire .server joint <+:
    .socket (net.fd .server) :: serverRounds.flatMap (roundOf (net.fd .server))

theorem hosted_inet (host : SockAddrIn) (port : Int) :
    Address.hosted (.inet host) port = ⟨{ host with port := htons port }.storage, 16⟩ := by
  have hstorage : host.storage.toList = host.bytes := Vector.toList_mk
  have hfilled : overwrite (Vector.replicate 16 0) host.bytes 16 = host.storage :=
    hstorage ▸ Address.overwrite_full _ host.storage
  have hinet : (⟨host.storage, 16⟩ : Address).isInet = true := rfl
  have hport : (host.storage.set 2 (highByte (htons port))).set 3 (lowByte (htons port)) =
      { host with port := htons port }.storage := rfl
  simp only [Address.hosted, SockAddr.bytes, SockAddr.addrlen, SockAddrIn.length_bytes, hfilled,
    hinet, if_true, Address.setPort, hport]

theorem behaves_of_runs (haccepts : net.monitor.Accepts Network.start joint)
    {memory serverMemory : Memory} {hostname : String} {port : Int} {stdin : List UInt8}
    {shown : List Shown} {n : Nat} {result : List Int × Server} {trace : History libc}
    {host : SockAddrIn} (hname : net.names hostname = some (.inet host))
    (haddress : net.address .server = { host with port := htons port })
    (hclient : Runs (echoClient memory hostname port stdin) shown (part .client joint))
    (hserver : Runs (echoServer serverMemory port n) result trace)
    (hpart : part .server joint <+: trace) :
    ∃ clientRounds serverRounds, Behaves net joint stdin clientRounds serverRounds ∧
      shown = List.zipWith shownFor (lines stdin) (clientRounds.map Round.outcome) := by
  obtain ⟨fd, res, rounds, hres, hlength, hexchanges, hshown⟩ := runs_echoClient hclient
  obtain ⟨serverFd, serverRounds, -, hserverExchanges, -⟩ := runs_echoServer hserver
  have hclientWire : wire .client joint = .socket fd ::
      (List.zipWith (exchangedFor fd (serverAddress res port)) (lines stdin) rounds).flatten :=
    wire_eq.trans hexchanges
  have hserverWire : wire .server joint <+:
      .socket serverFd :: serverRounds.flatMap (roundOf serverFd) := by
    rw [wire_eq, ← hserverExchanges]
    exact (hpart.filterMap exchangeOf).map Exchange.onWire
  have hfd : fd = net.fd .client :=
    fd_of_socket haccepts (by rw [hclientWire]; exact List.mem_cons_self)
  have hdest : serverAddress res port = ⟨(net.address .server).storage, 16⟩ := by
    have hresolved : res = some (.inet host) := by
      obtain ⟨earlier, later, rfl⟩ := List.append_of_mem (mem_part.mp hres)
      rw [Monitor.accepts_append] at haccepts
      exact Eq.trans haccepts.2.1 hname
    rw [hresolved, haddress]
    exact hosted_inet host port
  refine ⟨rounds, serverRounds, ⟨hlength, ?_, ?_⟩, hshown⟩
  · rw [hclientWire, hfd, hdest]
  · rcases List.prefix_cons_iff.mp hserverWire with hnone | ⟨later, hsome, hlater⟩
    · rw [hnone]
      exact List.nil_prefix
    · have hserverFd : serverFd = net.fd .server :=
        fd_of_socket haccepts (by rw [hsome]; exact List.mem_cons_self)
      rw [← hserverFd]
      exact hserverWire

theorem fd_of_mem_roundOf {fd : Int} {round : Round} {exchange : Exchange}
    (hmem : exchange ∈ roundOf fd round) : exchange.fd = fd := by
  simp only [roundOf, List.mem_append, List.mem_cons, Option.mem_toList, Option.map_eq_some_iff]
    at hmem
  rcases hmem with (rfl | hreceived) | ⟨reply, -, rfl⟩
  · rfl
  · split at hreceived
    · rw [List.mem_singleton.mp hreceived]
      rfl
    · cases hreceived
  · rfl

theorem mem_exchangedFor {fd : Int} {addr : Address} {lines : List (List UInt8)}
    {rounds : List Round} {exchange : Exchange}
    (hmem : exchange ∈ (List.zipWith (exchangedFor fd addr) lines rounds).flatten) :
    ∃ line ∈ lines, ∃ round, exchange ∈ exchangedFor fd addr line round := by
  obtain ⟨exchanged, hexchanged, hmem⟩ := List.mem_flatten.mp hmem
  rw [← List.map_uncurry_zip_eq_zipWith] at hexchanged
  obtain ⟨⟨line, round⟩, hzip, rfl⟩ := List.mem_map.mp hexchanged
  exact ⟨line, (List.of_mem_zip hzip).1, round, hmem⟩

namespace Behaves

variable {stdin : List UInt8} {clientRounds serverRounds : List Round}
  (hbehaves : Behaves net joint stdin clientRounds serverRounds)

include hbehaves

/-- Each uses its own socket only. -/
theorem fd_eq {exchange : Exchange} (hmem : exchange ∈ wire party joint) :
    exchange.fd = net.fd party := by
  cases party with
  | client =>
      rw [hbehaves.client] at hmem
      rcases List.mem_cons.mp hmem with rfl | hround
      · rfl
      · obtain ⟨line, -, round, hexchange⟩ := mem_exchangedFor hround
        simp only [exchangedFor, List.mem_cons, List.not_mem_nil, or_false] at hexchange
        rcases hexchange with rfl | rfl | rfl <;> rfl
  | server =>
      rcases List.mem_cons.mp (hbehaves.server.subset hmem) with rfl | hround
      · rfl
      · obtain ⟨round, -, hexchange⟩ := List.mem_flatMap.mp hround
        exact fd_of_mem_roundOf hexchange

/-- The client sends to the server only, and what its lines begin with. -/
theorem client_message {message : List UInt8 × Vector UInt8 16 × Nat} {exchange : Exchange}
    (hmem : exchange ∈ wire .client joint) (hmessage : exchange.message = some message) :
    (∃ line ∈ lines stdin, message.1 = line.takeWhile (· ≠ 0)) ∧
      message.2 = ((net.address .server).storage, 16) := by
  rw [hbehaves.client] at hmem
  rcases List.mem_cons.mp hmem with rfl | hround
  · cases hmessage
  · obtain ⟨line, hline, round, hexchange⟩ := mem_exchangedFor hround
    simp only [exchangedFor, List.mem_cons, List.not_mem_nil, or_false] at hexchange
    rcases hexchange with rfl | rfl | rfl
    · obtain rfl := Option.some.inj hmessage
      exact ⟨⟨line, hline, rfl⟩, rfl⟩
    · cases hmessage
    · cases hmessage

/-- Up to any call the server has sent for what it has received by then. -/
theorem server_messages {earlier : History (labelled libc Party)} (hbefore : earlier <+: joint) :
    (wire .server earlier).filterMap Exchange.message <+:
      (receivedBy .server earlier).filterMap backTo := by
  have hwire := (wire_earlier hbefore).trans hbehaves.server
  unfold receivedBy
  rcases List.prefix_cons_iff.mp hwire with hnone | ⟨later, hsome, hlater⟩
  · rw [hnone]
    exact List.nil_prefix
  · have hmessages := messages_answer hlater
    rw [hsome]
    exact hmessages

theorem proper {earlier : History (labelled libc Party)} {event : Event (labelled libc Party)}
    (hbefore : earlier ++ [event] <+: joint) : Proper net earlier event := by
  have hmem : event ∈ joint := hbefore.subset (List.mem_append_right _ List.mem_cons_self)
  obtain ⟨⟨party, call⟩, answer⟩ := event
  cases call with
  | sendto fd data size dest destLen =>
      cases party with
      | client =>
          have hwire : .sent fd (data.take size) size dest destLen ∈ wire .client joint :=
            mem_wire hmem rfl
          obtain ⟨hdest, hdestLen⟩ := Prod.mk.inj (hbehaves.client_message hwire rfl).2
          exact ⟨hbehaves.fd_eq hwire, hdest, hdestLen⟩
      | server =>
          have hwire : .sent fd (data.take size) size dest destLen ∈ wire .server joint :=
            mem_wire hmem rfl
          have hmessages := hbehaves.server_messages hbefore
          have hreceived : receivedBy .server (earlier ++ [⟨(.server, .sendto fd data size dest
              destLen), answer⟩]) = receivedBy .server earlier := by
            rw [receivedBy_append]
            exact List.append_nil _
          rw [hreceived, wire_append, List.filterMap_append] at hmessages
          have hsent : (data.take size, dest, destLen) ∈
              (receivedBy .server earlier).filterMap backTo :=
            hmessages.subset (List.mem_append_right _ List.mem_cons_self)
          obtain ⟨datagram, hdatagram, hback⟩ := List.mem_filterMap.mp hsent
          unfold backTo at hback
          split at hback
          · cases hback
          · obtain ⟨-, hdest, hdestLen⟩ := by simpa using hback
            exact ⟨hbehaves.fd_eq hwire, hdestLen.symm, datagram, hdatagram, hdest.symm⟩
  | recvfrom fd size =>
      have hwire : .received fd answer ∈ wire party joint := by
        cases party <;> exact mem_wire hmem rfl
      have hfd := hbehaves.fd_eq hwire
      cases party <;> exact hfd
  | _ => cases party <;> exact trivial

/-- What the client has sent are strings that fit into a datagram of the server. -/
theorem length_sentBy_le {earlier : History (labelled libc Party)} (hbefore : earlier <+: joint)
    {payload : List UInt8} (hmem : payload ∈ sentBy .client earlier) : payload.length ≤ 31 := by
  obtain ⟨exchange, hexchange, hdata⟩ := List.mem_filterMap.mp hmem
  cases exchange with
  | sent fd data size dest destLen =>
      obtain rfl := Option.some.inj hdata
      obtain ⟨⟨line, hline, hbegins⟩, -⟩ :=
        hbehaves.client_message ((wire_earlier hbefore).subset hexchange) rfl
      rw [show data = line.takeWhile (· ≠ 0) from hbegins]
      exact (List.takeWhile_prefix _).length_le.trans (mem_lines hline).2
  | _ => cases hdata

/-- The server sends nothing but what the client has sent, in the same order. -/
theorem sentBy_server {earlier : History (labelled libc Party)} (hbefore : earlier <+: joint)
    {sockets : Party → Socket} (hdelivered : Delivered net earlier sockets) :
    (sentBy .server earlier).Sublist ((sentBy .client earlier).filter (· ≠ [])) := by
  have hreceived :
      ((receivedBy .server earlier).map Prod.fst).Sublist (sentBy .client earlier) := by
    have hall := hdelivered.toServer
    rw [List.map_append] at hall
    exact (List.sublist_append_left _ _).trans hall
  have hmessages := (hbehaves.server_messages hbefore).map Prod.fst
  have hshort : ∀ datagram ∈ receivedBy .server earlier, datagram.1.length ≤ size := by
    intro datagram hmem
    have hle := hbehaves.length_sentBy_le hbefore
      (hreceived.subset (List.mem_map_of_mem hmem))
    exact hle.trans (by decide)
  rw [map_message, map_backTo hshort] at hmessages
  exact hmessages.sublist.trans (hreceived.filter _)

end Behaves

/-! ### A server that has always answered -/

/-- The server has answered whatever the client has sent that was not empty. -/
def Answered (history : History (labelled libc Party)) : Prop :=
  (sentBy .server history).length = ((sentBy .client history).filter (· ≠ [])).length

instance : DecidablePred Answered := fun _ => inferInstanceAs (Decidable (_ = _))

def receives (party : Party) (event : Event (labelled libc Party)) : Bool :=
  match event.call with
  | (caller, .recvfrom _ _) => caller = party
  | _ => false

/-- The server has answered whenever the client receives. -/
def Prompt (joint : History (labelled libc Party)) : Prop :=
  ∀ k (hk : k < joint.length), receives .client joint[k] = true → Answered (joint.take k)

theorem Prompt.answered (hprompt : Prompt joint) {earlier later : History (labelled libc Party)}
    {event : Event (labelled libc Party)} (hjoint : joint = earlier ++ event :: later)
    (hreceives : receives .client event = true) : Answered earlier := by
  subst hjoint
  have hlt : earlier.length < (earlier ++ event :: later).length := by
    rw [List.length_append, List.length_cons]
    omega
  have hanswered := hprompt earlier.length hlt
  rw [List.getElem_append_right le_rfl, List.take_left] at hanswered
  simp only [Nat.sub_self, List.getElem_cons_zero] at hanswered
  exact hanswered hreceives

/-- What comes back to the client for a string. -/
def echoed (server : SockAddrIn) (payload : List UInt8) : Recvfrom :=
  if payload = [] then .failed else .datagram payload server

/-- The datagrams that came back for these exchanges are those for what was sent in them. -/
def Settled (server : SockAddrIn) (exchanged : List Exchange) : Prop :=
  exchanged.filterMap Exchange.datagram =
    ((exchanged.filterMap Exchange.data).filter (· ≠ [])).map fun payload => (payload, server)

/-- The first of what waits for the client, when the server has answered and all but the last string
is settled, is what comes back for this string. -/
theorem received_of_answered {earlier : History (labelled libc Party)} {sockets : Party → Socket}
    (hdelivered : Delivered net earlier sockets)
    (hsent : (sentBy .server earlier).Sublist ((sentBy .client earlier).filter (· ≠ [])))
    (hanswered : Answered earlier) {first : List Exchange} {payload : List UInt8}
    (hdata : sentBy .client earlier = first.filterMap Exchange.data ++ [payload])
    (hdatagrams : receivedBy .client earlier = first.filterMap Exchange.datagram)
    (hsettled : Settled (net.address .server) first) :
    Network.received (sockets .client) = echoed (net.address .server) payload := by
  have hall := hdelivered.toClient
  rw [hsent.eq_of_length hanswered, hdata, hdatagrams, hsettled, List.filter_append,
    List.map_append, List.append_cancel_left_eq] at hall
  unfold Network.received echoed
  rw [hall]
  by_cases hempty : payload = []
  · simp [hempty]
  · simp [hempty]

theorem settled_round {server : SockAddrIn} {first : List Exchange}
    (hsettled : Settled server first) (fd : Int) (addr : Address) (line : List UInt8)
    {round : Round} (houtcome : round.outcome = echoed server (line.takeWhile (· ≠ 0))) :
    Settled server (first ++ exchangedFor fd addr line round) := by
  have hdatagrams : (exchangedFor fd addr line round).filterMap Exchange.datagram =
      (if line.takeWhile (· ≠ 0) = [] then [] else [(line.takeWhile (· ≠ 0), server)]) := by
    unfold exchangedFor
    rw [houtcome, echoed]
    split <;> rfl
  have hdata : (exchangedFor fd addr line round).filterMap Exchange.data =
      [line.takeWhile (· ≠ 0)] := rfl
  unfold Settled at hsettled ⊢
  rw [List.filterMap_append, List.filterMap_append, hsettled, hdatagrams, hdata,
    List.filter_append, List.map_append]
  by_cases hempty : line.takeWhile (· ≠ 0) = []
  · rw [hempty]
    rfl
  · rw [if_neg hempty, List.filter_cons_of_pos (by simpa using hempty)]
    rfl

section Together

variable {stdin : List UInt8} {clientRounds serverRounds : List Round}
  (haddresses : (net.address .client).storage ≠ (net.address .server).storage)
  (haccepts : net.monitor.Accepts Network.start joint)
  (hbehaves : Behaves net joint stdin clientRounds serverRounds)

include haddresses haccepts hbehaves

theorem delivered_earlier {earlier : History (labelled libc Party)} (hbefore : earlier <+: joint) :
    Delivered net earlier (net.monitor.after Network.start earlier) := by
  obtain ⟨later, rfl⟩ := hbefore
  exact delivered_of_accepts haddresses ((Monitor.accepts_append _ _ _ _).mp haccepts).1
    fun _ _ hearlier => hbehaves.proper (hearlier.trans (List.prefix_append _ _))

/-- One receive of the client, after what is settled. -/
theorem outcome_of_prompt (hprompt : Prompt joint) {first after : List Exchange}
    {line : List UInt8} {round : Round} {addr : Address}
    (hwire : wire .client joint =
      first ++ (exchangedFor (net.fd .client) addr line round ++ after))
    (hsettled : Settled (net.address .server) first) :
    round.outcome = echoed (net.address .server) (line.takeWhile (· ≠ 0)) := by
  have hreceives : wire .client joint =
      (first ++ [.sent (net.fd .client) (line.takeWhile (· ≠ 0)) (line.takeWhile (· ≠ 0)).length
        addr.addr addr.addrLen, .polled (net.fd .client) 1000 round.ready]) ++
          .received (net.fd .client) round.outcome :: after := by
    rw [hwire, List.append_assoc]
    rfl
  obtain ⟨earlier, event, later, hjoint, hearlier, hevent⟩ := split_wire hreceives
  obtain ⟨bytes, rfl⟩ := wireOf_eq_received hevent
  have hbefore : earlier <+: joint := ⟨_, hjoint.symm⟩
  have hdelivered := delivered_earlier haddresses haccepts hbehaves hbefore
  have hallowed : round.outcome =
      Network.received (net.monitor.after Network.start earlier .client) := by
    rw [hjoint, Monitor.accepts_append] at haccepts
    exact haccepts.2.1 rfl
  rw [hallowed]
  refine received_of_answered hdelivered (hbehaves.sentBy_server hbefore hdelivered)
    (hprompt.answered hjoint rfl) ?_ ?_ hsettled
  · rw [sentBy, hearlier, List.filterMap_append]
    rfl
  · rw [receivedBy, hearlier, List.filterMap_append]
    exact List.append_nil _

theorem outcomes_of_prompt (hprompt : Prompt joint) {first : List Exchange}
    {texts : List (List UInt8)} {rounds : List Round} {addr : Address}
    (hlength : rounds.length = texts.length)
    (hwire : wire .client joint =
      first ++ (List.zipWith (exchangedFor (net.fd .client) addr) texts rounds).flatten)
    (hsettled : Settled (net.address .server) first) :
    rounds.map Round.outcome =
      texts.map fun line => echoed (net.address .server) (line.takeWhile (· ≠ 0)) := by
  induction rounds generalizing texts first with
  | nil =>
      rw [List.length_eq_zero_iff.mp hlength.symm]
      rfl
  | cons round rounds ih =>
      cases texts with
      | nil => cases hlength
      | cons line texts =>
          rw [List.zipWith_cons_cons, List.flatten_cons] at hwire
          have houtcome :=
            outcome_of_prompt haddresses haccepts hbehaves hprompt hwire hsettled
          have hrest := ih (Nat.succ.inj hlength) (hwire.trans (List.append_assoc _ _ _).symm)
            (settled_round hsettled _ addr line houtcome)
          rw [List.map_cons, List.map_cons, houtcome, hrest]

end Together

/-- The replies that were received, as they are shown. -/
theorem shown_received_eq (fd : Int) (addr : Address) {texts : List (List UInt8)}
    {rounds : List Round} (hlength : rounds.length = texts.length) :
    ((List.zipWith shownFor texts (rounds.map Round.outcome)).filter fun shown =>
        InBounds shown.index).map Shown.reply =
      ((List.zipWith (exchangedFor fd addr) texts rounds).flatten.filterMap
        Exchange.datagram).map fun datagram => (datagram.1.take size).takeWhile (· ≠ 0) := by
  induction rounds generalizing texts with
  | nil => simp
  | cons round rounds ih =>
      cases texts with
      | nil => cases hlength
      | cons line texts =>
          obtain ⟨ready, outcome⟩ := round
          have hbounds := inBounds_shownFor_iff line outcome
          rw [List.map_cons, List.zipWith_cons_cons, List.zipWith_cons_cons, List.flatten_cons,
            List.filterMap_append, List.map_append, ← ih (Nat.succ.inj hlength)]
          cases outcome with
          | failed =>
              rw [List.filter_cons_of_neg (by simpa using hbounds)]
              rfl
          | datagram payload source =>
              rw [List.filter_cons_of_pos (by simpa using hbounds)]
              rfl

theorem data_exchangedFor {fd : Int} {addr : Address} {texts : List (List UInt8)}
    {rounds : List Round} (hlength : rounds.length = texts.length) :
    (List.zipWith (exchangedFor fd addr) texts rounds).flatten.filterMap Exchange.data =
      texts.map fun line => line.takeWhile (· ≠ 0) := by
  induction rounds generalizing texts with
  | nil =>
      rw [List.length_eq_zero_iff.mp hlength.symm]
      rfl
  | cons round rounds ih =>
      cases texts with
      | nil => cases hlength
      | cons line texts =>
          rw [List.zipWith_cons_cons, List.flatten_cons, List.filterMap_append,
            ih (Nat.succ.inj hlength)]
          rfl

section Replies

variable {stdin : List UInt8} {clientRounds serverRounds : List Round}

theorem Behaves.sentBy_client (hbehaves : Behaves net joint stdin clientRounds serverRounds) :
    sentBy .client joint = (lines stdin).map fun line => line.takeWhile (· ≠ 0) := by
  rw [sentBy, hbehaves.client]
  exact data_exchangedFor hbehaves.length_eq

theorem Behaves.receivedBy_client (hbehaves : Behaves net joint stdin clientRounds serverRounds) :
    receivedBy .client joint =
      (List.zipWith (exchangedFor (net.fd .client) ⟨(net.address .server).storage, 16⟩)
        (lines stdin) clientRounds).flatten.filterMap Exchange.datagram := by
  rw [receivedBy, hbehaves.client]
  rfl

variable (haddresses : (net.address .client).storage ≠ (net.address .server).storage)
  (haccepts : net.monitor.Accepts Network.start joint)
  (hbehaves : Behaves net joint stdin clientRounds serverRounds)

include haddresses haccepts hbehaves

/-- What has come back to the client are strings that it sent, in their order. -/
theorem received_sublist :
    ((receivedBy .client joint).map Prod.fst).Sublist
      ((sentBy .client joint).filter (· ≠ [])) := by
  have hdelivered := delivered_earlier haddresses haccepts hbehaves List.prefix_rfl
  have hreceived : ((receivedBy .client joint).map Prod.fst).Sublist (sentBy .server joint) := by
    have hall := congrArg (List.map Prod.fst) hdelivered.toClient
    simp only [List.map_append, List.map_map, Function.comp_def, List.map_id'] at hall
    exact hall ▸ List.sublist_append_left _ _
  exact hreceived.trans (hbehaves.sentBy_server List.prefix_rfl hdelivered)

/-- The replies are the datagrams themselves: they are short, and without a zero. -/
theorem replies_eq :
    ((List.zipWith shownFor (lines stdin) (clientRounds.map Round.outcome)).filter fun reply =>
        InBounds reply.index).map Shown.reply = (receivedBy .client joint).map Prod.fst := by
  rw [shown_received_eq (net.fd .client) ⟨(net.address .server).storage, 16⟩ hbehaves.length_eq,
    ← hbehaves.receivedBy_client]
  refine List.map_congr_left fun datagram hmem => ?_
  have hsent : datagram.1 ∈ sentBy .client joint :=
    (List.mem_filter.mp ((received_sublist haddresses haccepts hbehaves).subset
      (List.mem_map_of_mem hmem))).1
  have hshort : datagram.1.length ≤ size :=
    (hbehaves.length_sentBy_le List.prefix_rfl hsent).trans (by decide)
  rw [hbehaves.sentBy_client] at hsent
  obtain ⟨line, -, hline⟩ := List.mem_map.mp hsent
  rw [List.take_of_length_le hshort, ← hline]
  exact List.takeWhile_idem

theorem shown_of_prompt (hprompt : Prompt joint) :
    List.zipWith shownFor (lines stdin) (clientRounds.map Round.outcome) =
      (lines stdin).map fun line =>
        shownFor line (echoed (net.address .server) (line.takeWhile (· ≠ 0))) := by
  have hwire : wire .client joint = [.socket (net.fd .client)] ++
      (List.zipWith (exchangedFor (net.fd .client) ⟨(net.address .server).storage, 16⟩)
        (lines stdin) clientRounds).flatten := hbehaves.client
  rw [outcomes_of_prompt haddresses haccepts hbehaves hprompt hbehaves.length_eq hwire rfl,
    List.zipWith_map_right, List.zipWith_self]

end Replies

/-- What comes back of a line is the string it begins with. -/
theorem reply_echoed (server : SockAddrIn) {line : List UInt8} (hlength : line.length ≤ 31) :
    (shownFor line (echoed server (line.takeWhile (· ≠ 0)))).reply = line.takeWhile (· ≠ 0) := by
  by_cases hempty : line.takeWhile (· ≠ 0) = []
  · simp only [hempty, echoed, if_true, shownFor]
  · have hshort : (line.takeWhile (· ≠ 0)).length ≤ size :=
      (List.takeWhile_prefix _).length_le.trans (hlength.trans (by decide))
    simp only [echoed, if_neg hempty, shownFor, List.take_of_length_le hshort]
    exact List.takeWhile_idem

theorem replies_echoed (server : SockAddrIn) (stdin : List UInt8) :
    ((lines stdin).map fun line =>
        shownFor line (echoed server (line.takeWhile (· ≠ 0)))).map Shown.reply =
      (lines stdin).map fun line => line.takeWhile (· ≠ 0) := by
  rw [List.map_map]
  exact List.map_congr_left fun line hline => reply_echoed server (mem_lines hline).2

theorem inBounds_echoed_iff (server : SockAddrIn) {line : List UInt8} (hsome : line ≠ []) :
    InBounds (shownFor line (echoed server (line.takeWhile (· ≠ 0)))).index ↔
      line.head? ≠ some 0 := by
  obtain ⟨c, rest, rfl⟩ := List.exists_cons_of_ne_nil hsome
  rw [inBounds_shownFor_iff, echoed]
  by_cases hzero : c = 0
  · simp [hzero]
  · simp [hzero]

theorem flatten_takeWhile_eq_iff (texts : List (List UInt8)) :
    (texts.map fun text => text.takeWhile (· ≠ 0)).flatten = texts.flatten ↔
      0 ∉ texts.flatten := by
  constructor
  · intro hequal hmem
    rw [← hequal] at hmem
    obtain ⟨_, htext, hzero⟩ := List.mem_flatten.mp hmem
    obtain ⟨text, -, rfl⟩ := List.mem_map.mp htext
    have hne := List.mem_takeWhile_imp hzero
    exact absurd hne (by decide)
  · intro hzero
    refine congrArg List.flatten ((List.map_congr_left fun text htext => ?_).trans (List.map_id _))
    rw [id, List.takeWhile_eq_self_iff]
    exact fun c hc => decide_eq_true
      (ne_of_mem_of_not_mem (List.mem_flatten_of_mem htext hc) hzero)

end Programs

/-- **The echo.** The two programs over a network that loses nothing, with their calls in any order:
the replies that the client receives are strings it has sent, in this order and each at most once.
If the server has always answered when the client receives, the client shows for each line of its
input the string that the line begins with: all together its input, exactly if no byte of it is
zero. And it then stays in its buffer exactly if no line begins with a zero, to which the server
does not answer. -/
theorem echo_returns_input_iff {net : Network Party} {joint : History (labelled libc Party)}
    (haddresses : (net.address .client).storage ≠ (net.address .server).storage)
    (haccepts : net.monitor.Accepts Network.start joint) {clientMemory serverMemory : Memory}
    {hostname : String} {port : Int} {host : SockAddrIn}
    (hname : net.names hostname = some (.inet host))
    (haddress : net.address .server = { host with port := htons port })
    {stdin : List UInt8} {shown : List Shown}
    (hclient : Runs (echoClient clientMemory hostname port stdin) shown (part .client joint))
    {n : Nat} {result : List Int × Server} {trace : History libc}
    (hserver : Runs (echoServer serverMemory port n) result trace)
    (hpart : part .server joint <+: trace) :
    ((shown.filter fun reply => InBounds reply.index).map Shown.reply).Sublist
        (((lines stdin).map fun line => line.takeWhile (· ≠ 0)).filter (· ≠ [])) ∧
      (Prompt joint →
        ((shown.map Shown.reply).flatten = stdin ↔ 0 ∉ stdin) ∧
          ((∀ reply ∈ shown, InBounds reply.index) ↔
            ∀ line ∈ lines stdin, line.head? ≠ some 0)) := by
  obtain ⟨clientRounds, serverRounds, hbehaves, rfl⟩ :=
    behaves_of_runs haccepts hname haddress hclient hserver hpart
  constructor
  · rw [replies_eq haddresses haccepts hbehaves, ← hbehaves.sentBy_client]
    exact received_sublist haddresses haccepts hbehaves
  · intro hprompt
    rw [shown_of_prompt haddresses haccepts hbehaves hprompt]
    constructor
    · have hwhole := flatten_takeWhile_eq_iff (lines stdin)
      rwa [← replies_echoed, flatten_lines] at hwhole
    · rw [List.forall_mem_map]
      exact forall₂_congr fun line hline => inBounds_echoed_iff _ (mem_lines hline).1

/-! Two lines, each answered before the client receives. -/

def localAddress (port : UInt16) : SockAddrIn := ⟨port, ⟨127, 0, 0, 1⟩, Vector.replicate 8 0⟩

def localNetwork : Network Party where
  fd := fun party => if party = .client then 4 else 3
  address := fun party => localAddress (if party = .client then 40000 else 2000)
  names := fun _ => some (.inet (localAddress 0))

def blankMemory : Memory := ⟨UDP.closed, Address.zero, Address.zero, Vector.replicate 33 0⟩

/-- The world of one of the two, in which these come from the other, one for each receive. -/
def localWorld (party other : Party) (payloads : List (List UInt8)) : World libc :=
  fun history request =>
    match request with
    | .socket => localNetwork.fd party
    | .getaddrinfo hostname => localNetwork.names hostname
    | .sendto _ _ size _ _ => (size : Int)
    | .recvfrom _ _ =>
        .datagram (payloads.getD ((exchanges history).filterMap Exchange.outcome).length [])
          (localNetwork.address other)
    | .poll _ _ => (1 : Int)
    | .close _ | .getfl _ | .setfl _ _ | .setsockopt _ _ | .bind _ _ _ => (0 : Int)
    | .memset _ | .memcpy _ | .memcmp _ => ()

def twoLines : List UInt8 := [97, 10, 98, 10]

def clientHistory : History libc :=
  ((echoClient blankMemory "localhost" 2000 twoLines).run
    (localWorld .client .server [[97, 10], [98, 10]]) []).2

def serverHistory : History libc :=
  ((echoServer blankMemory 2000 2).run (localWorld .server .client [[97, 10], [98, 10]]) []).2

/-- The server opens its socket; then by turns, up to and with each `sendto`. -/
def pairHistory : History (labelled libc Party) :=
  (serverHistory.take 6).map (Event.labelled .server) ++
    (clientHistory.take 10).map (Event.labelled .client) ++
    ((serverHistory.drop 6).take 3).map (Event.labelled .server) ++
    ((clientHistory.drop 10).take 3).map (Event.labelled .client) ++
    (serverHistory.drop 9).map (Event.labelled .server) ++
    (clientHistory.drop 13).map (Event.labelled .client)

theorem pairHistory_accepts : localNetwork.monitor.Accepts Network.start pairHistory := by
  decide +kernel

theorem pairHistory_prompt : Prompt pairHistory := by
  unfold Prompt
  decide +kernel

theorem echo_returns_input_iff_two_lines :
    (((echoClient blankMemory "localhost" 2000 twoLines).run
      (localWorld .client .server [[97, 10], [98, 10]]) []).1.map Shown.reply).flatten =
        twoLines := by
  have haddresses : (localNetwork.address .client).storage ≠
      (localNetwork.address .server).storage := by
    decide +kernel
  have hname : localNetwork.names "localhost" = some (.inet (localAddress 0)) := rfl
  have hclient := runs_run_nil (localWorld .client .server [[97, 10], [98, 10]])
    (echoClient blankMemory "localhost" 2000 twoLines)
  have hserver := runs_run_nil (localWorld .server .client [[97, 10], [98, 10]])
    (echoServer blankMemory 2000 2)
  have hclientPart : part .client pairHistory = clientHistory := by
    decide +kernel
  have hserverPart : part .server pairHistory = serverHistory := by
    decide +kernel
  change Runs _ _ clientHistory at hclient
  rw [← hclientPart] at hclient
  have hecho := echo_returns_input_iff haddresses pairHistory_accepts hname rfl hclient hserver
    (hserverPart ▸ List.prefix_rfl)
  exact (hecho.2 pairHistory_prompt).1.mpr (by decide)

end Net.Echo

end FiraClient
