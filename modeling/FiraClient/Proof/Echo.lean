import FiraClient.Net.Echo
import FiraClient.Proof.Equality
import FiraClient.Proof.Exchanges
import Mathlib.Data.List.TakeWhile

/-!
# The echo

What the two test programs exchange, each against any network, and what the client shows when its
network is the server.
-/

namespace FiraClient

open Net Interaction

namespace Net.Echo

/-! ### The buffer -/

section Buffer

variable (msg : Msg) {data : List UInt8}

theorem toList_fill (hlength : data.length ≤ 33) :
    (fill msg data).toList = data ++ msg.toList.drop data.length := by
  rw [fill, Vector.toList_mk, List.take_of_length_le hlength]

theorem terminate_fill (hlength : data.length ≤ 32) :
    terminate (fill msg data) data.length = fill msg (data ++ [0]) := by
  have hbounds : InBounds data.length := ⟨by omega, Int.ofNat_le.mpr hlength⟩
  have hlonger : (data ++ [0]).length ≤ 33 := by
    rw [List.length_append, List.length_singleton]
    omega
  apply Vector.toList_inj.mp
  rw [terminate, if_pos hbounds, Int.toNat_natCast, Vector.toList_setIfInBounds,
    toList_fill msg (hlength.trans (by decide)), toList_fill msg hlonger]
  have hlt : data.length < msg.toList.length := by
    rw [Vector.length_toList]
    omega
  rw [List.drop_eq_getElem_cons hlt, List.set_append_right _ _ le_rfl, Nat.sub_self,
    List.set_cons_zero, List.append_assoc, List.singleton_append, List.length_append,
    List.length_singleton]

theorem fill_nil : fill msg [] = msg := by
  apply Vector.toList_inj.mp
  have hnil := toList_fill msg (List.length_nil.trans_le (Nat.zero_le 33))
  rw [hnil, List.length_nil, List.drop_zero, List.nil_append]

theorem text_fill (hlength : data.length ≤ 32) :
    text (fill msg (data ++ [0])) = data.takeWhile (· ≠ 0) := by
  have hlonger : (data ++ [0]).length ≤ 33 := by
    rw [List.length_append, List.length_singleton]
    omega
  rw [text, toList_fill msg hlonger, List.append_assoc, List.takeWhile_append]
  split
  · rename_i hall
    rw [(List.takeWhile_prefix (l := data) fun c => c ≠ 0).eq_of_length hall]
    exact List.append_nil data
  · rfl

end Buffer

theorem sizeT_of_le {length : ℕ} (hlength : length ≤ 32) : sizeT length = length := by
  rw [sizeT]
  omega

/-! ### The server -/

/-- What the calls of a round return: its `poll`, and its `recvfrom` if it makes one. -/
structure Round where
  ready : Int
  outcome : Recvfrom
deriving DecidableEq, Repr

/-- What the server sends back, and to whom. -/
def answer : Recvfrom → Option (List UInt8 × SockAddrIn)
  | .failed => none
  | .datagram payload source => if payload = [] then none else some (payload.take size, source)

def Round.answer (round : Round) : Option (List UInt8 × SockAddrIn) :=
  if round.ready = 1 then Echo.answer round.outcome else none

/-- A round of the server polls; when a datagram is there it receives, and answers. -/
def roundOf (fd : Int) (round : Round) : List Exchange :=
  .polled fd (-1) round.ready :: (if round.ready = 1 then [.received fd round.outcome] else []) ++
    (round.answer.map fun reply =>
      Exchange.sent fd reply.1 reply.1.length reply.2.storage 16).toList

theorem length_answer {outcome : Recvfrom} {reply : List UInt8 × SockAddrIn}
    (hreply : answer outcome = some reply) : reply.1.length ≤ size := by
  cases outcome with
  | failed => cases hreply
  | datagram payload source =>
      simp only [answer] at hreply
      split at hreply
      · cases hreply
      · obtain rfl := Option.some.inj hreply
        exact List.length_take_le size payload

section Server

variable {server next : Server} {written : List Int} {trace : History libc}

theorem received_datagram (udp : UDP) (src : Address) (payload : List UInt8)
    (source : SockAddrIn) :
    (udp.received size src (.datagram payload source)).1 = (payload.take size).length ∧
      (udp.received size src (.datagram payload source)).2.1 = payload.take size ∧
      (udp.received size src (.datagram payload source)).2.2.2 = ⟨source.storage, 16⟩ := by
  have hsize : sizeT size = size := by decide
  have hshort : min payload.length size ≤ 32 := min_le_right _ _
  refine ⟨?_, rfl, ?_⟩
  · simp only [UDP.received, hsize, Recvfrom.len, intOfSsize, List.length_take]
    rw [Int.bmod_eq_of_le_mul_two] <;> omega
  · have hstorage : source.storage.toList = source.bytes := Vector.toList_mk
    have hfilled : overwrite src.addr source.bytes 16 = source.storage :=
      hstorage ▸ Address.overwrite_full src.addr source.storage
    simp only [UDP.received, Recvfrom.source, SockAddrIn.length_bytes, sizeofSockaddr, hfilled]

theorem onWire_terminated (msg : Msg) {data : List UInt8} (hlength : data.length ≤ 32) (fd : Int)
    (dest : Vector UInt8 16) (destLen : Nat) :
    (Exchange.sent fd (terminate (fill msg data) data.length).toList (sizeT data.length) dest
        destLen).onWire =
      .sent fd data data.length dest destLen := by
  have hlonger : (data ++ [0]).length ≤ 33 := by
    rw [List.length_append, List.length_singleton]
    omega
  rw [terminate_fill msg hlength, toList_fill msg hlonger, sizeT_of_le hlength, Exchange.onWire,
    List.append_assoc, List.take_left]

theorem Server.runs_round (hruns : Runs server.round (written, next) trace) :
    ∃ round : Round, next.net.fd = server.net.fd ∧
      written = (round.answer.map fun reply => (reply.1.length : Int)).toList ∧
      (exchanges trace).map Exchange.onWire = roundOf server.net.fd round := by
  obtain ⟨ready, waiting, hwaiting, rest, hrest, rfl⟩ := runs_bind.mp hruns
  obtain ⟨poll, rfl, rfl⟩ := UDP.runs_wait.mp hwaiting
  rw [exchanges_append]
  by_cases hready : poll = 1
  · subst hready
    obtain ⟨received, receiving, hreceiving, replying, hreplying, rfl⟩ := runs_bind.mp hrest
    obtain ⟨outcome, rfl, rfl⟩ := UDP.runs_recv.mp hreceiving
    refine ⟨⟨1, outcome⟩, ?_⟩
    rw [exchanges_append]
    cases outcome with
    | failed =>
        obtain ⟨hresult, rfl⟩ := runs_pure.mp hreplying
        obtain ⟨rfl, rfl⟩ := Prod.mk.inj hresult
        exact ⟨UDP.fd_received server.net size server.addr .failed, rfl, rfl⟩
    | datagram payload source =>
        obtain ⟨hlen, hdata, hsource⟩ := received_datagram server.net server.addr payload source
        have hfd := UDP.fd_received server.net size server.addr (.datagram payload source)
        have hshort : (payload.take size).length ≤ 32 := List.length_take_le size payload
        simp only [hlen, hdata, hsource] at hreplying
        by_cases hempty : payload = []
        · subst hempty
          obtain ⟨hresult, rfl⟩ := runs_pure.mp hreplying
          obtain ⟨rfl, rfl⟩ := Prod.mk.inj hresult
          exact ⟨hfd, rfl, rfl⟩
        · have hpos : ((payload.take size).length : Int) > 0 := by
            have hlength := List.length_pos_iff.mpr hempty
            rw [List.length_take, size]
            omega
          rw [if_pos hpos] at hreplying
          obtain ⟨sent, sending, hsending, _, hend, rfl⟩ := runs_bind.mp hreplying
          obtain ⟨ret, rfl, rfl⟩ := UDP.runs_send.mp hsending
          obtain ⟨hresult, rfl⟩ := runs_pure.mp hend
          obtain ⟨rfl, rfl⟩ := Prod.mk.inj hresult
          have hanswer : (⟨1, .datagram payload source⟩ : Round).answer =
              some (payload.take size, source) := by
            simp only [Round.answer, answer, if_neg hempty, if_true]
          refine ⟨(UDP.fd_sent _ (payload.take size).length ret).trans hfd,
            by rw [hanswer]; rfl, ?_⟩
          have hsent := onWire_terminated server.msg hshort server.net.fd source.storage 16
          simp only [roundOf, hanswer, Option.map_some, Option.toList_some, ← hsent]
          rw [← hfd]
          rfl
  · rw [beq_false_of_ne hready] at hrest
    obtain ⟨hresult, rfl⟩ := runs_pure.mp hrest
    obtain ⟨rfl, rfl⟩ := Prod.mk.inj hresult
    refine ⟨⟨poll, .failed⟩, rfl, ?_, ?_⟩ <;>
      simp only [roundOf, Round.answer, if_neg hready] <;> rfl

theorem Server.runs_rounds {n : Nat} (hruns : Runs (Server.rounds n server) (written, next) trace) :
    ∃ rounds : List Round, rounds.length = n ∧
      written = (rounds.filterMap Round.answer).map (fun reply => (reply.1.length : Int)) ∧
      (exchanges trace).map Exchange.onWire = rounds.flatMap (roundOf server.net.fd) := by
  induction n generalizing server written trace with
  | zero =>
      obtain ⟨hresult, rfl⟩ := runs_pure.mp hruns
      obtain ⟨rfl, rfl⟩ := Prod.mk.inj hresult
      exact ⟨[], rfl, rfl, rfl⟩
  | succ n ih =>
      obtain ⟨⟨first, middle⟩, early, hearly, late, hrounds, rfl⟩ := runs_bind.mp hruns
      obtain ⟨⟨rest, last⟩, hlate, hresult⟩ := runs_bind_pure.mp hrounds
      obtain ⟨rfl, rfl⟩ := Prod.mk.inj hresult
      obtain ⟨round, hfd, rfl, hexchanged⟩ := Server.runs_round hearly
      obtain ⟨others, hlength, rfl, hexchanges⟩ := ih hlate
      refine ⟨round :: others, congrArg Nat.succ hlength, ?_, ?_⟩
      · rw [List.filterMap_cons]
        cases round.answer <;> rfl
      · rw [exchanges_append, List.map_append, hexchanged, hexchanges, hfd, List.flatMap_cons]

theorem runs_echoServer {memory : Memory} {port : Int} {n : Nat}
    (hruns : Runs (echoServer memory port n) (written, next) trace) :
    ∃ (fd : Int) (rounds : List Round), rounds.length = n ∧
      (exchanges trace).map Exchange.onWire = .socket fd :: rounds.flatMap (roundOf fd) ∧
      written = (rounds.filterMap Round.answer).map fun reply => (reply.1.length : Int) := by
  obtain ⟨net, making, hmaking, afterNet, hafterNet, htrace⟩ := runs_bind.mp hruns
  obtain ⟨addr, clearing, hclearing, afterAddr, hafterAddr, rfl⟩ := runs_bind.mp hafterNet
  obtain ⟨⟨ok, opened⟩, opening, hopening, looping, hlooping, rfl⟩ := runs_bind.mp hafterAddr
  obtain ⟨rfl, -⟩ := UDP.runs_new.mp hmaking
  obtain ⟨rounds, hlength, hwritten, hexchanges⟩ := Server.runs_rounds hlooping
  refine ⟨opened.fd, rounds, hlength, ?_, hwritten⟩
  rw [htrace, exchanges_append, exchanges_append, exchanges_append,
    exchanges_memset (Address.runs_reset.mp hclearing).1, exchanges_open hopening, List.map_append,
    List.map_append, List.map_append, hexchanges]
  rfl

/-- **The server answers.** In every world and after any number of rounds: each round has polled,
has received exactly if a datagram was said to be there, and has then sent back the first thirty-two
bytes of it to where it came from, unless it was empty. The server has ended a string in its buffer
once for each answer, after the bytes of it. -/
theorem echoServer_answers (memory : Memory) (port : Int) (n : Nat) (world : World libc) :
    ∃ (fd : Int) (rounds : List Round), rounds.length = n ∧
      (exchanges ((echoServer memory port n).run world []).2).map Exchange.onWire =
        .socket fd :: rounds.flatMap (roundOf fd) ∧
      ((echoServer memory port n).run world []).1.1 =
        (rounds.filterMap Round.answer).map (fun reply => (reply.1.length : Int)) ∧
      ∀ index ∈ ((echoServer memory port n).run world []).1.1, InBounds index := by
  obtain ⟨fd, rounds, hlength, hexchanges, hwritten⟩ :=
    runs_echoServer (runs_run_nil world (echoServer memory port n))
  refine ⟨fd, rounds, hlength, hexchanges, hwritten, ?_⟩
  rw [hwritten, List.forall_mem_map]
  intro reply hreply
  obtain ⟨round, -, hanswer⟩ := List.mem_filterMap.mp hreply
  unfold Round.answer at hanswer
  split at hanswer
  · exact ⟨Int.natCast_nonneg _, Int.ofNat_le.mpr (length_answer hanswer)⟩
  · cases hanswer

end Server

/-! ### The client -/

section Lines

theorem length_line_le (n : Nat) (stdin : List UInt8) : (line n stdin).length ≤ n := by
  induction n generalizing stdin with
  | zero => exact le_rfl
  | succ n ih =>
      cases stdin with
      | nil => exact Nat.zero_le _
      | cons c stdin =>
          unfold line
          split
          · exact Nat.succ_le_succ (Nat.zero_le n)
          · exact Nat.succ_le_succ (ih stdin)

theorem line_append_drop (n : Nat) (stdin : List UInt8) :
    line n stdin ++ stdin.drop (line n stdin).length = stdin := by
  induction n generalizing stdin with
  | zero => rfl
  | succ n ih =>
      cases stdin with
      | nil => rfl
      | cons c stdin =>
          unfold line
          split
          · rfl
          · exact congrArg (c :: ·) (ih stdin)

/-- Nothing of the input is left out. -/
theorem flatten_lines (stdin : List UInt8) : (lines stdin).flatten = stdin := by
  induction stdin using lines.induct with
  | case1 => simp [lines]
  | case2 stdin hsome first ih =>
      rw [lines, if_neg hsome, List.flatten_cons, ih]
      exact line_append_drop (size - 1) stdin

theorem mem_lines {stdin text : List UInt8} (htext : text ∈ lines stdin) :
    text ≠ [] ∧ text.length ≤ 31 := by
  induction stdin using lines.induct with
  | case1 => simp [lines] at htext
  | case2 stdin hsome first ih =>
      rw [lines, if_neg hsome] at htext
      rcases List.mem_cons.mp htext with rfl | hlater
      · exact ⟨line_ne_nil hsome, length_line_le (size - 1) stdin⟩
      · exact ih hlater

end Lines

/-- What a round shows for its line and the outcome of its `recvfrom`. After a failure the string in
the buffer is still the line. -/
def shownFor (line : List UInt8) : Recvfrom → Shown
  | .failed => ⟨-1, line.takeWhile (· ≠ 0)⟩
  | .datagram payload _ =>
      ⟨(payload.take size).length, (payload.take size).takeWhile (· ≠ 0)⟩

section Client

variable {client next : Client} {trace : History libc}

/-- A round sends the string that its line begins with, waits, and receives whatever came of it. -/
def exchangedFor (fd : Int) (addr : Address) (line : List UInt8) (round : Round) : List Exchange :=
  [.sent fd (line.takeWhile (· ≠ 0)) (line.takeWhile (· ≠ 0)).length addr.addr addr.addrLen,
    .polled fd 1000 round.ready, .received fd round.outcome]

theorem onWire_text (msg : Msg) {line : List UInt8} (hlength : line.length ≤ 31) (fd : Int)
    (dest : Vector UInt8 16) (destLen : Nat) :
    (Exchange.sent fd (fill msg (line ++ [0])).toList
        (sizeT (line.takeWhile (· ≠ 0)).length) dest destLen).onWire =
      .sent fd (line.takeWhile (· ≠ 0)) (line.takeWhile (· ≠ 0)).length dest destLen := by
  have hlonger : (line ++ [0]).length ≤ 33 := by
    rw [List.length_append, List.length_singleton]
    omega
  have hbegins : line.takeWhile (· ≠ 0) <+: line := List.takeWhile_prefix _
  have htaken := List.prefix_iff_eq_take.mp (hbegins.trans (List.prefix_append line
    ([0] ++ msg.toList.drop (line ++ [0]).length)))
  rw [toList_fill msg hlonger, sizeT_of_le (hbegins.length_le.trans (by omega)), Exchange.onWire,
    List.append_assoc, ← htaken]

theorem shown_received (udp : UDP) (src : Address) {msg : Msg} {line : List UInt8}
    (htext : text msg = line.takeWhile (· ≠ 0)) (outcome : Recvfrom) :
    (⟨(udp.received size src outcome).1,
        text (terminate (fill msg (udp.received size src outcome).2.1)
          (udp.received size src outcome).1)⟩ : Shown) =
      shownFor line outcome := by
  cases outcome with
  | failed =>
      change (⟨-1, text (terminate (fill msg []) (-1))⟩ : Shown) = ⟨-1, _⟩
      rw [fill_nil, terminate, if_neg (by decide), htext]
  | datagram payload source =>
      obtain ⟨hlen, hdata, -⟩ := received_datagram udp src payload source
      have hshort : (payload.take size).length ≤ 32 := List.length_take_le size payload
      rw [hlen, hdata, terminate_fill msg hshort, text_fill msg hshort]
      rfl

theorem Client.runs_round {line : List UInt8} {shown : Shown} (hlength : line.length ≤ 31)
    (hruns : Runs (client.round line) (shown, next) trace) :
    ∃ round : Round, next.net.fd = client.net.fd ∧ next.addr = client.addr ∧
      shown = shownFor line round.outcome ∧
      (exchanges trace).map Exchange.onWire =
        exchangedFor client.net.fd client.addr line round := by
  have htext := text_fill client.msg (hlength.trans (by decide))
  simp only [Client.round, htext, runs_bind, UDP.runs_send, UDP.runs_wait, UDP.runs_recv,
    runs_pure] at hruns
  obtain ⟨_, _, ⟨ret, rfl, rfl⟩, _, ⟨_, _, ⟨ready, -, rfl⟩, _, ⟨_, _, ⟨outcome, rfl, rfl⟩, _,
    ⟨hresult, rfl⟩, rfl⟩, rfl⟩, rfl⟩ := hruns
  obtain ⟨rfl, rfl⟩ := Prod.mk.inj hresult
  refine ⟨⟨ready, outcome⟩, ?_, rfl, shown_received _ client.raddr htext outcome, ?_⟩
  · exact (UDP.fd_received _ size client.raddr outcome).trans
      (UDP.fd_sent client.net (line.takeWhile (· ≠ 0)).length ret)
  · have hsent := onWire_text client.msg hlength client.net.fd client.addr.addr
      client.addr.addrLen
    rw [exchangedFor, ← hsent,
      ← UDP.fd_sent client.net (line.takeWhile (· ≠ 0)).length ret]
    rfl

theorem Client.runs_rounds {lines : List (List UInt8)} {shown : List Shown}
    (hlines : ∀ line ∈ lines, line.length ≤ 31)
    (hruns : Runs (Client.rounds client lines) (shown, next) trace) :
    ∃ rounds : List Round, rounds.length = lines.length ∧
      shown = List.zipWith shownFor lines (rounds.map Round.outcome) ∧
      (exchanges trace).map Exchange.onWire =
        (List.zipWith (exchangedFor client.net.fd client.addr) lines rounds).flatten := by
  induction lines generalizing client shown trace with
  | nil =>
      obtain ⟨hresult, rfl⟩ := runs_pure.mp hruns
      obtain ⟨rfl, rfl⟩ := Prod.mk.inj hresult
      exact ⟨[], rfl, rfl, rfl⟩
  | cons line lines ih =>
      obtain ⟨hline, hrest⟩ := List.forall_mem_cons.mp hlines
      obtain ⟨⟨first, middle⟩, early, hearly, late, hrounds, rfl⟩ := runs_bind.mp hruns
      obtain ⟨⟨rest, last⟩, hlate, hresult⟩ := runs_bind_pure.mp hrounds
      obtain ⟨rfl, rfl⟩ := Prod.mk.inj hresult
      obtain ⟨round, hfd, haddr, rfl, hexchanged⟩ := Client.runs_round hline hearly
      obtain ⟨rounds, hlength, rfl, hexchanges⟩ := ih hrest hlate
      refine ⟨round :: rounds, congrArg Nat.succ hlength, rfl, ?_⟩
      rw [exchanges_append, List.map_append, hexchanged, hexchanges, hfd, haddr]
      rfl

/-- The address of the server, for what its name resolves to. -/
def serverAddress (res : Option SockAddr) (port : Int) : Address :=
  match res with
  | none => Address.zero
  | some res => Address.hosted res port

theorem runs_resolve {hostname : String} {port : Int} {ok : Bool} {addr : Address}
    (hruns : Runs (Address.zero.setHost hostname port) (ok, addr) trace) :
    exchanges trace = [] ∧
      ∃ res, ⟨.getaddrinfo hostname, res⟩ ∈ trace ∧ addr = serverAddress res port := by
  refine ⟨exchanges_eq_nil fun event hevent =>
    exchangeOf_prepares (Address.prepares_setHost hruns event hevent), ?_⟩
  obtain ⟨res, filling, rfl, hfilling⟩ := Address.runs_setHost hruns
  refine ⟨res, List.mem_cons_self, ?_⟩
  cases res with
  | none => exact hfilling.2.1
  | some res => exact hfilling.2.1

theorem runs_echoClient {memory : Memory} {hostname : String} {port : Int} {stdin : List UInt8}
    {shown : List Shown} (hruns : Runs (echoClient memory hostname port stdin) shown trace) :
    ∃ (fd : Int) (res : Option SockAddr) (rounds : List Round),
      ⟨.getaddrinfo hostname, res⟩ ∈ trace ∧ rounds.length = (lines stdin).length ∧
      (exchanges trace).map Exchange.onWire = .socket fd ::
        (List.zipWith (exchangedFor fd (serverAddress res port)) (lines stdin) rounds).flatten ∧
      shown = List.zipWith shownFor (lines stdin) (rounds.map Round.outcome) := by
  obtain ⟨net, making, hmaking, _, hnet, rfl⟩ := runs_bind.mp hruns
  obtain ⟨addr, clearing, hclearing, _, haddr, rfl⟩ := runs_bind.mp hnet
  obtain ⟨raddr, clearing', hclearing', _, hraddr, rfl⟩ := runs_bind.mp haddr
  obtain ⟨⟨found, resolved⟩, resolving, hresolving, _, hresolved, rfl⟩ := runs_bind.mp hraddr
  obtain ⟨⟨ok, opened⟩, opening, hopening, _, hopened, rfl⟩ := runs_bind.mp hresolved
  obtain ⟨⟨all, last⟩, looping, hlooping, _, hend, rfl⟩ := runs_bind.mp hopened
  simp only [runs_bind, Address.destroy, Address.runs_reset, UDP.runs_destroy, runs_pure] at hend
  obtain ⟨_, third, ⟨hthird, rfl⟩, _, ⟨_, fourth, ⟨hfourth, rfl⟩, _, ⟨_, closing, ⟨hclosing, rfl⟩,
    _, ⟨rfl, rfl⟩, rfl⟩, rfl⟩, rfl⟩ := hend
  obtain ⟨rfl, -⟩ := UDP.runs_new.mp hmaking
  obtain ⟨hclears, rfl⟩ := Address.runs_reset.mp hclearing
  obtain ⟨hresolves, res, hmem, rfl⟩ := runs_resolve hresolving
  obtain ⟨rounds, hlength, hshown, hexchanges⟩ :=
    Client.runs_rounds (fun line hline => (mem_lines hline).2) hlooping
  refine ⟨opened.fd, res, rounds, ?_, hlength, ?_, hshown⟩
  · simp only [List.mem_append, hmem, true_or, or_true]
  · simp only [exchanges_append, exchanges_memset hclears,
      exchanges_memset (Address.runs_reset.mp hclearing').1, hresolves, exchanges_open hopening,
      exchanges_memset hthird, exchanges_memset hfourth, exchanges_closes hclosing,
      List.map_append, hexchanges]
    exact congrArg (Exchange.socket opened.fd :: ·) (List.append_nil _)

theorem inBounds_shownFor_iff (line : List UInt8) (outcome : Recvfrom) :
    InBounds (shownFor line outcome).index ↔ outcome ≠ .failed := by
  cases outcome with
  | failed => exact iff_of_false (show ¬InBounds (-1) by decide) fun hne => hne rfl
  | datagram payload source =>
      exact iff_of_true ⟨Int.natCast_nonneg _, Int.ofNat_le.mpr (List.length_take_le size payload)⟩
        nofun

theorem inBounds_zipWith_iff {lines : List (List UInt8)} {outcomes : List Recvfrom}
    (hlength : outcomes.length = lines.length) :
    (∀ shown ∈ List.zipWith shownFor lines outcomes, InBounds shown.index) ↔
      .failed ∉ outcomes := by
  induction outcomes generalizing lines with
  | nil => simp
  | cons outcome outcomes ih =>
      cases lines with
      | nil => cases hlength
      | cons line lines =>
          rw [List.zipWith_cons_cons, List.forall_mem_cons, inBounds_shownFor_iff,
            ih (Nat.succ.inj hlength), List.mem_cons, not_or, ne_comm]

theorem outcomes_exchangedFor {fd : Int} {addr : Address} {lines : List (List UInt8)}
    {rounds : List Round} (hlength : rounds.length = lines.length) :
    (List.zipWith (exchangedFor fd addr) lines rounds).flatten.filterMap Exchange.outcome =
      rounds.map Round.outcome := by
  induction rounds generalizing lines with
  | nil => simp
  | cons round rounds ih =>
      cases lines with
      | nil => cases hlength
      | cons line lines =>
          rw [List.zipWith_cons_cons, List.flatten_cons, List.filterMap_append,
            ih (Nat.succ.inj hlength)]
          rfl

/-- **The client and its buffer.** In every world and for every input: for each line the client has
sent the string that the line begins with to the address its name resolved to, has waited for a
second, and has received once. It shows the string that the datagram begins with and ends it within
the buffer, but for a failed receive it writes before the buffer, and shows the line itself as the
reply. So it stays in its buffer exactly if no receive fails. -/
theorem echoClient_in_buffer_iff (memory : Memory) (hostname : String) (port : Int)
    (stdin : List UInt8) (world : World libc) :
    ∃ (fd : Int) (res : Option SockAddr) (rounds : List Round),
      ⟨.getaddrinfo hostname, res⟩ ∈ ((echoClient memory hostname port stdin).run world []).2 ∧
      rounds.length = (lines stdin).length ∧
      (exchanges ((echoClient memory hostname port stdin).run world []).2).map Exchange.onWire =
        .socket fd ::
          (List.zipWith (exchangedFor fd (serverAddress res port)) (lines stdin) rounds).flatten ∧
      ((echoClient memory hostname port stdin).run world []).1 =
        List.zipWith shownFor (lines stdin) (rounds.map Round.outcome) ∧
      ((∀ shown ∈ ((echoClient memory hostname port stdin).run world []).1,
          InBounds shown.index) ↔
        ∀ fd, .received fd .failed ∉
          exchanges ((echoClient memory hostname port stdin).run world []).2) := by
  obtain ⟨fd, res, rounds, hmem, hlength, hexchanges, hshown⟩ :=
    runs_echoClient (runs_run_nil world (echoClient memory hostname port stdin))
  have houtcomes : (exchanges ((echoClient memory hostname port stdin).run world []).2).filterMap
      Exchange.outcome = rounds.map Round.outcome := by
    rw [← filterMap_outcome_onWire, hexchanges]
    exact outcomes_exchangedFor hlength
  refine ⟨fd, res, rounds, hmem, hlength, hexchanges, hshown, ?_⟩
  rw [hshown, inBounds_zipWith_iff (by rwa [List.length_map]), ← houtcomes,
    mem_filterMap_outcome_iff, not_exists]

end Client

end Net.Echo

end FiraClient
