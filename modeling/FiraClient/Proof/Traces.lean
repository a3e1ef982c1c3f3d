import FiraClient.Net.SslClient
import FiraClient.Net.Lifetime

/-!
# What each operation can do

One lemma for each operation of the network objects: the calls it makes, in order, and what it
returns for their answers. Nothing after this unfolds an operation.
-/

namespace FiraClient.Net

open Interaction

/-- The calls that set up a descriptor and whose outcomes `UDP::open` at most prints. -/
inductive Configures : Event libc → Prop where
  | getfl (fd ret : Int) : Configures ⟨.getfl fd, ret⟩
  | setfl (fd : Int) (flags : Nat) (ret : Int) : Configures ⟨.setfl fd flags, ret⟩
  | reuseaddr (fd ret : Int) : Configures ⟨.setsockopt fd .reuseaddr, ret⟩
  | multicastLoop (fd ret : Int) : Configures ⟨.setsockopt fd .multicastLoop, ret⟩

inductive Prepares : Event libc → Prop where
  | getaddrinfo (hostname : String) (res : Option SockAddr) : Prepares ⟨.getaddrinfo hostname, res⟩
  | memset (size : Nat) (done : Unit) : Prepares ⟨.memset size, done⟩
  | memcpy (size : Nat) (done : Unit) : Prepares ⟨.memcpy size, done⟩

theorem prepares_of_memset {history : History libc}
    (hhistory : ∀ event ∈ history, event.call = .memset 16) :
    ∀ event ∈ history, Prepares event := by
  rintro ⟨request, answer⟩ hevent
  obtain rfl : request = .memset 16 := hhistory _ hevent
  exact .memset 16 answer

/-- A call whose outcome the two `open` functions look at, failing. -/
def CheckedFailure (event : Event libc) : Prop :=
  match event with
  | ⟨.setsockopt _ (.multicastTtl _), ret⟩ => (ret : Int) ≠ 0
  | ⟨.setsockopt _ (.addMembership _ _), ret⟩ => (ret : Int) ≠ 0
  | ⟨.setsockopt _ (.multicastIf _), ret⟩ => (ret : Int) ≠ 0
  | _ => False

section Address

variable {self next : Address} {ok : Bool} {trace : History libc}

theorem Address.runs_reset :
    Runs self.reset next trace ↔
      Calls (I := libc) (.memset 16) trace ∧ next = ⟨Vector.replicate 16 0, 0⟩ := by
  simp [Address.reset, sizeofSockaddr, Calls]

theorem Address.runs_mzero :
    Runs self.mzero next trace ↔
      Calls (I := libc) (.memset 16) trace ∧
        next = { self with addr := Vector.replicate 16 0 } := by
  simp [Address.mzero, sizeofSockaddr, Calls]

theorem Address.runs_copy {src : Address} :
    Runs (self.copy src) next trace ↔
      Calls (I := libc) (.memcpy src.addrLen) trace ∧
        next = ⟨overwrite self.addr src.addr.toList src.addrLen, src.addrLen⟩ := by
  simp [Address.copy, Calls]

theorem Address.runs_equals {a : Address} (hruns : Runs (self.equals a) ok trace) :
    CallsIf (I := libc) (self.addrLen = a.addrLen) (.memcmp self.addrLen) trace := by
  unfold Address.equals at hruns
  by_cases hlength : self.addrLen = a.addrLen
  · rw [if_pos hlength] at hruns
    simp only [perform, runs_bind, runs_request, runs_ret, runs_pure] at hruns
    obtain ⟨_, _, ⟨done, _, ⟨-, rfl⟩, rfl⟩, _, ⟨-, rfl⟩, rfl⟩ := hruns
    exact Or.inl ⟨hlength, done, rfl⟩
  · rw [if_neg hlength] at hruns
    exact Or.inr ⟨hlength, (runs_pure.mp hruns).2⟩

def Address.hosted (res : SockAddr) (port : Int) : Address :=
  let address : Address := ⟨overwrite (Vector.replicate 16 0) res.bytes res.addrlen, res.addrlen⟩
  if address.isInet then address.setPort (htons port) else address

theorem Address.runs_setHost {hostname : String} {port : Int}
    (hruns : Runs (self.setHost hostname port) (ok, next) trace) :
    ∃ (res : Option SockAddr) (filling : History libc),
      trace = ⟨.getaddrinfo hostname, res⟩ :: filling ∧
      match res with
      | none => ok = false ∧ next = self ∧ filling = []
      | some res => ok = true ∧ next = Address.hosted res port ∧
          ∃ clearing copying, filling = clearing ++ copying ∧
            Calls (I := libc) (.memset 16) clearing ∧
            Calls (I := libc) (.memcpy res.addrlen) copying := by
  simp only [Address.setHost, perform, runs_bind, runs_request, runs_ret, ↓existsAndEq,
    true_and, List.cons_append, List.nil_append] at hruns
  obtain ⟨res, filling, hfilling, rfl⟩ := hruns
  refine ⟨res, filling, rfl, ?_⟩
  cases res with
  | none => simpa [and_assoc] using hfilling
  | some res =>
      simp only [runs_bind, Address.runs_mzero, runs_request, runs_ret, runs_pure] at hfilling
      obtain ⟨_, clearing, ⟨hclearing, rfl⟩, _, ⟨_, copying, hcopying, _, ⟨hresult, rfl⟩, rfl⟩,
        rfl⟩ := hfilling
      obtain ⟨hok, hnext⟩ := Prod.mk.inj hresult
      obtain ⟨copied, _, ⟨-, rfl⟩, rfl⟩ := hcopying
      exact ⟨hok, hnext, clearing, _, rfl, hclearing, copied, rfl⟩

theorem Address.runs_setAny {port : Int} (hruns : Runs (self.setAny port) next trace) :
    Calls (I := libc) (.memset 16) trace ∧ next.addrLen = 16 ∧ next.getInAddr = inaddrAny := by
  simp only [Address.setAny, runs_bind, Address.runs_mzero, runs_pure] at hruns
  obtain ⟨_, clearing, ⟨hclearing, rfl⟩, _, ⟨rfl, rfl⟩, rfl⟩ := hruns
  exact ⟨by rwa [List.append_nil], rfl,
    (Address.getInAddr_setPort _ _).trans (Address.getInAddr_setInAddr _ _)⟩

theorem Address.prepares_setHost {hostname : String} {port : Int}
    (hruns : Runs (self.setHost hostname port) (ok, next) trace) :
    ∀ event ∈ trace, Prepares event := by
  obtain ⟨res, filling, rfl, hfilling⟩ := Address.runs_setHost hruns
  refine List.forall_mem_cons.mpr ⟨.getaddrinfo _ _, ?_⟩
  cases res with
  | none =>
      obtain ⟨-, -, rfl⟩ := hfilling
      exact List.forall_mem_nil _
  | some res =>
      obtain ⟨-, -, clearing, copying, rfl, hclearing, hcopying⟩ := hfilling
      exact List.forall_mem_append.mpr
        ⟨hclearing.forall_mem fun _ => .memset _ _, hcopying.forall_mem fun _ => .memcpy _ _⟩

end Address

section Addresses

variable {addresses next : Addresses} {trace : History libc}

theorem Addresses.runs_withLive {i : Nat} {operation : Address → Prog libc Addresses}
    (hruns : Runs (addresses.withLive i operation) next trace) :
    (next = addresses ∧ trace = []) ∨
      ∃ address, addresses i = some address ∧ Runs (operation address) next trace := by
  unfold Addresses.withLive at hruns
  cases hlive : addresses i with
  | none =>
      rw [hlive] at hruns
      exact Or.inl (runs_pure.mp hruns)
  | some address =>
      rw [hlive] at hruns
      exact Or.inr ⟨address, rfl, hruns⟩

theorem Addresses.runs_modify {i : Nat} {operation : Address → Prog libc Address}
    (hruns : Runs (addresses.modify i operation) next trace) :
    (next = addresses ∧ trace = []) ∨
      ∃ self written, addresses i = some self ∧ Runs (operation self) written trace ∧
        next = addresses.set i (some written) := by
  rcases Addresses.runs_withLive hruns with hidle | ⟨self, hself, hmodifies⟩
  · exact Or.inl hidle
  · obtain ⟨written, hwritten, rfl⟩ := runs_bind_pure.mp hmodifies
    exact Or.inr ⟨self, written, hself, hwritten, rfl⟩

end Addresses

section UDP

abbrev UDP.Closes (udp : UDP) (trace : History libc) : Prop :=
  CallsIf (I := libc) (0 ≤ udp.fd) (.close udp.fd) trace

def UDP.closed : UDP := ⟨-1, 0, 0, 0, 0⟩

variable {udp next : UDP} {ok : Bool} {trace : History libc}

theorem UDP.runs_close :
    Runs udp.close next trace ↔ udp.Closes trace ∧ next = UDP.closed := by
  simp [UDP.close, UDP.closed]

theorem UDP.runs_new {memory : UDP} :
    Runs (UDP.new memory) next trace ↔ trace = [] ∧ next = UDP.closed := by
  simp [UDP.new, UDP.runs_close, CallsIf]

theorem UDP.runs_destroy :
    Runs udp.destroy next trace ↔ udp.Closes trace ∧ next = UDP.closed := UDP.runs_close

/-- The old descriptor goes, a socket is made and set up, and only the outcome for the time to live
is looked at; a socket that passes is bound when there is a port. -/
theorem UDP.runs_open {port : Int} {share loop blocking : Bool}
    (hruns : Runs (udp.open port share loop blocking) (ok, next) trace) :
    ∃ (closing : History libc) (fd : Int) (configuring : History libc) (ttl : Int)
      (binding : History libc),
      trace = closing ++ ⟨.socket, fd⟩ ::
        (configuring ++ ⟨.setsockopt fd (.multicastTtl 32), ttl⟩ :: binding) ∧
      next = { udp with fd := fd } ∧ (ok = true ↔ ttl = 0) ∧
      udp.Closes closing ∧ (∀ event ∈ configuring, Configures event) ∧
      CallsIf (I := libc) (ttl = 0 ∧ port ≠ 0) (.bind fd inaddrAny (htons port)) binding := by
  simp only [UDP.open, ge_iff_le, perform, ne_eq, ite_not, runs_bind, runs_performIf, runs_request,
    runs_ret, ↓existsAndEq, and_true, exists_eq_left', exists_eq_left, List.cons_append,
    List.nil_append, exists_const] at hruns
  obtain ⟨closing, hclosing, fd, flags, set, sharing, looping, ttl, binding,
    ⟨hsharing, hlooping, hrest⟩, rfl⟩ := hruns
  let configuring : History libc := ⟨.getfl fd, flags⟩ ::
    ⟨.setfl fd ((if flags < 0 then 0 else flags.toNat) ||| if blocking then 0 else oNonblock),
      set⟩ :: (sharing ++ looping)
  have hconfiguring : ∀ event ∈ configuring, Configures event := by
    simp only [configuring, List.forall_mem_cons, List.forall_mem_append]
    exact ⟨.getfl _ _, .setfl _ _ _, hsharing.forall_mem fun _ => .reuseaddr _ _,
      hlooping.forall_mem fun _ => .multicastLoop _ _⟩
  refine ⟨closing, fd, configuring, ttl, binding, by simp [configuring], ?_⟩
  by_cases httl : ttl = 0
  · rw [if_pos httl] at hrest
    obtain ⟨_, bound, hbound, _, hend, rfl⟩ := runs_bind.mp hrest
    obtain ⟨hresult, rfl⟩ := runs_pure.mp hend
    obtain ⟨rfl, rfl⟩ := Prod.mk.inj hresult
    refine ⟨rfl, iff_of_true rfl httl, hclosing, hconfiguring, ?_⟩
    simpa [httl] using hbound
  · rw [if_neg httl] at hrest
    obtain ⟨hresult, rfl⟩ := runs_pure.mp hrest
    obtain ⟨rfl, rfl⟩ := Prod.mk.inj hresult
    exact ⟨rfl, iff_of_false (by simp) httl, hclosing, hconfiguring, Or.inr ⟨by simp [httl], rfl⟩⟩

theorem UDP.forall_mem_open {property : Event libc → Prop} {port : Int}
    {share loop blocking : Bool} (hclose : ∀ fd ret, property ⟨.close fd, ret⟩)
    (hsocket : ∀ fd, property ⟨.socket, fd⟩)
    (hconfigures : ∀ event, Configures event → property event)
    (httl : ∀ fd ret, property ⟨.setsockopt fd (.multicastTtl 32), ret⟩)
    (hbind : ∀ fd number ret, property ⟨.bind fd inaddrAny number, ret⟩)
    (hruns : Runs (udp.open port share loop blocking) (ok, next) trace) :
    ∀ event ∈ trace, property event := by
  obtain ⟨closing, fd, configuring, ttl, binding, rfl, -, -, hclosing, hconfiguring, hbinding⟩ :=
    UDP.runs_open hruns
  simp only [List.forall_mem_append, List.forall_mem_cons]
  exact ⟨hclosing.forall_mem (hclose _), hsocket _,
    fun event hevent => hconfigures event (hconfiguring event hevent), httl _ _,
    hbinding.forall_mem (hbind _ _)⟩

theorem UDP.open_ok_iff {port : Int} {share loop blocking : Bool}
    (hruns : Runs (udp.open port share loop blocking) (ok, next) trace) :
    ok = true ↔ ∀ event ∈ trace, ¬CheckedFailure event := by
  obtain ⟨closing, fd, configuring, ttl, binding, rfl, -, hok, hclosing, hconfiguring, hbinding⟩ :=
    UDP.runs_open hruns
  have hquiet : ∀ event ∈ configuring, ¬CheckedFailure event := by
    intro event hevent
    cases hconfiguring event hevent <;> exact id
  simp only [List.forall_mem_append, List.forall_mem_cons, hok]
  constructor
  · intro httl
    exact ⟨hclosing.forall_mem fun _ => id, id, hquiet, fun hfailed => hfailed httl,
      hbinding.forall_mem fun _ => id⟩
  · rintro ⟨-, -, -, httl, -⟩
    exact not_not.mp httl

theorem UDP.runs_addMulticast {multiaddr interface : Address}
    (hruns : Runs (udp.addMulticast multiaddr interface) ok trace) :
    ∃ (added : Int) (setting : History libc),
      trace = ⟨.setsockopt udp.fd (.addMembership multiaddr.getInAddr interface.getInAddr),
        added⟩ :: setting ∧
      if added = 0 then
        ∃ set : Int, setting = [⟨.setsockopt udp.fd (.multicastIf interface.getInAddr), set⟩] ∧
          (ok = true ↔ set = 0)
      else ok = false ∧ setting = [] := by
  simp only [UDP.addMulticast, perform, ne_eq, ite_not, runs_bind, runs_request, runs_ret,
    ↓existsAndEq, true_and, List.cons_append, List.nil_append] at hruns
  obtain ⟨added, setting, hsetting, rfl⟩ := hruns
  refine ⟨added, setting, rfl, ?_⟩
  split
  · rw [if_pos ‹_›] at hsetting
    simp only [runs_bind, runs_request, runs_ret, runs_pure] at hsetting
    obtain ⟨set, _, ⟨_, _, ⟨rfl, rfl⟩, rfl⟩, _, ⟨rfl, rfl⟩, rfl⟩ := hsetting
    exact ⟨set, rfl, beq_iff_eq⟩
  · rw [if_neg ‹_›] at hsetting
    exact runs_pure.mp hsetting

theorem UDP.forall_mem_addMulticast {property : Event libc → Prop} {multiaddr interface : Address}
    (hsetsockopt : ∀ fd opt ret, property ⟨.setsockopt fd opt, ret⟩)
    (hruns : Runs (udp.addMulticast multiaddr interface) ok trace) :
    ∀ event ∈ trace, property event := by
  obtain ⟨added, setting, rfl, hsetting⟩ := UDP.runs_addMulticast hruns
  refine List.forall_mem_cons.mpr ⟨hsetsockopt _ _ _, ?_⟩
  split at hsetting
  · obtain ⟨set, rfl, -⟩ := hsetting
    exact List.forall_mem_singleton.mpr (hsetsockopt _ _ _)
  · obtain ⟨-, rfl⟩ := hsetting
    exact List.forall_mem_nil _

theorem UDP.addMulticast_ok_iff {multiaddr interface : Address}
    (hruns : Runs (udp.addMulticast multiaddr interface) ok trace) :
    ok = true ↔ ∀ event ∈ trace, ¬CheckedFailure event := by
  obtain ⟨added, setting, rfl, hsetting⟩ := UDP.runs_addMulticast hruns
  split at hsetting
  · obtain ⟨set, rfl, hok⟩ := hsetting
    simp [CheckedFailure, hok, ‹added = 0›]
  · obtain ⟨rfl, rfl⟩ := hsetting
    simp [CheckedFailure, ‹¬added = 0›]

theorem UDP.runs_send {data : List UInt8} {length : Int} {dest : Address} {result : Bool × UDP} :
    Runs (udp.send data length dest) result trace ↔
      ∃ ret : Int, result = udp.sent length ret ∧
        trace = [⟨.sendto udp.fd data (sizeT length) dest.addr dest.addrLen, ret⟩] := by
  simp [UDP.send]

theorem UDP.runs_recv {length : Int} {src : Address} {result : Int × List UInt8 × UDP × Address} :
    Runs (udp.recv length src) result trace ↔
      ∃ outcome : Recvfrom, result = udp.received length src outcome ∧
        trace = [⟨.recvfrom udp.fd (sizeT length), outcome⟩] := by
  simp [UDP.recv]

theorem UDP.runs_wait {timeoutMs : Int} :
    Runs (udp.wait timeoutMs) ok trace ↔
      ∃ ready : Int, ok = (ready == 1) ∧ trace = [⟨.poll udp.fd timeoutMs, ready⟩] := by
  simp [UDP.wait]

end UDP

section RoboCupSSLClient

variable {client next : RoboCupSSLClient} {memory : Address × Address} {blocking ok : Bool}
  {trace : History libc}

abbrev Address.zero : Address := ⟨Vector.replicate 16 0, 0⟩

theorem RoboCupSSLClient.prepares_setInterface {self interface : Address}
    (hruns : Runs (client.setInterface self) interface trace) :
    ∀ event ∈ trace, Prepares event := by
  unfold RoboCupSSLClient.setInterface at hruns
  split at hruns
  · obtain ⟨⟨ok, address⟩, hresolved, -⟩ := runs_bind_pure.mp hruns
    exact Address.prepares_setHost hresolved
  · exact (Address.runs_setAny hruns).1.forall_mem fun _ => .memset _ _

theorem RoboCupSSLClient.runs_subscribe
    (hruns : Runs (client.subscribe memory) ok trace) :
    ∃ (resolved : Bool) (multiaddr interface : Address)
      (before resolving choosing adding after : History libc),
      trace = before ++ (resolving ++ (choosing ++ (adding ++ after))) ∧
      (∀ event ∈ before, event.call = .memset 16) ∧
      Runs (Address.zero.setHost client.netAddress client.port) (resolved, multiaddr) resolving ∧
      Runs (client.setInterface Address.zero) interface choosing ∧
      Runs (client.mc.addMulticast multiaddr interface) ok adding ∧
      ∀ event ∈ after, event.call = .memset 16 := by
  simp only [RoboCupSSLClient.subscribe, Address.new, Address.destroy, runs_bind,
    Address.runs_reset, runs_pure] at hruns
  obtain ⟨_, first, ⟨hfirst, rfl⟩, _, ⟨_, second, ⟨hsecond, rfl⟩, _, hruns, rfl⟩, rfl⟩ := hruns
  obtain ⟨⟨resolved, multiaddr⟩, resolving, hresolving, _, hruns, rfl⟩ := hruns
  obtain ⟨interface, choosing, hchoosing, _, hruns, rfl⟩ := hruns
  obtain ⟨added, adding, hadding, _, hruns, rfl⟩ := hruns
  obtain ⟨_, third, ⟨hthird, rfl⟩, _, ⟨_, fourth, ⟨hfourth, rfl⟩, _, ⟨rfl, rfl⟩, rfl⟩, rfl⟩ := hruns
  refine ⟨resolved, multiaddr, interface, first ++ second, resolving, choosing, adding,
    third ++ fourth, by simp, ?_, hresolving, hchoosing, hadding, ?_⟩
  · exact List.forall_mem_append.mpr
      ⟨hfirst.forall_mem fun _ => rfl, hsecond.forall_mem fun _ => rfl⟩
  · exact List.forall_mem_append.mpr
      ⟨hthird.forall_mem fun _ => rfl, hfourth.forall_mem fun _ => rfl⟩

/-- Only the outcomes of `UDP::open` and of `addMulticast` are looked at. -/
theorem RoboCupSSLClient.runs_open
    (hruns : Runs (client.open memory blocking) (ok, next) trace) :
    ∃ (closing : History libc) (opened : Bool) (mc : UDP) (opening joining : History libc),
      trace = closing ++ (opening ++ joining) ∧
      client.mc.Closes closing ∧
      Runs (UDP.closed.open client.port true true blocking) (opened, mc) opening ∧
      next = { client with mc := mc } ∧
      if opened then Runs (next.subscribe memory) ok joining else ok = false ∧ joining = [] := by
  simp only [RoboCupSSLClient.open, RoboCupSSLClient.close, runs_bind, UDP.runs_close,
    runs_pure] at hruns
  obtain ⟨_, _, ⟨_, closing, ⟨hclosing, rfl⟩, _, ⟨rfl, rfl⟩, rfl⟩, _, hruns, rfl⟩ := hruns
  obtain ⟨⟨opened, mc⟩, opening, hopening, _, hrest, rfl⟩ := hruns
  cases opened with
  | false =>
      obtain ⟨hresult, rfl⟩ := runs_pure.mp hrest
      obtain ⟨rfl, rfl⟩ := Prod.mk.inj hresult
      exact ⟨closing, false, mc, opening, [], by simp, hclosing, hopening, rfl, rfl, rfl⟩
  | true =>
      obtain ⟨added, joining, hjoining, _, hend, rfl⟩ := runs_bind.mp hrest
      obtain ⟨hresult, rfl⟩ := runs_pure.mp hend
      obtain ⟨rfl, rfl⟩ := Prod.mk.inj hresult
      exact ⟨closing, true, mc, opening, joining, by simp, hclosing, hopening, rfl, hjoining⟩

theorem RoboCupSSLClient.forall_mem_subscribe {property : Event libc → Prop}
    (hprepares : ∀ event, Prepares event → property event)
    (hsetsockopt : ∀ fd opt ret, property ⟨.setsockopt fd opt, ret⟩)
    (hruns : Runs (client.subscribe memory) ok trace) : ∀ event ∈ trace, property event := by
  obtain ⟨resolved, multiaddr, interface, before, resolving, choosing, adding, after, rfl, hbefore,
    hresolving, hchoosing, hadding, hafter⟩ := RoboCupSSLClient.runs_subscribe hruns
  have hprepared : ∀ {part : History libc}, (∀ event ∈ part, Prepares event) →
      ∀ event ∈ part, property event :=
    fun hpart event hevent => hprepares event (hpart event hevent)
  simp only [List.forall_mem_append]
  exact ⟨hprepared (prepares_of_memset hbefore), hprepared (Address.prepares_setHost hresolving),
    hprepared (RoboCupSSLClient.prepares_setInterface hchoosing),
    UDP.forall_mem_addMulticast hsetsockopt hadding, hprepared (prepares_of_memset hafter)⟩

theorem RoboCupSSLClient.subscribe_ok_iff
    (hruns : Runs (client.subscribe memory) ok trace) :
    ok = true ↔ ∀ event ∈ trace, ¬CheckedFailure event := by
  obtain ⟨resolved, multiaddr, interface, before, resolving, choosing, adding, after, rfl, hbefore,
    hresolving, hchoosing, hadding, hafter⟩ := RoboCupSSLClient.runs_subscribe hruns
  have hquiet : ∀ {part : History libc}, (∀ event ∈ part, Prepares event) →
      ∀ event ∈ part, ¬CheckedFailure event := by
    intro part hpart event hevent
    cases hpart event hevent <;> exact id
  simp only [List.forall_mem_append, ← UDP.addMulticast_ok_iff hadding]
  constructor
  · intro hok
    exact ⟨hquiet (prepares_of_memset hbefore), hquiet (Address.prepares_setHost hresolving),
      hquiet (RoboCupSSLClient.prepares_setInterface hchoosing), hok,
      hquiet (prepares_of_memset hafter)⟩
  · rintro ⟨-, -, -, hok, -⟩
    exact hok

theorem RoboCupSSLClient.open_ok_iff
    (hruns : Runs (client.open memory blocking) (ok, next) trace) :
    ok = true ↔ ∀ event ∈ trace, ¬CheckedFailure event := by
  obtain ⟨closing, opened, mc, opening, joining, rfl, hclosing, hopening, rfl, hjoining⟩ :=
    RoboCupSSLClient.runs_open hruns
  have hclosed : ∀ event ∈ closing, ¬CheckedFailure event := hclosing.forall_mem fun _ => id
  have hopened := UDP.open_ok_iff hopening
  simp only [List.forall_mem_append, ← hopened]
  cases opened with
  | false =>
      obtain ⟨rfl, rfl⟩ := hjoining
      simp
  | true =>
      rw [RoboCupSSLClient.subscribe_ok_iff hjoining]
      exact ⟨fun hjoined => ⟨hclosed, rfl, hjoined⟩, fun hall => hall.2.2⟩

end RoboCupSSLClient

end FiraClient.Net
