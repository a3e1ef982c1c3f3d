import FiraClient.Proof.Traces

/-!
# What a successful open gives

`RoboCupSSLClient::open` succeeds when the socket options it looks at are set. The outcomes of
`socket`, of `bind` and of resolving the two names are not looked at, and the port is narrowed to
its low 16 bits, or not bound at all when it is zero.
-/

namespace FiraClient.Net

open Interaction

/-- A call whose outcome neither function looks at, failing. A name that resolves to something other
than an IPv4 address is of no use to the IPv4 options it is for. -/
def IgnoredFailure (event : Event libc) : Prop :=
  match event with
  | ⟨.socket, fd⟩ => (fd : Int) < 0
  | ⟨.bind _ _ _, ret⟩ => (ret : Int) ≠ 0
  | ⟨.getaddrinfo _, res⟩ => ∀ addr, res ≠ some (.inet addr)
  | _ => False

def resolutions (history : History libc) : List (String × Option SockAddr) :=
  history.filterMap fun event =>
    match event with
    | ⟨.getaddrinfo hostname, res⟩ => some (hostname, res)
    | _ => none

/-- The group was joined, and the output interface set, with the addresses the names resolved to;
`interface` is free when the client names none. -/
def Joined (client : RoboCupSSLClient) (history : History libc) : Prop :=
  ∃ group interface : SockAddrIn,
    resolutions history = (client.netAddress, some (.inet group)) ::
      (if client.netInterface.length > 0 then [(client.netInterface, some (.inet interface))]
      else []) ∧
    (⟨.setsockopt client.mc.fd (.addMembership group.addr interface.addr), (0 : Int)⟩ :
      Event libc) ∈ history ∧
    (⟨.setsockopt client.mc.fd (.multicastIf interface.addr), (0 : Int)⟩ : Event libc) ∈ history

def Bound (udp : UDP) (port : Int) (history : History libc) : Prop :=
  ∃ number : UInt16, (number.toNat : Int) = port ∧
    (⟨.bind udp.fd inaddrAny number, (0 : Int)⟩ : Event libc) ∈ history

/-- A subscription that can be used: a socket, its port, and the group. -/
structure Subscribed (client : RoboCupSSLClient) (history : History libc) : Prop where
  valid : 0 ≤ client.mc.fd
  socket : (⟨.socket, client.mc.fd⟩ : Event libc) ∈ history
  bound : Bound client.mc client.port history
  joined : Joined client history

theorem toNat_htons {port : Int} :
    ((htons port).toNat : Int) = port ↔ 0 ≤ port ∧ port < 65536 := by
  have hvalue : ((htons port).toNat : Int) = port % 65536 := by
    simp [htons, UInt16.ofInt]
    omega
  rw [hvalue]
  omega

example : (htons 75538).toNat = 10002 := by decide

section Resolutions

variable {first second : History libc}

@[simp]
theorem resolutions_append :
    resolutions (first ++ second) = resolutions first ++ resolutions second :=
  List.filterMap_append

theorem resolutions_eq_nil (hfirst : ∀ event ∈ first, ∀ name, event.call ≠ .getaddrinfo name) :
    resolutions first = [] := by
  apply List.filterMap_eq_nil_iff.mpr
  intro event hevent
  have hcall := hfirst event hevent
  obtain ⟨request, answer⟩ := event
  cases request with
  | getaddrinfo name => exact absurd rfl (hcall name)
  | _ => rfl

end Resolutions

theorem Address.getInAddr_hosted (addr : SockAddrIn) (port : Int) :
    (Address.hosted (.inet addr) port).getInAddr = addr.addr := by
  simp only [Address.hosted]
  split
  · rw [Address.getInAddr_setPort]
    simp [Address.getInAddr, overwrite, SockAddr.bytes, SockAddrIn.bytes]
  · simp [Address.getInAddr, overwrite, SockAddr.bytes, SockAddrIn.bytes]

/-! ### Looking names up -/

section Address

variable {self next : Address} {ok : Bool} {trace : History libc}

theorem resolutions_memory (htrace : ∀ event ∈ trace, event.call = .memset 16) :
    resolutions trace = [] ∧ ∀ event ∈ trace, ¬IgnoredFailure event := by
  constructor
  · apply resolutions_eq_nil
    intro event hevent name
    rw [htrace event hevent]
    exact LibcCall.noConfusion
  · rintro ⟨request, answer⟩ hevent
    obtain rfl : request = .memset 16 := htrace _ hevent
    exact id

theorem Address.setHost_resolves {hostname : String} {port : Int}
    (hruns : Runs (self.setHost hostname port) (ok, next) trace) :
    ∃ res : Option SockAddr, resolutions trace = [(hostname, res)] ∧
      ((∀ event ∈ trace, ¬IgnoredFailure event) ↔ ∃ addr, res = some (.inet addr)) ∧
      ∀ addr, res = some (.inet addr) → next.getInAddr = addr.addr := by
  obtain ⟨res, filling, rfl, hfilling⟩ := Address.runs_setHost hruns
  refine ⟨res, ?_⟩
  cases res with
  | none =>
      obtain ⟨-, -, rfl⟩ := hfilling
      simp [resolutions, IgnoredFailure]
  | some res =>
      obtain ⟨-, hnext, _, _, rfl, ⟨cleared, rfl⟩, copied, rfl⟩ := hfilling
      refine ⟨rfl, ?_, ?_⟩
      · simp [IgnoredFailure]
      · rintro addr ⟨⟩
        rw [hnext, Address.getInAddr_hosted]

end Address

section Join

variable {client : RoboCupSSLClient} {memory : Address × Address} {ok : Bool}
  {trace : History libc}

theorem RoboCupSSLClient.setInterface_resolves {self interface : Address}
    (hruns : Runs (client.setInterface self) interface trace) :
    ∃ res : Option SockAddr,
      resolutions trace =
        (if client.netInterface.length > 0 then [(client.netInterface, res)] else []) ∧
      ((∀ event ∈ trace, ¬IgnoredFailure event) ↔
        (client.netInterface.length > 0 → ∃ addr, res = some (.inet addr))) ∧
      ((∀ event ∈ trace, ¬IgnoredFailure event) →
        ∃ addr, (client.netInterface.length > 0 → res = some (.inet addr)) ∧
          interface.getInAddr = addr.addr) := by
  unfold RoboCupSSLClient.setInterface at hruns
  by_cases hnamed : client.netInterface.length > 0
  · rw [if_pos hnamed] at hruns
    obtain ⟨⟨resolved, interface⟩, hresolved, rfl⟩ := runs_bind_pure.mp hruns
    obtain ⟨res, hnames, hinet, haddr⟩ := Address.setHost_resolves hresolved
    refine ⟨res, by rw [if_pos hnamed, hnames],
      hinet.trans ⟨fun hres _ => hres, fun hres => hres hnamed⟩, fun hquiet => ?_⟩
    obtain ⟨addr, hres⟩ := hinet.mp hquiet
    exact ⟨addr, fun _ => hres, haddr addr hres⟩
  · rw [if_neg hnamed] at hruns
    obtain ⟨hclears, -, haddr⟩ := Address.runs_setAny hruns
    obtain ⟨hnames, hquiet⟩ := resolutions_memory (hclears.forall_mem fun _ => rfl)
    refine ⟨none, by rw [if_neg hnamed, hnames],
      iff_of_true hquiet fun hnamed' => absurd hnamed' hnamed, fun _ => ?_⟩
    exact ⟨⟨0, inaddrAny, Vector.replicate 8 0⟩, fun hnamed' => absurd hnamed' hnamed, haddr⟩

/-- The calls that `Joined` is about. -/
def Joins (event : Event libc) : Prop :=
  match event.call with
  | .getaddrinfo _ | .setsockopt _ (.addMembership _ _) | .setsockopt _ (.multicastIf _) => True
  | _ => False

theorem joined_append_iff {first second : History libc} (hfirst : ∀ event ∈ first, ¬Joins event) :
    Joined client (first ++ second) ↔ Joined client second := by
  have hnames : resolutions first = [] := by
    apply resolutions_eq_nil
    intro event hevent name hcall
    apply hfirst event hevent
    rw [Joins, hcall]
    trivial
  have hmem : ∀ event, Joins event → (event ∈ first ++ second ↔ event ∈ second) := by
    intro event hjoins
    rw [List.mem_append, or_iff_right fun hevent => hfirst event hevent hjoins]
  simp only [Joined, resolutions_append, hnames, List.nil_append]
  apply exists_congr
  intro group
  apply exists_congr
  intro interface
  apply and_congr_right
  intro _
  exact and_congr (hmem _ trivial) (hmem _ trivial)

theorem UDP.addMulticast_succeeds {udp : UDP} {multiaddr interface : Address}
    (hruns : Runs (udp.addMulticast multiaddr interface) true trace) :
    trace = [⟨.setsockopt udp.fd (.addMembership multiaddr.getInAddr interface.getInAddr),
        (0 : Int)⟩, ⟨.setsockopt udp.fd (.multicastIf interface.getInAddr), (0 : Int)⟩] := by
  obtain ⟨added, setting, rfl, hsetting⟩ := UDP.runs_addMulticast hruns
  split at hsetting
  · obtain ⟨set, rfl, hset⟩ := hsetting
    rw [‹added = 0›, hset.mp rfl]
  · exact absurd hsetting.1 (by simp)

theorem RoboCupSSLClient.joined_iff
    (hruns : Runs (client.subscribe memory) true trace) :
    Joined client trace ↔ ∀ event ∈ trace, ¬IgnoredFailure event := by
  obtain ⟨resolved, multiaddr, interface, before, resolving, choosing, adding, after, rfl, hbefore,
    hresolving, hchoosing, hadding, hafter⟩ := RoboCupSSLClient.runs_subscribe hruns
  obtain ⟨hbefore, hquietBefore⟩ := resolutions_memory hbefore
  obtain ⟨hafter, hquietAfter⟩ := resolutions_memory hafter
  obtain ⟨res, hgroupName, hgroup, hgroupAddr⟩ := Address.setHost_resolves hresolving
  obtain ⟨res', hinterfaceName, hinterface, hinterfaceAddr⟩ :=
    RoboCupSSLClient.setInterface_resolves hchoosing
  have hadded := UDP.addMulticast_succeeds hadding
  have haddingNames : resolutions adding = [] := by rw [hadded]; rfl
  have hquietAdding : ∀ event ∈ adding, ¬IgnoredFailure event := by
    rw [hadded]
    exact List.forall_mem_cons.mpr ⟨id, List.forall_mem_singleton.mpr id⟩
  have hnames : resolutions (before ++ (resolving ++ (choosing ++ (adding ++ after)))) =
      (client.netAddress, res) ::
        (if client.netInterface.length > 0 then [(client.netInterface, res')] else []) := by
    calc
      _ = resolutions before ++ (resolutions resolving ++
          (resolutions choosing ++ (resolutions adding ++ resolutions after))) := by
        simp only [resolutions_append]
      _ = _ := by
        rw [hbefore, hgroupName, hinterfaceName, haddingNames, hafter, List.append_nil,
          List.append_nil, List.nil_append, List.singleton_append]
  simp only [List.forall_mem_append, hgroup, Joined, hnames]
  constructor
  · rintro ⟨group, addr, hresolved, -, -⟩
    obtain ⟨hfirst, hrest⟩ := List.cons.inj hresolved
    obtain ⟨-, rfl⟩ := Prod.mk.inj hfirst
    refine ⟨hquietBefore, ⟨group, rfl⟩, hinterface.mpr fun hnamed => ⟨addr, ?_⟩, hquietAdding,
      hquietAfter⟩
    rw [if_pos hnamed, if_pos hnamed] at hrest
    simpa using hrest
  · rintro ⟨-, ⟨group, rfl⟩, hquiet, -, -⟩
    obtain ⟨addr, hres', haddr⟩ := hinterfaceAddr hquiet
    refine ⟨group, addr, ?_, ?_, ?_⟩
    · split
      · rw [hres' ‹_›]
      · rfl
    · rw [← hgroupAddr group rfl, ← haddr]
      simp [hadded]
    · rw [← haddr]
      simp [hadded]

end Join

/-! ### Binding -/

section Bind

variable {udp next : UDP} {trace : History libc}

theorem bound_append {port : Int} {first second : History libc} :
    Bound udp port (first ++ second) ↔ Bound udp port first ∨ Bound udp port second := by
  simp only [Bound, List.mem_append, and_or_left, exists_or]

theorem not_bound {port : Int} (htrace : ∀ event ∈ trace, ∀ fd addr number,
    event.call ≠ .bind fd addr number) : ¬Bound udp port trace := by
  rintro ⟨number, -, hmem⟩
  exact htrace _ hmem _ _ _ rfl

/-- `bind` comes last, if it comes, and only `socket` could fail unnoticed before it. -/
theorem UDP.open_binding {port : Int} {share loop blocking ok : Bool}
    (hruns : Runs (udp.open port share loop blocking) (ok, next) trace) :
    ∃ first binding, trace = first ++ binding ∧ (⟨.socket, next.fd⟩ : Event libc) ∈ first ∧
      (∀ event ∈ first, ∀ fd addr number, event.call ≠ .bind fd addr number) ∧
      ((∀ event ∈ first, ¬IgnoredFailure event) ↔ 0 ≤ next.fd) ∧
      CallsIf (I := libc) (ok = true ∧ port ≠ 0) (.bind next.fd inaddrAny (htons port))
        binding := by
  obtain ⟨closing, fd, configuring, ttl, binding, rfl, rfl, hok, hclosing, hconfiguring, hbinding⟩ :=
    UDP.runs_open hruns
  rw [← hok] at hbinding
  refine ⟨closing ++ ⟨.socket, fd⟩ :: (configuring ++ [⟨.setsockopt fd (.multicastTtl 32), ttl⟩]),
    binding, by simp, by simp, ?_, ?_, hbinding⟩
  · simp only [List.forall_mem_append, List.forall_mem_cons]
    exact ⟨hclosing.forall_mem fun _ _ _ _ => nofun, fun _ _ _ => nofun,
      fun event hevent => by cases hconfiguring event hevent <;> exact fun _ _ _ => nofun,
      fun _ _ _ => nofun, nofun⟩
  · simp only [List.forall_mem_append, List.forall_mem_cons]
    constructor
    · rintro ⟨-, hsocket, -⟩
      exact Int.not_lt.mp hsocket
    · intro hfd
      exact ⟨hclosing.forall_mem fun _ => id, Int.not_lt.mpr hfd,
        fun event hevent => by cases hconfiguring event hevent <;> exact id, id, nofun⟩

theorem UDP.bound_iff {port : Int} {share loop blocking : Bool}
    (hruns : Runs (udp.open port share loop blocking) (true, next) trace) :
    0 ≤ next.fd ∧ Bound next port trace ↔
      (0 < port ∧ port < 65536) ∧ ∀ event ∈ trace, ¬IgnoredFailure event := by
  obtain ⟨first, binding, rfl, -, hfirst, hquiet, hbinding⟩ := UDP.open_binding hruns
  rw [bound_append, or_iff_right (not_bound hfirst), List.forall_mem_append, hquiet]
  rcases hbinding with ⟨⟨-, hport⟩, bound, rfl⟩ | ⟨hnone, rfl⟩
  · have hbound : Bound next port [⟨.bind next.fd inaddrAny (htons port), bound⟩] ↔
        (0 < port ∧ port < 65536) ∧ bound = (0 : Int) := by
      have hrange : (0 < port ∧ port < 65536) ↔ ((htons port).toNat : Int) = port := by
        rw [toNat_htons]
        omega
      rw [hrange]
      constructor
      · rintro ⟨number, hnumber, hmem⟩
        cases List.mem_singleton.mp hmem
        exact ⟨hnumber, rfl⟩
      · rintro ⟨hnumber, rfl⟩
        exact ⟨_, hnumber, List.mem_singleton_self _⟩
    rw [hbound, List.forall_mem_singleton, IgnoredFailure, not_not, and_left_comm]
  · have hport : ¬0 < port := by
      have hzero : port = 0 := by simpa using hnone
      omega
    simp [Bound, hport]

end Bind

/-! ### The whole of `open` -/

section Open

variable {client next : RoboCupSSLClient} {memory : Address × Address} {blocking : Bool}
  {trace : History libc}

theorem subscribed_iff (hruns : Runs (client.open memory blocking) (true, next) trace) :
    Subscribed next trace ↔
      (0 < client.port ∧ client.port < 65536) ∧ ∀ event ∈ trace, ¬IgnoredFailure event := by
  obtain ⟨closing, opened, mc, opening, joining, rfl, hclosing, hopening, rfl, hjoining⟩ :=
    RoboCupSSLClient.runs_open hruns
  cases opened with
  | false => exact absurd hjoining.1 (by simp)
  | true =>
      have hsocket : (⟨.socket, mc.fd⟩ : Event libc) ∈ opening := by
        obtain ⟨first, binding, rfl, hmem, -⟩ := UDP.open_binding hopening
        exact List.mem_append_left _ hmem
      have hbound : Bound mc client.port (closing ++ (opening ++ joining)) ↔
          Bound mc client.port opening := by
        rw [bound_append, bound_append, or_iff_right (not_bound ?_), or_iff_left (not_bound ?_)]
        · refine RoboCupSSLClient.forall_mem_subscribe ?_ (fun _ _ _ _ _ _ => nofun) hjoining
          rintro event ⟨⟩ <;> exact fun _ _ _ => nofun
        · exact hclosing.forall_mem fun _ _ _ _ => nofun
      have hjoined : Joined { client with mc := mc } (closing ++ (opening ++ joining)) ↔
          Joined { client with mc := mc } joining := by
        rw [joined_append_iff (hclosing.forall_mem fun _ => id), joined_append_iff]
        refine UDP.forall_mem_open (fun _ _ => id) (fun _ => id) ?_ (fun _ _ => id)
          (fun _ _ _ => id) hopening
        rintro event ⟨⟩ <;> exact id
      have hquiet : ∀ event ∈ closing, ¬IgnoredFailure event := hclosing.forall_mem fun _ => id
      have hsubscribed : Subscribed { client with mc := mc } (closing ++ (opening ++ joining)) ↔
          (0 ≤ mc.fd ∧ Bound mc client.port opening) ∧
            Joined { client with mc := mc } joining := by
        rw [← hbound, ← hjoined]
        exact ⟨fun h => ⟨⟨h.valid, h.bound⟩, h.joined⟩, fun h => ⟨h.1.1,
          List.mem_append_right _ (List.mem_append_left _ hsocket), h.1.2, h.2⟩⟩
      rw [hsubscribed, UDP.bound_iff hopening, RoboCupSSLClient.joined_iff hjoining, and_assoc,
        List.forall_mem_append, List.forall_mem_append, and_iff_right hquiet]

end Open

/-- **A successful open gives a usable subscription exactly when** the port is one that can be bound
and none of the calls whose outcomes are not looked at failed. An open that fails promises
nothing. -/
theorem open_subscribes_iff (client : RoboCupSSLClient) (memory : Address × Address)
    (blocking : Bool) (world : World libc) :
    let run := (client.open memory blocking).run world []
    ((run.1.1 = true → Subscribed run.1.2 run.2) ↔
      (∃ event ∈ run.2, CheckedFailure event) ∨
        (0 < client.port ∧ client.port < 65536) ∧ ∀ event ∈ run.2, ¬IgnoredFailure event) := by
  intro run
  have hruns : Runs (client.open memory blocking) (run.1.1, run.1.2) run.2 :=
    runs_run_nil world (client.open memory blocking)
  have hok := RoboCupSSLClient.open_ok_iff hruns
  cases hresult : run.1.1 with
  | false =>
      rw [hresult] at hok
      have hfailed : ∃ event ∈ run.2, CheckedFailure event := by
        by_contra hnone
        exact absurd (hok.mpr fun event hevent hfailed => hnone ⟨event, hevent, hfailed⟩) (by simp)
      exact iff_of_true (by simp) (Or.inl hfailed)
  | true =>
      rw [hresult] at hok hruns
      have hpassed : ¬∃ event ∈ run.2, CheckedFailure event := by
        rintro ⟨event, hevent, hfailed⟩
        exact hok.mp rfl event hevent hfailed
      rw [or_iff_right hpassed, ← subscribed_iff hruns]
      exact ⟨fun h => h rfl, fun h _ => h⟩

/-- A host on which the port is taken: `bind` fails, and nothing else does. -/
def portInUse : World libc := fun _ request =>
  match request with
  | .socket => (3 : Int)
  | .bind _ _ _ => (-1 : Int)
  | .getaddrinfo _ => some (.inet ⟨0, ⟨224, 5, 23, 2⟩, Vector.replicate 8 0⟩)
  | .recvfrom _ _ => .failed
  | .memset _ | .memcpy _ | .memcmp _ => ()
  | .setsockopt _ _ | .close _ | .getfl _ | .setfl _ _ | .sendto _ _ _ _ _ | .poll _ _ => (0 : Int)

theorem open_succeeds_unbound :
    let client : RoboCupSSLClient := ⟨UDP.closed, 10002, "224.5.23.2", ""⟩
    let run := (client.open (Address.zero, Address.zero) false).run portInUse []
    run.1.1 = true ∧ ¬Subscribed run.1.2 run.2 := by
  intro client run
  have hopened : run.1.1 = true := by decide +kernel
  refine ⟨hopened, fun hsubscribed => ?_⟩
  have hruns : Runs (client.open (Address.zero, Address.zero) false) (true, run.1.2) run.2 := by
    rw [← hopened]
    exact runs_run_nil portInUse _
  have hbind : (⟨.bind 3 inaddrAny 10002, (-1 : Int)⟩ : Event libc) ∈ run.2 := by
    decide +kernel
  have hquiet := ((subscribed_iff hruns).mp hsubscribed).2 _ hbind
  exact hquiet (show (-1 : Int) ≠ 0 by decide)

end FiraClient.Net
