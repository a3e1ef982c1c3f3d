import FiraClient.Proof.Traces

/-!
# Exchanges

The calls that reach the network, in the order they are made. A network is what a `recvfrom` gets
after the exchanges before it; a world may be any world but for these.
-/

namespace FiraClient

open Net Interaction

inductive Exchange where
  | socket (fd : Int)
  | polled (fd : Int) (timeoutMs : Int) (ready : Int)
  | received (fd : Int) (outcome : Recvfrom)
  | sent (fd : Int) (data : List UInt8) (size : Nat) (dest : Vector UInt8 16) (destLen : Nat)
deriving DecidableEq, Repr

def exchangeOf (event : Event libc) : Option Exchange :=
  match event with
  | ⟨.socket, fd⟩ => some (.socket fd)
  | ⟨.poll fd timeoutMs, ready⟩ => some (.polled fd timeoutMs ready)
  | ⟨.recvfrom fd _, outcome⟩ => some (.received fd outcome)
  | ⟨.sendto fd data size dest destLen, _⟩ => some (.sent fd data size dest destLen)
  | _ => none

def exchanges (history : History libc) : List Exchange := history.filterMap exchangeOf

def Exchange.outcome : Exchange → Option Recvfrom
  | .received _ outcome => some outcome
  | _ => none

def Exchange.data : Exchange → Option (List UInt8)
  | .sent _ data _ _ _ => some data
  | _ => none

/-- What of an exchange is seen from outside: of the memory `sendto` is given, only the bytes it
sends. -/
def Exchange.onWire : Exchange → Exchange
  | .sent fd data size dest destLen => .sent fd (data.take size) size dest destLen
  | exchange => exchange

theorem filterMap_outcome_onWire (exchanged : List Exchange) :
    (exchanged.map Exchange.onWire).filterMap Exchange.outcome =
      exchanged.filterMap Exchange.outcome := by
  have houtcome : Exchange.outcome ∘ Exchange.onWire = Exchange.outcome := by
    funext exchange
    cases exchange <;> rfl
  rw [List.filterMap_map, houtcome]

theorem mem_filterMap_outcome_iff {exchanged : List Exchange} {outcome : Recvfrom} :
    outcome ∈ exchanged.filterMap Exchange.outcome ↔ ∃ fd, .received fd outcome ∈ exchanged := by
  rw [List.mem_filterMap]
  constructor
  · rintro ⟨exchange, hmem, houtcome⟩
    cases exchange with
    | received fd received =>
        obtain rfl := Option.some.inj houtcome
        exact ⟨fd, hmem⟩
    | _ => cases houtcome
  · rintro ⟨fd, hmem⟩
    exact ⟨.received fd outcome, hmem, rfl⟩

section Exchanges

variable {first second trace : History libc}

@[simp]
theorem exchanges_append : exchanges (first ++ second) = exchanges first ++ exchanges second :=
  List.filterMap_append

theorem exchanges_eq_nil (htrace : ∀ event ∈ trace, exchangeOf event = none) :
    exchanges trace = [] :=
  List.filterMap_eq_nil_iff.mpr htrace

theorem exchangeOf_configures {event : Event libc} (hevent : Configures event) :
    exchangeOf event = none := by
  cases hevent <;> rfl

theorem exchangeOf_prepares {event : Event libc} (hevent : Prepares event) :
    exchangeOf event = none := by
  cases hevent <;> rfl

theorem exchanges_memset {size : Nat} (hcalls : Calls (I := libc) (.memset size) trace) :
    exchanges trace = [] :=
  exchanges_eq_nil (hcalls.forall_mem fun _ => rfl)

theorem exchanges_closes {udp : UDP} (hcloses : udp.Closes trace) : exchanges trace = [] :=
  exchanges_eq_nil (hcloses.forall_mem fun _ => rfl)

/-- Opening makes one socket, and nothing leaves it. -/
theorem exchanges_open {udp next : UDP} {port : Int} {share loop blocking ok : Bool}
    (hruns : Runs (udp.open port share loop blocking) (ok, next) trace) :
    exchanges trace = [.socket next.fd] := by
  obtain ⟨closing, fd, configuring, ttl, binding, rfl, rfl, -, hclosing, hconfiguring, hbinding⟩ :=
    UDP.runs_open hruns
  have hconfigured : exchanges configuring = [] :=
    exchanges_eq_nil fun event hevent => exchangeOf_configures (hconfiguring event hevent)
  have hbound : exchanges binding = [] := exchanges_eq_nil (hbinding.forall_mem fun _ => rfl)
  have hsocket : exchanges (⟨.socket, fd⟩ ::
      (configuring ++ ⟨.setsockopt fd (.multicastTtl 32), ttl⟩ :: binding)) =
        .socket fd :: (exchanges configuring ++ exchanges binding) :=
    congrArg (Exchange.socket fd :: ·) exchanges_append
  rw [exchanges_append, exchanges_closes hclosing, hsocket, hconfigured, hbound]
  rfl

theorem exchanges_subscribe {client : RoboCupSSLClient} {addresses : Address × Address} {ok : Bool}
    (hruns : Runs (client.subscribe addresses) ok trace) : exchanges trace = [] :=
  exchanges_eq_nil
    (RoboCupSSLClient.forall_mem_subscribe (fun _ => exchangeOf_prepares) (fun _ _ _ => rfl) hruns)

end Exchanges

/-! ### Networks -/

/-- A world in which `recvfrom` gets what the network has for it. -/
def networked (network : List Exchange → Recvfrom) (others : World libc) : World libc :=
  fun history request =>
    match request with
    | .recvfrom _ _ => network (exchanges history)
    | request => others history request

theorem outcome_of_networked {α : Type} {network : List Exchange → Recvfrom} {others : World libc}
    {program : Prog libc α} {earlier later : List Exchange} {fd : Int} {outcome : Recvfrom}
    (hrun : exchanges (program.run (networked network others) []).2 =
      earlier ++ .received fd outcome :: later) :
    outcome = network earlier := by
  obtain ⟨before, rest, hevents, hbefore, hrest⟩ := List.filterMap_eq_append_iff.mp hrun
  obtain ⟨quiet, event, after, rfl, hquiet, hreceived, -⟩ := List.filterMap_eq_cons_iff.mp hrest
  have hsplit : (program.run (networked network others) []).2 =
      [] ++ ((before ++ quiet) ++ event :: after) := by
    rw [hevents, List.nil_append, List.append_assoc]
  have hexchanged : exchanges (before ++ quiet) = earlier := by
    rw [exchanges_append, exchanges_eq_nil hquiet, List.append_nil]
    exact hbefore
  have hanswer := eq_of_run_append hsplit
  obtain ⟨request, answer⟩ := event
  cases request with
  | recvfrom fd' size =>
      injection hreceived with hreceived
      injection hreceived with hfd houtcome
      injection hanswer with hcall hanswer
      rw [← houtcome, ← hexchanged]
      exact hanswer
  | _ => simp [exchangeOf] at hreceived

end FiraClient
