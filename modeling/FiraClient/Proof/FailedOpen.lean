import FiraClient.Proof.Ownership

/-!
# What a failed open leaves

Both `open` functions return early when a call they check fails, and neither closes the descriptor
it has made by then.
-/

namespace FiraClient.Net

open Interaction

def MakesSocket (event : Event libc) : Prop :=
  match event with
  | ⟨.socket, fd⟩ => (0 : Int) ≤ fd
  | _ => False

theorem not_makesSocket_of_keeps {event : Event libc} (hkeeps : KeepsDescriptors event) :
    ¬MakesSocket event := by
  obtain ⟨request, answer⟩ := event
  cases request with
  | socket => exact hkeeps.elim
  | _ => exact id

/-- The object holds no descriptor, and what it held or was given is closed. -/
def LeftClosed (udp next : UDP) (history : History libc) : Prop :=
  next.isOpen = false ∧ descriptors.after udp.held history = ∅

theorem leftClosed_iff {udp next : UDP} {history : History libc}
    (htransfers : Transfers udp.held history next.held) :
    LeftClosed udp next history ↔ next.fd < 0 := by
  rw [LeftClosed, htransfers.1]
  by_cases hfd : 0 ≤ next.fd
  · simp [UDP.isOpen, UDP.held, hfd]
  · simp [UDP.isOpen, UDP.held, hfd, not_le.mp hfd]

section UDP

variable {udp next : UDP} {ok : Bool} {trace : History libc}

theorem UDP.makesSocket_iff {port : Int} {share loop blocking : Bool}
    (hruns : Runs (udp.open port share loop blocking) (ok, next) trace) :
    (∀ event ∈ trace, ¬MakesSocket event) ↔ next.fd < 0 := by
  obtain ⟨closing, rest, rfl, hclosing, hrest⟩ := UDP.descriptors_open hruns
  simp only [List.forall_mem_append, List.forall_mem_cons]
  constructor
  · rintro ⟨-, hsocket, -⟩
    exact not_le.mp hsocket
  · intro hfd
    exact ⟨hclosing.forall_mem fun _ => id, not_le.mpr hfd,
      fun event hevent => not_makesSocket_of_keeps (hrest event hevent)⟩

end UDP

section RoboCupSSLClient

variable {client next : RoboCupSSLClient} {memory : Address × Address} {blocking ok : Bool}
  {trace : History libc}

theorem RoboCupSSLClient.descriptors_open
    (hruns : Runs (client.open memory blocking) (ok, next) trace) :
    ((∀ event ∈ trace, ¬MakesSocket event) ↔ next.mc.fd < 0) ∧
      Transfers client.mc.held trace next.mc.held := by
  obtain ⟨closing, opened, mc, opening, joining, rfl, hclosing, hopening, rfl, hjoining⟩ :=
    RoboCupSSLClient.runs_open hruns
  have hkeeps : ∀ event ∈ joining, KeepsDescriptors event := by
    cases opened with
    | false =>
        obtain ⟨-, rfl⟩ := hjoining
        exact List.forall_mem_nil _
    | true =>
        refine RoboCupSSLClient.forall_mem_subscribe ?_ (fun _ _ _ => trivial) hjoining
        rintro event ⟨⟩ <;> trivial
  refine ⟨?_, (Transfers.of_closes hclosing).append
    ((UDP.transfers_open hopening).append (.of_keeps hkeeps))⟩
  rw [List.forall_mem_append, List.forall_mem_append, UDP.makesSocket_iff hopening]
  exact ⟨fun hall => hall.2.1, fun hfd => ⟨hclosing.forall_mem fun _ => id, hfd,
    fun event hevent => not_makesSocket_of_keeps (hkeeps event hevent)⟩⟩

end RoboCupSSLClient

/-- **A failed open leaves the object closed exactly when** none of the calls it checks failed or no
socket was made. The first line is for `UDP::open`, the second for `RoboCupSSLClient::open`. -/
theorem failed_open_closes_iff (world : World libc) :
    (∀ (udp : UDP) (port : Int) (share loop blocking : Bool),
      let run := (udp.open port share loop blocking).run world []
      ((run.1.1 = false → LeftClosed udp run.1.2 run.2) ↔
        (∀ event ∈ run.2, ¬CheckedFailure event) ∨ ∀ event ∈ run.2, ¬MakesSocket event)) ∧
    ∀ (client : RoboCupSSLClient) (memory : Address × Address) (blocking : Bool),
      let run := (client.open memory blocking).run world []
      ((run.1.1 = false → LeftClosed client.mc run.1.2.mc run.2) ↔
        (∀ event ∈ run.2, ¬CheckedFailure event) ∨ ∀ event ∈ run.2, ¬MakesSocket event) := by
  constructor
  · intro udp port share loop blocking run
    have hruns := runs_run_nil world (udp.open port share loop blocking)
    rw [leftClosed_iff (UDP.transfers_open hruns), ← UDP.open_ok_iff hruns,
      UDP.makesSocket_iff hruns, ← Bool.not_eq_true, ← or_iff_not_imp_left]
  · intro client memory blocking run
    have hruns := runs_run_nil world (client.open memory blocking)
    obtain ⟨hsocket, htransfers⟩ := RoboCupSSLClient.descriptors_open hruns
    rw [leftClosed_iff htransfers, ← RoboCupSSLClient.open_ok_iff hruns, hsocket,
      ← Bool.not_eq_true, ← or_iff_not_imp_left]

/-- A host with no route for multicast: the group cannot be joined, and nothing else fails. -/
def noMulticastRoute : World libc := fun _ request =>
  match request with
  | .socket => (3 : Int)
  | .setsockopt _ (.addMembership _ _) => (-1 : Int)
  | .getaddrinfo _ => some (.inet ⟨0, ⟨224, 5, 23, 2⟩, Vector.replicate 8 0⟩)
  | .recvfrom _ _ => .failed
  | .memset _ | .memcpy _ | .memcmp _ => ()
  | .setsockopt _ _ | .close _ | .getfl _ | .setfl _ _ | .bind _ _ _ | .sendto _ _ _ _ _
  | .poll _ _ => (0 : Int)

theorem failed_open_leaves_descriptor :
    let client : RoboCupSSLClient := ⟨UDP.closed, 10002, "224.5.23.2", ""⟩
    let run := (client.open (Address.zero, Address.zero) false).run noMulticastRoute []
    run.1.1 = false ∧ run.1.2.mc.fd = 3 ∧ ¬LeftClosed client.mc run.1.2.mc run.2 := by
  refine ⟨by decide +kernel, by decide +kernel, fun hclosed => ?_⟩
  exact absurd hclosed.1 (by decide +kernel)

end FiraClient.Net
