import FiraClient.Proof.Traces
import Mathlib.Data.Finset.Basic

/-!
# Descriptor ownership

A `UDP` object owns the descriptors it created and has not closed. Whatever the calls answer these
are the one in `fd` while that is not negative, and none otherwise.
-/

namespace FiraClient.Net

open Interaction

/-- The descriptors created and not yet closed; one that is not owned may not be closed. A `close`
releases its descriptor whatever it answers. -/
def descriptors : Monitor libc (Finset Int) where
  step := fun owned event =>
    match event with
    | ⟨.socket, fd⟩ => if (0 : Int) ≤ fd then insert fd owned else owned
    | ⟨.close fd, _⟩ => owned.erase fd
    | _ => owned
  Allowed := fun owned event =>
    match event.call with
    | .close fd => fd ∈ owned
    | _ => True

def UDP.held (udp : UDP) : Finset Int := if 0 ≤ udp.fd then {udp.fd} else ∅

theorem UDP.held_congr {udp next : UDP} (hfd : next.fd = udp.fd) : next.held = udp.held := by
  rw [UDP.held, UDP.held, hfd]

def KeepsDescriptors (event : Event libc) : Prop :=
  match event.call with
  | .socket | .close _ => False
  | _ => True

/-- A history takes what is owned from one set to another and closes nothing else. -/
def Transfers (owned : Finset Int) (history : History libc) (owned' : Finset Int) : Prop :=
  descriptors.after owned history = owned' ∧ descriptors.Accepts owned history

namespace Transfers

variable {owned owned' owned'' : Finset Int} {first second : History libc}

theorem append (hfirst : Transfers owned first owned') (hsecond : Transfers owned' second owned'') :
    Transfers owned (first ++ second) owned'' := by
  obtain ⟨rfl, hfirst⟩ := hfirst
  exact ⟨(descriptors.after_append ..).trans hsecond.1,
    (descriptors.accepts_append ..).mpr ⟨hfirst, hsecond.2⟩⟩

theorem of_keeps (hkeeps : ∀ event ∈ first, KeepsDescriptors event) :
    Transfers owned first owned := by
  apply descriptors.after_accepts_of_passes
  intro event hevent
  have hkept := hkeeps event hevent
  obtain ⟨request, answer⟩ := event
  cases request <;> first | exact hkept.elim | exact ⟨rfl, trivial⟩

theorem of_closes {udp : UDP} (hcloses : udp.Closes first) : Transfers udp.held first ∅ := by
  rcases hcloses with ⟨hfd, answer, rfl⟩ | ⟨hfd, rfl⟩
  · simp [Transfers, descriptors, UDP.held, hfd]
  · simp [Transfers, UDP.held, hfd]

theorem of_socket (udp : UDP) : Transfers ∅ [⟨.socket, udp.fd⟩] udp.held := by
  by_cases hfd : 0 ≤ udp.fd
  · simp [Transfers, descriptors, UDP.held, hfd]
  · simp [Transfers, descriptors, UDP.held, hfd]

end Transfers

section Operations

variable {udp next : UDP} {ok : Bool} {trace : History libc}

theorem UDP.descriptors_open {port : Int} {share loop blocking : Bool}
    (hruns : Runs (udp.open port share loop blocking) (ok, next) trace) :
    ∃ closing rest, trace = closing ++ ⟨.socket, next.fd⟩ :: rest ∧ udp.Closes closing ∧
      ∀ event ∈ rest, KeepsDescriptors event := by
  obtain ⟨closing, fd, configuring, ttl, binding, rfl, rfl, -, hclosing, hconfiguring, hbinding⟩ :=
    UDP.runs_open hruns
  refine ⟨closing, _, rfl, hclosing, List.forall_mem_append.mpr ⟨fun event hevent => ?_,
    List.forall_mem_cons.mpr ⟨trivial, hbinding.forall_mem fun _ => trivial⟩⟩⟩
  cases hconfiguring event hevent <;> trivial

theorem UDP.transfers_open {port : Int} {share loop blocking : Bool}
    (hruns : Runs (udp.open port share loop blocking) (ok, next) trace) :
    Transfers udp.held trace next.held := by
  obtain ⟨closing, rest, rfl, hclosing, hrest⟩ := UDP.descriptors_open hruns
  exact (Transfers.of_closes hclosing).append ((Transfers.of_socket next).append (.of_keeps hrest))

/-- **Every operation keeps the object the owner of exactly what it holds.** -/
theorem UDP.transfers_exec {operation : UdpOp} (hruns : Runs (udp.exec operation) next trace) :
    Transfers udp.held trace next.held := by
  cases operation with
  | «open» port share loop blocking =>
      obtain ⟨⟨ok, opened⟩, hopened, rfl⟩ := runs_bind_pure.mp hruns
      exact UDP.transfers_open hopened
  | addMulticast multiaddr interface =>
      obtain ⟨ok, hadded, rfl⟩ := runs_bind_pure.mp hruns
      exact .of_keeps (UDP.forall_mem_addMulticast (fun _ _ _ => trivial) hadded)
  | send data length dest =>
      obtain ⟨result, hsent, rfl⟩ := runs_bind_pure.mp hruns
      obtain ⟨ret, rfl, rfl⟩ := UDP.runs_send.mp hsent
      rw [UDP.held_congr (udp.fd_sent length ret)]
      exact .of_keeps (List.forall_mem_singleton.mpr trivial)
  | recv length src =>
      obtain ⟨result, hreceived, rfl⟩ := runs_bind_pure.mp hruns
      obtain ⟨outcome, rfl, rfl⟩ := UDP.runs_recv.mp hreceived
      rw [UDP.held_congr (udp.fd_received length src outcome)]
      exact .of_keeps (List.forall_mem_singleton.mpr trivial)
  | wait timeoutMs =>
      obtain ⟨ok, hready, rfl⟩ := runs_bind_pure.mp hruns
      obtain ⟨ready, -, rfl⟩ := UDP.runs_wait.mp hready
      exact .of_keeps (List.forall_mem_singleton.mpr trivial)
  | close =>
      obtain ⟨hcloses, rfl⟩ := UDP.runs_close.mp hruns
      exact .of_closes hcloses

end Operations

def Owns (udp : UDP) (history : History libc) : Prop := Transfers ∅ history udp.held

theorem owns_lifetime {memory udp : UDP} {operations : List UdpOp} {trace : History libc}
    (hruns : Runs (UDP.lifetime memory operations) udp trace) : Owns udp trace := by
  obtain ⟨new, _, hnew, rest, hrest, rfl⟩ := runs_bind.mp hruns
  obtain ⟨rfl, rfl⟩ := UDP.runs_new.mp hnew
  apply Runs.runAll Owns _ _ hrest
  · intro state operation history next trace howns hexec
    exact howns.append (UDP.transfers_exec hexec)
  · exact ⟨rfl, trivial⟩

/-- **Descriptor ownership.** After any operations, whatever their calls answer, the descriptors
created and not closed are the one the object holds, nothing was closed that was not owned, and the
destructor leaves none. -/
theorem lifetime_owns_descriptors (memory : UDP) (operations : List UdpOp) (world : World libc) :
    let run := (UDP.lifetime memory operations).run world []
    let destroyed := run.1.destroy.run world run.2
    descriptors.after ∅ run.2 = (if 0 ≤ run.1.fd then {run.1.fd} else ∅) ∧
      descriptors.Accepts ∅ run.2 ∧
      descriptors.after ∅ destroyed.2 = ∅ ∧ descriptors.Accepts ∅ destroyed.2 := by
  intro run destroyed
  have howns : Owns run.1 run.2 := owns_lifetime (runs_run_nil world _)
  obtain ⟨trace, hruns, htrace⟩ := exists_runs_run world run.1.destroy run.2
  have hdestroyed : Transfers ∅ destroyed.2 ∅ := by
    rw [htrace]
    exact howns.append (.of_closes (UDP.runs_destroy.mp hruns).1)
  exact ⟨howns.1, howns.2, hdestroyed⟩

end FiraClient.Net
