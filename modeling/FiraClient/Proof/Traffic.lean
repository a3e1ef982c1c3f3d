import FiraClient.Proof.Traces
import Mathlib.Data.List.DropRight

/-!
# Traffic accounting

`send` compares what `sendto` returns with the length it was given and counts what is positive. The
two tests part at a length of `-1`, which is also how `sendto` fails, and at empty datagrams, which
`sendto` accepts, `recvfrom` delivers and neither counter sees.
-/

namespace FiraClient.Net

open Interaction

/-! ### Counters of a list of lengths -/

/-- A pair of 32-bit counters holds the number and the sum of the lengths, modulo `2 ^ 32`. -/
structure Counts (packets bytes : UInt32) (lengths : List Int) : Prop where
  packets : packets = UInt32.ofNat lengths.length
  bytes : bytes = UInt32.ofInt lengths.sum

namespace Counts

variable {packets bytes : UInt32} {lengths : List Int}

theorem nil : Counts 0 0 [] := ⟨rfl, rfl⟩

theorem concat (hcounts : Counts packets bytes lengths) (length : Int) :
    Counts (packets + 1) (bytes + UInt32.ofInt length) (lengths ++ [length]) where
  packets := by simp [hcounts.packets]
  bytes := by simp [hcounts.bytes]

theorem not_concat (hcounts : Counts packets bytes lengths) (length : Int) :
    ¬Counts packets bytes (lengths ++ [length]) := by
  intro hconcat
  have hpackets := hcounts.packets.symm.trans hconcat.packets
  simp at hpackets

end Counts

/-! ### What a run sent and received -/

abbrev UdpStep := Step libc UDP UdpOp UdpResult

/-- `sendto` fails with `-1` or takes the whole datagram, whose size it can return; what `recvfrom`
dequeues fits the buffer and is not longer than an `int` counts. -/
def Honest (event : Event libc) : Prop :=
  match event with
  | ⟨.sendto _ _ size _ _, ret⟩ => (ret : Int) = -1 ∨ (ret : Int) = size ∧ size < 2 ^ 63
  | ⟨.recvfrom _ size, .datagram payload _⟩ => payload.length ≤ size ∧ payload.length < 2 ^ 31
  | _ => True

def UdpOp.sendLength : UdpOp → Option Int
  | .send _ length _ => some length
  | _ => none

/-- The length given to `send` is an `int`. -/
def SendsInt (operation : UdpOp) : Prop :=
  ∀ length ∈ operation.sendLength, -2 ^ 31 ≤ length ∧ length < 2 ^ 31

instance (operation : UdpOp) : Decidable (SendsInt operation) :=
  inferInstanceAs (Decidable (∀ length ∈ operation.sendLength, _ ∧ _))

def accepted (event : Event libc) : Bool :=
  match event with
  | ⟨.sendto _ _ _ _ _, ret⟩ => (ret : Int) != -1
  | _ => false

/-- The length of the datagram a call dequeues. -/
def dequeuedBy (event : Event libc) : Option Int :=
  match event with
  | ⟨.recvfrom _ _, .datagram payload _⟩ => some payload.length
  | _ => none

def UdpStep.dequeued (step : UdpStep) : List Int := step.trace.filterMap dequeuedBy

/-- The length of a send that returned true. -/
def UdpStep.returnedTrue (step : UdpStep) : List Int :=
  if step.result = .bool true then step.operation.sendLength.toList else []

def sinceClose (steps : List UdpStep) : List UdpStep :=
  steps.rtakeWhile fun step => step.operation ≠ .close

/-- The four counters hold what was sent and received since the last `close`. -/
structure Tallies (steps : List UdpStep) (udp : UDP) : Prop where
  sent : Counts udp.sentPackets udp.sentBytes ((sinceClose steps).flatMap UdpStep.returnedTrue)
  received : Counts udp.recvPackets udp.recvBytes ((sinceClose steps).flatMap UdpStep.dequeued)

def UdpStep.Fails (step : UdpStep) : Prop :=
  step.result = .bool false ∨ step.result = .int (-1)

/-- What the accounting promises of a step: a send returns true exactly when its datagram was
accepted, the counters are in step afterwards, and a failing call leaves them. -/
structure Accounted (earlier : List UdpStep) (step : UdpStep) : Prop where
  reports : step.operation.sendLength.isSome →
    (step.result = .bool true ↔ ∃ event ∈ step.trace, accepted event)
  tallies : Tallies (earlier ++ [step]) step.after
  failing : step.Fails → step.after = { step.before with fd := step.after.fd }

/-- No send has the length `-1`, and no datagram that is accepted or dequeued is empty. -/
def Counted (step : UdpStep) : Prop :=
  (∀ length ∈ step.operation.sendLength,
    length ≠ -1 ∧ (length = 0 → ∀ event ∈ step.trace, ¬accepted event)) ∧
  0 ∉ step.dequeued

instance (step : UdpStep) : Decidable (Counted step) := inferInstanceAs (Decidable (_ ∧ _))

section Steps

variable {earlier : List UdpStep} {step : UdpStep}

theorem sinceClose_concat (hoperation : step.operation ≠ .close) :
    sinceClose (earlier ++ [step]) = sinceClose earlier ++ [step] :=
  List.rtakeWhile_concat_pos _ _ _ (by simpa using hoperation)

theorem sinceClose_close (hoperation : step.operation = .close) :
    sinceClose (earlier ++ [step]) = [] :=
  List.rtakeWhile_concat_neg _ _ _ (by simpa using hoperation)

theorem tallies_nil : Tallies [] UDP.closed := ⟨.nil, .nil⟩

theorem tallies_close (hoperation : step.operation = .close) :
    Tallies (earlier ++ [step]) UDP.closed where
  sent := by rw [sinceClose_close hoperation]; exact .nil
  received := by rw [sinceClose_close hoperation]; exact .nil

theorem tallies_concat_iff (hoperation : step.operation ≠ .close) {udp : UDP} :
    Tallies (earlier ++ [step]) udp ↔
      Counts udp.sentPackets udp.sentBytes
          ((sinceClose earlier).flatMap UdpStep.returnedTrue ++ step.returnedTrue) ∧
        Counts udp.recvPackets udp.recvBytes
          ((sinceClose earlier).flatMap UdpStep.dequeued ++ step.dequeued) := by
  constructor
  · rintro ⟨hsent, hreceived⟩
    rw [sinceClose_concat hoperation, List.flatMap_append, List.flatMap_singleton] at hsent hreceived
    exact ⟨hsent, hreceived⟩
  · rintro ⟨hsent, hreceived⟩
    constructor <;>
      rwa [sinceClose_concat hoperation, List.flatMap_append, List.flatMap_singleton]

end Steps

/-! ### One step -/

theorem intOfSsize_of_nonneg {size : Int} (hnonneg : 0 ≤ size) (hlt : size < 2 ^ 31) :
    intOfSsize size = size := by
  apply Int.bmod_eq_of_le_mul_two <;> omega

theorem sendto_cases {fd : Int} {data : List UInt8} {length : Int} {dest : Vector UInt8 16}
    {destLen : Nat} {ret : Int} (hsends : -2 ^ 31 ≤ length ∧ length < 2 ^ 31)
    (hhonest : Honest ⟨.sendto fd data (sizeT length) dest destLen, ret⟩) :
    ret = -1 ∨ ret = length ∧ 0 ≤ length := by
  rcases hhonest with hfailed | ⟨hsize, hlt⟩
  · exact Or.inl hfailed
  · have hlength : 0 ≤ length := by
      by_contra hnegative
      have hhuge : (2 : Int) ^ 64 - 2 ^ 31 ≤ sizeT length := by
        unfold sizeT
        omega
      omega
    have hexact : (sizeT length : Int) = length := by
      unfold sizeT
      omega
    exact Or.inr ⟨hsize.trans hexact, hlength⟩

namespace UDP

theorem sent_failed (udp : UDP) (length : Int) : udp.sent length (-1) = (-1 == length, udp) := rfl

theorem sent_zero (udp : UDP) : udp.sent 0 0 = (true, udp) := rfl

theorem sent_pos (udp : UDP) {length : Int} (hpos : 0 < length) (hlt : length < 2 ^ 31) :
    udp.sent length length =
      (true, { udp with
        sentPackets := udp.sentPackets + 1
        sentBytes := udp.sentBytes + UInt32.ofInt length }) := by
  rw [sent, intOfSsize_of_nonneg hpos.le hlt, if_pos hpos, beq_self_eq_true]

end UDP

section Steps

variable {earlier : List UdpStep} {step : UdpStep}

/-- A step that sent and received nothing and left the counters. -/
theorem accounted_of_unmoved (hoperation : step.operation ≠ .close)
    (htallies : Tallies earlier step.before)
    (hreports : step.operation.sendLength.isSome →
      (step.result = .bool true ↔ ∃ event ∈ step.trace, accepted event))
    (hreturned : step.returnedTrue = []) (hdequeued : step.dequeued = [])
    (hafter : step.after = { step.before with fd := step.after.fd }) : Accounted earlier step where
  reports := hreports
  tallies := by
    rw [tallies_concat_iff hoperation, hreturned, hdequeued, List.append_nil, List.append_nil, hafter]
    exact ⟨htallies.sent, htallies.received⟩
  failing := fun _ => hafter

section Send

variable {data : List UInt8} {length ret : Int} {dest : Address}

theorem accounted_send_iff (htallies : Tallies earlier step.before)
    (hsends : -2 ^ 31 ≤ length ∧ length < 2 ^ 31)
    (hhonest : Honest ⟨.sendto step.before.fd data (sizeT length) dest.addr dest.addrLen, ret⟩)
    (hoperation : step.operation = .send data length dest)
    (hresult : step.result = .bool (step.before.sent length ret).1)
    (htrace : step.trace =
      [⟨.sendto step.before.fd data (sizeT length) dest.addr dest.addrLen, ret⟩])
    (hafter : step.after = (step.before.sent length ret).2) :
    Accounted earlier step ↔ Counted step := by
  have hsend : step.operation ≠ .close := by simp [hoperation]
  have hlengths : step.operation.sendLength = some length := by
    rw [hoperation]
    rfl
  have haccepted : (∃ event ∈ step.trace, accepted event) ↔ ret ≠ -1 := by simp [htrace, accepted]
  have hdequeued : step.dequeued = [] := by simp [UdpStep.dequeued, htrace, dequeuedBy]
  have hcounted : Counted step ↔ length ≠ -1 ∧ (length = 0 → ret = -1) := by
    simp [Counted, hlengths, hdequeued, htrace, accepted]
  rw [hcounted]
  rcases sendto_cases hsends hhonest with rfl | ⟨rfl, hnonneg⟩
  · rw [UDP.sent_failed] at hresult hafter
    by_cases hlength : length = -1
    · refine iff_of_false (fun haccounted => ?_) fun hcounted => hcounted.1 hlength
      have hreport := haccounted.reports (by rw [hlengths]; rfl)
      rw [haccepted, hresult, hlength] at hreport
      exact hreport.mp rfl rfl
    · have hfalse : step.result = .bool false := by
        rw [hresult, beq_eq_false_iff_ne.mpr (Ne.symm hlength)]
      refine iff_of_true (accounted_of_unmoved hsend htallies (fun _ => ?_) ?_ hdequeued ?_)
        ⟨hlength, fun _ => rfl⟩
      · rw [haccepted, hfalse]
        simp
      · rw [UdpStep.returnedTrue, hfalse, if_neg (by decide)]
      · rw [hafter]
  · have hlength : ret ≠ -1 := by omega
    have htrue : step.result = .bool true := by
      rcases hnonneg.eq_or_lt with rfl | hpos
      · exact hresult
      · rw [hresult, UDP.sent_pos _ hpos hsends.2]
    have hreturned : step.returnedTrue = [ret] := by
      rw [UdpStep.returnedTrue, if_pos htrue, hlengths, Option.toList_some]
    rcases hnonneg.eq_or_lt with rfl | hpos
    · -- the empty datagram is reported and not counted
      refine iff_of_false (fun haccounted => ?_) fun hcounted => hlength (hcounted.2 rfl)
      have htallied := ((tallies_concat_iff hsend).mp haccounted.tallies).1
      rw [hreturned, hafter, UDP.sent_zero] at htallied
      exact htallies.sent.not_concat 0 htallied
    · rw [UDP.sent_pos _ hpos hsends.2] at hafter
      refine iff_of_true ⟨fun _ => ?_, (tallies_concat_iff hsend).mpr ?_, ?_⟩
        ⟨hlength, fun hzero => absurd hzero hpos.ne'⟩
      · exact iff_of_true htrue (haccepted.mpr hlength)
      · rw [hreturned, hdequeued, List.append_nil, hafter]
        exact ⟨htallies.sent.concat ret, htallies.received⟩
      · intro hfails
        simp [UdpStep.Fails, htrue] at hfails

end Send

section Recv

variable {length : Int} {src : Address} {outcome : Recvfrom}

theorem accounted_recv_iff (htallies : Tallies earlier step.before)
    (hhonest : Honest ⟨.recvfrom step.before.fd (sizeT length), outcome⟩)
    (hoperation : step.operation = .recv length src)
    (hresult : step.result = .int (step.before.received length src outcome).1)
    (htrace : step.trace = [⟨.recvfrom step.before.fd (sizeT length), outcome⟩])
    (hafter : step.after = (step.before.received length src outcome).2.2.1) :
    Accounted earlier step ↔ Counted step := by
  have hrecv : step.operation ≠ .close := by simp [hoperation]
  have hlengths : step.operation.sendLength = none := by
    rw [hoperation]
    rfl
  have hreports : step.operation.sendLength.isSome →
      (step.result = .bool true ↔ ∃ event ∈ step.trace, accepted event) := by
    simp [hlengths]
  have hreturned : step.returnedTrue = [] := by simp [UdpStep.returnedTrue, hlengths]
  have hcounted : Counted step ↔ 0 ∉ step.dequeued := by simp [Counted, hlengths]
  rw [hcounted]
  cases outcome with
  | failed =>
      have hdequeued : step.dequeued = [] := by simp [UdpStep.dequeued, htrace, dequeuedBy]
      refine iff_of_true (accounted_of_unmoved hrecv htallies hreports hreturned hdequeued ?_) ?_
      · rw [hafter]
        rfl
      · simp [hdequeued]
  | datagram payload source =>
      have hdequeued : step.dequeued = [(payload.length : Int)] := by
        simp [UdpStep.dequeued, htrace, dequeuedBy]
      obtain ⟨hfits, hlt⟩ := hhonest
      have hlen : intOfSsize (Recvfrom.len (sizeT length) (.datagram payload source)) =
          payload.length := by
        rw [Recvfrom.len, min_eq_left (by omega)]
        exact intOfSsize_of_nonneg (by omega) (by omega)
      have hafter' : step.after = step.before.countReceived payload.length := by
        rw [hafter, ← hlen]
        rfl
      rcases Nat.eq_zero_or_pos payload.length with hempty | hpos
      · -- the empty datagram is dequeued and not counted
        rw [hempty] at hdequeued hafter'
        refine iff_of_false (fun haccounted => ?_) (by simp [hdequeued])
        have htallied := ((tallies_concat_iff hrecv).mp haccounted.tallies).2
        rw [hdequeued, hafter'] at htallied
        exact htallies.received.not_concat 0 htallied
      · have hpos' : (0 : Int) < payload.length := by omega
        rw [UDP.countReceived, if_pos hpos'] at hafter'
        refine iff_of_true ⟨hreports, (tallies_concat_iff hrecv).mpr ?_, ?_⟩ ?_
        · rw [hreturned, hdequeued, List.append_nil, hafter']
          exact ⟨htallies.sent, htallies.received.concat payload.length⟩
        · intro hfails
          have hresult' : step.result = .int payload.length := by
            rw [hresult, ← hlen]
            rfl
          simp [UdpStep.Fails, hresult'] at hfails
        · rw [hdequeued, List.mem_singleton]
          exact hpos'.ne

end Recv

/-- An operation that neither sends, receives nor closes. -/
theorem accounted_iff_of_idle (hlengths : step.operation.sendLength = none)
    (hclose : step.operation ≠ .close) (htallies : Tallies earlier step.before)
    (htrace : ∀ event ∈ step.trace, dequeuedBy event = none)
    (hafter : step.after = { step.before with fd := step.after.fd }) :
    Accounted earlier step ↔ Counted step := by
  have hdequeued : step.dequeued = [] := List.filterMap_eq_nil_iff.mpr htrace
  have hreturned : step.returnedTrue = [] := by simp [UdpStep.returnedTrue, hlengths]
  refine iff_of_true ?_ (by simp [Counted, hlengths, hdequeued])
  exact accounted_of_unmoved hclose htallies (by simp [hlengths]) hreturned hdequeued hafter

theorem accounted_close (hoperation : step.operation = .close) (hresult : step.result = .void)
    (hafter : step.after = UDP.closed) : Accounted earlier step where
  reports := by simp [hoperation, UdpOp.sendLength]
  tallies := by
    rw [hafter]
    exact tallies_close hoperation
  failing := by simp [UdpStep.Fails, hresult]

/-- **A step is accounted for exactly when** it is counted. -/
theorem accounted_iff_counted (htallies : Tallies earlier step.before)
    (hsends : SendsInt step.operation) (hhonest : ∀ event ∈ step.trace, Honest event)
    (hruns : Runs (step.before.invoke step.operation) (step.result, step.after) step.trace) :
    Accounted earlier step ↔ Counted step := by
  cases hoperation : step.operation with
  | «open» port share loop blocking =>
      rw [hoperation] at hruns
      obtain ⟨⟨ok, next⟩, hopens, hreturns⟩ := runs_bind_pure.mp hruns
      obtain ⟨-, hafter⟩ := Prod.mk.inj hreturns
      obtain ⟨_, fd, _, _, _, -, hnext, -⟩ := UDP.runs_open hopens
      refine accounted_iff_of_idle (by simp [hoperation, UdpOp.sendLength]) (by simp [hoperation])
        htallies ?_ ?_
      · exact UDP.forall_mem_open (fun _ _ => rfl) (fun _ => rfl) (by rintro _ ⟨⟩ <;> rfl)
          (fun _ _ => rfl) (fun _ _ _ => rfl) hopens
      · rw [hafter]
        exact hnext.trans (by rw [hnext])
  | addMulticast multiaddr interface =>
      rw [hoperation] at hruns
      obtain ⟨ok, hadds, hreturns⟩ := runs_bind_pure.mp hruns
      obtain ⟨-, hafter⟩ := Prod.mk.inj hreturns
      refine accounted_iff_of_idle (by simp [hoperation, UdpOp.sendLength]) (by simp [hoperation])
        htallies ?_ ?_
      · exact UDP.forall_mem_addMulticast (fun _ _ _ => rfl) hadds
      · rw [hafter]
  | send data length dest =>
      rw [hoperation] at hruns hsends
      obtain ⟨sent, hsent, hreturns⟩ := runs_bind_pure.mp hruns
      obtain ⟨ret, rfl, htrace⟩ := UDP.runs_send.mp hsent
      obtain ⟨hresult, hafter⟩ := Prod.mk.inj hreturns
      rw [htrace] at hhonest
      exact accounted_send_iff htallies (hsends length rfl) (List.forall_mem_singleton.mp hhonest)
        hoperation hresult htrace hafter
  | recv length src =>
      rw [hoperation] at hruns
      obtain ⟨received, hreceived, hreturns⟩ := runs_bind_pure.mp hruns
      obtain ⟨outcome, rfl, htrace⟩ := UDP.runs_recv.mp hreceived
      obtain ⟨hresult, hafter⟩ := Prod.mk.inj hreturns
      rw [htrace] at hhonest
      exact accounted_recv_iff htallies (List.forall_mem_singleton.mp hhonest) hoperation
        hresult htrace hafter
  | wait timeoutMs =>
      rw [hoperation] at hruns
      obtain ⟨ready, hwaits, hreturns⟩ := runs_bind_pure.mp hruns
      obtain ⟨-, hafter⟩ := Prod.mk.inj hreturns
      obtain ⟨_, -, htrace⟩ := UDP.runs_wait.mp hwaits
      refine accounted_iff_of_idle (by simp [hoperation, UdpOp.sendLength]) (by simp [hoperation])
        htallies ?_ ?_
      · rw [htrace]
        exact List.forall_mem_singleton.mpr rfl
      · rw [hafter]
  | close =>
      rw [hoperation] at hruns
      obtain ⟨closed, hcloses, hreturns⟩ := runs_bind_pure.mp hruns
      obtain ⟨hresult, hafter⟩ := Prod.mk.inj hreturns
      obtain ⟨hclosing, rfl⟩ := UDP.runs_close.mp hcloses
      have hdequeued : step.dequeued = [] :=
        List.filterMap_eq_nil_iff.mpr (hclosing.forall_mem fun _ => rfl)
      exact iff_of_true (accounted_close hoperation hresult hafter)
        (by simp [Counted, hoperation, UdpOp.sendLength, hdequeued])

end Steps

/-- **Traffic accounting matches what `send` and `recv` report at every step exactly when** no send
has the length `-1` and no datagram that is accepted or dequeued is empty: over any operations on an
object since its construction. -/
theorem traffic_accounted_iff {memory start udp : UDP} {trace : History libc}
    {steps : List UdpStep} (hnew : Runs (UDP.new memory) start trace)
    (hexecution : Execution UDP.invoke start steps udp)
    (hsends : ∀ step ∈ steps, SendsInt step.operation)
    (hhonest : ∀ step ∈ steps, ∀ event ∈ step.trace, Honest event) :
    (∀ earlier step, earlier ++ [step] <+: steps → Accounted earlier step) ↔
      ∀ step ∈ steps, Counted step := by
  obtain ⟨-, rfl⟩ := UDP.runs_new.mp hnew
  refine Execution.forall_prefix_iff Tallies
    (fun step => SendsInt step.operation ∧ ∀ event ∈ step.trace, Honest event) Counted Accounted
    tallies_nil ?_ ?_ hexecution fun step hstep => ⟨hsends step hstep, hhonest step hstep⟩
  · rintro earlier step ⟨hsends, hhonest⟩ htallies hruns
    exact accounted_iff_counted htallies hsends hhonest hruns
  · intro earlier step haccounted
    exact haccounted.tallies

def deliveringNetwork : World libc := fun _ request =>
  match request with
  | .socket => (3 : Int)
  | .sendto _ _ size _ _ => if size < 2 ^ 63 then (size : Int) else -1
  | .recvfrom _ size =>
      if 3 ≤ size then .datagram [1, 2, 3] ⟨10002, ⟨224, 5, 23, 2⟩, Vector.replicate 8 0⟩
      else .failed
  | .getaddrinfo _ => none
  | .memset _ | .memcpy _ | .memcmp _ => ()
  | .setsockopt _ _ | .bind _ _ _ | .close _ | .getfl _ | .setfl _ _ | .poll _ _ => (0 : Int)

theorem honest_deliveringNetwork (history : History libc) (request : LibcCall) :
    Honest ⟨request, deliveringNetwork history request⟩ := by
  cases request with
  | sendto fd data size dest destLen =>
      by_cases hsize : size < 2 ^ 63
      · exact Or.inr ⟨if_pos hsize, hsize⟩
      · exact Or.inl (if_neg hsize)
  | recvfrom fd size =>
      by_cases hsize : 3 ≤ size
      · simp [deliveringNetwork, hsize, Honest]
      · simp [deliveringNetwork, hsize, Honest]
  | _ => trivial

theorem traffic_accounted_reopening :
    let start := ((UDP.new ⟨7, 1, 2, 3, 4⟩).run deliveringNetwork []).1
    let run := execute UDP.invoke deliveringNetwork start
      [.open 10002 true true false, .send [1, 2, 3, 4, 5] 5 Address.zero, .recv 4096 Address.zero,
        .open 10003 true true false, .send [] (-7) Address.zero, .close, .recv 4096 Address.zero]
    ∀ earlier step, earlier ++ [step] <+: run.1 → Accounted earlier step :=
  (traffic_accounted_iff (runs_run_nil deliveringNetwork (UDP.new ⟨7, 1, 2, 3, 4⟩))
    (execution_execute deliveringNetwork _ _) (by decide +kernel)
    (forall_mem_execute honest_deliveringNetwork _ _)).mpr (by decide +kernel)

/-- A send of length `-1` is rejected and returns true. -/
theorem rejected_send_returns_true :
    let run := execute UDP.invoke deliveringNetwork UDP.closed
      [.open 10002 true true false, .send [] (-1) Address.zero]
    (∀ step ∈ run.1, SendsInt step.operation) ∧
      (∀ step ∈ run.1, ∀ event ∈ step.trace, Honest event) ∧
      ¬∀ earlier step, earlier ++ [step] <+: run.1 → Accounted earlier step := by
  intro run
  refine ⟨by decide +kernel, forall_mem_execute honest_deliveringNetwork _ _, ?_⟩
  intro hall
  let opens := Step.take UDP.invoke deliveringNetwork UDP.closed (.open 10002 true true false)
  let sends := Step.take UDP.invoke deliveringNetwork opens.after (.send [] (-1) Address.zero)
  have hreports := (hall [opens] sends List.prefix_rfl).reports rfl
  have hresult : sends.result = .bool true := by decide +kernel
  have hrejected : ¬∃ event ∈ sends.trace, accepted event := by decide +kernel
  exact hrejected (hreports.mp hresult)

end FiraClient.Net
