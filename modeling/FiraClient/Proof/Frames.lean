import FiraClient.MainLoop

/-!
# The main loop as a machine over calls of `PID`

Of everything `recvfrom` can give the loop, one kind of outcome matters: a datagram that is not
empty, decodes, has a frame, and has a blue robot in it. Such an outcome is one call of `PID`, for
the first blue robot; the rest of the loop only decides which outcomes these are. `packet` is read
after a parse that replaced it, so what earlier iterations left there is never seen.
-/

namespace FiraClient

open Net

section Receive

variable {R : Type} (setup : Setup R)

def decodedOf : Recvfrom → Option (Environment R)
  | .failed => none
  | .datagram payload _ =>
      if payload = [] then none else setup.parser.decode (payload.take maxDataGramSize)

/-- A length that fits the buffer is not changed by the conversion to `int`. -/
theorem received_len (client : RoboCupSSLClient) (src : Address) (payload : List UInt8)
    (source : SockAddrIn) :
    (client.mc.received maxDataGramSize src (.datagram payload source)).1 =
      (min payload.length maxDataGramSize : Nat) := by
  have hfits : min payload.length maxDataGramSize ≤ 65536 := min_le_right _ _
  have hsize : sizeT maxDataGramSize = maxDataGramSize := by decide
  simp only [UDP.received, hsize, Recvfrom.len, intOfSsize]
  rw [Int.bmod_eq_of_le_mul_two] <;> omega

theorem received_data (client : RoboCupSSLClient) (src : Address) (payload : List UInt8)
    (source : SockAddrIn) :
    (client.mc.received maxDataGramSize src (.datagram payload source)).2.1 =
      payload.take maxDataGramSize := rfl

theorem receive_of_decodedOf_none (client : RoboCupSSLClient) (packet : Environment R)
    {outcome : Recvfrom} (hdecoded : decodedOf setup outcome = none) :
    (receive setup client packet outcome).1 = false := by
  cases outcome with
  | failed => rfl
  | datagram payload source =>
      simp only [receive, received_len, received_data]
      by_cases hempty : payload = []
      · simp [hempty]
      · rw [decodedOf, if_neg hempty] at hdecoded
        split
        · simp only [Parser.parseFromArray, hdecoded]
        · rfl

theorem receive_of_decodedOf_some (client : RoboCupSSLClient) (packet : Environment R)
    {outcome : Recvfrom} {decoded : Environment R}
    (hdecoded : decodedOf setup outcome = some decoded) :
    (receive setup client packet outcome).1 = true ∧
      (receive setup client packet outcome).2.2 = decoded := by
  cases outcome with
  | failed => simp [decodedOf] at hdecoded
  | datagram payload source =>
      by_cases hempty : payload = []
      · simp [decodedOf, hempty] at hdecoded
      · rw [decodedOf, if_neg hempty] at hdecoded
        have hlength : 0 < payload.length := List.length_pos_of_ne_nil hempty
        have hpos : ((min payload.length maxDataGramSize : Nat) : Int) > 0 := by
          simp only [maxDataGramSize]
          omega
        simp only [receive, received_len, received_data, if_pos hpos, Parser.parseFromArray,
          hdecoded, and_self]

end Receive

section Loop

variable {R : Type} [Add R] [Sub R] [Neg R] [Mul R] [LT R] [DecidableLT R] [CMath R]
  (setup : Setup R)

def callFor (detection : Frame R) (robot : Robot R) : PidCall R where
  robot := robot.toField
  objective := setup.defineObjective robot.toField detection.getBall.toField
  index := 0

def firstBlueCall (detection : Frame R) : Option (PidCall R) :=
  detection.robotsBlue.head?.map (callFor setup detection)

def blueCallOf (outcome : Recvfrom) : Option (PidCall R) :=
  ((decodedOf setup outcome).bind Environment.frame).bind (firstBlueCall setup)

/-- What the loop is for: each call sends the packet computed from it and from the error the call
before it left. -/
def callLoop : Mealy R (PidCall R) (Sent R) where
  next := fun _ call => (call.input setup.atan2).error
  emit := fun lastError call => ⟨call, (pidCommand lastError (call.input setup.atan2)).packet⟩

/-! ### One frame -/

omit [Neg R] in
/-- The gate `i == 0`: from any later index the loop only prints. -/
theorem blueCalls_of_ne_zero (ball : Ball R) (robots : List (Robot R)) {i : Nat} (hi : i ≠ 0) :
    blueCalls setup ball i robots = [] := by
  induction robots generalizing i with
  | nil => rfl
  | cons robot robots ih =>
      simp only [blueCalls, if_neg hi]
      exact ih (Nat.succ_ne_zero i)

omit [Neg R] in
theorem frameCalls_eq (detection : Frame R) :
    frameCalls setup detection = (firstBlueCall setup detection).toList := by
  unfold frameCalls firstBlueCall
  cases detection.robotsBlue with
  | nil => rfl
  | cons robot robots =>
      simp only [blueCalls, if_pos, List.head?_cons, Option.map_some, Option.toList_some]
      rw [blueCalls_of_ne_zero setup _ robots (Nat.succ_ne_zero 0)]
      rfl

theorem frameBody_of_none (lastError : R) {detection : Frame R}
    (hcall : firstBlueCall setup detection = none) :
    frameBody setup lastError detection = (lastError, []) := by
  rw [frameBody, frameCalls_eq, hcall]
  rfl

theorem frameBody_of_some (lastError : R) {detection : Frame R} {call : PidCall R}
    (hcall : firstBlueCall setup detection = some call) :
    frameBody setup lastError detection =
      ((callLoop setup).next lastError call, [(callLoop setup).emit lastError call]) := by
  rw [frameBody, frameCalls_eq, hcall]
  rfl

/-! ### One iteration -/

theorem loopBody_of_blueCallOf_none (state : LoopState R) {outcome : Recvfrom}
    (hcall : blueCallOf setup outcome = none) :
    (loopBody setup state outcome).1.lastError = state.lastError ∧
      (loopBody setup state outcome).2 = [] := by
  unfold blueCallOf at hcall
  unfold loopBody
  cases hdecoded : decodedOf setup outcome with
  | none => simp [receive_of_decodedOf_none setup _ _ hdecoded]
  | some decoded =>
      obtain ⟨htrue, hpacket⟩ :=
        receive_of_decodedOf_some setup state.visionClient state.packet hdecoded
      simp only [htrue, hpacket, if_true]
      rw [hdecoded, Option.bind_some] at hcall
      cases hframe : decoded.frame with
      | none => exact ⟨rfl, rfl⟩
      | some detection =>
          rw [hframe, Option.bind_some] at hcall
          simp only [frameBody_of_none setup state.lastError hcall, and_self]

theorem loopBody_of_blueCallOf_some (state : LoopState R) {outcome : Recvfrom}
    {call : PidCall R} (hcall : blueCallOf setup outcome = some call) :
    (loopBody setup state outcome).1.lastError =
        (callLoop setup).next state.lastError call ∧
      (loopBody setup state outcome).2 = [(callLoop setup).emit state.lastError call] := by
  obtain ⟨detection, hframe, hdetection⟩ := Option.bind_eq_some_iff.mp hcall
  obtain ⟨decoded, hdecoded, hdecodedFrame⟩ := Option.bind_eq_some_iff.mp hframe
  obtain ⟨htrue, hpacket⟩ :=
    receive_of_decodedOf_some setup state.visionClient state.packet hdecoded
  unfold loopBody
  simp only [htrue, hpacket, if_true, hdecodedFrame,
    frameBody_of_some setup state.lastError hdetection, and_self]

theorem mainLoop_refines :
    (mainLoop setup).Refines (callLoop setup) LoopState.lastError (blueCallOf setup) where
  idle := fun state _ hcall => loopBody_of_blueCallOf_none setup state hcall
  active := fun state _ _ hcall => loopBody_of_blueCallOf_some setup state hcall

theorem frameLoop_refines :
    (frameLoop setup).Refines (callLoop setup) id (firstBlueCall setup) where
  idle := fun lastError detection hcall => by
    simp only [frameLoop, frameBody_of_none setup lastError hcall, id, and_self]
  active := fun lastError detection call hcall => by
    simp only [frameLoop, frameBody_of_some setup lastError hcall, id, and_self]

/-- **No stale, lost or duplicated frame.** Along every sequence of outcomes the datagrams sent are
those of the calls the outcomes stand for, in order and one each; any other outcome sends nothing
and leaves the remembered error alone, whatever a failed parse left in the packet. -/
theorem mainLoop_sends_once_per_frame (start : LoopState R) (outcomes : List Recvfrom) :
    ((mainLoop setup).emitted start outcomes).flatten =
        (callLoop setup).emitted start.lastError (outcomes.filterMap (blueCallOf setup)) ∧
      ((mainLoop setup).after start outcomes).lastError =
        (callLoop setup).after start.lastError (outcomes.filterMap (blueCallOf setup)) ∧
      (∀ sent ∈ ((mainLoop setup).emitted start outcomes).flatten,
        sent.packet.commands.length = 1) ∧
      ∀ outcome, blueCallOf setup outcome = none →
        (mainLoop setup).emit ((mainLoop setup).after start outcomes) outcome = [] ∧
          ((mainLoop setup).after start (outcomes ++ [outcome])).lastError =
            ((mainLoop setup).after start outcomes).lastError := by
  have hrefines := mainLoop_refines setup
  refine ⟨hrefines.flatten_emitted start outcomes, hrefines.view_after start outcomes, ?_, ?_⟩
  · intro sent hsent
    rw [hrefines.flatten_emitted start outcomes] at hsent
    obtain ⟨earlier, call, later, hcalls, rfl⟩ := (callLoop setup).exists_of_mem_emitted hsent
    rfl
  · intro outcome hcall
    obtain ⟨hlast, hemit⟩ :=
      hrefines.idle ((mainLoop setup).after start outcomes) outcome hcall
    rw [Mealy.after_append]
    exact ⟨hemit, hlast⟩

end Loop

end FiraClient
