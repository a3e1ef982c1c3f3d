import FiraClient.Proof.Program
import FiraClient.Proof.RoundTrip

/-!
# From frames to commands

The program between two ends that write and read the messages as it does: what is sent to it are the
bytes of environments, some of them lost, and what it sends is read as packets. Between the two
stands the loop over frames; nothing of the wire is left but the negative zeros.
-/

namespace FiraClient

open Net Interaction Pb

/-! ### What the ends see -/

/-- What becomes of a datagram of the simulator. -/
inductive Delivery where
  | lost
  | environment (message : Pb.Environment Binary64) (fits : message.byteSize ≤ maxDataGramSize)
      (source : SockAddrIn)

namespace Delivery

def outcome : Delivery → Recvfrom
  | .lost => .failed
  | .environment message _ source => .datagram message.serializeToArray source

/-- The frame as it is read. -/
def frame : Delivery → Option (Frame Binary64)
  | .lost => none
  | .environment message _ _ => message.frame.map Frame.cleared.mergeFrom

end Delivery

/-- The network that delivers these, one to each `recvfrom`. -/
def delivering (deliveries : ℕ → Delivery) (exchanged : List Exchange) : Recvfrom :=
  (deliveries (exchanged.filterMap Exchange.outcome).length).outcome

/-! ### Readings -/

theorem Pb.Environment.frame_mergeFrom_cleared (environment : Environment Binary64) :
    (Environment.cleared.mergeFrom environment).frame =
      environment.frame.map Frame.cleared.mergeFrom := by
  unfold mergeFrom
  cases environment.frame <;> rfl

theorem Pb.Environment.frame_eq_none {environment : Environment Binary64}
    (hempty : environment.byteSize = 0) : environment.frame = none := by
  unfold byteSize at hempty
  cases hframe : environment.frame with
  | none => rfl
  | some frame =>
      rw [hframe] at hempty
      simp at hempty

theorem Pb.Environment.decode_parser (reader : RepeatedReader)
    {environment : Environment Binary64} (hsize : environment.byteSize < 2 ^ 31) :
    (parser reader).decode environment.serializeToArray =
      some (cleared.mergeFrom environment).seen := by
  have hparse : parseFromArray cleared (mergePartialFromCodedStream reader)
      environment.serializeToArray = _ :=
    parseFromArray_of_absorbs (Environment.realizes reader) cleared (environment.absorbs 98 hsize)
  simp only [parser, hparse]

section Loop

variable (setup : Setup Binary64) (reader : RepeatedReader)

theorem Delivery.decodedOf_outcome (delivery : Delivery) :
    (decodedOf { setup with parser := Environment.parser reader } delivery.outcome).bind
        Environment.frame =
      delivery.frame := by
  cases delivery with
  | lost => rfl
  | environment message fits source =>
      have hlength := message.byteSize_eq
      have hwhole : message.serializeToArray.take maxDataGramSize = message.serializeToArray :=
        List.take_of_length_le (hlength ▸ fits)
      have hsize : message.byteSize < 2 ^ 31 := fits.trans_lt (by decide)
      simp only [decodedOf, outcome, frame, hwhole, Environment.decode_parser reader hsize]
      split
      · -- a message without bytes is not parsed, and has no frame
        rename_i hempty
        have hnone := Environment.frame_eq_none (hlength.trans (congrArg List.length hempty))
        rw [hnone]
        rfl
      · exact message.frame_mergeFrom_cleared

end Loop

theorem outcomes_delivering {deliveries : ℕ → Delivery} {exchanged : List Exchange}
    (hall : ∀ earlier fd outcome later, exchanged = earlier ++ .received fd outcome :: later →
      outcome = delivering deliveries earlier) :
    exchanged.filterMap Exchange.outcome =
      (List.range (exchanged.filterMap Exchange.outcome).length).map
        fun i => (deliveries i).outcome := by
  induction exchanged using List.reverseRecOn with
  | nil => rfl
  | append_singleton exchanged exchange ih =>
      have hearlier := ih fun earlier fd outcome later hsplit =>
        hall earlier fd outcome (later ++ [exchange]) (by rw [hsplit, List.append_assoc]; rfl)
      rw [List.filterMap_append]
      cases exchange with
      | received fd outcome =>
          have houtcome := hall exchanged fd outcome [] rfl
          have hlast : [Exchange.received fd outcome].filterMap Exchange.outcome = [outcome] := rfl
          rw [hlast, List.length_append, List.length_singleton, List.range_succ, List.map_append,
            ← hearlier, houtcome]
          rfl
      | _ =>
          rw [List.filterMap_cons_none rfl, List.filterMap_nil, List.append_nil]
          exact hearlier

/-! ### Both ends -/

section Rounds

variable {fd : Int} {client : GrSimClient}

theorem outcomes_roundOf (outcome : Recvfrom) (sent : List (Sent Binary64)) :
    (roundOf fd client outcome sent).filterMap Exchange.outcome = [outcome] := by
  have hdatagrams : (sent.map fun sent => client.datagram sent.packet).filterMap
      Exchange.outcome = [] := by
    rw [List.filterMap_map]
    exact List.filterMap_eq_nil_iff.mpr fun _ _ => rfl
  exact congrArg (outcome :: ·) hdatagrams

theorem data_roundOf (outcome : Recvfrom) (sent : List (Sent Binary64)) :
    (roundOf fd client outcome sent).filterMap Exchange.data =
      sent.map fun sent => sent.packet.serializeToArray := by
  have hdatagrams : (sent.map fun sent => client.datagram sent.packet).filterMap Exchange.data =
      sent.map fun sent => sent.packet.serializeToArray := by
    rw [List.filterMap_map]
    exact congrFun List.filterMap_eq_map sent
  exact hdatagrams

variable {machine : Mealy Binary64 Recvfrom (List (Sent Binary64))}

theorem outcomes_rounds (lastError : Binary64) (outcomes : List Recvfrom) :
    (List.zipWith (roundOf fd client) outcomes
        (machine.emitted lastError outcomes)).flatten.filterMap Exchange.outcome =
      outcomes := by
  induction outcomes generalizing lastError with
  | nil => rfl
  | cons outcome outcomes ih =>
      rw [Mealy.emitted_cons, List.zipWith_cons_cons, List.flatten_cons, List.filterMap_append,
        outcomes_roundOf, ih, List.singleton_append]

theorem data_rounds (lastError : Binary64) (outcomes : List Recvfrom) :
    (List.zipWith (roundOf fd client) outcomes
        (machine.emitted lastError outcomes)).flatten.filterMap Exchange.data =
      (machine.emitted lastError outcomes).flatten.map
        fun sent => sent.packet.serializeToArray := by
  induction outcomes generalizing lastError with
  | nil => rfl
  | cons outcome outcomes ih =>
      rw [Mealy.emitted_cons, List.zipWith_cons_cons, List.flatten_cons, List.filterMap_append,
        data_roundOf, ih, List.flatten_cons, List.map_append]

end Rounds

theorem read_sendCommand (reader : RepeatedReader) (left right : Binary64) (yellow : Bool)
    (id : Int32) :
    parseFromArray Packet.cleared (Packet.mergePartialFromCodedStream reader)
        (sendCommand left right yellow id).serializeToArray =
      (true, Packet.cleared.mergeFrom (sendCommand left right yellow id)) := by
  have hsize : (sendCommand left right yellow id).byteSize < 2 ^ 31 :=
    (byteSize_sendCommand_le left right yellow id).trans_lt (by decide)
  exact parseFromArray_of_absorbs (Packet.realizes reader) Packet.cleared
    ((sendCommand left right yellow id).absorbs 98 hsize)

section Ends

variable [Add Binary64] [Sub Binary64] [Neg Binary64] [Mul Binary64] [LT Binary64]
  [DecidableLT Binary64] [CMath Binary64] (setup : Setup Binary64) (reader : RepeatedReader)

/-- What the client does between its parser and its writer. -/
theorem emitted_delivered (lastError : Binary64) (deliveries : List Delivery) :
    ((wireLoop { setup with parser := Environment.parser reader }).emitted lastError
        (deliveries.map Delivery.outcome)).flatten =
      ((frameLoop setup).emitted lastError (deliveries.filterMap Delivery.frame)).flatten := by
  have hcalls : ∀ delivery : Delivery,
      blueCallOf { setup with parser := Environment.parser reader } delivery.outcome =
        delivery.frame.bind (firstBlueCall setup) := fun delivery =>
    congrArg (Option.bind · (firstBlueCall setup)) (delivery.decodedOf_outcome setup reader)
  rw [wireLoop, (Mealy.filtered_refines _ _).flatten_emitted,
    (frameLoop_refines setup).flatten_emitted, List.filterMap_map, List.filterMap_filterMap]
  simp only [Function.comp_def, hcalls]
  rfl

theorem read_emitted {lastError : Binary64} {frames : List (Frame Binary64)}
    {sent : Sent Binary64} (hsent : sent ∈ ((frameLoop setup).emitted lastError frames).flatten) :
    parseFromArray Packet.cleared (Packet.mergePartialFromCodedStream reader)
        sent.packet.serializeToArray =
      (true, Packet.cleared.mergeFrom sent.packet) := by
  rw [(frameLoop_refines setup).flatten_emitted] at hsent
  obtain ⟨earlier, call, later, -, rfl⟩ := (callLoop setup).exists_of_mem_emitted hsent
  exact read_sendCommand reader _ _ _ _

/-- **From frames to commands.** Whatever part of the simulator's environments reaches the client,
and whatever else the world answers, the simulator reads as many packets as frames with a blue robot
arrived, in their order, each that of the controller run over these frames from the start. -/
theorem frames_answered (deliveries : ℕ → Delivery) (others : World libc) (memory : MainMemory)
    (stack : List Address) :
    ((exchanges ((Program.main { setup with parser := Environment.parser reader } memory stack).run
          (networked (delivering deliveries) others) []).2).filterMap Exchange.data).map
        (parseFromArray Packet.cleared (Packet.mergePartialFromCodedStream reader)) =
      ((frameLoop setup).emitted initialError
          (((List.range stack.length).map deliveries).filterMap Delivery.frame)).flatten.map
        fun sent => (true, Packet.cleared.mergeFrom sent.packet) := by
  obtain ⟨vision, command, outcomes, hlength, hexchanges⟩ :=
    Program.runs_main (runs_run_nil (networked (delivering deliveries) others)
      (Program.main { setup with parser := Environment.parser reader } memory stack))
  have hnetwork : ∀ earlier fd outcome later,
      exchanges ((Program.main { setup with parser := Environment.parser reader } memory stack).run
          (networked (delivering deliveries) others) []).2 =
        earlier ++ .received fd outcome :: later → outcome = delivering deliveries earlier :=
    fun _ _ _ _ => outcome_of_networked
  rw [hexchanges] at hnetwork ⊢
  have hdelivered := outcomes_delivering hnetwork
  rw [List.filterMap_cons_none rfl, List.filterMap_cons_none rfl, outcomes_rounds, hlength]
    at hdelivered
  have hsent : ((List.range stack.length).map deliveries).map Delivery.outcome = outcomes := by
    rw [hdelivered, List.map_map]
    rfl
  rw [List.filterMap_cons_none rfl, List.filterMap_cons_none rfl, data_rounds, ← hsent,
    emitted_delivered, List.map_map]
  exact List.map_congr_left fun sent hmem => read_emitted setup reader hmem

end Ends

end FiraClient
