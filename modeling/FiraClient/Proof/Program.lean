import FiraClient.Program
import FiraClient.Proof.Exchanges
import FiraClient.Proof.Frames
import FiraClient.Proof.Serialized

/-!
# What the program exchanges

The calls of `main` that reach the network, in the order they are made. Start-up makes two sockets
and exchanges nothing; a round of the loop receives once, and then sends what the abstract machine
emits for the outcome, from the second socket to the simulator.
-/

namespace FiraClient

open Net Interaction Pb

/-! ### Start-up -/

section Start

variable [CMath Binary64] {memory : MainMemory} {state : MainState} {trace : History libc}

theorem Program.runs_start (hruns : Runs (start memory) state trace) :
    exchanges trace =
        [.socket state.visionClient.mc.fd, .socket state.commandClient.dgramSocket] ∧
      state.commandClient.dest = GrSimClient.destination memory.sinZero ∧
      state.lastError = initialError := by
  simp only [start, GrSimClient.new, runs_bind, UDP.runs_new, runs_pure, perform, runs_request,
    runs_ret] at hruns
  obtain ⟨_, _, ⟨rfl, rfl⟩, _, ⟨⟨ok, client⟩, opening, hopening, _, ⟨_, _, ⟨fd, _, ⟨fd', _, ⟨rfl,
    rfl⟩, rfl⟩, _, ⟨rfl, rfl⟩, rfl⟩, _, ⟨rfl, rfl⟩, rfl⟩, rfl⟩, rfl⟩ := hruns
  obtain ⟨closing, opened, mc, binding, joining, rfl, hclosing, hbinding, rfl, hjoining⟩ :=
    RoboCupSSLClient.runs_open hopening
  have hjoined : exchanges joining = [] := by
    cases opened with
    | false => rw [hjoining.2]; rfl
    | true => exact exchanges_subscribe hjoining
  refine ⟨?_, rfl, rfl⟩
  simp only [exchanges_append, exchanges_closes hclosing, exchanges_open hbinding, hjoined]
  rfl

end Start

/-! ### One datagram -/

/-- The datagram of a packet. -/
def Net.GrSimClient.datagram (client : GrSimClient) (packet : Packet Binary64) : Exchange :=
  .sent client.dgramSocket packet.serializeToArray packet.byteSize client.dest.storage
    sizeofSockaddr

theorem lengthDelimitedSize_short : ∀ length < 128, lengthDelimitedSize length = length + 1 := by
  decide +kernel

/-- The sizes of the members, each at its largest. -/
theorem byteSize_sendCommand_le (left right : Binary64) (yellow : Bool) (id : Int32) :
    (sendCommand left right yellow id).byteSize ≤ 30 := by
  have hleft := doubleSize_le left
  have hright := doubleSize_le right
  have hid := uint32SizeUnlessZero_le id.toUInt32
  have hcommand : (⟨id.toUInt32, yellow, left, right⟩ : Command Binary64).byteSize ≤ 26 := by
    simp only [Command.byteSize]
    split <;> omega
  have hinner := lengthDelimitedSize_short _ (hcommand.trans_lt (by decide))
  simp only [Packet.byteSize, sendCommand, Commands.byteSize, List.length_singleton,
    List.map_singleton, List.sum_singleton, hinner]
  rw [lengthDelimitedSize_short _ (by omega)]
  omega

theorem exchanges_sendCommand {client : GrSimClient} {left right : Binary64} {yellow : Bool}
    {id : Int32} {done : Unit} {trace : History libc}
    (hruns : Runs (client.sendCommand left right yellow id) done trace) :
    exchanges trace = [client.datagram (sendCommand left right yellow id)] := by
  have hsize := byteSize_sendCommand_le left right yellow id
  have hserialized : serializeToString (sendCommand left right yellow id).byteSize
      (sendCommand left right yellow id).serializeToArray =
        (true, (sendCommand left right yellow id).serializeToArray) :=
    if_neg (not_lt.mpr ((le_intMax_iff _).mpr (by omega)))
  simp only [GrSimClient.sendCommand, runs_bind, perform, runs_request, runs_ret,
    runs_pure] at hruns
  obtain ⟨_, _, ⟨ret, _, ⟨rfl, rfl⟩, rfl⟩, _, ⟨-, rfl⟩, rfl⟩ := hruns
  change [Exchange.sent _ (serializeToString _ _).2 (serializeToString _ _).2.length _ _] = _
  rw [hserialized, GrSimClient.datagram, Packet.byteSize_eq]

/-! ### One round -/

theorem Program.runs_receive {setup : Setup Binary64} {memory : Address}
    {client : RoboCupSSLClient} {packet : Environment Binary64}
    {result : Bool × RoboCupSSLClient × Environment Binary64} {trace : History libc}
    (hruns : Runs (receive setup memory client packet) result trace) :
    ∃ outcome, result = FiraClient.receive setup client packet outcome ∧
      exchanges trace = [.received client.mc.fd outcome] := by
  simp only [receive, Address.new, Address.destroy, runs_bind, Address.runs_reset, UDP.runs_recv,
    runs_pure] at hruns
  obtain ⟨_, first, ⟨hfirst, rfl⟩, _, ⟨_, _, ⟨outcome, rfl, rfl⟩, _, ⟨_, last, ⟨hlast, rfl⟩, _,
    ⟨rfl, rfl⟩, rfl⟩, rfl⟩, rfl⟩ := hruns
  refine ⟨outcome, rfl, ?_⟩
  simp only [exchanges_append, exchanges_memset hfirst, exchanges_memset hlast]
  rfl

theorem fd_receive (setup : Setup Binary64) (client : RoboCupSSLClient)
    (packet : Environment Binary64) (outcome : Recvfrom) :
    (FiraClient.receive setup client packet outcome).2.1.mc.fd = client.mc.fd := by
  have hfd := UDP.fd_received client.mc maxDataGramSize ⟨Vector.replicate 16 0, 0⟩ outcome
  simp only [FiraClient.receive]
  split <;> exact hfd

/-- What a round exchanges: the outcome, and then a datagram for each packet. -/
def roundOf (fd : Int) (client : GrSimClient) (outcome : Recvfrom) (sent : List (Sent Binary64)) :
    List Exchange :=
  .received fd outcome :: sent.map fun sent => client.datagram sent.packet

section Rounds

variable [Add Binary64] [Sub Binary64] [Neg Binary64] [Mul Binary64] [LT Binary64]
  [DecidableLT Binary64] [CMath Binary64] {setup : Setup Binary64} {trace : History libc}

theorem Program.runs_PID {lastError next : Binary64} {call : PidCall Binary64}
    {client : GrSimClient} (hruns : Runs (PID setup lastError call client) next trace) :
    next = (callLoop setup).next lastError call ∧
      exchanges trace = [client.datagram ((callLoop setup).emit lastError call).packet] := by
  simp only [PID, runs_bind, runs_pure] at hruns
  obtain ⟨_, sending, hsending, _, ⟨rfl, rfl⟩, rfl⟩ := hruns
  rw [List.append_nil]
  exact ⟨rfl, exchanges_sendCommand hsending⟩

theorem Program.runs_blueRobots {client : GrSimClient} {ball : Ball Binary64} {i : Nat}
    {robots : List (Robot Binary64)} {lastError next : Binary64}
    (hruns : Runs (blueRobots setup client ball i robots lastError) next trace) :
    next = (runCalls setup lastError (blueCalls setup ball i robots)).1 ∧
      exchanges trace = (runCalls setup lastError (blueCalls setup ball i robots)).2.map
        fun sent => client.datagram sent.packet := by
  induction robots generalizing i lastError trace with
  | nil =>
      obtain ⟨rfl, rfl⟩ := runs_pure.mp hruns
      exact ⟨rfl, rfl⟩
  | cons robot robots ih =>
      unfold blueRobots at hruns
      by_cases hi : i = 0
      · simp only [if_pos hi, runs_bind] at hruns
        obtain ⟨error, first, hfirst, rest, hrest, rfl⟩ := hruns
        obtain ⟨rfl, hexchanged⟩ := Program.runs_PID hfirst
        obtain ⟨rfl, hexchanges⟩ := ih hrest
        rw [exchanges_append, hexchanged, hexchanges]
        simp only [blueCalls, if_pos hi]
        exact ⟨rfl, rfl⟩
      · simp only [if_neg hi] at hruns
        simp only [blueCalls, if_neg hi]
        exact ih hruns

def MainState.loop (state : MainState) : LoopState Binary64 :=
  ⟨state.visionClient, state.packet, state.lastError⟩

theorem Program.runs_iteration {state next : MainState} {memory : Address}
    (hruns : Runs (iteration setup state memory) next trace) :
    ∃ outcome, next.loop = (loopBody setup state.loop outcome).1 ∧
      next.commandClient = state.commandClient ∧
      exchanges trace = roundOf state.visionClient.mc.fd state.commandClient outcome
        (loopBody setup state.loop outcome).2 := by
  obtain ⟨received, first, hfirst, rest, hrest, rfl⟩ := runs_bind.mp hruns
  obtain ⟨outcome, rfl, hreceived⟩ := Program.runs_receive hfirst
  refine ⟨outcome, ?_⟩
  rw [exchanges_append, hreceived]
  simp only [loopBody, MainState.loop]
  by_cases hok : (FiraClient.receive setup state.visionClient state.packet outcome).1
  · simp only [hok, if_true] at hrest ⊢
    cases hframe : (FiraClient.receive setup state.visionClient state.packet outcome).2.2.frame with
    | none =>
        simp only [hframe] at hrest ⊢
        obtain ⟨rfl, rfl⟩ := runs_pure.mp hrest
        exact ⟨rfl, rfl, rfl⟩
    | some detection =>
        simp only [hframe] at hrest ⊢
        obtain ⟨error, hrobots, rfl⟩ := runs_bind_pure.mp hrest
        obtain ⟨rfl, hexchanged⟩ := Program.runs_blueRobots hrobots
        rw [hexchanged]
        exact ⟨rfl, rfl, rfl⟩
  · simp only [hok] at hrest ⊢
    obtain ⟨rfl, rfl⟩ := runs_pure.mp hrest
    exact ⟨rfl, rfl, rfl⟩

theorem fd_loopBody (state : LoopState Binary64) (outcome : Recvfrom) :
    (loopBody setup state outcome).1.visionClient.mc.fd = state.visionClient.mc.fd := by
  have hfd := fd_receive setup state.visionClient state.packet outcome
  simp only [loopBody]
  split
  · split <;> exact hfd
  · exact hfd

variable (setup) in
/-- The loop as it should be seen from the network: for each outcome, what the call it stands for
sends. -/
def wireLoop : Mealy Binary64 Recvfrom (List (Sent Binary64)) :=
  (callLoop setup).filtered (blueCallOf setup)

/-- Round after round. -/
theorem Program.runs_iterations {stack : List Address} {state final : MainState}
    (hruns : Runs (runAll (iteration setup) state stack) final trace) :
    ∃ outcomes, outcomes.length = stack.length ∧
      exchanges trace =
        (List.zipWith (roundOf state.visionClient.mc.fd state.commandClient) outcomes
          ((wireLoop setup).emitted state.lastError outcomes)).flatten := by
  induction stack generalizing state trace with
  | nil =>
      obtain ⟨-, rfl⟩ := runs_pure.mp hruns
      exact ⟨[], rfl, rfl⟩
  | cons memory stack ih =>
      obtain ⟨next, first, hfirst, rest, hrest, rfl⟩ := runs_bind.mp hruns
      obtain ⟨outcome, hnext, hclient, hround⟩ := Program.runs_iteration hfirst
      obtain ⟨outcomes, hlength, hrounds⟩ := ih hrest
      obtain ⟨herror, hemitted⟩ := (mainLoop_refines setup).step state.loop outcome
      have hfd : next.visionClient.mc.fd = state.visionClient.mc.fd :=
        (congrArg (fun loop => loop.visionClient.mc.fd) hnext).trans
          (fd_loopBody state.loop outcome)
      have hlast : next.lastError = (wireLoop setup).next state.lastError outcome :=
        (congrArg LoopState.lastError hnext).trans herror
      have hsent : (loopBody setup state.loop outcome).2 =
          (wireLoop setup).emit state.lastError outcome := hemitted
      refine ⟨outcome :: outcomes, congrArg Nat.succ hlength, ?_⟩
      rw [exchanges_append, hround, hrounds, hfd, hclient, hlast, hsent]
      rfl

end Rounds

section Main

variable [Add Binary64] [Sub Binary64] [Neg Binary64] [Mul Binary64] [LT Binary64]
  [DecidableLT Binary64] [CMath Binary64] (setup : Setup Binary64)

variable {setup} in
theorem Program.runs_main {memory : MainMemory} {stack : List Address} {final : MainState}
    {trace : History libc} (hruns : Runs (main setup memory stack) final trace) :
    ∃ (vision command : Int) (outcomes : List Recvfrom), outcomes.length = stack.length ∧
      exchanges trace = .socket vision :: .socket command ::
        (List.zipWith (roundOf vision ⟨command, GrSimClient.destination memory.sinZero⟩) outcomes
          ((wireLoop setup).emitted initialError outcomes)).flatten := by
  obtain ⟨state, first, hfirst, rest, hrest, rfl⟩ := runs_bind.mp hruns
  obtain ⟨hsockets, hdest, herror⟩ := Program.runs_start hfirst
  obtain ⟨outcomes, hlength, hrounds⟩ := Program.runs_iterations hrest
  have hclient : state.commandClient =
      ⟨state.commandClient.dgramSocket, GrSimClient.destination memory.sinZero⟩ := by
    rw [← hdest]
  refine ⟨state.visionClient.mc.fd, state.commandClient.dgramSocket, outcomes, hlength, ?_⟩
  rw [exchanges_append, hsockets, hrounds, herror, hclient]
  rfl

/-- **The whole program.** In every world, and after any number of rounds, `main` has made two
sockets and nothing else has reached the network but its rounds: in each, one receive from the
first socket and then, for an outcome with a blue robot, one datagram from the second socket to the
simulator on this host, with the packet computed from it and from the error of the last such
outcome. -/
theorem program_exchanges (memory : MainMemory) (stack : List Address) (world : World libc) :
    ∃ (vision command : Int) (outcomes : List Recvfrom), outcomes.length = stack.length ∧
      exchanges ((Program.main setup memory stack).run world []).2 =
        .socket vision :: .socket command ::
          (List.zipWith (roundOf vision ⟨command, GrSimClient.destination memory.sinZero⟩) outcomes
            ((wireLoop setup).emitted initialError outcomes)).flatten :=
  Program.runs_main (runs_run_nil world (Program.main setup memory stack))

end Main

end FiraClient
