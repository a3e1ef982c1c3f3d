import FiraClient.Proof.AddressBounds

/-!
# Equality and copies of addresses

`operator==` compares as many bytes as the length says, and `copy` moves as many. Between IPv4
addresses that is everything. A null address has length zero: it is equal to every other one, a copy
of it moves no byte, and `getInAddr` reads bytes that neither of the two looked at.
-/

namespace FiraClient.Net

open Interaction

namespace Address

/-- What `operator==` decides. -/
def Equal (a b : Address) : Prop :=
  a.addrLen = b.addrLen ∧ a.addr.toList.take a.addrLen = b.addr.toList.take a.addrLen

theorem equal_equivalence : Equivalence Equal where
  refl := fun _ => ⟨rfl, rfl⟩
  symm := by
    rintro a b ⟨hlength, hbytes⟩
    exact ⟨hlength.symm, by rw [← hlength, hbytes]⟩
  trans := by
    rintro a b c ⟨hlength, hbytes⟩ ⟨hlength', hbytes'⟩
    rw [← hlength] at hbytes'
    exact ⟨hlength.trans hlength', hbytes.trans hbytes'⟩

/-- What `copy` leaves in the target. -/
def copied (target src : Address) : Address :=
  ⟨overwrite target.addr src.addr.toList src.addrLen, src.addrLen⟩

def NullOrInet (address : Address) : Prop := address.addrLen = 0 ∨ address.addrLen = 16

section Operations

variable {a b : Address} {ok : Bool} {trace : History libc}

theorem equals_iff (hruns : Runs (a.equals b) ok trace) : ok = true ↔ a.Equal b := by
  unfold equals at hruns
  by_cases hlength : a.addrLen = b.addrLen
  · rw [if_pos hlength] at hruns
    obtain ⟨_, _, -, _, hend, -⟩ := runs_bind.mp hruns
    obtain ⟨rfl, -⟩ := runs_pure.mp hend
    rw [beq_iff_eq, Equal, and_iff_right hlength]
  · rw [if_neg hlength] at hruns
    obtain ⟨rfl, -⟩ := runs_pure.mp hruns
    exact iff_of_false (by simp) fun hequal => hlength hequal.1

theorem eq_of_equal (hinet : a.addrLen = 16) (hequal : a.Equal b) : a = b := by
  obtain ⟨hlength, hbytes⟩ := hequal
  rw [hinet, List.take_of_length_le (by simp), List.take_of_length_le (by simp)] at hbytes
  obtain ⟨storage, length⟩ := a
  obtain ⟨storage', length'⟩ := b
  rw [Address.mk.injEq]
  exact ⟨Vector.toList_inj.mp hbytes, hlength⟩

theorem overwrite_zero (storage : Vector UInt8 16) (src : List UInt8) :
    overwrite storage src 0 = storage := by
  ext i hi
  simp [overwrite]

theorem overwrite_full (storage src : Vector UInt8 16) :
    overwrite storage src.toList 16 = src := by
  ext i hi
  simp [overwrite]

theorem copied_of_null {target src : Address} (hnull : src.addrLen = 0) :
    target.copied src = ⟨target.addr, 0⟩ := by
  rw [copied, hnull, overwrite_zero]

theorem copied_of_inet {target src : Address} (hinet : src.addrLen = 16) :
    target.copied src = src := by
  rw [copied, hinet, overwrite_full]
  cases src
  exact congrArg _ hinet.symm

theorem copied_equal {target src : Address} (hsrc : src.NullOrInet) :
    (target.copied src).Equal src := by
  rcases hsrc with hnull | hinet
  · rw [copied_of_null hnull]
    exact ⟨hnull.symm, by simp⟩
  · rw [copied_of_inet hinet]
    exact equal_equivalence.refl src

theorem print_of_equal (ha : a.NullOrInet) (hequal : a.Equal b) {File : Type}
    (stdout out : File) : a.print stdout out = b.print stdout out := by
  rcases ha with hnull | hinet
  · rw [print, print, if_pos hnull, if_pos (hequal.1.symm.trans hnull)]
  · rw [eq_of_equal hinet hequal]

end Operations

end Address

/-! ### What is written over runs -/

/-- The address an operation copies, and what is in the storage it copies it to. -/
def AddressOp.copies (addresses : Addresses) : AddressOp → Option (Address × Address)
  | .copy i j => do return (← addresses i, ← addresses j)
  | .copyNew _ j memory => do return (memory, ← addresses j)
  | _ => none

/-- An address an operation writes. -/
inductive Writes (addresses : Addresses) (operation : AddressOp) (trace : History libc) :
    Address → Prop where
  | null : Writes addresses operation trace Address.zero
  | copied {target src : Address} (hcopies : operation.copies addresses = some (target, src)) :
      Writes addresses operation trace (target.copied src)
  | hosted {hostname : String} {res : SockAddr} (port : Int)
      (hres : ⟨.getaddrinfo hostname, some res⟩ ∈ trace) :
      Writes addresses operation trace (Address.hosted res port)
  | filled {written : Address} (hlength : written.addrLen = 16) :
      Writes addresses operation trace written

section Addresses

variable {addresses next : Addresses} {operation : AddressOp} {trace : History libc}

theorem Addresses.set_self {i : Nat} {address : Address} (hlive : addresses i = some address) :
    addresses.set i (some address) = addresses := by
  rw [Addresses.set, ← hlive, Function.update_eq_self]

theorem UDP.addrLen_recv {udp : UDP} {length : Int} {src : Address}
    {result : Int × List UInt8 × UDP × Address} (hruns : Runs (udp.recv length src) result trace) :
    result.2.2.2.addrLen = 16 := by
  obtain ⟨outcome, rfl, rfl⟩ := UDP.runs_recv.mp hruns
  cases outcome with
  | failed => rfl
  | datagram payload source => exact SockAddrIn.length_bytes source

/-- **An operation** changes nothing, ends one object, or writes one address. -/
theorem Addresses.runs_exec (hruns : Runs (addresses.exec operation) next trace) :
    next = addresses ∨ (∃ i, next = addresses.set i none) ∨
      ∃ i written, Writes addresses operation trace written ∧
        next = addresses.set i (some written) := by
  cases operation with
  | new i memory =>
      obtain ⟨written, hreset, rfl⟩ := runs_bind_pure.mp hruns
      obtain ⟨-, rfl⟩ := Address.runs_reset.mp hreset
      exact Or.inr (Or.inr ⟨i, _, .null, rfl⟩)
  | copyNew i j memory =>
      rcases Addresses.runs_withLive hruns with ⟨rfl, -⟩ | ⟨src, hsrc, hconstructs⟩
      · exact Or.inl rfl
      · obtain ⟨written, hcopy, rfl⟩ := runs_bind_pure.mp hconstructs
        obtain ⟨-, rfl⟩ := Address.runs_copy.mp hcopy
        have hcopies : (AddressOp.copyNew i j memory).copies addresses = some (memory, src) := by
          simp [AddressOp.copies, hsrc]
        exact Or.inr (Or.inr ⟨i, _, .copied hcopies, rfl⟩)
  | destroy i =>
      rcases Addresses.runs_withLive hruns with ⟨rfl, -⟩ | ⟨self, -, hdestroys⟩
      · exact Or.inl rfl
      · obtain ⟨destroyed, -, rfl⟩ := runs_bind_pure.mp hdestroys
        exact Or.inr (Or.inl ⟨i, rfl⟩)
  | setHost i hostname port =>
      rcases Addresses.runs_modify hruns with ⟨rfl, -⟩ | ⟨self, written, hself, hwrites, rfl⟩
      · exact Or.inl rfl
      · obtain ⟨⟨ok, written⟩, hwritten, rfl⟩ := runs_bind_pure.mp hwrites
        obtain ⟨res, filling, rfl, hfilling⟩ := Address.runs_setHost hwritten
        cases res with
        | none =>
            obtain ⟨-, rfl, -⟩ := hfilling
            exact Or.inl (Addresses.set_self hself)
        | some res =>
            obtain ⟨-, hhosted, -⟩ := hfilling
            refine Or.inr (Or.inr ⟨i, _, .hosted port List.mem_cons_self, ?_⟩)
            rw [hhosted]
  | setAny i port =>
      rcases Addresses.runs_modify hruns with ⟨rfl, -⟩ | ⟨self, written, -, hwrites, rfl⟩
      · exact Or.inl rfl
      · exact Or.inr (Or.inr ⟨i, _, .filled (Address.runs_setAny hwrites).2.1, rfl⟩)
  | copy i j =>
      rcases Addresses.runs_withLive hruns with ⟨rfl, -⟩ | ⟨src, hsrc, hmodifies⟩
      · exact Or.inl rfl
      · rcases Addresses.runs_modify hmodifies with ⟨rfl, -⟩ | ⟨self, written, hself, hcopy, rfl⟩
        · exact Or.inl rfl
        · obtain ⟨-, rfl⟩ := Address.runs_copy.mp hcopy
          have hcopies : (AddressOp.copy i j).copies addresses = some (self, src) := by
            simp [AddressOp.copies, hself, hsrc]
          exact Or.inr (Or.inr ⟨i, _, .copied hcopies, rfl⟩)
  | reset i =>
      rcases Addresses.runs_modify hruns with ⟨rfl, -⟩ | ⟨self, written, -, hreset, rfl⟩
      · exact Or.inl rfl
      · obtain ⟨-, rfl⟩ := Address.runs_reset.mp hreset
        exact Or.inr (Or.inr ⟨i, _, .null, rfl⟩)
  | clear i =>
      rcases Addresses.runs_modify hruns with ⟨rfl, -⟩ | ⟨self, written, -, hreset, rfl⟩
      · exact Or.inl rfl
      · obtain ⟨-, rfl⟩ := Address.runs_reset.mp hreset
        exact Or.inr (Or.inr ⟨i, _, .null, rfl⟩)
  | equals i j =>
      rcases Addresses.runs_withLive hruns with ⟨rfl, -⟩ | ⟨self, -, hreads⟩
      · exact Or.inl rfl
      · rcases Addresses.runs_withLive hreads with ⟨rfl, -⟩ | ⟨other, -, hcompares⟩
        · exact Or.inl rfl
        · obtain ⟨result, -, rfl⟩ := runs_bind_pure.mp hcompares
          exact Or.inl rfl
  | recv i udp length =>
      rcases Addresses.runs_modify hruns with ⟨rfl, -⟩ | ⟨self, written, -, hwrites, rfl⟩
      · exact Or.inl rfl
      · obtain ⟨result, hreceived, rfl⟩ := runs_bind_pure.mp hwrites
        exact Or.inr (Or.inr ⟨i, _, .filled (UDP.addrLen_recv hreceived), rfl⟩)

theorem Addresses.all_exec {property : Address → Prop} (haddresses : addresses.All property)
    (hwrites : ∀ written, Writes addresses operation trace written → property written)
    (hruns : Runs (addresses.exec operation) next trace) : next.All property := by
  rcases Addresses.runs_exec hruns with rfl | ⟨i, rfl⟩ | ⟨i, written, hwritten, rfl⟩
  · exact haddresses
  · exact Addresses.all_unset haddresses i
  · exact Addresses.all_set haddresses i (hwrites written hwritten)

theorem AddressOp.live_of_copies {copy : Address × Address}
    (hcopies : operation.copies addresses = some copy) : ∃ j, addresses j = some copy.2 := by
  cases operation with
  | copy i j =>
      simp only [copies, Option.bind_eq_bind, Option.bind_eq_some_iff, Option.pure_def] at hcopies
      obtain ⟨target, -, src, hsrc, hcopy⟩ := hcopies
      exact ⟨j, Option.some.inj hcopy ▸ hsrc⟩
  | copyNew i j memory =>
      simp only [copies, Option.bind_eq_bind, Option.bind_eq_some_iff, Option.pure_def] at hcopies
      obtain ⟨src, hsrc, hcopy⟩ := hcopies
      exact ⟨j, Option.some.inj hcopy ▸ hsrc⟩
  | _ => cases hcopies

end Addresses

/-! ### The law over runs -/

/-- An IPv4 address, or a null one whose address bytes are those the default constructor leaves. -/
def Address.Settled (address : Address) : Prop :=
  address.addrLen = 16 ∨ address.addrLen = 0 ∧ address.getInAddr = inaddrAny

/-- A null address is copied only over storage whose address bytes are zero. -/
def KeepsNull (step : Step libc Addresses AddressOp Unit) : Prop :=
  ∀ copy ∈ step.operation.copies step.before,
    copy.2.addrLen = 0 → copy.1.getInAddr = inaddrAny

instance (step : Step libc Addresses AddressOp Unit) : Decidable (KeepsNull step) :=
  inferInstanceAs (Decidable (∀ copy ∈ step.operation.copies step.before,
    copy.2.addrLen = 0 → copy.1.getInAddr = inaddrAny))

/-- What `operator==`, copies and the two readers promise about a pair of addresses. -/
structure Faithful (a b : Address) : Prop where
  equals : ∀ world history, ((a.equals b).run world history).1 = true ↔ a.Equal b
  copy : ∀ world history, ((a.copy b).run world history).1.Equal b
  copyNew : ∀ memory world history, ((Address.copyNew memory b).run world history).1.Equal b
  getInAddr : a.Equal b → a.getInAddr = b.getInAddr
  print : a.Equal b → ∀ {File : Type} (stdout out : File), a.print stdout out = b.print stdout out

section Settled

variable {a b : Address}

theorem Address.Settled.nullOrInet (ha : a.Settled) : a.NullOrInet :=
  ha.elim Or.inr fun hnull => Or.inl hnull.1

theorem Address.getInAddr_of_equal (ha : a.Settled) (hb : b.Settled) (hequal : a.Equal b) :
    a.getInAddr = b.getInAddr := by
  rcases ha with hinet | ⟨hnull, hany⟩
  · rw [eq_of_equal hinet hequal]
  · rcases hb with hinet | ⟨-, hany'⟩
    · exact absurd (hnull.symm.trans (hequal.1.trans hinet)) (by decide)
    · rw [hany, hany']

theorem Address.run_copy (world : World libc) (history : History libc) :
    ((a.copy b).run world history).1 = a.copied b := by
  obtain ⟨trace, hruns, -⟩ := exists_runs_run world (a.copy b) history
  exact (Address.runs_copy.mp hruns).2

theorem faithful_of_settled (ha : a.Settled) (hb : b.Settled) : Faithful a b where
  equals := fun world history => by
    obtain ⟨trace, hruns, -⟩ := exists_runs_run world (a.equals b) history
    exact Address.equals_iff hruns
  copy := fun world history => by
    rw [Address.run_copy]
    exact Address.copied_equal hb.nullOrInet
  copyNew := fun memory world history => by
    rw [Address.copyNew, Address.run_copy]
    exact Address.copied_equal hb.nullOrInet
  getInAddr := Address.getInAddr_of_equal ha hb
  print := fun hequal _ => Address.print_of_equal ha.nullOrInet hequal

theorem Address.settled_copied {target src : Address} (hsrc : src.Settled)
    (hkeeps : src.addrLen = 0 → target.getInAddr = inaddrAny) :
    (target.copied src).Settled := by
  rcases hsrc with hinet | ⟨hnull, -⟩
  · rw [Address.copied_of_inet hinet]
    exact Or.inl hinet
  · rw [Address.copied_of_null hnull]
    exact Or.inr ⟨rfl, hkeeps hnull⟩

theorem Address.settled_hosted {hostname : String} {res : SockAddr} (port : Int)
    (hinet : ResolvesInet ⟨.getaddrinfo hostname, some res⟩) :
    (Address.hosted res port).Settled := by
  cases res with
  | inet addr =>
      exact Or.inl ((Address.addrLen_hosted _ port).trans (SockAddr.addrlen_inet addr))
  | inet6 body => exact hinet.elim

theorem Writes.settled {addresses : Addresses} {operation : AddressOp} {trace : History libc}
    {written : Address} (haddresses : addresses.All Address.Settled)
    (hinet : ∀ event ∈ trace, ResolvesInet event)
    (hkeeps : ∀ copy ∈ operation.copies addresses,
      copy.2.addrLen = 0 → copy.1.getInAddr = inaddrAny)
    (hwrites : Writes addresses operation trace written) : written.Settled := by
  cases hwrites with
  | null => exact Or.inr ⟨rfl, rfl⟩
  | copied hcopies =>
      obtain ⟨j, hsrc⟩ := AddressOp.live_of_copies hcopies
      exact Address.settled_copied (haddresses j _ hsrc) (hkeeps _ hcopies)
  | hosted port hres => exact Address.settled_hosted port (hinet _ hres)
  | filled hlength => exact Or.inl hlength

end Settled

theorem Addresses.all_settled {steps : List (Step libc Addresses AddressOp Unit)}
    {addresses : Addresses}
    (hexecution : Execution Addresses.invoke (fun _ => none) steps addresses)
    (hinet : ∀ step ∈ steps, ∀ event ∈ step.trace, ResolvesInet event)
    (hkeeps : ∀ step ∈ steps, KeepsNull step) : addresses.All Address.Settled := by
  refine Execution.induction (Addresses.All Address.Settled)
    (fun step => (∀ event ∈ step.trace, ResolvesInet event) ∧ KeepsNull step) ?_ ?_
    hexecution fun step hstep => ⟨hinet step hstep, hkeeps step hstep⟩
  · intro i address hlive
    cases hlive
  · rintro step ⟨hinet, hkeeps⟩ hbefore hruns
    obtain ⟨after, hexec, hresult⟩ := runs_bind_pure.mp hruns
    obtain rfl : step.after = after := congrArg Prod.snd hresult
    exact Addresses.all_exec hbefore (fun _ => Writes.settled hbefore hinet hkeeps) hexec

/-- **Equality and copies of addresses are faithful** over any operations that resolve no name to an
IPv6 address and that copy a null address only over zero address bytes. -/
theorem addresses_equal_faithfully {steps : List (Step libc Addresses AddressOp Unit)}
    {addresses : Addresses}
    (hexecution : Execution Addresses.invoke (fun _ => none) steps addresses)
    (hinet : ∀ step ∈ steps, ∀ event ∈ step.trace, ResolvesInet event)
    (hkeeps : ∀ step ∈ steps, KeepsNull step) :
    Equivalence Address.Equal ∧
      ∀ i j a b, addresses i = some a → addresses j = some b → Faithful a b := by
  have hsettled := Addresses.all_settled hexecution hinet hkeeps
  refine ⟨Address.equal_equivalence, ?_⟩
  intro i j a b ha hb
  exact faithful_of_settled (hsettled i a ha) (hsettled j b hb)

def groupResolved : World libc := fun _ request =>
  match request with
  | .getaddrinfo _ => some (.inet ⟨0, ⟨224, 5, 23, 2⟩, Vector.replicate 8 0⟩)
  | .recvfrom _ _ => .failed
  | .memset _ | .memcpy _ | .memcmp _ => ()
  | .socket | .setsockopt _ _ | .bind _ _ _ | .close _ | .getfl _ | .setfl _ _
  | .sendto _ _ _ _ _ | .poll _ _ => (0 : Int)

theorem groupResolved_resolvesInet (history : History libc) (request : LibcCall) :
    ResolvesInet ⟨request, groupResolved history request⟩ := by
  cases request <;> trivial

theorem addresses_equal_faithfully_copying :
    let run := execute Addresses.invoke groupResolved (fun _ => none)
      [.new 0 Address.zero, .setHost 0 "224.5.23.2" 10002, .new 1 Address.zero, .copy 1 0,
        .new 2 Address.zero, .copyNew 3 2 Address.zero, .copy 2 3]
    Equivalence Address.Equal ∧
      ∀ i j a b, run.2 i = some a → run.2 j = some b → Faithful a b :=
  addresses_equal_faithfully (execution_execute groupResolved (fun _ => none) _)
    (forall_mem_execute groupResolved_resolvesInet _ _) (by decide +kernel)

/-- A null address copied over the address of a group is equal to it and still reads as the
group. -/
theorem copied_null_reads_group :
    let run := execute Addresses.invoke groupResolved (fun _ => none)
      [.new 0 Address.zero, .setHost 0 "224.5.23.2" 10002, .new 1 Address.zero, .copy 0 1]
    Execution Addresses.invoke (fun _ => none) run.1 run.2 ∧
      (∀ step ∈ run.1, ∀ event ∈ step.trace, ResolvesInet event) ∧
      ¬∀ i j a b, run.2 i = some a → run.2 j = some b → Faithful a b := by
  intro run
  refine ⟨execution_execute _ _ _, forall_mem_execute groupResolved_resolvesInet _ _, ?_⟩
  intro hfaithful
  let null : Address := Address.zero
  let stale : Address := ⟨#v[2, 0, 39, 18, 224, 5, 23, 2, 0, 0, 0, 0, 0, 0, 0, 0], 0⟩
  have hstale : run.2 0 = some stale := by decide +kernel
  have hnull : run.2 1 = some null := by decide +kernel
  have hreads := (hfaithful 0 1 stale null hstale hnull).getInAddr ⟨rfl, rfl⟩
  exact absurd hreads (by decide)

end FiraClient.Net
