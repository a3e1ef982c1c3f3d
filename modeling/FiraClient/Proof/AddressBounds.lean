import FiraClient.Proof.Traces

/-!
# Address copies and their storage

The storage of an `Address` holds sixteen bytes. The length comes from `getaddrinfo` in `setHost`
and from `recvfrom` in `recv`, and every copy and comparison goes by it. An IPv4 address fits; an
IPv6 address does not, and nothing keeps it out.
-/

namespace FiraClient.Net

open Interaction

/-- A call of a memory function stays in the storage. -/
def Fits (event : Event libc) : Prop :=
  match event.call with
  | .memset size | .memcpy size | .memcmp size => size ≤ sizeofSockaddr
  | _ => True

def ResolvesInet (event : Event libc) : Prop :=
  match event with
  | ⟨.getaddrinfo _, some (.inet6 _)⟩ => False
  | _ => True

def Address.InBounds (address : Address) : Prop := address.addrLen ≤ sizeofSockaddr

def Addresses.All (property : Address → Prop) (addresses : Addresses) : Prop :=
  ∀ i address, addresses i = some address → property address

def Addresses.InBounds (addresses : Addresses) : Prop :=
  ∀ i address, addresses i = some address → address.InBounds

/-- Calls that all stay in the storage exactly when no name resolves to an IPv6 address, and then
leave what is `inBounds`. -/
structure Bounded (trace : History libc) (inBounds : Prop) : Prop where
  fits_iff : (∀ event ∈ trace, Fits event) ↔ ∀ event ∈ trace, ResolvesInet event
  inBounds_of_fits : (∀ event ∈ trace, Fits event) → inBounds

theorem Bounded.of_forall {trace : History libc} {inBounds : Prop}
    (htrace : ∀ event ∈ trace, Fits event ∧ ResolvesInet event) (hinBounds : inBounds) :
    Bounded trace inBounds where
  fits_iff := iff_of_true (fun event hevent => (htrace event hevent).1)
    fun event hevent => (htrace event hevent).2
  inBounds_of_fits := fun _ => hinBounds

theorem Bounded.imp {trace : History libc} {inBounds inBounds' : Prop}
    (hbounded : Bounded trace inBounds) (himp : inBounds → inBounds') :
    Bounded trace inBounds' :=
  ⟨hbounded.fits_iff, fun hfits => himp (hbounded.inBounds_of_fits hfits)⟩

section Address

variable {self next src : Address} {ok : Bool} {trace : History libc}

theorem Address.bounded_reset (hruns : Runs self.reset next trace) :
    Bounded trace next.InBounds := by
  obtain ⟨hclears, rfl⟩ := Address.runs_reset.mp hruns
  exact .of_forall (hclears.forall_mem fun _ => ⟨le_refl 16, trivial⟩) (Nat.zero_le _)

theorem Address.bounded_copy (hsrc : src.InBounds) (hruns : Runs (self.copy src) next trace) :
    Bounded trace next.InBounds := by
  obtain ⟨hcopies, hnext⟩ := Address.runs_copy.mp hruns
  have hlength : next.addrLen = src.addrLen := by rw [hnext]
  exact .of_forall (hcopies.forall_mem fun _ => ⟨hsrc, trivial⟩) (hlength.trans_le hsrc)

theorem Address.bounded_equals (hself : self.InBounds) (hruns : Runs (self.equals src) ok trace) :
    Bounded trace True :=
  .of_forall ((Address.runs_equals hruns).forall_mem fun _ => ⟨hself, trivial⟩) trivial

theorem Address.bounded_setAny {port : Int} (hruns : Runs (self.setAny port) next trace) :
    Bounded trace next.InBounds := by
  obtain ⟨hclears, hlength, -⟩ := Address.runs_setAny hruns
  exact .of_forall (hclears.forall_mem fun _ => ⟨le_refl 16, trivial⟩) hlength.le

theorem Address.addrLen_hosted (res : SockAddr) (port : Int) :
    (Address.hosted res port).addrLen = res.addrlen := by
  simp only [Address.hosted]
  split <;> rfl

/-- The one operation that can leave the storage: it copies what the name resolved to. -/
theorem Address.bounded_setHost {hostname : String} {port : Int} (hself : self.InBounds)
    (hruns : Runs (self.setHost hostname port) (ok, next) trace) :
    Bounded trace next.InBounds := by
  obtain ⟨res, filling, rfl, hfilling⟩ := Address.runs_setHost hruns
  cases res with
  | none =>
      obtain ⟨-, rfl, rfl⟩ := hfilling
      exact .of_forall (List.forall_mem_singleton.mpr ⟨trivial, trivial⟩) hself
  | some res =>
      obtain ⟨-, hnext, _, _, rfl, ⟨cleared, rfl⟩, copied, rfl⟩ := hfilling
      have hlength : next.addrLen = res.addrlen := by rw [hnext, Address.addrLen_hosted]
      cases res with
      | inet addr =>
          refine .of_forall ?_ (hlength.trans (SockAddr.addrlen_inet addr)).le
          simp [Fits, ResolvesInet, sizeofSockaddr]
      | inet6 body =>
          -- the copy of 28 bytes is the failure, whatever comes of it
          have hcopy : ¬∀ event ∈ [(⟨.getaddrinfo hostname, some (.inet6 body)⟩ : Event libc),
              ⟨.memset 16, cleared⟩, ⟨.memcpy (SockAddr.inet6 body).addrlen, copied⟩],
              Fits event := by
            simp [Fits, sizeofSockaddr]
          exact ⟨iff_of_false hcopy (by simp [ResolvesInet]), fun hfits => absurd hfits hcopy⟩

theorem UDP.bounded_recv {udp : UDP} {length : Int}
    {result : Int × List UInt8 × UDP × Address} (hruns : Runs (udp.recv length src) result trace) :
    Bounded trace result.2.2.2.InBounds := by
  obtain ⟨outcome, rfl, rfl⟩ := UDP.runs_recv.mp hruns
  refine .of_forall (List.forall_mem_singleton.mpr ⟨trivial, trivial⟩) ?_
  cases outcome with
  | failed => exact le_refl 16
  | datagram payload source => exact (SockAddrIn.length_bytes source).le

end Address

section Addresses

variable {addresses next : Addresses} {trace : History libc}

section All

variable {property : Address → Prop} (haddresses : addresses.All property) (i : Nat)

include haddresses

theorem Addresses.all_update {address : Option Address}
    (haddress : ∀ live ∈ address, property live) : (addresses.set i address).All property := by
  intro k live hlive
  by_cases hk : k = i
  · rw [Addresses.set, hk, Function.update_self] at hlive
    exact haddress live hlive
  · rw [Addresses.set, Function.update_of_ne hk] at hlive
    exact haddresses k live hlive

theorem Addresses.all_set {address : Address} (haddress : property address) :
    (addresses.set i (some address)).All property := by
  apply Addresses.all_update haddresses
  rintro live ⟨⟩
  exact haddress

theorem Addresses.all_unset : (addresses.set i none).All property :=
  Addresses.all_update haddresses i nofun

end All

theorem Addresses.bounded_withLive {i : Nat} {operation : Address → Prog libc Addresses}
    (haddresses : addresses.InBounds)
    (hoperation : ∀ address : Address, address.InBounds →
      Runs (operation address) next trace → Bounded trace next.InBounds)
    (hruns : Runs (addresses.withLive i operation) next trace) : Bounded trace next.InBounds := by
  rcases Addresses.runs_withLive hruns with ⟨rfl, rfl⟩ | ⟨address, hlive, hoperates⟩
  · exact .of_forall (List.forall_mem_nil _) haddresses
  · exact hoperation address (haddresses i address hlive) hoperates

theorem Addresses.bounded_modify {i : Nat} {operation : Address → Prog libc Address}
    (haddresses : addresses.InBounds)
    (hoperation : ∀ self written : Address, self.InBounds →
      Runs (operation self) written trace → Bounded trace written.InBounds)
    (hruns : Runs (addresses.modify i operation) next trace) : Bounded trace next.InBounds := by
  refine Addresses.bounded_withLive haddresses (fun self hself hwrites => ?_) hruns
  obtain ⟨written, hwritten, rfl⟩ := runs_bind_pure.mp hwrites
  exact (hoperation self written hself hwritten).imp (Addresses.all_set haddresses i)

/-- **Every operation on objects in bounds** stays in the storage exactly when it resolves no name
to an IPv6 address, and then leaves them in bounds. -/
theorem Addresses.bounded_exec {operation : AddressOp} (haddresses : addresses.InBounds)
    (hruns : Runs (addresses.exec operation) next trace) : Bounded trace next.InBounds := by
  cases operation with
  | new i memory =>
      obtain ⟨written, hwritten, rfl⟩ := runs_bind_pure.mp hruns
      exact (Address.bounded_reset hwritten).imp (Addresses.all_set haddresses i)
  | copyNew i j memory =>
      refine Addresses.bounded_withLive haddresses (fun src hsrc hcopies => ?_) hruns
      obtain ⟨written, hwritten, rfl⟩ := runs_bind_pure.mp hcopies
      exact (Address.bounded_copy hsrc hwritten).imp (Addresses.all_set haddresses i)
  | destroy i =>
      refine Addresses.bounded_withLive haddresses (fun self _ hdestroys => ?_) hruns
      obtain ⟨destroyed, hdestroyed, rfl⟩ := runs_bind_pure.mp hdestroys
      exact (Address.bounded_reset hdestroyed).imp fun _ => Addresses.all_unset haddresses i
  | setHost i hostname port =>
      refine Addresses.bounded_modify haddresses (fun self _ hself hwrites => ?_) hruns
      obtain ⟨⟨ok, written⟩, hwritten, rfl⟩ := runs_bind_pure.mp hwrites
      exact Address.bounded_setHost hself hwritten
  | setAny i port =>
      exact Addresses.bounded_modify haddresses (fun _ _ _ => Address.bounded_setAny) hruns
  | copy i j =>
      refine Addresses.bounded_withLive haddresses (fun src hsrc hcopies => ?_) hruns
      exact Addresses.bounded_modify haddresses (fun _ _ _ => Address.bounded_copy hsrc) hcopies
  | reset i =>
      exact Addresses.bounded_modify haddresses (fun _ _ _ => Address.bounded_reset) hruns
  | clear i =>
      exact Addresses.bounded_modify haddresses (fun _ _ _ => Address.bounded_reset) hruns
  | equals i j =>
      refine Addresses.bounded_withLive haddresses (fun self hself hreads => ?_) hruns
      refine Addresses.bounded_withLive haddresses (fun other _ hcompares => ?_) hreads
      obtain ⟨result, hresult, rfl⟩ := runs_bind_pure.mp hcompares
      exact (Address.bounded_equals hself hresult).imp fun _ => haddresses
  | recv i udp length =>
      refine Addresses.bounded_modify haddresses (fun _ _ _ hwrites => ?_) hruns
      obtain ⟨result, hreceived, rfl⟩ := runs_bind_pure.mp hwrites
      exact UDP.bounded_recv hreceived

end Addresses

/-- The bounds, which hold for as long as no call has left the storage. -/
theorem bounded_append {addresses next : Addresses} {history trace : History libc}
    (hhistory : Bounded history addresses.InBounds)
    (htrace : addresses.InBounds → Bounded trace next.InBounds) :
    Bounded (history ++ trace) next.InBounds := by
  by_cases hfits : ∀ event ∈ history, Fits event
  · have hnext := htrace (hhistory.inBounds_of_fits hfits)
    refine ⟨?_, fun hall => hnext.inBounds_of_fits (List.forall_mem_append.mp hall).2⟩
    rw [List.forall_mem_append, List.forall_mem_append, hhistory.fits_iff, hnext.fits_iff]
  · refine ⟨?_, fun hall => absurd (List.forall_mem_append.mp hall).1 hfits⟩
    rw [List.forall_mem_append, List.forall_mem_append, ← hhistory.fits_iff]
    exact ⟨fun hall => absurd hall.1 hfits, fun hall => absurd hall.1 hfits⟩

/-- **Address copies stay inside their storage exactly when** no name is resolved to an IPv6 address:
over any operations on any number of objects, whatever the calls answer. -/
theorem addresses_inBounds_iff (operations : List AddressOp) (world : World libc) :
    let run := (runAll Addresses.exec (fun _ => none) operations).run world []
    ((∀ event ∈ run.2, Fits event) ∧ run.1.InBounds) ↔ ∀ event ∈ run.2, ResolvesInet event := by
  intro run
  have hbounded : Bounded run.2 run.1.InBounds := by
    refine Runs.runAll (fun addresses history => Bounded history addresses.InBounds) ?_ ?_
      (runs_run_nil world (runAll Addresses.exec (fun _ => none) operations))
    · intro addresses operation history next trace hhistory hexec
      exact bounded_append hhistory fun haddresses => Addresses.bounded_exec haddresses hexec
    · exact .of_forall (List.forall_mem_nil _) nofun
  rw [← hbounded.fits_iff]
  exact ⟨And.left, fun hfits => ⟨hfits, hbounded.inBounds_of_fits hfits⟩⟩

def ipv6Loopback : World libc := fun _ request =>
  match request with
  | .getaddrinfo _ => some (.inet6 ((Vector.replicate 26 0).set 21 1))
  | .recvfrom _ _ => .failed
  | .memset _ | .memcpy _ | .memcmp _ => ()
  | .socket | .setsockopt _ _ | .bind _ _ _ | .close _ | .getfl _ | .setfl _ _
  | .sendto _ _ _ _ _ | .poll _ _ => (0 : Int)

/-- The 28 bytes of an IPv6 address are copied over the sixteen of the storage. -/
theorem setHost_overflows :
    let run := (runAll Addresses.exec (fun _ => none)
      [.new 0 Address.zero, .setHost 0 "localhost" 10002]).run ipv6Loopback []
    ¬((∀ event ∈ run.2, Fits event) ∧ run.1.InBounds) := by
  intro run hinBounds
  have hcopy : (⟨.memcpy 28, ()⟩ : Event libc) ∈ run.2 := by decide +kernel
  exact absurd (show 28 ≤ sizeofSockaddr from hinBounds.1 _ hcopy) (by decide)

end FiraClient.Net
