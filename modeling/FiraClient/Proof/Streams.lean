import FiraClient.Pb.Generated
import FiraClient.Proof.Varints

/-!
# What reading leaves of the stream

Every read that succeeds leaves the stream before the limit it was given, with the recursion budget
it found; and nothing but the end of a group depends on the last tag. Nested messages get the limit
and the budget back that they pushed, so this goes up from the primitive reads to whole parsers.
-/

namespace FiraClient.Pb

open CodedInputStream

/-! ### Advancing -/

namespace CodedInputStream

variable {input middle after : CodedInputStream}

theorem Advances.refl (input : CodedInputStream) : input.Advances input where
  buffer := List.suffix_refl _
  afterLimit := rfl
  recursionBudget := fun _ => rfl

theorem Advances.trans (hfirst : input.Advances middle) (hsecond : middle.Advances after) :
    input.Advances after where
  buffer := hsecond.buffer.trans hfirst.buffer
  afterLimit := hsecond.afterLimit.trans hfirst.afterLimit
  recursionBudget := fun hlimit => by
    have hmiddle := hfirst.recursionBudget hlimit
    rw [hsecond.recursionBudget (hmiddle.trans_le hlimit), hmiddle]

theorem Advances.withBuffer {buffer : List UInt8} (hbuffer : buffer <:+ input.buffer) :
    input.Advances (input.withBuffer buffer) where
  buffer := hbuffer
  afterLimit := rfl
  recursionBudget := fun _ => rfl

theorem Advances.withLastTag (hadvances : input.Advances after) (tag : UInt32) :
    input.Advances (after.withLastTag tag) where
  buffer := hadvances.buffer
  afterLimit := hadvances.afterLimit
  recursionBudget := hadvances.recursionBudget

theorem incrementRecursionDepth_eq_some_iff :
    input.incrementRecursionDepth = some after ↔
      1 ≤ input.recursionBudget ∧ after = input.withBudget (-1) := by
  simp only [incrementRecursionDepth, withBudget, ge_iff_le, ← Int.sub_eq_add_neg]
  by_cases hbudget : 0 ≤ input.recursionBudget - 1
  · rw [if_pos hbudget, Option.some.injEq]
    exact ⟨fun heq => ⟨by omega, heq.symm⟩, fun hafter => hafter.2.symm⟩
  · rw [if_neg hbudget]
    constructor
    · intro hnone
      cases hnone
    · intro hafter
      omega

/-- One level deeper and back. -/
theorem Advances.unsafeDecrement (hadvances : (input.withBudget (-1)).Advances after) :
    input.Advances after.unsafeDecrementRecursionDepth where
  buffer := hadvances.buffer
  afterLimit := hadvances.afterLimit
  recursionBudget := fun hlimit => by
    have hinner := hadvances.recursionBudget
    simp only [withBudget, unsafeDecrementRecursionDepth] at hinner ⊢
    omega

theorem Advances.decrement (hadvances : (input.withBudget (-1)).Advances after) :
    input.Advances after.decrementRecursionDepth := by
  unfold decrementRecursionDepth
  split
  · exact hadvances.unsafeDecrement
  · rename_i hbudget
    refine ⟨hadvances.buffer, hadvances.afterLimit, fun hlimit => ?_⟩
    have hinner := hadvances.recursionBudget
    simp only [withBudget] at hinner
    omega

theorem suffix_of_readTag {tag : ℕ} {bytes rest : List UInt8}
    (htag : Wire.readTag bytes = some (tag, rest)) : rest <:+ bytes := by
  obtain ⟨value, hdecode, -⟩ := Wire.decode_of_readTag htag
  exact suffix_of_decode hdecode

theorem TagRead.advances {read : UInt32 × CodedInputStream} (hread : input.TagRead read) :
    input.Advances read.2 := by
  by_cases hbuffer : input.buffer = []
  · rw [hread.atEnd hbuffer]
    exact ⟨List.suffix_refl _, rfl, fun _ => rfl⟩
  cases htag : Wire.readTag input.buffer with
  | some result =>
      rw [hread.of_some _ _ htag]
      exact Advances.withBuffer (suffix_of_readTag htag)
  | none =>
      obtain ⟨rest, hrest, hresult⟩ := hread.of_none hbuffer htag
      rw [hresult]
      exact Advances.withBuffer hrest

/-- A tag that is not zero was read from the buffer. -/
theorem TagRead.length_lt {read : UInt32 × CodedInputStream} (hread : input.TagRead read)
    (htag : read.1 ≠ 0) : read.2.buffer.length < input.buffer.length := by
  by_cases hbuffer : input.buffer = []
  · rw [hread.atEnd hbuffer] at htag
    exact absurd rfl htag
  cases hwire : Wire.readTag input.buffer with
  | some result =>
      rw [hread.of_some _ _ hwire]
      exact Wire.length_lt_of_readTag hwire
  | none =>
      obtain ⟨rest, -, hresult⟩ := hread.of_none hbuffer hwire
      rw [hresult] at htag
      exact absurd rfl htag

end CodedInputStream

/-- A read of a value leaves a suffix of the buffer when it succeeds. -/
def LeavesSuffix {α : Type} (read : List UInt8 → Option α × List UInt8) : Prop :=
  ∀ ⦃buffer value rest⦄, read buffer = (some value, rest) → rest <:+ buffer

theorem ReadsVarint.leavesSuffix {α : Type} {convert : ℕ → Option α}
    {read : List UInt8 → Option α × List UInt8} (hreads : ReadsVarint convert read) :
    LeavesSuffix read := by
  intro buffer value rest hread
  have hvarint := hreads buffer
  cases hdecode : Varint.decode 10 buffer with
  | none =>
      simp only [hdecode, hread] at hvarint
      cases hvarint
  | some decoded =>
      simp only [hdecode] at hvarint
      split at hvarint
      · rw [hread] at hvarint
        rw [(Prod.mk.inj hvarint).2]
        exact suffix_of_decode hdecode
      · rw [hread] at hvarint
        cases hvarint

theorem readLittleEndian64_leavesSuffix : LeavesSuffix readLittleEndian64 := by
  intro buffer value rest hread
  unfold readLittleEndian64 at hread
  split at hread
  · rw [← (Prod.mk.inj hread).2]
    exact List.drop_suffix 8 buffer
  · cases hread

theorem readLittleEndian32_leavesSuffix : LeavesSuffix readLittleEndian32 := by
  intro buffer value rest hread
  unfold readLittleEndian32 at hread
  split at hread
  · rw [← (Prod.mk.inj hread).2]
    exact List.drop_suffix 4 buffer
  · cases hread

theorem LeavesSuffix.advances {α : Type} {read : List UInt8 → Option α × List UInt8}
    (hread : LeavesSuffix read) {input after : CodedInputStream} {value : α}
    (hresult : input.onBuffer read = (some value, after)) : input.Advances after := by
  obtain ⟨hvalue, hafter⟩ := Prod.mk.inj hresult
  rw [← hafter]
  exact Advances.withBuffer (hread (Prod.ext hvalue rfl))

/-! ### Unknown fields -/

/-- What the functions that skip do: they advance, and do not look at the last tag. -/
def Skips (skip : CodedInputStream → Option CodedInputStream) : Prop :=
  ∀ ⦃input after⦄, skip input = some after → input.Advances after

theorem skip_advances {input after : CodedInputStream} {count : Int}
    (hskip : input.skip count = some after) : input.Advances after := by
  unfold CodedInputStream.skip at hskip
  split at hskip
  · cases hskip
  split at hskip
  · rw [← Option.some.inj hskip]
    exact Advances.withBuffer (List.drop_suffix _ _)
  · cases hskip

theorem skipFieldWith_skips {skipMessage : CodedInputStream → Option CodedInputStream}
    (hmessage : Skips skipMessage) (tag : UInt32) :
    Skips fun input => skipFieldWith skipMessage input tag := by
  intro input after hskip
  simp only [skipFieldWith] at hskip
  split at hskip
  · cases hskip
  split at hskip
  · split at hskip
    · rename_i value next hread
      cases hskip
      exact readVarint64_reads.leavesSuffix.advances hread
    · cases hskip
  · split at hskip
    · rename_i value next hread
      cases hskip
      exact readLittleEndian64_leavesSuffix.advances hread
    · cases hskip
  · split at hskip
    · rename_i length next hread
      exact (readVarint32_reads.leavesSuffix.advances hread).trans (skip_advances hskip)
    · cases hskip
  · obtain ⟨member, hmember, hend⟩ := Option.bind_eq_some_iff.mp hskip
    obtain ⟨deeper, hdeeper, hskipped⟩ := Option.bind_eq_some_iff.mp hmember
    obtain ⟨-, rfl⟩ := incrementRecursionDepth_eq_some_iff.mp hdeeper
    have hafter : after = member.decrementRecursionDepth := by
      split at hend
      · exact (Option.some.inj hend).symm
      · cases hend
    rw [hafter]
    exact (hmessage hskipped).decrement
  · cases hskip
  · split at hskip
    · rename_i value next hread
      cases hskip
      exact readLittleEndian32_leavesSuffix.advances hread
    · cases hskip
  · cases hskip

theorem readTag_eq (input : CodedInputStream) :
    ∃ read, input.TagRead read ∧ input.readTag = (read.1, read.2.withLastTag read.1) :=
  ⟨_, input.readTagNoLastTag_spec, rfl⟩

section SkipMessage

variable {skipMember : CodedInputStream → UInt32 → Option CodedInputStream}
  (hmember : ∀ tag, Skips fun input => skipMember input tag)

include hmember

theorem skipMessageLoop_round {input next : CodedInputStream}
    (hbody : (skipMessageLoop skipMember).body input = .inr next) :
    input.Advances next ∧ next.buffer.length < input.buffer.length := by
  obtain ⟨read, hread, heq⟩ := readTag_eq input
  simp only [skipMessageLoop, heq] at hbody
  split at hbody
  · cases hbody
  rename_i htag
  split at hbody
  · cases hbody
  split at hbody
  · cases hbody
  · rename_i member hskip
    cases hbody
    have hadvances := hmember _ hskip
    exact ⟨(hread.advances.withLastTag read.1).trans hadvances,
      hadvances.buffer.length_le.trans_lt (hread.length_lt htag)⟩

theorem skipMessageLoop_decreasing : (skipMessageLoop skipMember).Decreasing :=
  fun _ _ hbody => (skipMessageLoop_round hmember hbody).2

theorem skipMessageLoop_skips : Skips (skipMessageLoop skipMember).run := by
  intro input after hrun
  refine Loop.run_induction (skipMessageLoop_decreasing hmember)
    (fun input result => ∀ after, result = some after → input.Advances after) ?_ ?_
    input after hrun
  · intro input result hbody after hresult
    subst hresult
    obtain ⟨read, hread, heq⟩ := readTag_eq input
    have hadvances := hread.advances.withLastTag read.1
    simp only [skipMessageLoop, heq] at hbody
    split at hbody
    · cases hbody
      exact hadvances
    split at hbody
    · cases hbody
      exact hadvances
    · split at hbody <;> cases hbody
  · intro input next hbody ih after hresult
    exact (skipMessageLoop_round hmember hbody).1.trans (ih after hresult)

end SkipMessage

theorem skipFieldWithin_skips (depth : ℕ) (tag : UInt32) :
    Skips fun input => skipFieldWithin depth input tag := by
  induction depth generalizing tag with
  | zero => exact skipFieldWith_skips (fun _ _ hskip => by cases hskip) tag
  | succ depth ih => exact skipFieldWith_skips (skipMessageLoop_skips ih) tag

theorem skipField_advances {input after : CodedInputStream} {tag : UInt32}
    (hskip : skipField input tag = some after) : input.Advances after :=
  skipFieldWithin_skips _ tag hskip

/-! ### Reading into messages -/

section Merges

variable {M N α : Type}

theorem readPrimitive_advancing {read : List UInt8 → Option α × List UInt8}
    (hread : LeavesSuffix read) (left : Option α) (set : M → α → M) :
    (readPrimitive read left set).Advancing := by
  intro message input message' after hmerge
  unfold readPrimitive at hmerge
  split at hmerge
  · rename_i value next hresult
    obtain ⟨-, hafter⟩ := Prod.mk.inj hmerge
    rw [← Option.some.inj hafter]
    exact hread.advances hresult
  · cases (Prod.mk.inj hmerge).2

/-- What is pushed, read before and popped again leaves the old limit in force. -/
theorem popLimit_advances {input after : CodedInputStream} {byteLimit : Int}
    (hadvances : (input.pushLimit byteLimit).2.Advances after) :
    input.Advances (after.popLimit (input.pushLimit byteLimit).1) := by
  have hbudget := hadvances.recursionBudget
  have hafter := hadvances.afterLimit
  obtain ⟨used, hused⟩ := hadvances.buffer
  simp only [pushLimit] at hbudget hafter hused ⊢
  split at hafter
  · rename_i hlimit
    rw [if_pos hlimit] at hbudget hused ⊢
    simp only at hbudget hafter hused ⊢
    refine ⟨?_, ?_, hbudget⟩
    · refine ⟨used, ?_⟩
      simp only [popLimit, hafter, List.length_append, Nat.add_sub_cancel]
      rw [List.take_left, ← List.append_assoc, hused, List.take_append_drop]
    · simp only [popLimit, hafter, List.length_append, Nat.add_sub_cancel]
      exact List.drop_left
  · rename_i hlimit
    rw [if_neg hlimit] at hbudget hused ⊢
    simp only at hbudget hafter hused ⊢
    refine ⟨⟨used, ?_⟩, ?_, hbudget⟩
    · simp only [popLimit, hafter, Nat.sub_self, List.take_zero, List.append_nil, hused]
    · simp only [popLimit, hafter, Nat.sub_self, List.drop_zero]

theorem readMessage_of_none {merge : Merge M} {value : M} {input : CodedInputStream}
    (hlength : (readVarintSizeAsInt input.buffer).1 = none) :
    readMessage merge value input = (value, none) := by
  simp only [readMessage, onBuffer, hlength]

theorem readMessage_of_some {merge : Merge M} {value : M} {input next : CodedInputStream}
    {length : Int} (hlength : input.onBuffer readVarintSizeAsInt = (some length, next)) :
    readMessage merge value input =
      if next.recursionBudget < 1 then (value, none)
      else
        ((merge value ((next.pushLimit length).2.withBudget (-1))).1,
          (merge value ((next.pushLimit length).2.withBudget (-1))).2.bind fun inner =>
            inner.decrementRecursionDepthAndPopLimit (next.pushLimit length).1) := by
  have hbudget : (next.pushLimit length).2.recursionBudget = next.recursionBudget := by
    simp only [pushLimit]
    split <;> rfl
  have hiff : next.recursionBudget - 1 < 0 ↔ next.recursionBudget < 1 := by omega
  simp only [readMessage, hlength, incrementRecursionDepthAndPushLimit, hbudget, hiff, withBudget,
    ← Int.sub_eq_add_neg]
  split
  · rfl
  · split
    · rename_i hmerge
      rw [hmerge]
      rfl
    · rename_i hmerge
      rw [hmerge]
      rfl

theorem readMessage_advancing {merge : Merge M} (hmerge : merge.Advancing) :
    (readMessage merge).Advancing := by
  intro value input value' after hread
  rcases hlength : input.onBuffer readVarintSizeAsInt with ⟨length, next⟩
  cases length with
  | none =>
      rw [readMessage_of_none (congrArg Prod.fst hlength)] at hread
      cases hread
  | some length =>
      have hnext := readVarintSizeAsInt_reads.leavesSuffix.advances hlength
      rw [readMessage_of_some hlength] at hread
      by_cases hbudget : next.recursionBudget < 1
      · rw [if_pos hbudget] at hread
        cases hread
      rw [if_neg hbudget] at hread
      obtain ⟨inner, hinner, hpop⟩ := Option.bind_eq_some_iff.mp (Prod.mk.inj hread).2
      have hadvances : ((next.pushLimit length).2.withBudget (-1)).Advances inner :=
        hmerge (Prod.ext rfl hinner)
      have hpopped : next.Advances
          (inner.unsafeDecrementRecursionDepth.popLimit (next.pushLimit length).1) :=
        popLimit_advances hadvances.unsafeDecrement
      have hafter : after =
          inner.unsafeDecrementRecursionDepth.popLimit (next.pushLimit length).1 := by
        simp only [decrementRecursionDepthAndPopLimit] at hpop
        split at hpop
        · exact (Option.some.inj hpop).symm
        · cases hpop
      rw [hafter]
      exact hnext.trans hpopped

theorem subMessage_advancing {read : Merge N} (hread : read.Advancing) (get : M → N)
    (set : M → N → M) : (subMessage get set read).Advancing := by
  intro message input message' after hmerge
  obtain ⟨-, hafter⟩ := Prod.mk.inj hmerge
  exact hread (Prod.ext rfl hafter)

end Merges

/-! ### The last tag -/

section Blind

variable {M N α : Type}

variable (input : CodedInputStream) (tag : UInt32)

theorem readTagSlow_withLastTag :
    (input.withLastTag tag).readTagSlow =
      (input.readTagSlow.1, input.readTagSlow.2.withLastTag tag) := by
  simp only [readTagSlow, onBuffer, withLastTag]
  cases (readVarint64 input.buffer).1 <;> rfl

theorem readTagFallback_withLastTag (firstByteOrZero : UInt32) :
    (input.withLastTag tag).readTagFallback firstByteOrZero =
      ((input.readTagFallback firstByteOrZero).1,
        (input.readTagFallback firstByteOrZero).2.withLastTag tag) := by
  have hbuffer : (input.withLastTag tag).buffer = input.buffer := rfl
  simp only [readTagFallback, hbuffer]
  by_cases hends : endsVarint input.buffer = true
  · simp only [if_pos hends]
    by_cases hzero : firstByteOrZero = 0
    · simp only [if_pos hzero]
      rfl
    · simp only [if_neg hzero]
      cases readVarint32FromArray firstByteOrZero input.buffer <;> rfl
  · simp only [if_neg hends]
    by_cases hnil : input.buffer = []
    · simp only [if_pos hnil]
      rfl
    · simp only [if_neg hnil]
      exact readTagSlow_withLastTag input tag

theorem readTagWithCutoff_withLastTag :
    (input.withLastTag tag).readTagWithCutoff 127 = input.readTagWithCutoff 127 := by
  have hbuffer : (input.withLastTag tag).buffer = input.buffer := rfl
  have hcutoff : ¬ (127 : UInt32) ≥ 0x80 := by decide
  simp only [readTagWithCutoff, readTagWithCutoffNoLastTag, hbuffer]
  cases input.buffer with
  | nil =>
      simp only [readTagFallback_withLastTag]
      rfl
  | cons b buffer =>
      by_cases hhot : 0 < b ∧ b < 0x80
      · cases buffer <;> simp only [if_pos hhot] <;> rfl
      · cases buffer <;>
          simp only [if_neg hhot, hcutoff, false_and, if_false, readTagFallback_withLastTag] <;> rfl

theorem incrementRecursionDepth_withLastTag :
    (input.withLastTag tag).incrementRecursionDepth =
      input.incrementRecursionDepth.map fun after => after.withLastTag tag := by
  simp only [incrementRecursionDepth, withLastTag]
  by_cases hbudget : input.recursionBudget - 1 ≥ 0
  · simp only [if_pos hbudget, Option.map_some]
    exact if_pos hbudget
  · simp only [if_neg hbudget, Option.map_none]
    exact if_neg hbudget

theorem readPrimitive_blind (read : List UInt8 → Option α × List UInt8) (left : Option α)
    (set : M → α → M) : (readPrimitive read left set).Blind := by
  intro message input tag
  simp only [readPrimitive, onBuffer]
  have hbuffer : (input.withLastTag tag).buffer = input.buffer := rfl
  rw [hbuffer]
  cases (read input.buffer).1 <;> rfl

theorem pushLimit_withLastTag (byteLimit : Int) :
    (input.withLastTag tag).pushLimit byteLimit =
      ((input.pushLimit byteLimit).1, (input.pushLimit byteLimit).2.withLastTag tag) := by
  simp only [pushLimit, withLastTag]
  by_cases hlimit : 0 ≤ byteLimit ∧ byteLimit < input.buffer.length
  · simp only [if_pos hlimit]
    exact if_pos hlimit
  · simp only [if_neg hlimit]
    exact if_neg hlimit

/-- A merge whose first step reads a tag does not see the one before. -/
def Merge.Forgets (merge : Merge M) : Prop :=
  ∀ message input tag, merge message (CodedInputStream.withLastTag input tag) = merge message input

theorem readMessage_blind {merge : Merge M} (hmerge : merge.Forgets) :
    (readMessage merge).Blind := by
  intro message input tag
  have hbuffer : (input.withLastTag tag).buffer = input.buffer := rfl
  rcases hlength : input.onBuffer readVarintSizeAsInt with ⟨length, next⟩
  have hlength' : (input.withLastTag tag).onBuffer readVarintSizeAsInt =
      (length, next.withLastTag tag) := by
    obtain ⟨hvalue, hafter⟩ := Prod.mk.inj hlength
    rw [onBuffer, hbuffer, hvalue, ← hafter]
    rfl
  cases length with
  | none =>
      rw [readMessage_of_none (congrArg Prod.fst hlength),
        readMessage_of_none (congrArg Prod.fst hlength')]
  | some length =>
      have hinner : ((next.pushLimit length).2.withLastTag tag).withBudget (-1) =
          ((next.pushLimit length).2.withBudget (-1)).withLastTag tag := rfl
      have hbudget : (next.withLastTag tag).recursionBudget = next.recursionBudget := rfl
      rw [readMessage_of_some hlength, readMessage_of_some hlength', pushLimit_withLastTag, hinner,
        hbudget, hmerge]

theorem subMessage_blind {read : Merge N} (hread : read.Blind) (get : M → N) (set : M → N → M) :
    (subMessage get set read).Blind := by
  intro message input tag
  have hinner := hread (get message) input tag
  obtain ⟨hvalue, hafter⟩ := Prod.mk.inj hinner
  exact Prod.ext (congrArg (set message) hvalue) hafter

end Blind

end FiraClient.Pb
