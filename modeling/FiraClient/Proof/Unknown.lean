import FiraClient.Proof.Streams
import Mathlib.Tactic.IntervalCases

/-!
# Unknown fields

`SkipField` passes over exactly what `Wire.skip` passes over, as deep as the recursion budget goes,
and gives the budget back. A group ends for it where a tag ends a group of its own number; the tags
of other groups, and the end of the stream, are told apart by the last tag.
-/

namespace FiraClient.Pb

open CodedInputStream

/-! ### Tags -/

def wireTypeOf : ℕ → Option WireType
  | 0 => some .varint
  | 1 => some .fixed64
  | 2 => some .lengthDelimited
  | 3 => some .startGroup
  | 4 => some .endGroup
  | 5 => some .fixed32
  | _ => none

theorem getTagWireType_eq (tag : UInt32) : getTagWireType tag = wireTypeOf (tag.toNat % 8) := by
  have hand : tag &&& 7 = UInt32.ofNat (tag.toNat % 8) := by
    rw [← UInt32.toNat_inj, UInt32.toNat_and, UInt32.toNat_ofNat',
      Nat.mod_eq_of_lt (show tag.toNat % 8 < 2 ^ 32 by omega)]
    exact Nat.and_two_pow_sub_one_eq_mod tag.toNat 3
  have hlt : tag.toNat % 8 < 8 := Nat.mod_lt _ (by decide)
  rw [getTagWireType, hand]
  generalize tag.toNat % 8 = shape at hlt
  interval_cases shape <;> rfl

theorem toNat_getTagFieldNumber (tag : UInt32) :
    (getTagFieldNumber tag).toNat = tag.toNat / 8 := by
  rw [getTagFieldNumber, UInt32.toNat_shiftRight]
  exact Nat.shiftRight_eq_div_pow tag.toNat 3

theorem toNat_makeTag {fieldNumber : UInt32} (hnumber : fieldNumber.toNat < 2 ^ 29)
    (type : WireType) :
    (makeTag fieldNumber type).toNat = 8 * fieldNumber.toNat + type.value.toNat := by
  have hvalue : type.value.toNat < 2 ^ 3 := by
    cases type <;> decide
  have hshift : (fieldNumber <<< 3).toNat = fieldNumber.toNat <<< 3 := by
    have hthree : (3 : UInt32).toNat % 32 = 3 := rfl
    rw [UInt32.toNat_shiftLeft, hthree, Nat.shiftLeft_eq]
    exact Nat.mod_eq_of_lt (by omega)
  rw [makeTag, UInt32.toNat_or, hshift, ← Nat.shiftLeft_add_eq_or_of_lt hvalue, Nat.shiftLeft_eq]
  omega

theorem isEndGroup_iff (tag : UInt32) :
    getTagWireType tag = some .endGroup ↔ tag.toNat % 8 = 4 := by
  have hlt : tag.toNat % 8 < 8 := Nat.mod_lt _ (by decide)
  rw [getTagWireType_eq]
  generalize tag.toNat % 8 = shape at hlt
  interval_cases shape <;> decide

theorem eq_endTag_iff {tag fieldNumber : UInt32} (hnumber : fieldNumber.toNat < 2 ^ 29)
    (hend : tag.toNat % 8 = 4) :
    tag = makeTag fieldNumber .endGroup ↔ tag.toNat / 8 = fieldNumber.toNat := by
  have hvalue : WireType.endGroup.value.toNat = 4 := rfl
  rw [← UInt32.toNat_inj, toNat_makeTag hnumber, hvalue]
  omega

theorem ofNat_tag_ne_zero {tag : ℕ} (htag : 0 < tag ∧ tag < 2 ^ 32) : UInt32.ofNat tag ≠ 0 := by
  intro hzero
  have hnat := congrArg UInt32.toNat hzero
  rw [UInt32.toNat_ofNat_of_lt' htag.2] at hnat
  exact htag.1.ne' hnat

theorem CodedInputStream.TagRead.fst_eq_zero {input : CodedInputStream}
    {read : UInt32 × CodedInputStream} (hread : input.TagRead read)
    (htag : Wire.readTag input.buffer = none) : read.1 = 0 := by
  by_cases hbuffer : input.buffer = []
  · rw [hread.atEnd hbuffer]
  · obtain ⟨rest, -, hresult⟩ := hread.of_none hbuffer htag
    rw [hresult]

/-! ### Following -/

/-- The outcome is the stream with what is left of the bytes, up to the last tag. -/
def Follows (input : CodedInputStream) (expected : Option (List UInt8))
    (outcome : Option CodedInputStream) : Prop :=
  match expected with
  | none => outcome = none
  | some rest => ∃ lastTag, outcome = some ((input.withBuffer rest).withLastTag lastTag)

/-- The outcome of the members of a group is that of its end tag, or has another last tag. -/
def FollowsGroup (input : CodedInputStream) (fieldNumber : UInt32)
    (expected : Option (List UInt8)) (outcome : Option CodedInputStream) : Prop :=
  match expected with
  | none => ∀ after, outcome = some after → after.lastTag ≠ makeTag fieldNumber .endGroup
  | some rest =>
      outcome = some ((input.withBuffer rest).withLastTag (makeTag fieldNumber .endGroup))

theorem follows_readVarint64 (input : CodedInputStream) :
    Follows input ((Varint.decode 10 input.buffer).map Prod.snd)
      (match input.onBuffer readVarint64 with
        | (some _, input) => some input
        | (none, _) => none) := by
  have hreads := readVarint64_reads input.buffer
  cases hdecode : Varint.decode 10 input.buffer with
  | none =>
      simp only [hdecode] at hreads
      simp only [onBuffer, hreads]
      rfl
  | some decoded =>
      simp only [hdecode, Function.comp_apply] at hreads
      simp only [onBuffer, hreads]
      exact ⟨input.lastTag, rfl⟩

theorem follows_readLittleEndian64 (input : CodedInputStream) :
    Follows input ((Wire.cut 8 input.buffer).map Prod.snd)
      (match input.onBuffer readLittleEndian64 with
        | (some _, input) => some input
        | (none, _) => none) := by
  simp only [Wire.cut, onBuffer, readLittleEndian64]
  split
  · exact ⟨input.lastTag, rfl⟩
  · rfl

theorem follows_readLittleEndian32 (input : CodedInputStream) :
    Follows input ((Wire.cut 4 input.buffer).map Prod.snd)
      (match input.onBuffer readLittleEndian32 with
        | (some _, input) => some input
        | (none, _) => none) := by
  simp only [Wire.cut, onBuffer, readLittleEndian32]
  split
  · exact ⟨input.lastTag, rfl⟩
  · rfl

theorem toInt_toInt32 (value : UInt32) :
    value.toInt32.toInt =
      if value.toNat < 2 ^ 31 then (value.toNat : Int) else (value.toNat : Int) - 2 ^ 32 := by
  have hcond : 2 * value.toNat < 2 ^ 32 ↔ value.toNat < 2 ^ 31 := by omega
  have htoInt : value.toInt32.toInt = value.toBitVec.toInt := rfl
  rw [htoInt, BitVec.toInt_eq_toNat_cond, UInt32.toNat_toBitVec]
  simp only [hcond]
  rfl

/-- The length is read as 32 bits and taken as signed, so from `2 ^ 31` on it is negative. -/
theorem follows_skip (input : CodedInputStream) (length : ℕ) :
    Follows input
      (if length % 2 ^ 32 < 2 ^ 31 then (Wire.cut (length % 2 ^ 32) input.buffer).map Prod.snd
        else none)
      (input.skip (UInt32.ofNat length).toInt32.toInt) := by
  rw [toInt_toInt32, UInt32.toNat_ofNat']
  have hlt : length % 2 ^ 32 < 2 ^ 32 := Nat.mod_lt _ (by decide)
  by_cases hsmall : length % 2 ^ 32 < 2 ^ 31
  · have hnonneg : ¬ ((length % 2 ^ 32 : ℕ) : Int) < 0 := by omega
    simp only [if_pos hsmall, CodedInputStream.skip, if_neg hnonneg, Wire.cut, Int.ofNat_le,
      Int.toNat_natCast]
    split
    · exact ⟨input.lastTag, rfl⟩
    · rfl
  · have hneg : ((length % 2 ^ 32 : ℕ) : Int) - 2 ^ 32 < 0 := by omega
    simp only [if_neg hsmall, CodedInputStream.skip, if_pos hneg]
    rfl

theorem follows_delimited (input : CodedInputStream) :
    Follows input
      (match Varint.decode 10 input.buffer with
        | none => none
        | some (length, rest) =>
            if length % 2 ^ 32 < 2 ^ 31 then (Wire.cut (length % 2 ^ 32) rest).map Prod.snd
            else none)
      (match input.onBuffer readVarint32 with
        | (some length, input) => input.skip length.toInt32.toInt
        | (none, _) => none) := by
  have hreads := readVarint32_reads input.buffer
  cases hdecode : Varint.decode 10 input.buffer with
  | none =>
      simp only [hdecode] at hreads
      simp only [onBuffer, hreads]
      rfl
  | some decoded =>
      simp only [hdecode, Function.comp_apply] at hreads
      simp only [onBuffer, hreads]
      exact follows_skip (input.withBuffer decoded.2) decoded.1

/-! ### Groups -/

theorem follows_group {input : CodedInputStream} {fieldNumber : UInt32}
    {skipMessage : CodedInputStream → Option CodedInputStream} {expected : Option (List UInt8)}
    (hlimit : input.recursionBudget ≤ defaultRecursionLimit)
    (hshallow : ¬ 1 ≤ input.recursionBudget → expected = none)
    (hgroup : 1 ≤ input.recursionBudget →
      FollowsGroup (input.withBudget (-1)) fieldNumber expected
        (skipMessage (input.withBudget (-1)))) :
    Follows input expected
      ((input.incrementRecursionDepth.bind skipMessage).bind fun input =>
        let input := input.decrementRecursionDepth
        if input.lastTagWas (makeTag fieldNumber .endGroup) then some input else none) := by
  cases hdeeper : input.incrementRecursionDepth with
  | none =>
      have hbudget : ¬ 1 ≤ input.recursionBudget := by
        intro hpos
        rw [incrementRecursionDepth_eq_some_iff.mpr ⟨hpos, rfl⟩] at hdeeper
        cases hdeeper
      rw [hshallow hbudget]
      rfl
  | some deeper =>
      obtain ⟨hbudget, rfl⟩ := incrementRecursionDepth_eq_some_iff.mp hdeeper
      have hfollows := hgroup hbudget
      rw [Option.bind_some]
      have hlast : ∀ after : CodedInputStream,
          after.decrementRecursionDepth.lastTag = after.lastTag := by
        intro after
        unfold decrementRecursionDepth
        split <;> rfl
      cases expected with
      | none =>
          cases houtcome : skipMessage (input.withBudget (-1)) with
          | none => rfl
          | some after =>
              have hne := hfollows after houtcome
              simp only [Option.bind_some, lastTagWas, hlast, beq_iff_eq, if_neg hne]
              rfl
      | some rest =>
          have houtcome : skipMessage (input.withBudget (-1)) = _ := hfollows
          have hback : decrementRecursionDepth
              (((input.withBudget (-1)).withBuffer rest).withLastTag
                (makeTag fieldNumber .endGroup)) =
              (input.withBuffer rest).withLastTag (makeTag fieldNumber .endGroup) := by
            have hless : input.recursionBudget + -1 < defaultRecursionLimit := by omega
            simp only [decrementRecursionDepth, withBudget, withBuffer, withLastTag, if_pos hless,
              Int.neg_add_cancel_right]
          rw [houtcome, Option.bind_some]
          simp only [hback]
          exact ⟨makeTag fieldNumber .endGroup, if_pos (beq_self_eq_true _)⟩

section Members

variable {skipMember : CodedInputStream → UInt32 → Option CodedInputStream}
  {skip : ℕ → List UInt8 → Option (List UInt8)} {budget : Int} {fieldNumber : UInt32}

variable (skipMember) in
theorem skipMessageLoop_of_none {input : CodedInputStream}
    (htag : Wire.readTag input.buffer = none) :
    ∃ after, (skipMessageLoop skipMember).run input = some after ∧ after.lastTag = 0 := by
  obtain ⟨read, hread, hresult⟩ := readTag_eq input
  have hzero := hread.fst_eq_zero htag
  refine ⟨read.2.withLastTag read.1, Loop.run_leave ?_, hzero⟩
  simp only [skipMessageLoop, hresult, hzero, if_true]

theorem readTag_of_some {input : CodedInputStream} {tag : ℕ} {rest : List UInt8}
    (htag : Wire.readTag input.buffer = some (tag, rest)) :
    input.readTag =
      (UInt32.ofNat tag, (input.withBuffer rest).withLastTag (UInt32.ofNat tag)) := by
  obtain ⟨read, hread, hresult⟩ := readTag_eq input
  rw [hresult, hread.of_some tag rest htag]

variable (skipMember) in
theorem skipMessageLoop_endGroup {input : CodedInputStream} {tag : ℕ} {rest : List UInt8}
    (htag : Wire.readTag input.buffer = some (tag, rest)) (hshape : tag % 8 = 4) :
    (skipMessageLoop skipMember).run input =
      some ((input.withBuffer rest).withLastTag (UInt32.ofNat tag)) := by
  have hvalue := Wire.readTag_eq_some htag
  have hend := isEndGroup_iff (UInt32.ofNat tag)
  rw [UInt32.toNat_ofNat_of_lt' hvalue.2] at hend
  apply Loop.run_leave
  simp only [skipMessageLoop, readTag_of_some htag, if_neg (ofNat_tag_ne_zero hvalue),
    if_pos (hend.mpr hshape)]

theorem skipMessageLoop_member (hskips : ∀ tag, Skips fun input => skipMember input tag)
    {input : CodedInputStream} {tag : ℕ} {rest : List UInt8}
    (htag : Wire.readTag input.buffer = some (tag, rest)) (hshape : tag % 8 ≠ 4) :
    (skipMessageLoop skipMember).run input =
      (skipMember ((input.withBuffer rest).withLastTag (UInt32.ofNat tag))
        (UInt32.ofNat tag)).bind (skipMessageLoop skipMember).run := by
  have hvalue := Wire.readTag_eq_some htag
  have hend := isEndGroup_iff (UInt32.ofNat tag)
  rw [UInt32.toNat_ofNat_of_lt' hvalue.2] at hend
  cases hskip : skipMember ((input.withBuffer rest).withLastTag (UInt32.ofNat tag))
      (UInt32.ofNat tag) with
  | none =>
      have hleave : (skipMessageLoop skipMember).body input = .inl none := by
        simp only [skipMessageLoop, readTag_of_some htag, if_neg (ofNat_tag_ne_zero hvalue),
          if_neg (mt hend.mp hshape), hskip]
      exact Loop.run_leave hleave
  | some after =>
      have hround : (skipMessageLoop skipMember).body input = .inr after := by
        simp only [skipMessageLoop, readTag_of_some htag, if_neg (ofNat_tag_ne_zero hvalue),
          if_neg (mt hend.mp hshape), hskip]
      exact Loop.run_round (skipMessageLoop_decreasing hskips) hround

/-- Over one tag both loops leave, or both skip a member and go round with what it leaves. -/
theorem followsGroup_loop (hshortens : Wire.Shortens skip)
    (hskips : ∀ tag, Skips fun input => skipMember input tag)
    (hmember : ∀ input tag, input.recursionBudget = budget →
      Follows input (skip tag.toNat input.buffer) (skipMember input tag))
    (hnumber : fieldNumber.toNat < 2 ^ 29) (input : CodedInputStream)
    (hbudget : input.recursionBudget = budget) :
    FollowsGroup input fieldNumber ((Wire.groupLoop skip fieldNumber.toNat).run input.buffer)
      ((skipMessageLoop skipMember).run input) := by
  induction hlength : input.buffer.length using Nat.strongRecOn generalizing input with
  | ind length ih =>
      cases htag : Wire.readTag input.buffer with
      | none =>
          obtain ⟨last, hrun, hzero⟩ := skipMessageLoop_of_none skipMember htag
          rw [Wire.groupLoop_untagged htag, hrun]
          intro after hafter heq
          rw [← Option.some.inj hafter, hzero] at heq
          have hnat := congrArg UInt32.toNat heq
          rw [toNat_makeTag hnumber] at hnat
          exact absurd hnat.symm (Nat.succ_ne_zero _)
      | some tagged =>
          obtain ⟨tag, rest⟩ := tagged
          have htoNat : (UInt32.ofNat tag).toNat = tag :=
            UInt32.toNat_ofNat_of_lt' (Wire.readTag_eq_some htag).2
          by_cases hshape : tag % 8 = 4
          · have hiff := eq_endTag_iff hnumber (htoNat.symm ▸ hshape)
            rw [htoNat] at hiff
            rw [Wire.groupLoop_endGroup htag hshape, skipMessageLoop_endGroup skipMember htag hshape]
            by_cases hsame : tag / 8 = fieldNumber.toNat
            · rw [if_pos hsame, hiff.mpr hsame]
              rfl
            · rw [if_neg hsame]
              intro after hafter
              rw [← Option.some.inj hafter]
              exact mt hiff.mp hsame
          · have hfollows := hmember ((input.withBuffer rest).withLastTag (UInt32.ofNat tag))
              (UInt32.ofNat tag) hbudget
            rw [htoNat] at hfollows
            change Follows _ (skip tag rest) _ at hfollows
            rw [Wire.groupLoop_member hshortens htag hshape,
              skipMessageLoop_member hskips htag hshape]
            cases hskip : skip tag rest with
            | none =>
                rw [hskip] at hfollows
                rw [show skipMember _ _ = none from hfollows]
                exact nofun
            | some after =>
                rw [hskip] at hfollows
                obtain ⟨lastTag, hsome⟩ := hfollows
                have hshorter : after.length < length := by
                  rw [← hlength]
                  exact (hshortens hskip).trans_lt (Wire.length_lt_of_readTag htag)
                rw [hsome, Option.bind_some, Option.bind_some]
                exact ih after.length hshorter ((input.withBuffer after).withLastTag lastTag)
                  hbudget rfl

end Members

theorem skipFieldWith_follows {input : CodedInputStream} {tag : UInt32}
    {skipMessage : CodedInputStream → Option CodedInputStream}
    {skipGroup : ℕ → List UInt8 → Option (List UInt8)}
    (hlimit : input.recursionBudget ≤ defaultRecursionLimit)
    (hshallow : ¬ 1 ≤ input.recursionBudget → ∀ number bytes, skipGroup number bytes = none)
    (hgroup : 1 ≤ input.recursionBudget → ∀ fieldNumber : UInt32, fieldNumber.toNat < 2 ^ 29 →
      FollowsGroup (input.withBudget (-1)) fieldNumber
        (skipGroup fieldNumber.toNat input.buffer) (skipMessage (input.withBudget (-1)))) :
    Follows input (Wire.skipShape skipGroup tag.toNat input.buffer)
      (skipFieldWith skipMessage input tag) := by
  have hnumber : getTagFieldNumber tag = 0 ↔ tag.toNat / 8 = 0 := by
    rw [← UInt32.toNat_inj, toNat_getTagFieldNumber]
    rfl
  have hlt : tag.toNat % 8 < 8 := Nat.mod_lt _ (by decide)
  have hfits : (getTagFieldNumber tag).toNat < 2 ^ 29 := by
    have := tag.toNat_lt
    rw [toNat_getTagFieldNumber]
    omega
  simp only [skipFieldWith, Wire.skipShape, hnumber, getTagWireType_eq]
  by_cases hzero : tag.toNat / 8 = 0
  · simp only [if_pos hzero]
    rfl
  simp only [if_neg hzero]
  rw [← toNat_getTagFieldNumber tag] at *
  generalize tag.toNat % 8 = shape at hlt
  interval_cases shape
  · exact follows_readVarint64 input
  · exact follows_readLittleEndian64 input
  · exact follows_delimited input
  · exact follows_group hlimit (fun hbudget => hshallow hbudget _ _)
      fun hbudget => hgroup hbudget _ hfits
  · rfl
  · exact follows_readLittleEndian32 input
  · rfl
  · rfl

theorem skipFieldWithin_follows (depth : ℕ) {input : CodedInputStream} (tag : UInt32)
    (hbudget : input.recursionBudget = depth) (hlimit : (depth : Int) ≤ defaultRecursionLimit) :
    Follows input (Wire.skip depth tag.toNat input.buffer) (skipFieldWithin depth input tag) := by
  induction depth generalizing input tag with
  | zero =>
      refine skipFieldWith_follows (hbudget.trans_le hlimit) (fun _ _ _ => rfl) fun hpos => ?_
      omega
  | succ depth ih =>
      refine skipFieldWith_follows (hbudget.trans_le hlimit) (fun hshallow => ?_)
        fun _ fieldNumber hnumber => ?_
      · omega
      · exact followsGroup_loop (Wire.skip_shortens depth)
          (fun tag => skipFieldWithin_skips depth tag)
          (fun input tag hinput => ih tag hinput (by omega)) hnumber (input.withBudget (-1))
          (by simp only [withBudget]; omega)

/-- **Skipping.** Within the default limit `SkipField` passes over what `Wire.skip` passes over to
the depth of the budget, and over nothing else. -/
theorem skipField_follows {depth : ℕ} {input : CodedInputStream} (tag : UInt32)
    (hbudget : input.recursionBudget = depth) (hlimit : (depth : Int) ≤ defaultRecursionLimit) :
    Follows input (Wire.skip depth tag.toNat input.buffer) (skipField input tag) := by
  rw [skipField, hbudget, Int.toNat_natCast]
  exact skipFieldWithin_follows depth tag hbudget hlimit

end FiraClient.Pb
