import FiraClient.Proof.Streams
import FiraClient.Proof.Unknown
import FiraClient.Proof.Schemas

/-!
# Reading repeated messages by limits

`ReadLengthAndPushLimit` and `CheckEntireMessageConsumedAndPopLimit` make up a reader of repeated
messages. Where the length can be read it does what `ReadMessage` does one level of recursion up; a
length that cannot be read counts as zero.
-/

namespace FiraClient.Pb

open CodedInputStream

variable {M : Type}

def readByLimits (merge : Merge M) : Merge M :=
  fun value input =>
    let pushed := input.readLengthAndPushLimit
    match merge value pushed.2 with
    | (value, none) => (value, none)
    | (value, some input) => (value, input.checkEntireMessageConsumedAndPopLimit pushed.1)

/-! ### Where the stream is after a length -/

theorem varintLines_suffix {shifts : List (Option UInt32)} {result value : UInt32}
    {buffer rest : List UInt8} (hlines : varintLines shifts result buffer = .ended value rest) :
    rest <:+ buffer := by
  induction shifts generalizing result buffer with
  | nil => cases hlines
  | cons shift shifts ih =>
      cases buffer with
      | nil => cases hlines
      | cons b buffer =>
          simp only [varintLines] at hlines
          split at hlines
          · cases hlines
            exact List.suffix_cons _ _
          · exact (ih hlines).trans (List.suffix_cons b buffer)

theorem readVarint32_suffix (buffer : List UInt8) : (readVarint32 buffer).2 <:+ buffer := by
  have hslow : ∀ buffer, (readVarint32Slow buffer).2 <:+ buffer := readVarint64Fallback_suffix
  cases buffer with
  | nil => exact hslow []
  | cons v buffer =>
      rw [readVarint32]
      split
      · exact List.suffix_cons v buffer
      · rw [readVarint32Fallback]
        split
        · split
          · rename_i value rest hread
            exact (varintLines_suffix hread).trans (List.drop_suffix 1 (v :: buffer))
          · exact List.suffix_refl _
        · exact hslow (v :: buffer)

/-- Where `ReadVarintSizeAsInt` reads a length, `ReadVarint32` reads the same. -/
theorem readVarint32_of_readLength {length : ℕ} {buffer rest : List UInt8}
    (hlength : Wire.readLength buffer = some (length, rest)) :
    readVarint32 buffer = (some (UInt32.ofNat length), rest) ∧
      (UInt32.ofNat length).toInt32.toInt = length := by
  have hreads := readVarint32_reads buffer
  obtain ⟨value, hdecode, rfl, hsize⟩ := Wire.decode_of_readLength hlength
  simp only [hdecode, Function.comp_apply] at hreads
  have hvalue : UInt32.ofNat value = UInt32.ofNat (value % 2 ^ 64) := by
    rw [← UInt32.toNat_inj, UInt32.toNat_ofNat', UInt32.toNat_ofNat']
    omega
  have htoNat : (UInt32.ofNat (value % 2 ^ 64)).toNat = value % 2 ^ 64 := by
    rw [UInt32.toNat_ofNat']
    omega
  rw [toInt_toInt32, htoNat, if_pos hsize, ← hvalue]
  exact ⟨hreads, rfl⟩

/-! ### The reader -/

theorem readLengthAndPushLimit_eq (input : CodedInputStream) :
    ∃ rest length, rest <:+ input.buffer ∧ ∀ tag, (input.withLastTag tag).readLengthAndPushLimit =
      ((input.withBuffer rest).withLastTag tag).pushLimit length := by
  have hsuffix := readVarint32_suffix input.buffer
  rcases hread : readVarint32 input.buffer with ⟨length, rest⟩
  rw [hread] at hsuffix
  cases length with
  | none =>
      refine ⟨rest, 0, hsuffix, fun tag => ?_⟩
      have hbuffer : (input.withLastTag tag).buffer = input.buffer := rfl
      simp only [readLengthAndPushLimit, onBuffer, hbuffer, hread]
      rfl
  | some length =>
      refine ⟨rest, length.toInt32.toInt, hsuffix, fun tag => ?_⟩
      have hbuffer : (input.withLastTag tag).buffer = input.buffer := rfl
      simp only [readLengthAndPushLimit, onBuffer, hbuffer, hread]
      rfl

theorem readByLimits_reads (merge : Merge M) (value : M) {input : CodedInputStream}
    (hlength : (readVarintSizeAsInt input.buffer).1 ≠ none) (hbudget : 0 ≤ input.recursionBudget) :
    readByLimits merge value input =
      ((readMessage merge value (input.withBudget 1)).1,
        (readMessage merge value (input.withBudget 1)).2.map fun after =>
          after.withBudget (-1)) := by
  obtain ⟨⟨length, rest⟩, hread⟩ :=
    Option.ne_none_iff_exists'.mp (mt (readLength_eq_none_iff input.buffer).mp hlength)
  have hsized := readVarintSizeAsInt_length input.buffer
  simp only [hread] at hsized
  obtain ⟨hnarrow, hsigned⟩ := readVarint32_of_readLength hread
  have hpushed : input.readLengthAndPushLimit = (input.withBuffer rest).pushLimit length := by
    simp only [readLengthAndPushLimit, onBuffer, hnarrow, hsigned]
  have hsome : (input.withBudget 1).onBuffer readVarintSizeAsInt =
      (some (length : Int), (input.withBudget 1).withBuffer rest) := by
    have hbuffer : (input.withBudget 1).buffer = input.buffer := rfl
    rw [onBuffer, hbuffer, hsized]
  have hdeep : ¬ ((input.withBudget 1).withBuffer rest).recursionBudget < 1 := by
    simp only [withBudget, withBuffer]
    omega
  have hinner : (((input.withBudget 1).withBuffer rest).pushLimit length).2.withBudget (-1) =
      ((input.withBuffer rest).pushLimit length).2 := by
    rw [(pushLimit_eq _ length).1, (pushLimit_eq _ length).1]
    simp only [withBudget, withBuffer, Int.add_neg_cancel_right]
  have hlimit : (((input.withBudget 1).withBuffer rest).pushLimit length).1 =
      ((input.withBuffer rest).pushLimit length).1 := by
    rw [(pushLimit_eq _ length).2, (pushLimit_eq _ length).2]
    rfl
  rw [readMessage_of_some hsome, if_neg hdeep, hinner, hlimit, readByLimits, hpushed]
  rcases hmerge : merge value ((input.withBuffer rest).pushLimit length).2 with ⟨message, _ | after⟩
  · rfl
  · simp only [Option.bind_some, decrementRecursionDepthAndPopLimit,
      checkEntireMessageConsumedAndPopLimit]
    split
    · simp only [Option.map_some, unsafeDecrementRecursionDepth, withBudget,
        Int.add_neg_cancel_right]
    · rfl

theorem readByLimits_advancing {merge : Merge M} (hmerge : merge.Advancing) :
    (readByLimits merge).Advancing := by
  intro value input value' after hread
  obtain ⟨rest, length, hsuffix, hpushed⟩ := readLengthAndPushLimit_eq input
  have hpush : input.readLengthAndPushLimit = (input.withBuffer rest).pushLimit length :=
    hpushed input.lastTag
  rw [readByLimits, hpush] at hread
  split at hread
  · cases hread
  · rename_i message inner hinner
    have hpopped := popLimit_advances (hmerge hinner)
    obtain ⟨-, hafter⟩ := Prod.mk.inj hread
    simp only [checkEntireMessageConsumedAndPopLimit] at hafter
    split at hafter
    · rw [← Option.some.inj hafter]
      exact (Advances.withBuffer hsuffix).trans hpopped
    · cases hafter

theorem readByLimits_blind {merge : Merge M} (hmerge : merge.Blind) :
    (readByLimits merge).Blind := by
  intro value input tag
  obtain ⟨rest, length, hsuffix, hpushed⟩ := readLengthAndPushLimit_eq input
  have hpush : input.readLengthAndPushLimit = (input.withBuffer rest).pushLimit length :=
    hpushed input.lastTag
  have hblind := hmerge value ((input.withBuffer rest).pushLimit length).2 tag
  have hcheck : ∀ (after : CodedInputStream) (lastTag : UInt32) (limit : Limit),
      ((after.withLastTag lastTag).checkEntireMessageConsumedAndPopLimit limit).map
          (fun after => after.withLastTag 0) =
        (after.checkEntireMessageConsumedAndPopLimit limit).map
          fun after => after.withLastTag 0 := by
    intro after lastTag limit
    have hlegitimate : (after.withLastTag lastTag).consumedEntireMessage =
        after.consumedEntireMessage := rfl
    simp only [checkEntireMessageConsumedAndPopLimit, hlegitimate]
    split <;> rfl
  simp only [readByLimits, hpushed tag, hpush, pushLimit_withLastTag]
  rcases hplain : merge value ((input.withBuffer rest).pushLimit length).2 with
    ⟨message, _ | after⟩
  · rw [hplain] at hblind
    rw [eq_none_of_forgetTag hblind]
  · rw [hplain] at hblind
    obtain ⟨lastTag, hsame⟩ := eq_some_of_forgetTag hblind
    rw [hsame]
    exact Prod.ext rfl (hcheck after lastTag _)

/-- The reader that the runtime's two helpers make up. -/
def limitReader : RepeatedReader where
  read := readByLimits
  reads := fun merge value _ hlength hbudget => readByLimits_reads merge value hlength hbudget
  advancing := fun _ hmerge => readByLimits_advancing hmerge
  blind := fun _ hmerge => readByLimits_blind hmerge

end FiraClient.Pb
