import FiraClient.Library.Schema
import FiraClient.Proof.Shortcuts
import FiraClient.Proof.Unknown

/-!
# What the generated parsers accept

A table of cases implements a schema when each of its cases reads what the field of the schema with
its tag reads. Its parser then makes of the bytes up to the limit what the schema makes of them; the
message ends there legitimately, and the stream is otherwise as it was.

Where the schema refuses, the parser fails or stops before the end. The reader of repeated messages
leaves open what it does with a length that cannot be read, so for tables with such fields this half
needs to know that it fails.
-/

namespace FiraClient.Pb

open CodedInputStream

variable {M N : Type}

/-- The stream at the end of a message. -/
def CodedInputStream.ended (input : CodedInputStream) : CodedInputStream :=
  { input with buffer := [], lastTag := 0, legitimateMessageEnd := true }

def Rejected (outcome : M × Option CodedInputStream) : Prop :=
  ∀ after, outcome.2 = some after → after.legitimateMessageEnd = false

/-- What a merge makes of the bytes before the limit, and, if `strict`, that it makes nothing of
others. -/
def Accepts (strict : Prop) (input : CodedInputStream) (expected : Option M)
    (outcome : M × Option CodedInputStream) : Prop :=
  match expected with
  | some message => outcome = (message, some input.ended)
  | none => strict → Rejected outcome

/-- The same of one step: it goes round with what is left of the bytes, or stops. -/
def ReadsAs (strict : Prop) (input : CodedInputStream) (expected : Option (M × List UInt8))
    (step : ParseStep M) : Prop :=
  match expected with
  | some (message, rest) =>
      ∃ lastTag, step = .again message ((input.withBuffer rest).withLastTag lastTag)
  | none => strict → ∃ outcome, step = .inl outcome ∧ Rejected outcome

/-- A stream within a message, as deep as the budget. -/
structure CodedInputStream.Within (depth : ℕ) (input : CodedInputStream) : Prop where
  budget : input.recursionBudget = depth
  legitimateMessageEnd : input.legitimateMessageEnd = false

structure Implements (strict : Prop) (field : Wire.Field M) (fieldCase : FieldCase M) : Prop where
  tag : field.tag = fieldCase.tag.toNat
  reads : ∀ {depth : ℕ} (message : M) {input : CodedInputStream},
    (depth : Int) ≤ defaultRecursionLimit → input.Within depth →
    ReadsAs strict input (field.read depth message input.buffer)
      (fieldCase.plain.enter message input)

theorem rejected_failure (message : M) :
    ∃ outcome, ParseStep.failure message = .inl outcome ∧ Rejected outcome :=
  ⟨_, rfl, fun _ hafter => by cases hafter⟩

/-! ### Finding the field of a tag -/

theorem findCase_of_mem {cases : List (FieldCase M)} {fieldCase : FieldCase M}
    (hdistinct : (cases.map FieldCase.number).Nodup) (hmem : fieldCase ∈ cases) :
    findCase cases fieldCase.number = some fieldCase := by
  induction cases with
  | nil => cases hmem
  | cons head cases ih =>
      rw [List.map_cons, List.nodup_cons] at hdistinct
      by_cases hhead : head.number = fieldCase.number
      · rcases List.mem_cons.mp hmem with rfl | hmem
        · simp [findCase]
        · exact absurd (hhead ▸ List.mem_map_of_mem hmem) hdistinct.1
      · rcases List.mem_cons.mp hmem with rfl | hmem
        · exact absurd rfl hhead
        · rw [findCase, List.find?_cons_of_neg (by simpa using hhead)]
          exact ih hdistinct.2 hmem

theorem lookup_eq_none_or {strict : Prop} {fields : List (Wire.Field M)}
    {cases : List (FieldCase M)} (himplements : List.Forall₂ (Implements strict) fields cases)
    (tag : ℕ) :
    (Wire.lookup fields tag = none ∧ ∀ fieldCase ∈ cases, fieldCase.tag.toNat ≠ tag) ∨
      ∃ field fieldCase, Wire.lookup fields tag = some field ∧ fieldCase ∈ cases ∧
        fieldCase.tag.toNat = tag ∧ Implements strict field fieldCase := by
  induction himplements with
  | nil => exact Or.inl ⟨rfl, fun _ hmem => by cases hmem⟩
  | @cons field fieldCase fields cases hhead _ ih =>
      by_cases htag : field.tag = tag
      · refine Or.inr ⟨field, fieldCase, ?_, List.mem_cons_self, hhead.tag.symm.trans htag, hhead⟩
        rw [Wire.lookup, List.find?_cons_of_pos (by simpa using htag)]
      · have hlookup : Wire.lookup (field :: fields) tag = Wire.lookup fields tag := by
          rw [Wire.lookup, List.find?_cons_of_neg (by simpa using htag)]
          rfl
        rw [hlookup]
        rcases ih with ⟨hnone, hothers⟩ | ⟨field', fieldCase', hsome, hmem, htag', himpl⟩
        · refine Or.inl ⟨hnone, fun other hother => ?_⟩
          rcases List.mem_cons.mp hother with rfl | hother
          · exact fun heq => htag (hhead.tag.trans heq)
          · exact hothers other hother
        · exact Or.inr ⟨field', fieldCase', hsome, List.mem_cons_of_mem _ hmem, htag', himpl⟩

/-! ### One tag -/

section Tags

variable {cases : List (FieldCase M)} {message : M} {input : CodedInputStream} {tag : ℕ}
  {rest : List UInt8}

theorem readTagWithCutoff_of_some (htag : Wire.readTag input.buffer = some (tag, rest)) :
    input.readTagWithCutoff 127 = ((UInt32.ofNat tag, decide (tag ≤ 127)),
      (input.withBuffer rest).withLastTag (UInt32.ofNat tag)) := by
  obtain ⟨read, hread, hresult⟩ := input.readTagWithCutoff_spec
  obtain ⟨hpos, hlt⟩ := Wire.readTag_eq_some htag
  rw [hread.of_some tag rest htag] at hresult
  have hcutoff : UInt32.ofNat tag - 1 < 127 ↔ tag ≤ 127 := by
    have hone : (1 : UInt32).toNat = 1 := rfl
    have hlarge : (127 : UInt32).toNat = 127 := rfl
    rw [UInt32.lt_iff_toNat_lt, UInt32.toNat_sub, UInt32.toNat_ofNat', Nat.mod_eq_of_lt hlt, hone,
      hlarge]
    omega
  rw [hresult]
  simp only [hcutoff]
  rfl

theorem atTop_known (hsound : Sound cases) (hdistinct : (cases.map FieldCase.number).Nodup)
    {fieldCase : FieldCase M} (hmem : fieldCase ∈ cases) (hfield : fieldCase.tag.toNat = tag)
    (htag : Wire.readTag input.buffer = some (tag, rest)) :
    atTop (cases.map FieldCase.plain) message input =
      fieldCase.plain.enter message ((input.withBuffer rest).withLastTag fieldCase.tag) := by
  obtain ⟨⟨-, hsmall⟩, hnumber, -⟩ := hsound.shape_of_mem hmem
  have hvalue : UInt32.ofNat tag = fieldCase.tag := by
    rw [← hfield, UInt32.ofNat_toNat]
  have hcutoff : tag ≤ 127 := by
    have hlt : fieldCase.tag.toNat < 128 := UInt32.lt_iff_toNat_lt.mp hsmall
    omega
  have hsame : fieldCase.plain.tag = fieldCase.tag := rfl
  simp only [atTop, readTagWithCutoff_of_some htag, hvalue, hcutoff, decide_true, if_true, hnumber,
    findCase_plain, findCase_of_mem hdistinct hmem, Option.map_some, hsame]

theorem atTop_unknown (hfields : ∀ fieldCase ∈ cases, fieldCase.tag.toNat ≠ tag)
    (htag : Wire.readTag input.buffer = some (tag, rest)) :
    atTop (cases.map FieldCase.plain) message input =
      handleUnusual (UInt32.ofNat tag) message
        ((input.withBuffer rest).withLastTag (UInt32.ofNat tag)) := by
  have htoNat : (UInt32.ofNat tag).toNat = tag :=
    UInt32.toNat_ofNat_of_lt' (Wire.readTag_eq_some htag).2
  simp only [atTop, readTagWithCutoff_of_some htag, findCase_plain]
  split
  · cases hfind : findCase cases (getTagFieldNumber (UInt32.ofNat tag)) with
    | none => rfl
    | some fieldCase =>
        have hne : UInt32.ofNat tag ≠ fieldCase.plain.tag := by
          intro heq
          have hother := hfields fieldCase (findCase_eq_some hfind).1
          exact hother (by rw [← htoNat, heq]; rfl)
        simp only [Option.map_some, if_neg hne]
  · rfl

/-- A tag no case has is skipped with its field, or ends the message at the end of a group. -/
theorem handleUnusual_reads (strict : Prop) {depth : ℕ}
    (hdepth : (depth : Int) ≤ defaultRecursionLimit) (hwithin : input.Within depth) (message : M)
    (hpos : 0 < tag) (hlt : tag < 2 ^ 32) :
    ReadsAs strict input ((Wire.skip depth tag input.buffer).map fun rest => (message, rest))
      (handleUnusual (UInt32.ofNat tag) message input) := by
  have htoNat : (UInt32.ofNat tag).toNat = tag := UInt32.toNat_ofNat_of_lt' hlt
  have hne := ofNat_tag_ne_zero ⟨hpos, hlt⟩
  have hfollows := skipField_follows (UInt32.ofNat tag) hwithin.budget hdepth
  have hend := isEndGroup_iff (UInt32.ofNat tag)
  rw [htoNat] at hfollows hend
  unfold handleUnusual
  by_cases hshape : tag % 8 = 4
  · rw [if_pos (Or.inr (hend.mpr hshape)), Wire.skip_endGroup depth hshape]
    refine fun _ => ⟨_, rfl, fun after hafter => ?_⟩
    rw [← Option.some.inj hafter]
    exact hwithin.legitimateMessageEnd
  · rw [if_neg (not_or.mpr ⟨hne, mt hend.mp hshape⟩)]
    cases hskip : Wire.skip depth tag input.buffer with
    | none =>
        rw [hskip] at hfollows
        have hnone : skipField input (UInt32.ofNat tag) = none := hfollows
        rw [hnone]
        exact fun _ => rejected_failure message
    | some rest =>
        rw [hskip] at hfollows
        obtain ⟨lastTag, hsome⟩ := hfollows
        rw [hsome]
        exact ⟨lastTag, rfl⟩

end Tags

/-! ### Whole messages -/

section Messages

variable {strict : Prop} {fields : List (Wire.Field M)} {cases : List (FieldCase M)} {depth : ℕ}
  {input : CodedInputStream}

/-- A table for a schema. -/
structure Realizes (strict : Prop) (fields : List (Wire.Field M)) (cases : List (FieldCase M)) :
    Prop where
  sound : Sound cases
  distinct : (cases.map FieldCase.number).Nodup
  implements : List.Forall₂ (Implements strict) fields cases

theorem CodedInputStream.Within.withTag (hwithin : input.Within depth) (rest : List UInt8)
    (tag : UInt32) : ((input.withBuffer rest).withLastTag tag).Within depth :=
  ⟨hwithin.budget, hwithin.legitimateMessageEnd⟩

/-- One field: what the schema reads next, the parser without jumps reads. -/
theorem atTop_reads (hrealizes : Realizes strict fields cases)
    (hdepth : (depth : Int) ≤ defaultRecursionLimit) (message : M) (hwithin : input.Within depth)
    (hbuffer : input.buffer ≠ []) :
    ∃ expected : Option (M × List UInt8),
      Wire.parse fields depth message input.buffer =
        (expected.bind fun next => Wire.parse fields depth next.1 next.2) ∧
      (∀ next, expected = some next → next.2.length < input.buffer.length) ∧
      ReadsAs strict input expected (atTop (cases.map FieldCase.plain) message input) := by
  cases htag : Wire.readTag input.buffer with
  | none =>
      refine ⟨none, Wire.parse_untagged hbuffer htag, nofun, fun _ => ?_⟩
      obtain ⟨read, hread, hresult⟩ := input.readTagWithCutoff_spec
      obtain ⟨rest, -, hzero⟩ := hread.of_none hbuffer htag
      have hcutoff : ¬ ((0 : UInt32) - 1 < 127) := by decide
      refine ⟨(message, some ((input.withBuffer rest).withLastTag 0)), ?_, fun after hafter => ?_⟩
      · rw [hzero] at hresult
        simp only [atTop, hresult, hcutoff, decide_false, Bool.false_eq_true, if_false,
          handleUnusual, true_or, if_true]
        rfl
      · rw [← Option.some.inj hafter]
        exact hwithin.legitimateMessageEnd
  | some tagged =>
      obtain ⟨tag, rest⟩ := tagged
      have hshorter := Wire.length_lt_of_readTag htag
      rcases lookup_eq_none_or hrealizes.implements tag with
        ⟨hlookup, hothers⟩ | ⟨field, fieldCase, hlookup, hmem, hfield, himplements⟩
      · obtain ⟨hpos, hlt⟩ := Wire.readTag_eq_some htag
        refine ⟨(Wire.skip depth tag rest).map fun rest => (message, rest), ?_, ?_, ?_⟩
        · rw [Wire.parse_unknown htag hlookup, Option.bind_map]
          rfl
        · intro next hnext
          obtain ⟨after, hskip, rfl⟩ := Option.map_eq_some_iff.mp hnext
          exact (Wire.skip_shortens depth hskip).trans_lt hshorter
        · rw [atTop_unknown hothers htag]
          exact handleUnusual_reads strict hdepth (hwithin.withTag rest _) message hpos hlt
      · refine ⟨field.read depth message rest, Wire.parse_known htag hlookup, ?_, ?_⟩
        · intro next hnext
          exact (field.read_le hnext).trans_lt hshorter
        · rw [atTop_known hrealizes.sound hrealizes.distinct hmem hfield htag]
          exact himplements.reads message hdepth (hwithin.withTag rest _)

theorem mergeLoop_plain_accepts (hrealizes : Realizes strict fields cases)
    (hdepth : (depth : Int) ≤ defaultRecursionLimit) (message : M) (hwithin : input.Within depth) :
    Accepts strict input (Wire.parse fields depth message input.buffer)
      ((mergeLoop (cases.map FieldCase.plain)).run ⟨none, message, input⟩) := by
  induction hlength : input.buffer.length using Nat.strongRecOn generalizing message input with
  | ind length ih =>
      by_cases hbuffer : input.buffer = []
      · have hrun : (mergeLoop (cases.map FieldCase.plain)).run ⟨none, message, input⟩ =
            (message, some input.ended) :=
          (settle_atEnd message hbuffer).trans (by rw [ended, hbuffer])
        rw [hbuffer, Wire.parse_nil]
        exact hrun
      obtain ⟨expected, hparse, hshorter, hreads⟩ :=
        atTop_reads hrealizes hdepth message hwithin hbuffer
      rw [hparse]
      cases expected with
      | none =>
          intro hstrict
          obtain ⟨outcome, hstep, hrejected⟩ := hreads hstrict
          have hbody : (mergeLoop (cases.map FieldCase.plain)).body ⟨none, message, input⟩ =
              .inl outcome := hstep
          rw [Loop.run_leave hbody]
          exact hrejected
      | some next =>
          obtain ⟨lastTag, hstep⟩ := hreads
          have hbody : (mergeLoop (cases.map FieldCase.plain)).body ⟨none, message, input⟩ =
              .inr ⟨none, next.1, (input.withBuffer next.2).withLastTag lastTag⟩ := hstep
          rw [Loop.run_round (mergeLoop_decreasing hrealizes.sound.plain) hbody]
          exact ih _ (hlength ▸ hshorter next rfl) next.1 (hwithin.withTag next.2 lastTag) rfl

/-- **The refinement.** The parser of a table makes of the bytes up to the limit what the schema
makes of them. -/
theorem mergeCases_accepts (hrealizes : Realizes strict fields cases)
    (hdepth : (depth : Int) ≤ defaultRecursionLimit) (message : M) (hwithin : input.Within depth) :
    Accepts strict input (Wire.parse fields depth message input.buffer)
      (mergeCases cases message input) := by
  rw [mergeCases_plain hrealizes.sound message (hwithin.budget.trans_le hdepth)]
  exact mergeLoop_plain_accepts hrealizes hdepth message hwithin

end Messages

end FiraClient.Pb
