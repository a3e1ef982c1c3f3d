import FiraClient.Pb.Common
import FiraClient.Proof.Streams

/-!
# The jumps of the generated parsers

A generated parser does not go round for a tag it expects. Without its jumps it would: it would read
the tag, find the case and, for a repeated field, give one level of recursion back and take it
again. Both parsers do the same. At a label the first has already read the tag byte that the second
still has in front of it, and at the label of a repeated field it holds the level that the second
takes after the tag.

That the budget is there again when the first does not ask for it needs that a read leaves the
budget as it was, which it does from at most the default limit.
-/

namespace FiraClient.Pb

open CodedInputStream

variable {M N : Type}

/-- The case without its jumps. -/
def FieldCase.plain (field : FieldCase M) : FieldCase M :=
  { field with jumps := [], expectsEnd := false }

/-! ### Tables -/

/-- What a table says of a field, without what the field does. -/
structure FieldShape where
  number : UInt32
  tag : UInt32
  repeated : Bool
  jumps : List (UInt32 × Label)
deriving DecidableEq

def FieldCase.shape (field : FieldCase M) : FieldShape where
  number := field.number
  tag := field.tag
  repeated := field.repeated
  jumps := field.jumps

/-- The jump goes over the tag of a case to that case: from a repeated field to a repeated one past
its `IncrementRecursionDepth`, from any other to the front of the case. -/
def reaches (shapes : List FieldShape) (repeated : Bool) (jump : UInt32 × Label) : Bool :=
  match jump.2 with
  | .parse number =>
      !repeated && (shapes.find? fun shape => shape.number = number).any
        fun shape => shape.tag = jump.1
  | .parseLoop number =>
      repeated && (shapes.find? fun shape => shape.number = number).any
        fun shape => shape.tag = jump.1 && shape.repeated

def closed (shapes : List FieldShape) : Bool :=
  shapes.all fun shape =>
    0 < shape.tag && shape.tag < 128 && getTagFieldNumber shape.tag = shape.number &&
      shape.jumps.all (reaches shapes shape.repeated)

/-- A read that can stand in a table. -/
structure Merge.Sound (merge : Merge M) : Prop where
  advancing : merge.Advancing
  blind : merge.Blind

structure Sound (cases : List (FieldCase M)) : Prop where
  closed : closed (cases.map FieldCase.shape) = true
  reads : ∀ field ∈ cases, field.read.Sound

theorem findCase_eq_some {cases : List (FieldCase M)} {number : UInt32} {field : FieldCase M}
    (hfield : findCase cases number = some field) : field ∈ cases ∧ field.number = number := by
  refine ⟨List.mem_of_find?_eq_some hfield, ?_⟩
  simpa using List.find?_some hfield

theorem findCase_plain (cases : List (FieldCase M)) (number : UInt32) :
    findCase (cases.map FieldCase.plain) number =
      (findCase cases number).map FieldCase.plain := by
  rw [findCase, List.find?_map]
  rfl

theorem findCase_shape (cases : List (FieldCase M)) (number : UInt32) :
    ((cases.map FieldCase.shape).find? fun shape => shape.number = number) =
      (findCase cases number).map FieldCase.shape := by
  rw [List.find?_map]
  rfl

/-- The case a jump goes to, by the number of its label. -/
def Label.number : Label → UInt32
  | parse number => number
  | parseLoop number => number

def Label.held : Label → Bool
  | parse _ => false
  | parseLoop _ => true

namespace Sound

variable {cases : List (FieldCase M)} (hsound : Sound cases) {field : FieldCase M}

include hsound

theorem shape_of_mem (hfield : field ∈ cases) :
    (0 < field.tag ∧ field.tag < 128) ∧ getTagFieldNumber field.tag = field.number ∧
      ∀ jump ∈ field.jumps, reaches (cases.map FieldCase.shape) field.repeated jump = true := by
  have hall := List.all_eq_true.mp hsound.closed _ (List.mem_map_of_mem hfield)
  simp only [Bool.and_eq_true, decide_eq_true_eq, List.all_eq_true] at hall
  exact ⟨⟨hall.1.1.1, hall.1.1.2⟩, hall.1.2, hall.2⟩

theorem target_of_jump (hfield : field ∈ cases) {tag : UInt32} {label : Label}
    (hjump : (tag, label) ∈ field.jumps) :
    label.held = field.repeated ∧ ∃ target, findCase cases label.number = some target ∧
      target.tag = tag ∧ (label.held = true → target.repeated = true) := by
  have hreaches := (hsound.shape_of_mem hfield).2.2 _ hjump
  cases label with
  | parse number =>
      simp only [reaches, findCase_shape, Bool.and_eq_true, Bool.not_eq_true'] at hreaches
      refine ⟨hreaches.1.symm, ?_⟩
      obtain ⟨shape, hshape, htag⟩ := (Option.any_eq_true _ _).mp hreaches.2
      obtain ⟨target, htarget, rfl⟩ := Option.map_eq_some_iff.mp hshape
      exact ⟨target, htarget, of_decide_eq_true htag, fun hheld => by cases hheld⟩
  | parseLoop number =>
      simp only [reaches, findCase_shape, Bool.and_eq_true] at hreaches
      refine ⟨hreaches.1.symm, ?_⟩
      obtain ⟨shape, hshape, htag⟩ := (Option.any_eq_true _ _).mp hreaches.2
      obtain ⟨target, htarget, rfl⟩ := Option.map_eq_some_iff.mp hshape
      simp only [Bool.and_eq_true, decide_eq_true_eq] at htag
      exact ⟨target, htarget, htag.1, fun _ => htag.2⟩

end Sound

/-! ### Steps -/

namespace ParseState

/-- The stream as it would be outside of the loop over a repeated field. -/
def ground (state : ParseState M) : CodedInputStream :=
  match state.label with
  | none => state.input
  | some label => if label.held then state.input.withBudget 1 else state.input

/-- At a label of the table. -/
def Landed (cases : List (FieldCase M)) (state : ParseState M) : Prop :=
  ∀ label, state.label = some label → ∃ target, findCase cases label.number = some target ∧
    (label.held = true → target.repeated = true)

end ParseState

/-- Where a step leads that starts from a stream at the ground. -/
def ParseStep.Advances (cases : List (FieldCase M)) (input : CodedInputStream) :
    ParseStep M → Prop
  | .inl (_, result) => ∀ after, result = some after → input.Advances after
  | .inr next => next.Landed cases ∧ input.Advances next.ground ∧
      (next.label ≠ none → next.input.buffer.length < input.buffer.length)

theorem expectTag_eq_some {input after : CodedInputStream} {tag : UInt32} (htag : tag < 128)
    (hexpect : input.expectTag tag = some after) :
    input.buffer = tag.toUInt8 :: after.buffer ∧ after = input.withBuffer after.buffer := by
  have hsmall : tag < (1 : UInt32) <<< 7 := htag
  rw [expectTag, if_pos hsmall] at hexpect
  split at hexpect
  · rename_i b buffer hbuffer
    split at hexpect
    · rename_i hb
      cases hexpect
      have hadvance : input.advance 1 = input.withBuffer buffer := by
        rw [advance, hbuffer]
        rfl
      rw [hadvance, hbuffer, ← hb]
      exact ⟨congrArg (· :: buffer) (UInt8.toUInt8_toUInt32 b).symm, rfl⟩
    · cases hexpect
  · cases hexpect

theorem jump_eq_some {input after : CodedInputStream} {jumps : List (UInt32 × Label)}
    {label : Label} (hjump : FieldCase.jump input jumps = some (label, after)) :
    ∃ tag, (tag, label) ∈ jumps ∧ input.expectTag tag = some after := by
  induction jumps with
  | nil => cases hjump
  | cons head jumps ih =>
      simp only [FieldCase.jump] at hjump
      split at hjump
      · rename_i after' hexpect
        cases hjump
        exact ⟨head.1, List.mem_cons_self, hexpect⟩
      · obtain ⟨tag, hmem, hexpect⟩ := ih hjump
        exact ⟨tag, List.mem_cons_of_mem _ hmem, hexpect⟩

theorem expectAtEnd_eq_some {input after : CodedInputStream}
    (hend : input.expectAtEnd = some after) :
    input.buffer = [] ∧ after = { input with lastTag := 0, legitimateMessageEnd := true } := by
  unfold expectAtEnd at hend
  split at hend
  · rename_i hbuffer
    exact ⟨hbuffer, (Option.some.inj hend).symm⟩
  · cases hend

/-- The stream with the level given back that a repeated field holds. -/
def FieldCase.release (field : FieldCase M) (input : CodedInputStream) : CodedInputStream :=
  if field.repeated then input.withBudget 1 else input

/-- What a case may do once it has read its field: fail, jump over a tag, stop at the end, or go
round. -/
theorem FieldCase.body_cases {field : FieldCase M} {message : M} {input : CodedInputStream}
    (holds : ParseStep M → Prop)
    (hfailed : ∀ after, field.read message input = (after, none) → holds (.failure after))
    (hjump : ∀ after middle tag label landed, field.read message input = (after, some middle) →
      (tag, label) ∈ field.jumps → middle.expectTag tag = some landed →
      holds (.inr ⟨some label, after, landed⟩))
    (hend : ∀ after middle final, field.read message input = (after, some middle) →
      (field.release middle).expectAtEnd = some final → holds (.success after final))
    (hagain : ∀ after middle, field.read message input = (after, some middle) →
      holds (.again after (field.release middle))) :
    holds (field.body message input) := by
  have hrelease : ∀ middle : CodedInputStream,
      (if field.repeated then middle.unsafeDecrementRecursionDepth else middle) =
        field.release middle := fun _ => rfl
  rcases hread : field.read message input with ⟨after, _ | middle⟩
  · simp only [body, hread]
    exact hfailed after hread
  · simp only [body, hread, hrelease]
    split
    · rename_i label landed hjumped
      obtain ⟨tag, hmem, hexpect⟩ := jump_eq_some hjumped
      exact hjump after middle tag label landed hread hmem hexpect
    · split
      · rename_i final hfinal
        split at hfinal
        · exact hend after middle final hread hfinal
        · cases hfinal
      · exact hagain after middle hread

/-! ### Where the parsers stop -/

theorem withBudget_neg_withBudget (input : CodedInputStream) :
    (input.withBudget (-1)).withBudget 1 = input := by
  simp only [withBudget, Int.neg_add_cancel_right]

theorem withBudget_withBudget_neg (input : CodedInputStream) :
    (input.withBudget 1).withBudget (-1) = input := by
  simp only [withBudget, Int.add_neg_cancel_right]

theorem CodedInputStream.Advances.release {input after : CodedInputStream}
    (hadvances : input.Advances after) (field : FieldCase M) : (field.release input).Advances (field.release after) := by
  unfold FieldCase.release
  split
  · refine ⟨hadvances.buffer, hadvances.afterLimit, fun hlimit => ?_⟩
    have hbudget := hadvances.recursionBudget
    simp only [withBudget] at hlimit ⊢
    omega
  · exact hadvances

theorem buffer_release (field : FieldCase M) (input : CodedInputStream) :
    (field.release input).buffer = input.buffer := by
  unfold FieldCase.release
  split <;> rfl

theorem ParseState.buffer_ground (state : ParseState M) :
    state.ground.buffer = state.input.buffer := by
  unfold ground
  split
  · rfl
  · split <;> rfl

section Advancing

variable {cases : List (FieldCase M)} (hsound : Sound cases)

include hsound

theorem body_advances {field : FieldCase M} (hfield : field ∈ cases) (message : M)
    (input : CodedInputStream) :
    ParseStep.Advances cases (field.release input) (field.body message input) := by
  have hreads : ∀ {after middle}, field.read message input = (after, some middle) →
      (field.release input).Advances (field.release middle) :=
    fun hread => ((hsound.reads field hfield).advancing hread).release field
  refine FieldCase.body_cases (ParseStep.Advances cases (field.release input)) ?_ ?_ ?_ ?_
  · intro message' hread after hafter
    cases hafter
  · intro message' middle tag label landed hread hjump hexpect
    obtain ⟨hheld, target, htarget, htag, hrepeated⟩ := hsound.target_of_jump hfield hjump
    have hsmall := (hsound.shape_of_mem (findCase_eq_some htarget).1).1.2
    obtain ⟨hbuffer, hlanded⟩ := expectTag_eq_some (htag ▸ hsmall) hexpect
    have hlands : middle.Advances landed := by
      rw [hlanded]
      exact Advances.withBuffer ⟨[_], hbuffer.symm⟩
    have hground : (ParseState.mk (some label) message' landed).ground =
        field.release landed := by
      simp only [ParseState.ground, hheld, FieldCase.release]
    have hshorter : landed.buffer.length < middle.buffer.length := by
      rw [hbuffer, List.length_cons]
      exact Nat.lt_succ_self _
    refine ⟨?_, ?_, fun _ => ?_⟩
    · intro label' hlabel
      cases hlabel
      exact ⟨target, htarget, hrepeated⟩
    · rw [hground]
      exact (hreads hread).trans (hlands.release field)
    · have hle := (hreads hread).buffer.length_le
      rw [buffer_release, buffer_release] at hle
      rw [buffer_release]
      exact hshorter.trans_le hle
  · intro message' middle final hread hend after hafter
    obtain ⟨-, hfinal⟩ := expectAtEnd_eq_some hend
    have hfinals : (field.release middle).Advances final := by
      rw [hfinal]
      exact ⟨List.suffix_refl _, rfl, fun _ => rfl⟩
    rw [← Option.some.inj hafter]
    exact (hreads hread).trans hfinals
  · intro message' middle hread
    refine ⟨?_, hreads hread, ?_⟩
    · intro label hlabel
      cases hlabel
    · intro hlabel
      exact absurd rfl hlabel

theorem enter_advances {field : FieldCase M} (hfield : field ∈ cases) (message : M)
    (input : CodedInputStream) :
    ParseStep.Advances cases input (field.enter message input) := by
  unfold FieldCase.enter
  by_cases hrepeated : field.repeated = true
  · rw [if_pos hrepeated]
    split
    · intro after hafter
      cases hafter
    · rename_i deeper hdeeper
      obtain ⟨-, rfl⟩ := incrementRecursionDepth_eq_some_iff.mp hdeeper
      have hbody := body_advances hsound hfield message (input.withBudget (-1))
      rwa [FieldCase.release, if_pos hrepeated, withBudget_neg_withBudget] at hbody
  · rw [if_neg hrepeated]
    have hbody := body_advances hsound hfield message input
    rwa [FieldCase.release, if_neg hrepeated] at hbody

omit hsound in
variable (cases) in
theorem handleUnusual_advances (tag : UInt32) (message : M) (input : CodedInputStream) :
    ParseStep.Advances cases input (handleUnusual tag message input) ∧
      ∀ next, handleUnusual tag message input = .inr next → tag ≠ 0 := by
  unfold handleUnusual
  split
  · refine ⟨fun after hafter => ?_, fun next hnext => by cases hnext⟩
    rw [← Option.some.inj hafter]
    exact Advances.refl input
  · rename_i htag
    refine ⟨?_, fun next hnext hzero => htag (Or.inl hzero)⟩
    split
    · intro after hafter
      cases hafter
    · rename_i after hskip
      refine ⟨?_, skipField_advances hskip, ?_⟩
      · intro label hlabel
        cases hlabel
      · intro hlabel
        exact absurd rfl hlabel

theorem atTop_advances (message : M) (input : CodedInputStream) :
    ∃ base, input.Advances base ∧ ParseStep.Advances cases base (atTop cases message input) ∧
      ∀ next, atTop cases message input = .inr next →
        base.buffer.length < input.buffer.length := by
  obtain ⟨read, hread, hresult⟩ := input.readTagWithCutoff_spec
  have hunusual := handleUnusual_advances cases read.1 message
    (read.2.withLastTag read.1)
  refine ⟨read.2.withLastTag read.1, hread.advances.withLastTag read.1, ?_⟩
  have hshorter : read.1 ≠ 0 → read.2.buffer.length < input.buffer.length :=
    hread.length_lt
  simp only [atTop, hresult]
  split
  · split
    · rename_i field hfield
      split
      · rename_i htag
        have hmem := (findCase_eq_some hfield).1
        have hpos := (hsound.shape_of_mem hmem).1.1
        exact ⟨enter_advances hsound hmem message _,
          fun _ _ => hshorter (htag ▸ (UInt32.pos_iff_ne_zero.mp hpos))⟩
      · exact ⟨hunusual.1, fun next hnext => hshorter (hunusual.2 next hnext)⟩
    · exact ⟨hunusual.1, fun next hnext => hshorter (hunusual.2 next hnext)⟩
  · exact ⟨hunusual.1, fun next hnext => hshorter (hunusual.2 next hnext)⟩

theorem mergeLoop_body (state : ParseState M) :
    ∃ base, ParseStep.Advances cases base ((mergeLoop cases).body state) ∧
      (state.Landed cases → state.ground.Advances base) ∧
      ∀ next, (mergeLoop cases).body state = .inr next →
        2 * base.buffer.length < (mergeLoop cases).size state := by
  obtain ⟨label, message, input⟩ := state
  cases label with
  | none =>
      obtain ⟨base, hbase, hstep, hshorter⟩ := atTop_advances hsound message input
      refine ⟨base, hstep, fun _ => hbase, fun next hnext => ?_⟩
      have hlt := hshorter next hnext
      simp only [mergeLoop, Option.isSome_none, Bool.false_eq_true, if_false]
      omega
  | some label =>
      have hfailed : ParseStep.Advances cases
          (ParseState.mk (some label) message input).ground (.failure message) :=
        fun after hafter => by cases hafter
      have hsize : 2 * input.buffer.length <
          (mergeLoop cases).size ⟨some label, message, input⟩ :=
        Nat.lt_succ_self _
      have hground := (ParseState.mk (some label) message input).buffer_ground
      cases label with
      | parse number =>
          cases hfield : findCase cases number with
          | none =>
              simp only [mergeLoop, atLabel, hfield]
              exact ⟨_, hfailed, fun _ => Advances.refl _, fun _ _ => hsize⟩
          | some field =>
              simp only [mergeLoop, atLabel, hfield]
              exact ⟨input, enter_advances hsound (findCase_eq_some hfield).1 message input,
                fun _ => Advances.refl _, fun _ _ => hsize⟩
      | parseLoop number =>
          cases hfield : findCase cases number with
          | none =>
              simp only [mergeLoop, atLabel, hfield]
              exact ⟨_, hfailed, fun _ => Advances.refl _, fun _ _ => hsize⟩
          | some field =>
              simp only [mergeLoop, atLabel, hfield]
              refine ⟨field.release input,
                body_advances hsound (findCase_eq_some hfield).1 message input, ?_, ?_⟩
              · intro hlanded
                obtain ⟨target, htarget, hrepeated⟩ := hlanded _ rfl
                obtain rfl := Option.some.inj (hfield.symm.trans htarget)
                rw [FieldCase.release, if_pos (hrepeated rfl)]
                exact Advances.refl _
              · intro _ _
                rw [buffer_release]
                exact hsize

theorem mergeLoop_decreasing : (mergeLoop cases).Decreasing := by
  intro state next hbody
  obtain ⟨base, hstep, -, hsize⟩ := mergeLoop_body hsound state
  have hbase := hsize next hbody
  rw [hbody] at hstep
  obtain ⟨-, hadvances, hshorter⟩ := hstep
  have hle := hadvances.buffer.length_le
  rw [next.buffer_ground] at hle
  refine lt_of_le_of_lt ?_ hbase
  simp only [mergeLoop]
  cases hlabel : next.label with
  | none =>
      simp only [Option.isSome_none, Bool.false_eq_true, if_false]
      omega
  | some label =>
      have hlt := hshorter (by rw [hlabel]; exact Option.some_ne_none label)
      simp only [Option.isSome_some, if_true]
      omega

theorem mergeLoop_advances (state : ParseState M) (hlanded : state.Landed cases)
    {message : M} {after : CodedInputStream}
    (hrun : (mergeLoop cases).run state = (message, some after)) :
    state.ground.Advances after := by
  refine Loop.run_induction (mergeLoop_decreasing hsound)
    (fun state result => state.Landed cases → ∀ after, result.2 = some after →
      state.ground.Advances after) ?_ ?_ state hlanded after (congrArg Prod.snd hrun)
  · intro state result hbody hlanded after hafter
    obtain ⟨base, hstep, hbase, -⟩ := mergeLoop_body hsound state
    rw [hbody] at hstep
    exact (hbase hlanded).trans (hstep after hafter)
  · intro state next hbody ih hlanded after hafter
    obtain ⟨base, hstep, hbase, -⟩ := mergeLoop_body hsound state
    rw [hbody] at hstep
    obtain ⟨hnext, hadvances, -⟩ := hstep
    exact ((hbase hlanded).trans hadvances).trans (ih hnext after hafter)

/-- A generated parser leaves the stream as a read of one field does. -/
theorem mergeCases_advancing : (mergeCases cases).Advancing := by
  intro message input message' after hmerge
  exact mergeLoop_advances hsound ⟨none, message, input⟩ (fun _ hlabel => by cases hlabel) hmerge

end Advancing

theorem mergeCases_forgets (cases : List (FieldCase M)) : (mergeCases cases).Forgets := by
  intro message input tag
  have hbody : (mergeLoop cases).body ⟨none, message, input.withLastTag tag⟩ =
      (mergeLoop cases).body ⟨none, message, input⟩ := by
    simp only [mergeLoop, atTop, readTagWithCutoff_withLastTag]
  have hsize : (mergeLoop cases).size ⟨none, message, input.withLastTag tag⟩ =
      (mergeLoop cases).size ⟨none, message, input⟩ := rfl
  simp only [mergeCases, Loop.run, Loop.rounds, hbody, hsize]

theorem Sound.readMessage {cases : List (FieldCase M)} (hsound : Sound cases) :
    (readMessage (mergeCases cases)).Sound where
  advancing := readMessage_advancing (mergeCases_advancing hsound)
  blind := readMessage_blind (mergeCases_forgets cases)

theorem Merge.Forgets.blind {merge : Merge M} (hforgets : merge.Forgets) : merge.Blind :=
  fun message input tag => congrArg forgetTag (hforgets message input tag)

theorem Sound.repeatedMessage {cases : List (FieldCase M)} (hsound : Sound cases)
    (reader : RepeatedReader) : (reader.read (mergeCases cases)).Sound where
  advancing := reader.advancing _ (mergeCases_advancing hsound)
  blind := reader.blind _ (mergeCases_forgets cases).blind

theorem Merge.Sound.subMessage {read : Merge N} (hread : read.Sound) (get : M → N)
    (set : M → N → M) : (Pb.subMessage get set read).Sound where
  advancing := subMessage_advancing hread.advancing get set
  blind := subMessage_blind hread.blind get set

/-! ### With and without the jumps -/

theorem Sound.plain {cases : List (FieldCase M)} (hsound : Sound cases) :
    Sound (cases.map FieldCase.plain) where
  closed := by
    refine List.all_eq_true.mpr fun shape hshape => ?_
    simp only [List.map_map, List.mem_map] at hshape
    obtain ⟨field, hfield, rfl⟩ := hshape
    obtain ⟨⟨hpos, hsmall⟩, hnumber, -⟩ := hsound.shape_of_mem hfield
    simp only [Function.comp_apply, FieldCase.shape, FieldCase.plain, hpos, hsmall, hnumber,
      decide_true, List.all_nil, Bool.and_self]
  reads := fun field hfield => by
    obtain ⟨original, horiginal, rfl⟩ := List.mem_map.mp hfield
    exact hsound.reads original horiginal

theorem readTagWithCutoff_of_tag {input : CodedInputStream} {tag : UInt32} {rest : List UInt8}
    (hpos : 0 < tag) (hsmall : tag < 128) (hbuffer : input.buffer = tag.toUInt8 :: rest) :
    input.readTagWithCutoff 127 = ((tag, true), (input.withBuffer rest).withLastTag tag) := by
  have hvalue : tag.toUInt8.toNat = tag.toNat := by
    have hlt : tag.toNat < 128 := UInt32.lt_iff_toNat_lt.mp hsmall
    rw [UInt32.toNat_toUInt8]
    omega
  have hback : tag.toUInt8.toUInt32 = tag := by
    rw [← UInt32.toNat_inj, UInt8.toNat_toUInt32, hvalue]
  have hhot : 0 < tag.toUInt8 ∧ tag.toUInt8 < 0x80 := by
    rw [UInt8.lt_iff_toNat_lt, UInt8.lt_iff_toNat_lt, hvalue]
    exact ⟨UInt32.lt_iff_toNat_lt.mp hpos, UInt32.lt_iff_toNat_lt.mp hsmall⟩
  have hcutoff : decide ((127 : UInt32) ≥ 0x7f ∨ tag ≤ 127) = true :=
    decide_eq_true (Or.inl (by decide))
  have hadvance : input.advance 1 = input.withBuffer rest := by
    rw [advance, hbuffer]
    rfl
  simp only [readTagWithCutoff, readTagWithCutoffNoLastTag, hbuffer]
  cases rest <;> simp only [if_pos hhot, hback, hcutoff, hadvance] <;> rfl

section Simulation

variable (cases : List (FieldCase M))

/-- The parser without jumps is at the top of its loop, before the tag that the other one has
jumped over. -/
structure Related (state plainState : ParseState M) : Prop where
  top : plainState.label = none
  message : plainState.message = state.message
  /-- Up to the last tag, the stream with the tag of the label back in front. -/
  input : ∃ lastTag, plainState.input =
    (match state.label with
      | none => state.input
      | some label =>
          match findCase cases label.number with
          | none => state.input
          | some target =>
              state.ground.withBuffer (target.tag.toUInt8 :: state.input.buffer)).withLastTag
      lastTag
  landed : state.Landed cases
  held : ∀ label, state.label = some label → label.held = true → 0 ≤ state.input.recursionBudget
  limit : state.ground.recursionBudget ≤ defaultRecursionLimit

def settle (step : ParseStep M) : M × Option CodedInputStream :=
  match step with
  | .inl result => result
  | .inr next => (mergeLoop (cases.map FieldCase.plain)).run next

def Matches (step plainStep : ParseStep M) : Prop :=
  match step with
  | .inl result => result = settle cases plainStep
  | .inr next => ∃ plainNext, plainStep = .inr plainNext ∧ Related cases next plainNext

variable {cases}

theorem related_atTop (message : M) {input : CodedInputStream} (lastTag : UInt32)
    (hlimit : input.recursionBudget ≤ defaultRecursionLimit) :
    Related cases ⟨none, message, input⟩ ⟨none, message, input.withLastTag lastTag⟩ where
  top := rfl
  message := rfl
  input := ⟨lastTag, rfl⟩
  landed := fun _ hlabel => by cases hlabel
  held := fun _ hlabel => by cases hlabel
  limit := hlimit

theorem settle_atEnd (message : M) {input : CodedInputStream} (hbuffer : input.buffer = []) :
    settle cases (.again message input) =
      (message, some { input with lastTag := 0, legitimateMessageEnd := true }) := by
  obtain ⟨read, hread, hresult⟩ := input.readTagWithCutoff_spec
  rw [hread.atEnd hbuffer] at hresult
  refine Loop.run_leave ?_
  have hcutoff : ¬ ((0 : UInt32) - 1 < 127) := by decide
  simp only [mergeLoop, atTop, hresult, hcutoff, decide_false, Bool.false_eq_true, if_false,
    handleUnusual, true_or, if_true, ParseStep.success]

theorem eq_none_of_forgetTag {outcome : M × Option CodedInputStream} {message : M}
    (hforget : forgetTag outcome = forgetTag (message, none)) : outcome = (message, none) := by
  obtain ⟨value, after⟩ := outcome
  obtain ⟨hvalue, hafter⟩ := Prod.mk.inj hforget
  exact Prod.ext hvalue (Option.map_eq_none_iff.mp hafter)

theorem eq_some_of_forgetTag {outcome : M × Option CodedInputStream} {message : M}
    {input : CodedInputStream} (hforget : forgetTag outcome = forgetTag (message, some input)) :
    ∃ lastTag, outcome = (message, some (input.withLastTag lastTag)) := by
  obtain ⟨value, after⟩ := outcome
  obtain ⟨hvalue, hafter⟩ := Prod.mk.inj hforget
  obtain ⟨after, rfl, hforgot⟩ := Option.map_eq_some_iff.mp hafter
  refine ⟨after.lastTag, Prod.ext hvalue (congrArg some ?_)⟩
  exact congrArg (fun input => input.withLastTag after.lastTag) hforgot

theorem release_withLastTag (field : FieldCase M) (input : CodedInputStream) (tag : UInt32) :
    field.release (input.withLastTag tag) = (field.release input).withLastTag tag := by
  unfold FieldCase.release
  split <;> rfl

theorem plain_body_of_read {field : FieldCase M} {message after : M}
    {input middle : CodedInputStream} (hread : field.read message input = (after, some middle)) :
    field.plain.body message input = .again after (field.release middle) := by
  simp only [FieldCase.body, FieldCase.plain, hread, FieldCase.jump, Bool.false_eq_true, if_false]
  rfl

section Fields

variable (hsound : Sound cases) {field : FieldCase M} (hfield : field ∈ cases) (message : M)
  {input : CodedInputStream} (tag : UInt32)

include hsound hfield

/-- Where a jump has read the next tag, the parser without jumps is back before it. -/
theorem related_landed {middle landed : CodedInputStream} {expected : UInt32} {label : Label}
    (lastTag : UInt32) (hjump : (expected, label) ∈ field.jumps)
    (hexpect : middle.expectTag expected = some landed)
    (hheld : field.repeated = true → 0 ≤ middle.recursionBudget)
    (hlimit : (field.release middle).recursionBudget ≤ defaultRecursionLimit) :
    Related cases ⟨some label, message, landed⟩
      ⟨none, message, (field.release middle).withLastTag lastTag⟩ := by
  obtain ⟨hlevel, target, htarget, htag, hrepeated⟩ := hsound.target_of_jump hfield hjump
  have hsmall := (hsound.shape_of_mem (findCase_eq_some htarget).1).1.2
  obtain ⟨hbuffer, hlanded⟩ := expectTag_eq_some (htag ▸ hsmall) hexpect
  have hground : (ParseState.mk (some label) message landed).ground = field.release landed := by
    simp only [ParseState.ground, hlevel, FieldCase.release]
  have hfront : (field.release landed).withBuffer (expected.toUInt8 :: landed.buffer) =
      field.release middle := by
    rw [← hbuffer, hlanded]
    unfold FieldCase.release
    split <;> rfl
  have hsame : landed.recursionBudget = middle.recursionBudget := by
    rw [hlanded]
    rfl
  refine ⟨rfl, rfl, ⟨lastTag, ?_⟩, ?_, ?_, ?_⟩
  · simp only [htarget, hground, htag, hfront]
  · intro label' hlabel
    cases hlabel
    exact ⟨target, htarget, hrepeated⟩
  · intro label' hlabel hlevel'
    cases hlabel
    exact (hheld (hlevel.symm.trans hlevel')).trans_eq hsame.symm
  · rw [hground]
    exact (congrArg CodedInputStream.recursionBudget hfront).trans_le hlimit

/-- The two reads differ in the last tag, and what follows them is matched case by case. -/
theorem body_matches (hheld : field.repeated = true → 0 ≤ input.recursionBudget)
    (hlimit : (field.release input).recursionBudget ≤ defaultRecursionLimit) :
    Matches cases (field.body message input)
      (field.plain.body message (input.withLastTag tag)) := by
  have hblind := (hsound.reads field hfield).blind message input tag
  have hplain : ∀ {after middle}, field.read message input = (after, some middle) →
      ∃ lastTag, field.plain.body message (input.withLastTag tag) =
        .again after ((field.release middle).withLastTag lastTag) := by
    intro after middle hread
    rw [hread] at hblind
    obtain ⟨lastTag, hread'⟩ := eq_some_of_forgetTag hblind
    exact ⟨lastTag, by rw [plain_body_of_read hread', release_withLastTag]⟩
  have hreads : ∀ {after middle}, field.read message input = (after, some middle) →
      (field.release input).Advances (field.release middle) :=
    fun hread => ((hsound.reads field hfield).advancing hread).release field
  have hbudget : ∀ {after middle}, field.read message input = (after, some middle) →
      (field.release middle).recursionBudget = (field.release input).recursionBudget :=
    fun hread => (hreads hread).recursionBudget hlimit
  refine FieldCase.body_cases
    (fun step => Matches cases step (field.plain.body message (input.withLastTag tag))) ?_ ?_ ?_ ?_
  · intro after hread
    rw [hread] at hblind
    have hread' := eq_none_of_forgetTag hblind
    have hstep : field.plain.body message (input.withLastTag tag) = .failure after := by
      simp only [FieldCase.body, FieldCase.plain, hread']
    rw [hstep]
    rfl
  · intro after middle expected label landed hread hjump hexpect
    obtain ⟨lastTag, hagain⟩ := hplain hread
    have hsame := hbudget hread
    have hmiddle : field.repeated = true → 0 ≤ middle.recursionBudget := by
      intro hrepeated
      have hpos := hheld hrepeated
      simp only [FieldCase.release, if_pos hrepeated, withBudget] at hsame
      omega
    exact ⟨_, hagain, related_landed hsound hfield after lastTag hjump hexpect hmiddle
      (hsame.trans_le hlimit)⟩
  · intro after middle final hread hend
    obtain ⟨hbuffer, rfl⟩ := expectAtEnd_eq_some hend
    obtain ⟨lastTag, hagain⟩ := hplain hread
    have hbuffer' : ((field.release middle).withLastTag lastTag).buffer = [] := hbuffer
    rw [hagain]
    exact (settle_atEnd after hbuffer').symm
  · intro after middle hread
    obtain ⟨lastTag, hagain⟩ := hplain hread
    exact ⟨_, hagain, related_atTop after lastTag ((hbudget hread).trans_le hlimit)⟩

theorem enter_matches (hlimit : input.recursionBudget ≤ defaultRecursionLimit) :
    Matches cases (field.enter message input)
      (field.plain.enter message (input.withLastTag tag)) := by
  have hsame : field.plain.repeated = field.repeated := rfl
  simp only [FieldCase.enter, hsame, incrementRecursionDepth_withLastTag]
  by_cases hrepeated : field.repeated = true
  · simp only [if_pos hrepeated]
    cases hdeeper : input.incrementRecursionDepth with
    | none => rfl
    | some deeper =>
        obtain ⟨hbudget, rfl⟩ := incrementRecursionDepth_eq_some_iff.mp hdeeper
        refine body_matches hsound hfield message tag (fun _ => ?_) ?_
        · simp only [withBudget]
          omega
        · rwa [FieldCase.release, if_pos hrepeated, withBudget_neg_withBudget]
  · simp only [if_neg hrepeated]
    refine body_matches hsound hfield message tag (fun hrep => absurd hrep hrepeated) ?_
    rwa [FieldCase.release, if_neg hrepeated]

end Fields

variable (cases) in
theorem handleUnusual_matches (tag : UInt32) (message : M) {input : CodedInputStream}
    (hlimit : input.recursionBudget ≤ defaultRecursionLimit) :
    Matches cases (handleUnusual tag message input) (handleUnusual tag message input) := by
  unfold handleUnusual
  split
  · rfl
  split
  · rfl
  · rename_i after hskip
    have hbudget := (skipField_advances hskip).recursionBudget hlimit
    exact ⟨_, rfl, related_atTop message after.lastTag (hbudget.trans_le hlimit)⟩

theorem atTop_matches (hsound : Sound cases) (message : M) {input : CodedInputStream}
    (hlimit : input.recursionBudget ≤ defaultRecursionLimit) :
    Matches cases (atTop cases message input)
      (atTop (cases.map FieldCase.plain) message input) := by
  obtain ⟨read, hread, hresult⟩ := input.readTagWithCutoff_spec
  have hadvances := hread.advances.withLastTag read.1
  have hlimit' : (read.2.withLastTag read.1).recursionBudget ≤ defaultRecursionLimit :=
    (hadvances.recursionBudget hlimit).trans_le hlimit
  have hunusual := handleUnusual_matches cases read.1 message hlimit'
  simp only [atTop, hresult, findCase_plain]
  split
  · cases hfield : findCase cases (getTagFieldNumber read.1) with
    | none => exact hunusual
    | some field =>
        have hsame : field.plain.tag = field.tag := rfl
        simp only [Option.map_some, hsame]
        split
        · exact enter_matches hsound (findCase_eq_some hfield).1 message read.1 hlimit'
        · exact hunusual
  · exact hunusual

/-- Back at the tag that the other parser jumped over, the parser without jumps goes to the same
case, and arrives there with the same budget. -/
theorem body_of_related (hsound : Sound cases) {state plainState : ParseState M}
    (hrelated : Related cases state plainState) :
    Matches cases ((mergeLoop cases).body state)
      ((mergeLoop (cases.map FieldCase.plain)).body plainState) := by
  obtain ⟨label, message, input⟩ := state
  obtain ⟨plainLabel, plainMessage, plainInput⟩ := plainState
  obtain ⟨htop, hmessage, ⟨lastTag, hinput⟩, hlanded, hheld, hlimit⟩ := hrelated
  obtain rfl : plainLabel = none := htop
  obtain rfl : plainMessage = message := hmessage
  cases label with
  | none =>
      obtain rfl : plainInput = input.withLastTag lastTag := hinput
      simp only [mergeLoop, atTop, readTagWithCutoff_withLastTag]
      exact atTop_matches hsound plainMessage hlimit
  | some label =>
      obtain ⟨target, htarget, hrepeated⟩ := hlanded label rfl
      obtain ⟨hmem, hnumber⟩ := findCase_eq_some htarget
      obtain ⟨⟨hpos, hsmall⟩, hfieldNumber, -⟩ := hsound.shape_of_mem hmem
      simp only [htarget] at hinput
      have hbuffer : plainInput.buffer = target.tag.toUInt8 :: input.buffer := by
        rw [hinput]
        rfl
      have hread := readTagWithCutoff_of_tag hpos hsmall hbuffer
      have hback : (plainInput.withBuffer input.buffer).withLastTag target.tag =
          (ParseState.ground ⟨some label, plainMessage, input⟩).withLastTag target.tag := by
        have hground := ParseState.buffer_ground ⟨some label, plainMessage, input⟩
        rw [hinput, ← show _ = input.buffer from hground]
        rfl
      have hsame : target.plain.tag = target.tag := rfl
      simp only [mergeLoop, atTop, hread, hfieldNumber, hnumber, findCase_plain, htarget,
        Option.map_some, if_true, hsame, hback]
      cases label with
      | parse number =>
          simp only [Label.number] at htarget
          simp only [atLabel, htarget, ParseState.ground, Label.held]
          exact enter_matches hsound hmem plainMessage target.tag hlimit
      | parseLoop number =>
          simp only [Label.number] at htarget
          have hlevel : target.repeated = true := hrepeated rfl
          have hbudget : 0 ≤ input.recursionBudget := hheld _ rfl rfl
          have hdeeper : ((input.withBudget 1).withLastTag target.tag).incrementRecursionDepth =
              some (input.withLastTag target.tag) := by
            refine incrementRecursionDepth_eq_some_iff.mpr ⟨?_, ?_⟩
            · simp only [withLastTag, withBudget]
              omega
            · exact congrArg (fun input => input.withLastTag target.tag)
                (withBudget_withBudget_neg input).symm
          simp only [atLabel, htarget, ParseState.ground, Label.held, if_true, FieldCase.enter]
          rw [if_pos (show target.plain.repeated = true from hlevel), hdeeper]
          refine body_matches hsound hmem plainMessage target.tag (fun _ => hbudget) ?_
          rw [FieldCase.release, if_pos hlevel]
          exact hlimit

/-- **The jumps change nothing.** -/
theorem mergeCases_plain (hsound : Sound cases) (message : M) {input : CodedInputStream}
    (hlimit : input.recursionBudget ≤ defaultRecursionLimit) :
    mergeCases cases message input = mergeCases (cases.map FieldCase.plain) message input := by
  have hplain := mergeLoop_decreasing hsound.plain
  have hstart : Related cases ⟨none, message, input⟩ ⟨none, message, input⟩ :=
    related_atTop message input.lastTag hlimit
  change (mergeLoop cases).run _ = (mergeLoop (cases.map FieldCase.plain)).run _
  refine Loop.run_rel (mergeLoop_decreasing hsound) hplain ?_ ?_ hstart
  · intro state state' result hrelated hbody
    have hmatches := body_of_related hsound hrelated
    rw [hbody] at hmatches
    refine hmatches.trans ?_
    unfold settle
    split
    · rename_i result hleave
      exact (Loop.run_leave hleave).symm
    · rename_i next hround
      exact (Loop.run_round hplain hround).symm
  · intro state state' next hrelated hbody
    have hmatches := body_of_related hsound hrelated
    rwa [hbody] at hmatches

end Simulation

end FiraClient.Pb
