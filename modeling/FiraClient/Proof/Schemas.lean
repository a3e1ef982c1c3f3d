import FiraClient.Pb.Proto
import FiraClient.Proof.Refinement
import FiraClient.Proof.Tables

/-!
# The generated parsers implement their schemas

Each kind of case reads what the kind of field reads that it was generated from, so the tables of
`common.pb.cc` realize the messages of `common.proto`. A nested message is read to the end of its
length or to the limit that is in force, whichever comes first, and the limit is put back.
-/

namespace FiraClient

open Pb

namespace Pb

open CodedInputStream

variable {M N α : Type}

/-- A read gives what the decoder gives. -/
def Decodes (decoder : Wire.Decoder α) (read : List UInt8 → Option α × List UInt8) : Prop :=
  ∀ buffer, match decoder.decode buffer with
    | some (value, rest) => read buffer = (some value, rest)
    | none => (read buffer).1 = none

theorem ReadsVarint.decodes {convert : ℕ → α} {read : List UInt8 → Option α × List UInt8}
    (hreads : ReadsVarint (some ∘ convert) read) : Decodes (varintDecoder convert) read := by
  intro buffer
  have hvarint := hreads buffer
  simp only [varintDecoder]
  cases hdecode : Varint.decode 10 buffer with
  | none =>
      simp only [hdecode] at hvarint
      exact hvarint
  | some decoded =>
      simp only [hdecode, Function.comp_apply] at hvarint
      exact hvarint

theorem readDouble_decodes : Decodes doubleDecoder readDouble := by
  intro buffer
  simp only [doubleDecoder, Wire.cut, readDouble, readLittleEndian64]
  by_cases hlength : 8 ≤ buffer.length
  · simp only [if_pos hlength, Option.map_some]
  · simp only [if_neg hlength, Option.map_none]

theorem readBool_decodes :
    Decodes (varintDecoder fun value => decide (value % 2 ^ 64 ≠ 0)) readBool := by
  intro buffer
  have hvarint := readVarint64_reads buffer
  simp only [varintDecoder, readBool]
  cases hdecode : Varint.decode 10 buffer with
  | none =>
      simp only [hdecode] at hvarint
      simp only [Option.map_none, hvarint]
  | some decoded =>
      simp only [hdecode, Function.comp_apply] at hvarint
      have hzero : UInt64.ofNat decoded.1 ≠ 0 ↔ decoded.1 % 2 ^ 64 ≠ 0 := by
        rw [ne_eq, ← UInt64.toNat_inj, UInt64.toNat_ofNat']
        rfl
      simp only [hvarint, Option.map_some, hzero]

/-! ### One case without its jumps -/

section Enter

variable {fieldCase : FieldCase M} (message : M) (input : CodedInputStream)

theorem plain_body (message : M) (input : CodedInputStream) :
    fieldCase.plain.body message input =
      match fieldCase.read message input with
      | (message, none) => .failure message
      | (message, some input) => .again message (fieldCase.release input) := by
  rcases hread : fieldCase.read message input with ⟨after, _ | middle⟩
  · simp only [FieldCase.body, FieldCase.plain, hread]
  · exact plain_body_of_read hread

theorem plain_enter_singular (hsingular : fieldCase.repeated = false) :
    fieldCase.plain.enter message input =
      match fieldCase.read message input with
      | (message, none) => .failure message
      | (message, some input) => .again message input := by
  have hplain : ¬ fieldCase.plain.repeated = true := by
    rw [show fieldCase.plain.repeated = false from hsingular]
    exact Bool.false_ne_true
  have hrelease : ∀ input, fieldCase.release input = input := by
    intro input
    rw [FieldCase.release, hsingular, if_neg Bool.false_ne_true]
  rw [FieldCase.enter, if_neg hplain, plain_body]
  simp only [hrelease]

theorem plain_enter_repeated (hrepeated : fieldCase.repeated = true) :
    fieldCase.plain.enter message input =
      match input.incrementRecursionDepth with
      | none => .failure message
      | some input =>
          match fieldCase.read message input with
          | (message, none) => .failure message
          | (message, some input) => .again message (input.withBudget 1) := by
  have hplain : fieldCase.plain.repeated = true := hrepeated
  have hrelease : ∀ input, fieldCase.release input = input.withBudget 1 := by
    intro input
    rw [FieldCase.release, if_pos hrepeated]
  rw [FieldCase.enter, if_pos hplain]
  cases input.incrementRecursionDepth with
  | none => rfl
  | some deeper =>
      simp only [plain_body, hrelease]

end Enter

/-! ### Kinds of cases -/

theorem implements_primitive (strict : Prop) {fieldCase : FieldCase M} {decoder : Wire.Decoder α}
    {read : List UInt8 → Option α × List UInt8} {left : Option α} {set : M → α → M} {tag : ℕ}
    (htag : tag = fieldCase.tag.toNat) (hread : Decodes decoder read)
    (hcase : fieldCase.read = readPrimitive read left set)
    (hsingular : fieldCase.repeated = false) :
    Implements strict (Wire.valueField tag decoder set) fieldCase where
  tag := htag
  reads := fun message input hdepth hwithin => by
    have hdecodes := hread input.buffer
    rw [plain_enter_singular message input hsingular, hcase]
    simp only [Wire.valueField]
    cases hdecode : decoder.decode input.buffer with
    | none =>
        simp only [hdecode] at hdecodes
        simp only [readPrimitive, onBuffer, hdecodes]
        exact fun _ => rejected_failure _
    | some decoded =>
        simp only [hdecode] at hdecodes
        simp only [readPrimitive, onBuffer, hdecodes]
        exact ⟨input.lastTag, rfl⟩

theorem readVarintSizeAsInt_length (buffer : List UInt8) :
    match Wire.readLength buffer with
    | some (length, rest) => readVarintSizeAsInt buffer = (some (length : Int), rest)
    | none => (readVarintSizeAsInt buffer).1 = none := by
  have hreads := readVarintSizeAsInt_reads buffer
  unfold Wire.readLength
  cases hdecode : Varint.decode 10 buffer with
  | none =>
      simp only [hdecode] at hreads
      exact hreads
  | some decoded =>
      simp only [hdecode, sizeOf?] at hreads
      by_cases hsize : decoded.1 % 2 ^ 64 < 2 ^ 31
      · simp only [if_pos hsize] at hreads ⊢
        exact hreads
      · simp only [if_neg hsize] at hreads ⊢
        exact hreads

theorem readLength_eq_none_iff (buffer : List UInt8) :
    Wire.readLength buffer = none ↔ (readVarintSizeAsInt buffer).1 = none := by
  have hlength := readVarintSizeAsInt_length buffer
  cases hread : Wire.readLength buffer with
  | none =>
      simp only [hread] at hlength
      exact iff_of_true rfl hlength
  | some sized =>
      simp only [hread] at hlength
      rw [hlength]
      exact iff_of_false nofun nofun

/-- A merge that makes of the bytes what the schema makes of them. -/
def Merge.Parses (strict : Prop) (fields : List (Wire.Field N)) (merge : Merge N) : Prop :=
  ∀ {depth : ℕ} (value : N) {input : CodedInputStream},
    (depth : Int) ≤ defaultRecursionLimit → input.Within depth →
    Accepts strict input (Wire.parse fields depth value input.buffer) (merge value input)

theorem Realizes.parses {strict : Prop} {fields : List (Wire.Field N)}
    {cases : List (FieldCase N)} (hrealizes : Realizes strict fields cases) :
    (mergeCases cases).Parses strict fields :=
  fun value _ hdepth hwithin => mergeCases_accepts hrealizes hdepth value hwithin

section Nested

variable {strict : Prop} {fields : List (Wire.Field N)} {merge : Merge N}

/-- Between the limits: the inner message has the bytes of its length, or all there are. -/
theorem pushLimit_eq (input : CodedInputStream) (length : ℕ) :
    (input.pushLimit length).2 =
      { input with
        buffer := input.buffer.take length
        afterLimit := input.buffer.drop length ++ input.afterLimit } ∧
      (input.pushLimit length).1 = input.afterLimit.length := by
  unfold pushLimit
  by_cases hlimit : length < input.buffer.length
  · have hpushed : 0 ≤ (length : Int) ∧ (length : Int) < input.buffer.length := by omega
    simp only [if_pos hpushed, Int.toNat_natCast, and_self]
  · have hpushed : ¬ (0 ≤ (length : Int) ∧ (length : Int) < input.buffer.length) := by omega
    have hle : input.buffer.length ≤ length := Nat.le_of_not_lt hlimit
    simp only [if_neg hpushed, List.take_of_length_le hle, List.drop_of_length_le hle,
      List.nil_append, and_self]

theorem popLimit_ended {depth length : ℕ} {input : CodedInputStream} {rest : List UInt8}
    (hpush : ((input.withBuffer rest).pushLimit length).2 =
      { input.withBuffer rest with
        buffer := rest.take length
        afterLimit := rest.drop length ++ input.afterLimit })
    (hwithin : input.Within depth) :
    ((((input.withBuffer rest).pushLimit length).2.withBudget
        (-1)).ended.decrementRecursionDepthAndPopLimit input.afterLimit.length) =
      some ((input.withBuffer (rest.drop length)).withLastTag 0) := by
  have hlegitimate := hwithin.legitimateMessageEnd
  rw [hpush]
  simp only [decrementRecursionDepthAndPopLimit, ended, withBudget, consumedEntireMessage, if_true,
    popLimit, unsafeDecrementRecursionDepth, withBuffer, withLastTag, List.length_append,
    Nat.add_sub_cancel, List.nil_append, List.take_left, List.drop_left, Int.neg_add_cancel_right,
    hlegitimate]

theorem readMessage_reads (hmerge : merge.Parses strict fields) {depth : ℕ}
    (hdepth : (depth : Int) ≤ defaultRecursionLimit) {input : CodedInputStream}
    (hwithin : input.Within depth) (get : M → N) (set : M → N → M) (message : M) :
    match Wire.readMessage fields get set depth message input.buffer with
    | some (next, rest) => ∃ value lastTag, next = set message value ∧
        readMessage merge (get message) input =
          (value, some ((input.withBuffer rest).withLastTag lastTag))
    | none => strict → (readMessage merge (get message) input).2 = none := by
  have hlength := readVarintSizeAsInt_length input.buffer
  cases hread : Wire.readLength input.buffer with
  | none =>
      simp only [hread] at hlength
      rw [Wire.readMessage_unsized fields get set depth message hread, readMessage_of_none hlength]
      exact fun _ => rfl
  | some sized =>
      obtain ⟨length, rest⟩ := sized
      simp only [hread] at hlength
      have hsome : input.onBuffer readVarintSizeAsInt =
          (some (length : Int), input.withBuffer rest) := by
        rw [onBuffer, hlength]
      rw [readMessage_of_some hsome]
      have hbudget : (input.withBuffer rest).recursionBudget = depth := hwithin.budget
      cases depth with
      | zero =>
          rw [if_pos (by omega)]
          exact fun _ => rfl
      | succ depth =>
          rw [if_neg (by omega)]
          have hpush := pushLimit_eq (input.withBuffer rest) length
          have hinner : (((input.withBuffer rest).pushLimit length).2.withBudget (-1)).Within
              depth := by
            rw [hpush.1]
            refine ⟨?_, hwithin.legitimateMessageEnd⟩
            simp only [withBudget]
            omega
          have haccepts := hmerge (get message) (by omega) hinner
          have hbuffer : (((input.withBuffer rest).pushLimit length).2.withBudget (-1)).buffer =
              rest.take length := by
            rw [hpush.1]
            rfl
          rw [hbuffer] at haccepts
          simp only [Wire.readMessage, hread]
          cases hparse : Wire.parse fields depth (get message) (rest.take length) with
          | none =>
              rw [hparse] at haccepts
              intro hstrict
              have hrejected := haccepts hstrict
              refine Option.bind_eq_none_iff.mpr fun after hafter => ?_
              simp only [decrementRecursionDepthAndPopLimit, consumedEntireMessage,
                hrejected after hafter, Bool.false_eq_true, if_false]
          | some inner =>
              rw [hparse] at haccepts
              have houtcome : merge (get message) _ = _ := haccepts
              refine ⟨inner, 0, rfl, ?_⟩
              rw [houtcome, hpush.2]
              refine congrArg (fun after => (inner, after)) ?_
              exact popLimit_ended hpush.1 hwithin

end Nested

theorem implements_message {strict : Prop} {fieldCase : FieldCase M}
    {fields : List (Wire.Field N)} {merge : Merge N} (hmerge : merge.Parses strict fields)
    {get : M → N} {set : M → N → M} {tag : ℕ} (htag : tag = fieldCase.tag.toNat)
    (hcase : fieldCase.read = subMessage get set (readMessage merge))
    (hsingular : fieldCase.repeated = false) :
    Implements strict (Wire.messageField tag fields get set) fieldCase where
  tag := htag
  reads := fun {depth} message input hdepth hwithin => by
    have hreads := readMessage_reads hmerge hdepth hwithin get set message
    rw [plain_enter_singular message input hsingular, hcase]
    simp only [Wire.messageField, subMessage]
    cases hread : Wire.readMessage fields get set depth message input.buffer with
    | none =>
        simp only [hread] at hreads
        intro hstrict
        rw [hreads hstrict]
        exact rejected_failure _
    | some next =>
        simp only [hread] at hreads
        obtain ⟨value, lastTag, hvalue, hresult⟩ := hreads
        rw [hresult]
        exact ⟨lastTag, by rw [hvalue]⟩

/-- The reader of repeated messages fails where the length cannot be read. -/
def RepeatedReader.Strict (reader : RepeatedReader) : Prop :=
  ∀ {M : Type} (merge : Merge M) (value : M) (input : CodedInputStream),
    (readVarintSizeAsInt input.buffer).1 = none → (reader.read merge value input).2 = none

/-- The level that the case takes is the one that `ReadMessage` would have taken. -/
theorem implements_repeated (reader : RepeatedReader) {fieldCase : FieldCase M}
    {fields : List (Wire.Field N)} {merge : Merge N}
    (hmerge : merge.Parses reader.Strict fields) {empty : N} {add : M → N → M} {tag : ℕ}
    (htag : tag = fieldCase.tag.toNat)
    (hcase : fieldCase.read = subMessage (fun _ => empty) add (reader.read merge))
    (hrepeated : fieldCase.repeated = true) :
    Implements reader.Strict (Wire.messageField tag fields (fun _ => empty) add) fieldCase where
  tag := htag
  reads := fun {depth} message input hdepth hwithin => by
    have hreads := readMessage_reads hmerge hdepth hwithin (fun _ => empty) add message
    rw [plain_enter_repeated message input hrepeated, hcase]
    simp only [Wire.messageField, subMessage]
    cases hdeeper : input.incrementRecursionDepth with
    | none =>
        have hzero : depth = 0 := by
          by_contra hpos
          have hbudget := hwithin.budget
          rw [incrementRecursionDepth_eq_some_iff.mpr ⟨by omega, rfl⟩] at hdeeper
          cases hdeeper
        rw [hzero]
        exact fun _ => rejected_failure _
    | some deeper =>
        obtain ⟨hbudget, rfl⟩ := incrementRecursionDepth_eq_some_iff.mp hdeeper
        by_cases hlength : (readVarintSizeAsInt input.buffer).1 = none
        · rw [Wire.readMessage_unsized fields _ add depth message
            ((readLength_eq_none_iff input.buffer).mpr hlength)]
          intro hstrict
          have hfails := hstrict merge empty (input.withBudget (-1)) hlength
          simp only [hfails]
          exact rejected_failure _
        · have hnonneg : 0 ≤ (input.withBudget (-1)).recursionBudget := by
            simp only [withBudget]
            omega
          have hreader := reader.reads merge empty (input.withBudget (-1)) hlength hnonneg
          rw [withBudget_neg_withBudget] at hreader
          simp only [hreader]
          cases hread : Wire.readMessage fields (fun _ => empty) add depth message input.buffer with
          | none =>
              simp only [hread] at hreads
              intro hstrict
              rw [hreads hstrict]
              exact rejected_failure _
          | some next =>
              simp only [hread] at hreads
              obtain ⟨value, lastTag, hvalue, hresult⟩ := hreads
              rw [hresult]
              simp only [Option.map_some, withBudget_neg_withBudget]
              exact ⟨lastTag, by rw [hvalue]⟩

section Cases

variable (strict : Prop) {n : ℕ} {number tag : UInt32} {jumps : List (UInt32 × Label)}
  {expectsEnd : Bool}

theorem implements_double {set : M → Binary64 → M} (htag : 8 * n + 1 = tag.toNat) :
    Implements strict (doubleField n set) (doubleCase number tag set jumps expectsEnd) :=
  implements_primitive strict htag readDouble_decodes rfl rfl

theorem implements_uint32 {set : M → UInt32 → M} (htag : 8 * n = tag.toNat) :
    Implements strict (uint32Field n set) (uint32Case number tag set jumps expectsEnd) :=
  implements_primitive strict htag readVarint32_reads.decodes rfl rfl

theorem implements_bool {set : M → Bool → M} (htag : 8 * n = tag.toNat) :
    Implements strict (boolField n set) (boolCase number tag set jumps expectsEnd) :=
  implements_primitive strict htag readBool_decodes rfl rfl

end Cases

end Pb

/-! ### The messages -/

section Leaves

variable (strict : Prop)

theorem Ball.realizes : Realizes strict Ball.schema Ball.cases where
  sound := Ball.sound
  distinct := by decide
  implements := by
    repeat' refine .cons (implements_double strict rfl) ?_
    exact .nil

theorem Robot.realizes : Realizes strict Robot.schema Robot.cases where
  sound := Robot.sound
  distinct := by decide
  implements := by
    refine .cons (implements_uint32 strict rfl) ?_
    repeat' refine .cons (implements_double strict rfl) ?_
    exact .nil

theorem Field.realizes : Realizes strict Field.schema Field.cases where
  sound := Field.sound
  distinct := by decide
  implements := by
    repeat' refine .cons (implements_double strict rfl) ?_
    exact .nil

theorem Command.realizes : Realizes strict Command.schema Command.cases where
  sound := Command.sound
  distinct := by decide
  implements :=
    .cons (implements_uint32 strict rfl) (.cons (implements_bool strict rfl)
      (.cons (implements_double strict rfl) (.cons (implements_double strict rfl) .nil)))

end Leaves

section Reader

variable (reader : RepeatedReader)

theorem Frame.realizes : Realizes reader.Strict Frame.schema (Frame.cases reader) where
  sound := Frame.sound reader
  distinct := by
    simp only [Frame.cases, List.map, messageCase, repeatedCase]
    decide
  implements :=
    .cons (implements_message (Ball.realizes _).parses rfl rfl rfl)
      (.cons (implements_repeated reader (Robot.realizes _).parses rfl rfl rfl)
        (.cons (implements_repeated reader (Robot.realizes _).parses rfl rfl rfl) .nil))

theorem Commands.realizes : Realizes reader.Strict Commands.schema (Commands.cases reader) where
  sound := Commands.sound reader
  distinct := by
    simp only [Commands.cases, List.map, repeatedCase]
    decide
  implements := .cons (implements_repeated reader (Command.realizes _).parses rfl rfl rfl) .nil

theorem Packet.realizes : Realizes reader.Strict Packet.schema (Packet.cases reader) where
  sound := Packet.sound reader
  distinct := by
    simp only [Packet.cases, List.map, messageCase]
    decide
  implements := .cons (implements_message (Commands.realizes reader).parses rfl rfl rfl) .nil

theorem Pb.Environment.realizes :
    Realizes reader.Strict Environment.schema (Environment.cases reader) where
  sound := Environment.sound reader
  distinct := by
    simp only [Environment.cases, List.map, messageCase, uint32Case]
    decide
  implements :=
    .cons (implements_uint32 _ rfl)
      (.cons (implements_message (Frame.realizes reader).parses rfl rfl rfl)
        (.cons (implements_message (Field.realizes _).parses rfl rfl rfl)
          (.cons (implements_uint32 _ rfl) (.cons (implements_uint32 _ rfl) .nil))))

end Reader

end FiraClient
