import FiraClient.Library.Size
import FiraClient.Proof.RoundTrip

/-!
# Normal forms

What the declared environment accepts is no shorter than what is written of it: the values that were
sent twice, the fields nobody knows, the numerals with leading zeros are gone. Of written bytes
nothing is gone a second time.
-/

namespace FiraClient

open Pb

namespace Pb

variable {M N : Type}

/-! ### What a field adds -/

section Conserves

variable {size : M → ℕ} {limit number : ℕ}

theorem double_conserves {set : M → Binary64 → M}
    (hset : ∀ message value, size (set message value) ≤ size message + 9) :
    (doubleField number set).Conserves size limit := by
  refine Wire.valueField_conserves fun message bytes result hdecode => ?_
  obtain ⟨⟨front, rest⟩, hcut, rfl⟩ := Option.map_eq_some_iff.mp hdecode
  have hset := hset message ⟨UInt64.ofNat (Wire.littleEndian front)⟩
  have hrest := Wire.length_of_cut hcut
  simp only
  omega

theorem uint32SizeUnlessZero_ofNat_le (value : ℕ) :
    uint32SizeUnlessZero (UInt32.ofNat value) ≤ 1 + (Varint.encode value).length := by
  unfold uint32SizeUnlessZero
  split
  · rw [uint32Size, varintSize32_eq, writeVarint32ToArray_eq, UInt32.toNat_ofNat']
    exact Nat.add_le_add_left (Varint.length_encode_mono (Nat.mod_le _ _)) 1
  · exact Nat.zero_le _

theorem uint32_conserves {set : M → UInt32 → M}
    (hset : ∀ message value, size (set message value) ≤ size message + uint32SizeUnlessZero value) :
    (uint32Field number set).Conserves size limit := by
  refine Wire.valueField_conserves fun message bytes result hdecode => ?_
  obtain ⟨⟨value, rest⟩, hvarint, rfl⟩ := Option.map_eq_some_iff.mp hdecode
  have hset := hset message (UInt32.ofNat value)
  have hsize := uint32SizeUnlessZero_ofNat_le value
  have hnumeral := Varint.length_encode_le_of_decode hvarint
  simp only
  omega

end Conserves

/-! ### Messages in messages -/

theorem lengthDelimitedSize_eq {length : ℕ} (hlength : length < 2 ^ 32) :
    lengthDelimitedSize length = length + (Varint.encode length).length := by
  rw [lengthDelimitedSize, varintSize32_eq, writeVarint32ToArray_eq, UInt32.toNat_ofNat',
    Nat.mod_eq_of_lt hlength]

theorem lengthDelimitedSize_le {old new length : ℕ} (hnew : new ≤ old + length)
    (hlimit : old + length < 2 ^ 31) :
    lengthDelimitedSize new ≤
      lengthDelimitedSize old + ((Varint.encode length).length + length) := by
  rw [lengthDelimitedSize_eq (by omega), lengthDelimitedSize_eq (by omega)]
  have hnumerals : (Varint.encode new).length ≤
      (Varint.encode old).length + (Varint.encode length).length :=
    (Varint.length_encode_mono hnew).trans (Varint.length_encode_add_le old length)
  omega

theorem lengthDelimitedSize_le_of_le {new length : ℕ} (hnew : new ≤ length)
    (hlimit : length < 2 ^ 31) :
    lengthDelimitedSize new ≤ (Varint.encode length).length + length := by
  rw [lengthDelimitedSize_eq (by omega)]
  have hnumerals := Varint.length_encode_mono hnew
  omega

/-- What a message-typed field takes, with a tag of one byte. -/
def optionalSize (size : N → ℕ) : Option N → ℕ
  | some value => 1 + lengthDelimitedSize (size value)
  | none => 0

section Optional

variable {size : M → ℕ} {number : ℕ} {inner : List (Wire.Field N)} {innerSize : N → ℕ} {cleared : N}

theorem innerSize_getD_le (hcleared : innerSize cleared = 0) (old : Option N) :
    innerSize (old.getD cleared) ≤ optionalSize innerSize old := by
  cases old with
  | none => exact hcleared.le
  | some value =>
      simp only [Option.getD_some, optionalSize, lengthDelimitedSize]
      omega

theorem optionalSize_le (hcleared : innerSize cleared = 0) (old : Option N) {new : N} {length : ℕ}
    (hnew : innerSize new ≤ innerSize (old.getD cleared) + length)
    (hlimit : optionalSize innerSize old + length < 2 ^ 31) :
    optionalSize innerSize (some new) ≤
      optionalSize innerSize old + 1 + (Varint.encode length).length + length := by
  have hthere := innerSize_getD_le hcleared old
  cases old with
  | none =>
      rw [Option.getD_none, hcleared, Nat.zero_add] at hnew
      have hsize := lengthDelimitedSize_le_of_le hnew (by omega)
      simp only [optionalSize]
      omega
  | some value =>
      have hsize := lengthDelimitedSize_le hnew (by omega)
      simp only [Option.getD_some] at hsize
      simp only [optionalSize]
      omega

theorem message_conserves (hinner : ∀ field ∈ inner, field.Conserves innerSize (2 ^ 31))
    (hcleared : innerSize cleared = 0) (get : M → Option N) {set : M → N → M}
    (hget : ∀ message, optionalSize innerSize (get message) ≤ size message)
    (hset : ∀ message value, size (set message value) + optionalSize innerSize (get message) =
      size message + optionalSize innerSize (some value)) :
    (messageField number inner (fun message => (get message).getD cleared) set).Conserves size
      (2 ^ 31) := by
  refine Wire.messageField_conserves hinner (fun message => ?_)
    fun message value length hvalue hlimit => ?_
  · exact (innerSize_getD_le hcleared (get message)).trans (hget message)
  · have hthere := hget message
    have hadded := optionalSize_le hcleared (get message) hvalue (by omega)
    have hreplaced := hset message value
    omega

theorem repeated_conserves (hinner : ∀ field ∈ inner, field.Conserves innerSize (2 ^ 31))
    (hcleared : innerSize cleared = 0) {add : M → N → M}
    (hadd : ∀ message value, size (add message value) =
      size message + (1 + lengthDelimitedSize (innerSize value))) :
    (repeatedField number inner cleared add).Conserves size (2 ^ 31) := by
  refine Wire.messageField_conserves hinner (fun _ => hcleared.trans_le (Nat.zero_le _))
    fun message value length hvalue hlimit => ?_
  rw [hcleared, Nat.zero_add] at hvalue
  have hsize := lengthDelimitedSize_le_of_le hvalue (by omega)
  rw [hadd]
  omega

end Optional

end Pb

/-! ### Sizes of what is read -/

theorem Ball.conserves : ∀ field ∈ Ball.schema, field.Conserves Ball.byteSize (2 ^ 31) := by
  have hdouble := doubleSize_le
  repeat' refine List.forall_mem_cons.mpr ⟨double_conserves fun ball value => ?_, ?_⟩
  all_goals grind [Ball.byteSize]

theorem Robot.conserves : ∀ field ∈ Robot.schema, field.Conserves Robot.byteSize (2 ^ 31) := by
  have hdouble := doubleSize_le
  refine List.forall_mem_cons.mpr ⟨uint32_conserves fun robot value => ?_, ?_⟩
  rotate_left
  · repeat' refine List.forall_mem_cons.mpr ⟨double_conserves fun robot value => ?_, ?_⟩
    all_goals grind [Robot.byteSize]
  · grind [Robot.byteSize]

theorem Field.conserves : ∀ field ∈ Field.schema, field.Conserves Field.byteSize (2 ^ 31) := by
  have hdouble := doubleSize_le
  repeat' refine List.forall_mem_cons.mpr ⟨double_conserves fun field value => ?_, ?_⟩
  all_goals grind [Field.byteSize]

theorem Frame.byteSize_optional (frame : Frame Binary64) :
    frame.byteSize =
      optionalSize Ball.byteSize frame.ball + 1 * frame.robotsYellow.length +
        (frame.robotsYellow.map fun robot => lengthDelimitedSize robot.byteSize).sum +
        1 * frame.robotsBlue.length +
        (frame.robotsBlue.map fun robot => lengthDelimitedSize robot.byteSize).sum := by
  unfold byteSize
  cases frame.ball <;> rfl

theorem Frame.conserves : ∀ field ∈ Frame.schema, field.Conserves Frame.byteSize (2 ^ 31) := by
  refine List.forall_mem_cons.mpr
    ⟨message_conserves Ball.conserves rfl Frame.ball (fun frame => ?_) fun frame ball => ?_, ?_⟩
  · rw [byteSize_optional]
    omega
  · simp only [byteSize_optional]
    omega
  refine List.forall_mem_cons.mpr
    ⟨repeated_conserves Robot.conserves rfl fun frame robot => ?_, ?_⟩
  · simp only [byteSize, List.length_append, List.map_append, List.sum_append,
      List.length_singleton, List.map_singleton, List.sum_singleton]
    omega
  refine List.forall_mem_cons.mpr
    ⟨repeated_conserves Robot.conserves rfl fun frame robot => ?_, List.forall_mem_nil _⟩
  simp only [byteSize, List.length_append, List.map_append, List.sum_append,
    List.length_singleton, List.map_singleton, List.sum_singleton]
  omega

theorem Pb.Environment.byteSize_optional (environment : Environment Binary64) :
    environment.byteSize =
      uint32SizeUnlessZero environment.step + optionalSize Frame.byteSize environment.frame +
        optionalSize Field.byteSize environment.field +
        uint32SizeUnlessZero environment.goalsBlue +
        uint32SizeUnlessZero environment.goalsYellow := by
  unfold byteSize
  cases environment.frame <;> cases environment.field <;> rfl

theorem Pb.Environment.conserves :
    ∀ field ∈ Environment.schema, field.Conserves Environment.byteSize (2 ^ 31) := by
  refine List.forall_mem_cons.mpr ⟨uint32_conserves fun environment value => ?_,
    List.forall_mem_cons.mpr ⟨message_conserves Frame.conserves rfl Environment.frame
      (fun environment => ?_) fun environment frame => ?_,
    List.forall_mem_cons.mpr ⟨message_conserves Field.conserves rfl Environment.field
      (fun environment => ?_) fun environment field => ?_,
    List.forall_mem_cons.mpr ⟨uint32_conserves fun environment value => ?_,
    List.forall_mem_cons.mpr ⟨uint32_conserves fun environment value => ?_,
      List.forall_mem_nil _⟩⟩⟩⟩⟩
  all_goals
    simp only [byteSize_optional]
    omega

/-! ### Bytes of what is read -/

section Bytes

@[simp]
theorem Pb.writeDouble_mergeDouble_zero (number : UInt32) (value : Binary64) :
    writeDoubleUnlessZero number (mergeDouble zero value) = writeDoubleUnlessZero number value := by
  unfold mergeDouble
  split
  · rfl
  · rename_i hzero
    rw [writeDoubleUnlessZero, writeDoubleUnlessZero, if_neg hzero]
    rfl

@[simp]
theorem Ball.serializeToArray_normal (ball : Ball Binary64) :
    (Ball.cleared.mergeFrom ball).serializeToArray = ball.serializeToArray := by
  simp [serializeToArray, mergeFrom, cleared]

@[simp]
theorem Robot.serializeToArray_normal (robot : Robot Binary64) :
    (Robot.cleared.mergeFrom robot).serializeToArray = robot.serializeToArray := by
  simp [serializeToArray, mergeFrom, cleared]

@[simp]
theorem Field.serializeToArray_normal (field : Field Binary64) :
    (Field.cleared.mergeFrom field).serializeToArray = field.serializeToArray := by
  simp [serializeToArray, mergeFrom, cleared]

@[simp]
theorem Frame.serializeToArray_normal (frame : Frame Binary64) :
    (Frame.cleared.mergeFrom frame).serializeToArray = frame.serializeToArray := by
  unfold serializeToArray mergeFrom
  cases frame.ball <;>
    simp [cleared, mutableBall, List.flatMap_map, Robot.byteSize_eq, Ball.byteSize_eq]

theorem Pb.Environment.serializeToArray_normal (environment : Environment Binary64) :
    (cleared.mergeFrom environment).serializeToArray = environment.serializeToArray := by
  unfold serializeToArray mergeFrom
  cases environment.frame <;> cases environment.field <;>
    simp [cleared, mutableFrame, mutableField, Frame.byteSize_eq, Field.byteSize_eq]

theorem Pb.lengthDelimitedSize_pos (length : ℕ) : 1 ≤ lengthDelimitedSize length := by
  rw [lengthDelimitedSize, varintSize32_eq, writeVarint32ToArray_eq, Varint.length_encode]
  omega

theorem Frame.robots_le (frame : Frame Binary64) :
    2 * (frame.robotsYellow.length + frame.robotsBlue.length) ≤ frame.byteSize := by
  have hrobots (robots : List (Robot Binary64)) : robots.length ≤
      (robots.map fun robot => lengthDelimitedSize robot.byteSize).sum := by
    have hsum := List.length_le_sum_of_one_le
      (robots.map fun robot => lengthDelimitedSize robot.byteSize) fun size hsize => by
        obtain ⟨robot, -, rfl⟩ := List.mem_map.mp hsize
        exact lengthDelimitedSize_pos _
    rwa [List.length_map] at hsum
  have hyellow := hrobots frame.robotsYellow
  have hblue := hrobots frame.robotsBlue
  unfold byteSize
  omega

end Bytes

/-- **Normal forms.** Of whatever bytes the declared environment accepts, what the client makes of
them is written again in no more bytes, and has a robot for every second byte at most. These bytes
are a normal form: they are read again, as the same but for the negative zeros, and written once more
they are the same. -/
theorem environment_normal_form (reader : RepeatedReader) {data : List UInt8}
    (hdata : data.length < 2 ^ 31) {environment : Pb.Environment Binary64}
    (haccepted : Wire.parse Environment.schema 100 Environment.cleared data = some environment) :
    parseFromArray Environment.cleared (Environment.mergePartialFromCodedStream reader) data =
        (true, environment) ∧
      environment.byteSize ≤ data.length ∧
      (∀ frame, environment.frame = some frame →
        2 * (frame.robotsYellow.length + frame.robotsBlue.length) ≤ data.length) ∧
      serializeToString environment.byteSize environment.serializeToArray =
        (true, environment.serializeToArray) ∧
      parseFromArray Environment.cleared (Environment.mergePartialFromCodedStream reader)
          environment.serializeToArray =
        (true, Environment.cleared.mergeFrom environment) ∧
      (Environment.cleared.mergeFrom environment).serializeToArray =
        environment.serializeToArray := by
  have hsize : environment.byteSize ≤ data.length := by
    have hle := Wire.parse_size_le Environment.conserves haccepted
      ((Nat.zero_add _).trans_lt hdata)
    exact hle.trans_eq (Nat.zero_add _)
  refine ⟨?_, hsize, fun frame hframe => ?_, ?_, ?_, environment.serializeToArray_normal⟩
  · have hparse := parseFromArray_eq (Environment.realizes reader) Environment.cleared data
    rwa [ParsesBy, haccepted] at hparse
  · have hrobots := frame.robots_le
    have hthere : frame.byteSize ≤ environment.byteSize := by
      rw [Environment.byteSize_optional, hframe]
      simp only [optionalSize, lengthDelimitedSize]
      omega
    omega
  · have hint : ¬ (environment.byteSize : Int) > intMax :=
      not_lt.mpr ((le_intMax_iff _).mpr (hsize.trans_lt hdata))
    rw [serializeToString, if_neg hint]
  · exact parseFromArray_of_absorbs (Environment.realizes reader) Environment.cleared
      (environment.absorbs 98 (hsize.trans_lt hdata))

/-- A step twice, the first time with a leading zero, and an empty frame: four bytes are enough. -/
theorem environment_normal_form_redundant :
    parseFromArray Environment.cleared (Environment.mergePartialFromCodedStream limitReader)
        [8, 129, 0, 8, 5, 18, 0] =
      (true, ⟨5, some Frame.cleared, none, 0, 0⟩) ∧
      (⟨5, some Frame.cleared, none, 0, 0⟩ : Pb.Environment Binary64).byteSize ≤ 7 := by
  have haccepted : Wire.parse Environment.schema 100 Environment.cleared
      [8, 129, 0, 8, 5, 18, 0] = some ⟨5, some Frame.cleared, none, 0, 0⟩ := by
    decide +kernel
  have hnormal := environment_normal_form limitReader (by decide) haccepted
  exact ⟨hnormal.1, hnormal.2.1⟩

end FiraClient
