import FiraClient.Proof.RoundTrip

/-!
# Other bytes

What the parser makes of bytes that are not those of a message: with fields the schema does not
have, which are skipped as long as their groups do not nest too deep; and cut off between two
fields, also of the messages in it, which is no error. The messages that the cut goes through end
with what has arrived, although their lengths say more.
-/

namespace FiraClient

open Pb

/-! ### Foreign fields -/

/-- The fields are none of the message, by number and type. -/
def Foreign {M : Type} (schema : List (Wire.Field M)) (foreign : Wire.Fields) : Prop :=
  foreign.WellFormed ∧ ∀ tag ∈ foreign.tags, Wire.lookup schema tag = none

theorem robot_unknown_fields {foreign : Wire.Fields} (hforeign : Foreign Robot.schema foreign)
    (first second : Robot Binary64) :
    parseFromArray Robot.cleared Robot.mergePartialFromCodedStream
        (first.serializeToArray ++ (foreign.encode ++ second.serializeToArray)) =
      (true, (Robot.cleared.mergeFrom first).mergeFrom second) ↔ foreign.nesting ≤ 100 := by
  have hparse := parseFromArray_eq (Robot.realizes True) Robot.cleared
    (first.serializeToArray ++ (foreign.encode ++ second.serializeToArray))
  rw [ParsesBy, first.absorbs 100, Wire.parse_foreign hforeign.1 hforeign.2] at hparse
  by_cases hnesting : foreign.nesting ≤ 100
  · rw [if_pos hnesting, (second.absorbs 100).parse_eq] at hparse
    exact iff_of_true hparse hnesting
  · rw [if_neg hnesting] at hparse
    refine iff_of_false (fun haccepts => ?_) hnesting
    have hrefuses : (parseFromArray Robot.cleared Robot.mergePartialFromCodedStream
        (first.serializeToArray ++ (foreign.encode ++ second.serializeToArray))).1 = false :=
      hparse trivial
    rw [haccepts] at hrefuses
    cases hrefuses

theorem environment_unknown_fields (reader : RepeatedReader) {foreign : Wire.Fields}
    (hforeign : Foreign Environment.schema foreign) (hnesting : foreign.nesting ≤ 100)
    {first second : Pb.Environment Binary64} (hfirst : first.byteSize < 2 ^ 31)
    (hsecond : second.byteSize < 2 ^ 31) :
    parseFromArray Environment.cleared (Environment.mergePartialFromCodedStream reader)
        (first.serializeToArray ++ (foreign.encode ++ second.serializeToArray)) =
      (true, (Environment.cleared.mergeFrom first).mergeFrom second) :=
  parseFromArray_of_absorbs (Environment.realizes reader) Environment.cleared
    ((first.absorbs 98 hfirst).append
      ((Wire.absorbs_foreign hforeign.1 hforeign.2 hnesting).append (second.absorbs 98 hsecond)))

/-- **Unknown fields.** Between those of a robot, or before or after them, any other fields are
skipped exactly if their groups nest at most a hundred deep; and so they are in an environment. -/
theorem unknown_fields_skipped (reader : RepeatedReader) (foreign : Wire.Fields) :
    (Foreign Robot.schema foreign → ∀ first second : Robot Binary64,
      (parseFromArray Robot.cleared Robot.mergePartialFromCodedStream
          (first.serializeToArray ++ (foreign.encode ++ second.serializeToArray)) =
        (true, (Robot.cleared.mergeFrom first).mergeFrom second) ↔ foreign.nesting ≤ 100)) ∧
      (Foreign Environment.schema foreign → foreign.nesting ≤ 100 →
        ∀ first second : Pb.Environment Binary64,
          first.byteSize < 2 ^ 31 → second.byteSize < 2 ^ 31 →
          parseFromArray Environment.cleared (Environment.mergePartialFromCodedStream reader)
              (first.serializeToArray ++ (foreign.encode ++ second.serializeToArray)) =
            (true, (Environment.cleared.mergeFrom first).mergeFrom second)) :=
  ⟨robot_unknown_fields, fun hforeign hnesting _ _ hfirst hsecond =>
    environment_unknown_fields reader hforeign hnesting hfirst hsecond⟩

/-- A group of number 15 around a varint. -/
theorem unknown_fields_skipped_group :
    parseFromArray Robot.cleared Robot.mergePartialFromCodedStream
        ((⟨3, zero, zero, zero, zero, zero, zero⟩ : Robot Binary64).serializeToArray ++
          ((Wire.Fields.group 15 (.scalar 1 (.varint 5) .nil) .nil).encode ++
            Robot.cleared.serializeToArray)) =
      (true, (Robot.cleared.mergeFrom ⟨3, zero, zero, zero, zero, zero, zero⟩).mergeFrom
        Robot.cleared) :=
  ((unknown_fields_skipped limitReader (.group 15 (.scalar 1 (.varint 5) .nil) .nil)).1
    ⟨⟨by decide, ⟨by decide, show 5 < 2 ^ 64 by decide, trivial⟩, trivial⟩, by decide⟩ _ _).mpr
    (by decide)

/-! ### Messages cut off -/

/-- The bytes of an environment up to within its frame, whose length is written in full. -/
def upToFrame (step : UInt32) (frameSize : ℕ) (bytes : List UInt8) : List UInt8 :=
  writeUInt32UnlessZero 1 step ++
    (writeTag 2 .lengthDelimited ++ (writeVarint32ToArray (UInt32.ofNat frameSize) ++ bytes))

/-- The bytes of a field of a frame up to within its message, whose length is written in full. -/
def FrameField.upTo (field : FrameField) (bytes : List UInt8) : List UInt8 :=
  writeTag field.number .lengthDelimited ++
    (writeVarint32ToArray (UInt32.ofNat field.byteSize) ++ bytes)

/-- A ball with its first fields only, and zero for the others. -/
def Ball.firstFields (count : ℕ) (ball : Ball Binary64) : Ball Binary64 where
  x := if 0 < count then ball.x else zero
  y := if 1 < count then ball.y else zero
  z := if 2 < count then ball.z else zero
  vx := if 3 < count then ball.vx else zero
  vy := if 4 < count then ball.vy else zero
  vz := if 5 < count then ball.vz else zero

def Robot.firstFields (count : ℕ) (robot : Robot Binary64) : Robot Binary64 where
  robotId := if 0 < count then robot.robotId else 0
  x := if 1 < count then robot.x else zero
  y := if 2 < count then robot.y else zero
  orientation := if 3 < count then robot.orientation else zero
  vx := if 4 < count then robot.vx else zero
  vy := if 5 < count then robot.vy else zero
  vorientation := if 6 < count then robot.vorientation else zero

def FrameField.firstFields (count : ℕ) : FrameField → FrameField
  | .ball value => .ball (value.firstFields count)
  | .robotYellow robot => .robotYellow (robot.firstFields count)
  | .robotBlue robot => .robotBlue (robot.firstFields count)

theorem Ball.prefix_firstFields (count : ℕ) (ball : Ball Binary64) :
    (ball.firstFields count).serializeToArray <+: ball.serializeToArray := by
  have hzero (number : UInt32) : writeDoubleUnlessZero number zero = [] := rfl
  unfold firstFields serializeToArray
  match count with
  | 0 | 1 | 2 | 3 | 4 | 5 => simp [hzero, List.append_assoc]
  | count + 6 => simp

theorem Robot.prefix_firstFields (count : ℕ) (robot : Robot Binary64) :
    (robot.firstFields count).serializeToArray <+: robot.serializeToArray := by
  have hzero (number : UInt32) : writeDoubleUnlessZero number zero = [] := rfl
  have hzeroId : writeUInt32UnlessZero 1 0 = [] := rfl
  unfold firstFields serializeToArray
  match count with
  | 0 | 1 | 2 | 3 | 4 | 5 | 6 => simp [hzero, hzeroId, List.append_assoc]
  | count + 7 => simp

theorem FrameField.prefix_firstFields (count : ℕ) (field : FrameField) :
    (field.firstFields count).serializeToArray <+: field.serializeToArray := by
  cases field with
  | ball value => exact value.prefix_firstFields count
  | robotYellow robot => exact robot.prefix_firstFields count
  | robotBlue robot => exact robot.prefix_firstFields count

theorem FrameField.number_firstFields (count : ℕ) (field : FrameField) :
    (field.firstFields count).number = field.number := by
  cases field <;> rfl

section Cut

variable {depth : ℕ}

theorem FrameField.prefix_upTo (field : FrameField) {bytes : List UInt8}
    (hbytes : bytes <+: field.serializeToArray) : field.upTo bytes <+: field.write := by
  simpa only [upTo, write, writeMessageToArray, List.prefix_append_right_inj] using hbytes

theorem prefix_upToFrame {environment : Pb.Environment Binary64} {frame : Frame Binary64}
    (hframe : environment.frame = some frame) {bytes : List UInt8}
    (hbytes : bytes <+: frame.serializeToArray) :
    upToFrame environment.step frame.byteSize bytes <+: environment.serializeToArray := by
  obtain ⟨missing, hmissing⟩ := hbytes
  simp only [Environment.serializeToArray, hframe, List.append_assoc]
  simp only [upToFrame, writeMessageToArray, ← hmissing, List.append_assoc,
    List.prefix_append_right_inj]
  exact List.prefix_append bytes _

/-- Of a message whose length is written in full, what there is of it is read. -/
theorem parse_writeMessage_short {M N : Type} {schema : List (Wire.Field M)} (number : UInt32)
    {inner : List (Wire.Field N)} {get : M → N} {set : M → N → M}
    (hfield : Wire.lookup schema (8 * number.toNat + 2) =
      some (messageField number.toNat inner get set))
    (hnumber : number.toNat < 2 ^ 29) {size : ℕ} (hsize : size < 2 ^ 31) {bytes : List UInt8}
    (hshort : bytes.length ≤ size) {message : M} {result : N}
    (hparse : Wire.parse inner depth (get message) bytes = some result) :
    Wire.parse schema (depth + 1) message
        (writeTag number .lengthDelimited ++
          (writeVarint32ToArray (UInt32.ofNat size) ++ bytes)) =
      some (set message result) := by
  have hdelimited : WireType.lengthDelimited.value.toNat = 2 := rfl
  rw [writeTag_eq rfl hnumber, hdelimited, writeVarint32ToArray_eq, UInt32.toNat_ofNat',
    Nat.mod_eq_of_lt (hsize.trans (by decide))]
  exact Wire.parse_message_short hfield (by omega) hsize hshort hparse

theorem FrameField.parse_upTo {field part : FrameField} (hnumber : part.number = field.number)
    (hpart : part.serializeToArray.length ≤ field.byteSize) (frame : Frame Binary64) :
    Wire.parse Frame.schema (depth + 1) frame (field.upTo part.serializeToArray) =
      some (frame.add part) := by
  have hsize := field.byteSize_lt
  rw [upTo, ← hnumber]
  cases part with
  | ball value =>
      have hfield : Wire.lookup Frame.schema 10 =
          some (messageField 1 Ball.schema Frame.mutableBall fun frame ball =>
            { frame with ball := some ball }) := rfl
      exact parse_writeMessage_short 1 hfield (by decide) hsize hpart
        ((value.absorbs depth).parse_eq _)
  | robotYellow robot =>
      have hfield : Wire.lookup Frame.schema 18 =
          some (messageField 2 Robot.schema (fun _ => Robot.cleared) fun frame robot =>
            { frame with robotsYellow := frame.robotsYellow ++ [robot] }) := rfl
      exact parse_writeMessage_short 2 hfield (by decide) hsize hpart
        ((robot.absorbs depth).parse_eq _)
  | robotBlue robot =>
      have hfield : Wire.lookup Frame.schema 26 =
          some (messageField 3 Robot.schema (fun _ => Robot.cleared) fun frame robot =>
            { frame with robotsBlue := frame.robotsBlue ++ [robot] }) := rfl
      exact parse_writeMessage_short 3 hfield (by decide) hsize hpart
        ((robot.absorbs depth).parse_eq _)

theorem parse_upToFrame {step : UInt32} {bytes : List UInt8} {frameSize : ℕ}
    (hsize : frameSize < 2 ^ 31) (hbytes : bytes.length ≤ frameSize) {frame : Frame Binary64}
    (hparse : Wire.parse Frame.schema (depth + 1) Frame.cleared bytes = some frame) :
    Wire.parse Environment.schema (depth + 2) Environment.cleared
        (upToFrame step frameSize bytes) =
      some ⟨step, some frame, none, 0, 0⟩ := by
  have hstep : Wire.Absorbs Environment.schema (depth + 2) (writeUInt32UnlessZero 1 step)
      fun environment => { environment with step := mergeUInt32 environment.step step } :=
    .congr (absorbs_writeUInt32 1 Environment.step step rfl (by decide) fun _ => rfl) fun _ => rfl
  have hfield : Wire.lookup Environment.schema 18 =
      some (messageField 2 Frame.schema Environment.mutableFrame fun environment frame =>
        { environment with frame := some frame }) := rfl
  rw [upToFrame, hstep, parse_writeMessage_short 2 hfield (by decide) hsize hbytes hparse]
  simp [Environment.cleared]

variable (reader : RepeatedReader)

theorem accepts_upToFrame {environment : Pb.Environment Binary64}
    (hsize : environment.byteSize < 2 ^ 31) {frame : Frame Binary64}
    (hframe : environment.frame = some frame) {bytes : List UInt8} {arrived : Frame Binary64}
    (hbytes : bytes <+: frame.serializeToArray)
    (hparse : Wire.parse Frame.schema 99 Frame.cleared bytes = some arrived) :
    parseFromArray Environment.cleared (Environment.mergePartialFromCodedStream reader)
        (upToFrame environment.step frame.byteSize bytes) =
      (true, ⟨environment.step, some arrived, none, 0, 0⟩) := by
  have hshort : bytes.length ≤ frame.byteSize := frame.byteSize_eq ▸ hbytes.length_le
  have hresult := parseFromArray_eq (Environment.realizes reader) Environment.cleared
    (upToFrame environment.step frame.byteSize bytes)
  rwa [ParsesBy, parse_upToFrame (environment.frame_byteSize_lt hsize hframe) hshort hparse]
    at hresult

/-- **A datagram cut off between two fields** is read as a whole environment. Where the cut is
between two fields of the frame, it is one with the fields before the cut: the ball, if it is one of
them, and the robots among them. Where the cut is within the message of a field, the field is there
too, with zeros in the place of what is missing of it. -/
theorem cut_off_environment_accepted {environment : Pb.Environment Binary64}
    (hsize : environment.byteSize < 2 ^ 31) {frame : Frame Binary64}
    (hframe : environment.frame = some frame) :
    (∀ front others, frame.fields = front ++ others →
      upToFrame environment.step frame.byteSize (front.flatMap FrameField.write) <+:
          environment.serializeToArray ∧
        parseFromArray Environment.cleared (Environment.mergePartialFromCodedStream reader)
            (upToFrame environment.step frame.byteSize (front.flatMap FrameField.write)) =
          (true, ⟨environment.step, some (front.foldl Frame.add Frame.cleared), none, 0, 0⟩)) ∧
      ∀ front field others count, frame.fields = front ++ field :: others →
        upToFrame environment.step frame.byteSize
            (front.flatMap FrameField.write ++
              field.upTo (field.firstFields count).serializeToArray) <+:
            environment.serializeToArray ∧
          parseFromArray Environment.cleared (Environment.mergePartialFromCodedStream reader)
              (upToFrame environment.step frame.byteSize
                (front.flatMap FrameField.write ++
                  field.upTo (field.firstFields count).serializeToArray)) =
            (true, ⟨environment.step,
              some ((front ++ [field.firstFields count]).foldl Frame.add Frame.cleared),
              none, 0, 0⟩) := by
  constructor
  · intro front others hfields
    have hbytes : front.flatMap FrameField.write <+: frame.serializeToArray := by
      rw [frame.serializeToArray_fields, hfields, List.flatMap_append]
      exact List.prefix_append _ _
    exact ⟨prefix_upToFrame hframe hbytes, accepts_upToFrame reader hsize hframe hbytes
      ((FrameField.absorbs_all 98 front).parse_eq _)⟩
  · intro front field others count hfields
    have hpart := field.prefix_firstFields count
    have hbytes : front.flatMap FrameField.write ++
        field.upTo (field.firstFields count).serializeToArray <+: frame.serializeToArray := by
      rw [frame.serializeToArray_fields, hfields, List.flatMap_append, List.flatMap_cons,
        List.prefix_append_right_inj]
      exact (field.prefix_upTo hpart).trans (List.prefix_append _ _)
    refine ⟨prefix_upToFrame hframe hbytes, accepts_upToFrame reader hsize hframe hbytes ?_⟩
    rw [FrameField.absorbs_all 98 front, List.foldl_append]
    exact FrameField.parse_upTo (field.number_firstFields count)
      (field.byteSize_eq ▸ hpart.length_le) _

end Cut

/-- After the ball and a yellow robot, the second of two fields of another one is cut off. -/
theorem cut_off_environment_accepted_yellow :
    parseFromArray Environment.cleared (Environment.mergePartialFromCodedStream limitReader)
        [18, 28, 10, 9, 9, 0, 0, 0, 0, 0, 0, 0xF0, 0x3F, 18, 2, 8, 1, 18, 11, 8, 3] =
      (true, ⟨0, some ⟨some ⟨⟨0x3FF0000000000000⟩, zero, zero, zero, zero, zero⟩,
        [⟨1, zero, zero, zero, zero, zero, zero⟩, ⟨3, zero, zero, zero, zero, zero, zero⟩], []⟩,
        none, 0, 0⟩) := by
  have hsize : (⟨0, some ⟨some ⟨⟨0x3FF0000000000000⟩, zero, zero, zero, zero, zero⟩,
      [⟨1, zero, zero, zero, zero, zero, zero⟩,
        ⟨3, ⟨0x3FF0000000000000⟩, zero, zero, zero, zero, zero⟩], []⟩, none, 0, 0⟩ :
      Pb.Environment Binary64).byteSize < 2 ^ 31 := by
    decide +kernel
  have hcut := (cut_off_environment_accepted limitReader hsize rfl).2
    [.ball ⟨⟨0x3FF0000000000000⟩, zero, zero, zero, zero, zero⟩,
      .robotYellow ⟨1, zero, zero, zero, zero, zero, zero⟩]
    (.robotYellow ⟨3, ⟨0x3FF0000000000000⟩, zero, zero, zero, zero, zero⟩) [] 1 rfl
  exact (congrArg _ (by decide +kernel)).trans (hcut.2.trans (by decide +kernel))

end FiraClient
