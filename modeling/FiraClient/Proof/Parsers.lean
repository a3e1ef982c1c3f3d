import FiraClient.Proof.Limits

/-!
# The generated parsers

What holds of all of the parsers of `common.pb.cc`, on any stream: they do what they would do
without their jumps, they leave the stream as a read of one field does, and from an array they read
what their schemas read.
-/

namespace FiraClient

open Pb

/-! ### Reading from an array -/

section Parsing

variable {M : Type} {strict : Prop} {schema : List (Wire.Field M)} {cases : List (FieldCase M)}

/-- `ParseFromArray` accepts what the schema accepts within the default limit, with this message,
and, if `strict`, nothing else. -/
def ParsesBy (strict : Prop) (schema : List (Wire.Field M)) (cleared : M) (merge : Merge M)
    (data : List UInt8) : Prop :=
  match Wire.parse schema 100 cleared data with
  | some message => parseFromArray cleared merge data = (true, message)
  | none => strict → (parseFromArray cleared merge data).1 = false

theorem parseFromArray_eq (hrealizes : Realizes strict schema cases) (cleared : M)
    (data : List UInt8) : ParsesBy strict schema cleared (mergeCases cases) data := by
  have hwithin : (CodedInputStream.ofArray data).Within 100 := ⟨rfl, rfl⟩
  have haccepts := mergeCases_accepts hrealizes (by decide) cleared hwithin
  have hbuffer : (CodedInputStream.ofArray data).buffer = data := rfl
  rw [hbuffer] at haccepts
  unfold ParsesBy
  cases hparse : Wire.parse schema 100 cleared data with
  | some message =>
      rw [hparse] at haccepts
      have houtcome : mergeCases cases cleared (.ofArray data) = _ := haccepts
      simp only [parseFromArray, houtcome]
      rfl
  | none =>
      rw [hparse] at haccepts
      intro hstrict
      have hrejected := haccepts hstrict
      unfold parseFromArray
      rcases houtcome : mergeCases cases cleared (.ofArray data) with ⟨message, _ | after⟩
      · rfl
      · rw [houtcome] at hrejected
        exact hrejected after rfl

/-- What absorbs a change is read as that change of a new message. -/
theorem parseFromArray_of_absorbs (hrealizes : Realizes strict schema cases) (cleared : M)
    {data : List UInt8} {change : M → M} (habsorbs : Wire.Absorbs schema 100 data change) :
    parseFromArray cleared (mergeCases cases) data = (true, change cleared) := by
  have hparse := parseFromArray_eq hrealizes cleared data
  rwa [ParsesBy, habsorbs.parse_eq] at hparse

end Parsing

section Parsers

variable (reader : RepeatedReader)

/-- **The jumps change nothing.** On every stream within the default recursion limit each of the
parsers returns the same message and leaves the same stream as without them. -/
theorem parsers_plain {input : CodedInputStream}
    (hlimit : input.recursionBudget ≤ defaultRecursionLimit) :
    (∀ ball, Ball.mergePartialFromCodedStream ball input =
        mergeCases (Ball.cases.map FieldCase.plain) ball input) ∧
      (∀ robot, Robot.mergePartialFromCodedStream robot input =
        mergeCases (Robot.cases.map FieldCase.plain) robot input) ∧
      (∀ field, Field.mergePartialFromCodedStream field input =
        mergeCases (Field.cases.map FieldCase.plain) field input) ∧
      (∀ frame, Frame.mergePartialFromCodedStream reader frame input =
        mergeCases ((Frame.cases reader).map FieldCase.plain) frame input) ∧
      (∀ environment, Environment.mergePartialFromCodedStream reader environment input =
        mergeCases ((Environment.cases reader).map FieldCase.plain) environment input) ∧
      (∀ command, Command.mergePartialFromCodedStream command input =
        mergeCases (Command.cases.map FieldCase.plain) command input) ∧
      (∀ commands, Commands.mergePartialFromCodedStream reader commands input =
        mergeCases ((Commands.cases reader).map FieldCase.plain) commands input) ∧
      ∀ packet, Packet.mergePartialFromCodedStream reader packet input =
        mergeCases ((Packet.cases reader).map FieldCase.plain) packet input :=
  ⟨fun ball => mergeCases_plain Ball.sound ball hlimit,
    fun robot => mergeCases_plain Robot.sound robot hlimit,
    fun field => mergeCases_plain Field.sound field hlimit,
    fun frame => mergeCases_plain (Frame.sound reader) frame hlimit,
    fun environment => mergeCases_plain (Environment.sound reader) environment hlimit,
    fun command => mergeCases_plain Command.sound command hlimit,
    fun commands => mergeCases_plain (Commands.sound reader) commands hlimit,
    fun packet => mergeCases_plain (Packet.sound reader) packet hlimit⟩

theorem parsers_plain_ofArray :
    Robot.mergePartialFromCodedStream Robot.cleared (.ofArray [8, 3, 17]) =
      mergeCases (Robot.cases.map FieldCase.plain) Robot.cleared (.ofArray [8, 3, 17]) :=
  (parsers_plain limitReader (by decide)).2.1 Robot.cleared

/-- **The parsers give back what they take.** Whatever bytes one of them reads and accepts, a message
or the members of a group that the caller looks at, it leaves bytes before the limit that was in
force, with the same limit and the recursion budget it was given. -/
theorem parsers_advance :
    Ball.mergePartialFromCodedStream.Advancing ∧ Robot.mergePartialFromCodedStream.Advancing ∧
      Field.mergePartialFromCodedStream.Advancing ∧
      Command.mergePartialFromCodedStream.Advancing ∧
      (Frame.mergePartialFromCodedStream reader).Advancing ∧
      (Environment.mergePartialFromCodedStream reader).Advancing ∧
      (Commands.mergePartialFromCodedStream reader).Advancing ∧
      (Packet.mergePartialFromCodedStream reader).Advancing :=
  ⟨mergeCases_advancing Ball.sound, mergeCases_advancing Robot.sound,
    mergeCases_advancing Field.sound, mergeCases_advancing Command.sound,
    mergeCases_advancing (Frame.sound reader), mergeCases_advancing (Environment.sound reader),
    mergeCases_advancing (Commands.sound reader), mergeCases_advancing (Packet.sound reader)⟩

/-- **The parsers implement the declared messages.** On every array the parsers of messages without
repeated fields accept what their schema accepts, and nothing else; the others accept at least that,
and no more where lengths that cannot be read are refused. By the schema, too, a message whose
length goes beyond the end of the array is what there is of it. -/
theorem parsers_implement_schemas (data : List UInt8) :
    ParsesBy True Ball.schema Ball.cleared Ball.mergePartialFromCodedStream data ∧
      ParsesBy True Robot.schema Robot.cleared Robot.mergePartialFromCodedStream data ∧
      ParsesBy True Field.schema Field.cleared Field.mergePartialFromCodedStream data ∧
      ParsesBy True Command.schema Command.cleared Command.mergePartialFromCodedStream data ∧
      ParsesBy reader.Strict Frame.schema Frame.cleared
        (Frame.mergePartialFromCodedStream reader) data ∧
      ParsesBy reader.Strict Environment.schema Environment.cleared
        (Environment.mergePartialFromCodedStream reader) data ∧
      ParsesBy reader.Strict Commands.schema Commands.cleared
        (Commands.mergePartialFromCodedStream reader) data ∧
      ParsesBy reader.Strict Packet.schema Packet.cleared
        (Packet.mergePartialFromCodedStream reader) data :=
  ⟨parseFromArray_eq (Ball.realizes True) _ data, parseFromArray_eq (Robot.realizes True) _ data,
    parseFromArray_eq (Field.realizes True) _ data,
    parseFromArray_eq (Command.realizes True) _ data,
    parseFromArray_eq (Frame.realizes reader) _ data,
    parseFromArray_eq (Environment.realizes reader) _ data,
    parseFromArray_eq (Commands.realizes reader) _ data,
    parseFromArray_eq (Packet.realizes reader) _ data⟩

end Parsers

end FiraClient
