import FiraClient.Proof.Shortcuts

/-!
# The tables of the generated parsers

Every jump of `common.pb.cc` goes to the case of the tag it has read, with the level of recursion
that case expects, and every case reads as a field is read.
-/

namespace FiraClient

open Pb

namespace Pb

variable {M N : Type}

theorem readDouble_leavesSuffix : LeavesSuffix readDouble := by
  intro buffer value rest hread
  obtain ⟨hvalue, hrest⟩ := Prod.mk.inj hread
  obtain ⟨bits, hbits, -⟩ := Option.map_eq_some_iff.mp hvalue
  exact readLittleEndian64_leavesSuffix (Prod.ext hbits hrest)

theorem readBool_leavesSuffix : LeavesSuffix readBool := by
  intro buffer value rest hread
  obtain ⟨hvalue, hrest⟩ := Prod.mk.inj hread
  obtain ⟨temp, htemp, -⟩ := Option.map_eq_some_iff.mp hvalue
  exact readVarint64_reads.leavesSuffix (Prod.ext htemp hrest)

theorem readPrimitive_sound {α : Type} {read : List UInt8 → Option α × List UInt8}
    (hread : LeavesSuffix read) (left : Option α) (set : M → α → M) :
    (readPrimitive read left set).Sound where
  advancing := readPrimitive_advancing hread left set
  blind := readPrimitive_blind read left set

section Cases

variable (number tag : UInt32) (jumps : List (UInt32 × Label)) (expectsEnd : Bool)

@[simp]
theorem doubleCase_sound (set : M → Binary64 → M) :
    (doubleCase number tag set jumps expectsEnd).read.Sound :=
  readPrimitive_sound readDouble_leavesSuffix none set

@[simp]
theorem uint32Case_sound (set : M → UInt32 → M) :
    (uint32Case number tag set jumps expectsEnd).read.Sound :=
  readPrimitive_sound readVarint32_reads.leavesSuffix (some failedVarint32) set

@[simp]
theorem boolCase_sound (set : M → Bool → M) :
    (boolCase number tag set jumps expectsEnd).read.Sound :=
  readPrimitive_sound readBool_leavesSuffix none set

theorem messageCase_sound {cases : List (FieldCase N)} (hsound : Sound cases) (get : M → N)
    (set : M → N → M) :
    (messageCase number tag get set (mergeCases cases) jumps expectsEnd).read.Sound :=
  hsound.readMessage.subMessage get set

theorem repeatedCase_sound {cases : List (FieldCase N)} (hsound : Sound cases)
    (reader : RepeatedReader) (empty : N) (add : M → N → M) :
    (repeatedCase reader number tag empty add (mergeCases cases) jumps expectsEnd).read.Sound :=
  (hsound.repeatedMessage reader).subMessage (fun _ => empty) add

end Cases

end Pb

theorem Ball.sound : Sound Ball.cases where
  closed := rfl
  reads := by simp [Ball.cases]

theorem Robot.sound : Sound Robot.cases where
  closed := rfl
  reads := by simp [Robot.cases]

theorem Field.sound : Sound Field.cases where
  closed := rfl
  reads := by simp [Field.cases]

theorem Command.sound : Sound Command.cases where
  closed := rfl
  reads := by simp [Command.cases]

section Reader

variable (reader : RepeatedReader)

theorem Frame.sound : Sound (Frame.cases reader) where
  closed := by
    simp only [Frame.cases, List.map, FieldCase.shape, messageCase, repeatedCase]
    decide
  reads := by
    simp only [Frame.cases, List.forall_mem_cons]
    refine ⟨messageCase_sound _ _ _ _ Ball.sound _ _, ?_, ?_, fun _ hfield => by cases hfield⟩
    · exact repeatedCase_sound _ _ _ _ Robot.sound reader _ _
    · exact repeatedCase_sound _ _ _ _ Robot.sound reader _ _

theorem Commands.sound : Sound (Commands.cases reader) where
  closed := by
    simp only [Commands.cases, List.map, FieldCase.shape, repeatedCase]
    decide
  reads := by
    simp only [Commands.cases, List.forall_mem_cons]
    exact ⟨repeatedCase_sound _ _ _ _ Command.sound reader _ _, fun _ hfield => by cases hfield⟩

theorem Packet.sound : Sound (Packet.cases reader) where
  closed := by
    simp only [Packet.cases, List.map, FieldCase.shape, messageCase]
    decide
  reads := by
    simp only [Packet.cases, List.forall_mem_cons]
    exact ⟨messageCase_sound _ _ _ _ (Commands.sound reader) _ _,
      fun _ hfield => by cases hfield⟩

theorem Pb.Environment.sound : Sound (Environment.cases reader) where
  closed := by
    simp only [Environment.cases, List.map, FieldCase.shape, messageCase, uint32Case]
    decide
  reads := by
    simp only [Environment.cases, List.forall_mem_cons]
    refine ⟨uint32Case_sound _ _ _ _ _, ?_, ?_, uint32Case_sound _ _ _ _ _,
      uint32Case_sound _ _ _ _ _, fun _ hfield => by cases hfield⟩
    · exact messageCase_sound _ _ _ _ (Frame.sound reader) _ _
    · exact messageCase_sound _ _ _ _ Field.sound _ _

end Reader

end FiraClient
