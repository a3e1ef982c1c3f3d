import FiraClient.Pb.WireFormat

/-!
# The shape of the generated parsers

Every `MergePartialFromCodedStream` of `common.pb.cc` is one loop over tags with a `switch` on the
field number. After a field a parser tries the tag that usually comes next and, if it is there, goes
to the label of that field without going round; after the last field it tries the end. A parser is
here the list of its cases, with these shortcuts.
-/

namespace FiraClient.Pb

/-- The labels of the field of a number: `parse_x`, and the `parse_loop_x` of a repeated field past
its `IncrementRecursionDepth`. -/
inductive Label where
  | parse (number : UInt32)
  | parseLoop (number : UInt32)
deriving DecidableEq, Repr

structure FieldCase (M : Type) where
  number : UInt32
  tag : UInt32
  /-- `IncrementRecursionDepth` stands before the read and `UnsafeDecrementRecursionDepth` after the
  jumps. -/
  repeated : Bool
  read : Merge M
  /-- `if (input->ExpectTag(tag)) goto label`, in their order. -/
  jumps : List (UInt32 × Label)
  /-- `if (input->ExpectAtEnd()) goto success`, at the end of the case. -/
  expectsEnd : Bool

/-- Where a parser is: at the top of the loop or at a label. -/
structure ParseState (M : Type) where
  label : Option Label
  message : M
  input : CodedInputStream

variable {M : Type}

abbrev ParseStep (M : Type) := (M × Option CodedInputStream) ⊕ ParseState M

def ParseStep.success (message : M) (input : CodedInputStream) : ParseStep M :=
  .inl (message, some input)

def ParseStep.failure (message : M) : ParseStep M :=
  .inl (message, none)

def ParseStep.again (message : M) (input : CodedInputStream) : ParseStep M :=
  .inr ⟨none, message, input⟩

def findCase (cases : List (FieldCase M)) (number : UInt32) : Option (FieldCase M) :=
  cases.find? fun field => field.number = number

namespace FieldCase

/-- The first of the jumps whose tag is next. -/
def jump (input : CodedInputStream) : List (UInt32 × Label) → Option (Label × CodedInputStream)
  | [] => none
  | (tag, label) :: jumps =>
      match input.expectTag tag with
      | some input => some (label, input)
      | none => jump input jumps

/-- From the field's read on. -/
def body (field : FieldCase M) (message : M) (input : CodedInputStream) : ParseStep M :=
  match field.read message input with
  | (message, none) => .failure message
  | (message, some input) =>
      match jump input field.jumps with
      | some (label, input) => .inr ⟨some label, message, input⟩
      | none =>
          let input := if field.repeated then input.unsafeDecrementRecursionDepth else input
          match (if field.expectsEnd then input.expectAtEnd else none) with
          | some input => .success message input
          | none => .again message input

def enter (field : FieldCase M) (message : M) (input : CodedInputStream) : ParseStep M :=
  if field.repeated then
    match input.incrementRecursionDepth with
    | none => .failure message
    | some input => field.body message input
  else field.body message input

end FieldCase

def handleUnusual (tag : UInt32) (message : M) (input : CodedInputStream) : ParseStep M :=
  if tag = 0 ∨ getTagWireType tag = some .endGroup then .success message input
  else
    match skipField input tag with
    | none => .failure message
    | some input => .again message input

/-- A label no case has is not reached. -/
def atLabel (cases : List (FieldCase M)) (label : Label) (message : M) (input : CodedInputStream) :
    ParseStep M :=
  match label with
  | .parse number =>
      match findCase cases number with
      | some field => field.enter message input
      | none => .failure message
  | .parseLoop number =>
      match findCase cases number with
      | some field => field.body message input
      | none => .failure message

def atTop (cases : List (FieldCase M)) (message : M) (input : CodedInputStream) : ParseStep M :=
  let p := input.readTagWithCutoff 127
  let tag := p.1.1
  if p.1.2 then
    match findCase cases (getTagFieldNumber tag) with
    | some field =>
        if tag = field.tag then field.enter message p.2 else handleUnusual tag message p.2
    | none => handleUnusual tag message p.2
  else handleUnusual tag message p.2

def mergeLoop (cases : List (FieldCase M)) :
    Loop (ParseState M) (M × Option CodedInputStream) where
  body := fun state =>
    match state.label with
    | none => atTop cases state.message state.input
    | some label => atLabel cases label state.message state.input
  -- a label is left behind for a byte of the buffer, or for the top of the loop
  size := fun state => 2 * state.input.buffer.length + if state.label.isSome then 1 else 0
  exhausted := fun state => (state.message, none)

def mergeCases (cases : List (FieldCase M)) : Merge M :=
  fun message input => (mergeLoop cases).run ⟨none, message, input⟩

end FiraClient.Pb
