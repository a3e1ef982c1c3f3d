import FiraClient.Pb.CodedStream

/-!
# The wire format

What the generated code uses of `WireFormatLite`: tags, reading and writing of its field types,
nested messages, and unknown fields. A function that reads into a message returns the message with
what was read into it also where it returns `false`; the stream is not used any more then.
-/

namespace FiraClient.Pb

/-- A `double` as the 64 bits it is stored in. -/
structure Binary64 where
  bits : UInt64
deriving DecidableEq, Repr

/-- The comparison `x != 0`: both zeros are equal to it and NaN is not. -/
def Binary64.nonzero (x : Binary64) : Bool :=
  x.bits &&& 0x7FFFFFFFFFFFFFFF ≠ 0

inductive WireType where
  | varint
  | fixed64
  | lengthDelimited
  | startGroup
  | endGroup
  | fixed32
deriving DecidableEq, Repr

def WireType.value : WireType → UInt32
  | varint => 0
  | fixed64 => 1
  | lengthDelimited => 2
  | startGroup => 3
  | endGroup => 4
  | fixed32 => 5

/-- `none` are the two values outside of the enumeration. -/
def getTagWireType (tag : UInt32) : Option WireType :=
  match tag &&& 7 with
  | 0 => some .varint
  | 1 => some .fixed64
  | 2 => some .lengthDelimited
  | 3 => some .startGroup
  | 4 => some .endGroup
  | 5 => some .fixed32
  | _ => none

def getTagFieldNumber (tag : UInt32) : UInt32 :=
  tag >>> 3

def makeTag (fieldNumber : UInt32) (type : WireType) : UInt32 :=
  fieldNumber <<< 3 ||| type.value

/-! ### Unknown fields

A group is skipped one level deeper, so the recursion ends with the budget for it. -/

def skipFieldWith (skipMessage : CodedInputStream → Option CodedInputStream)
    (input : CodedInputStream) (tag : UInt32) : Option CodedInputStream :=
  if getTagFieldNumber tag = 0 then none
  else
    match getTagWireType tag with
    | some .varint =>
        match input.onBuffer readVarint64 with
        | (some _, input) => some input
        | (none, _) => none
    | some .fixed64 =>
        match input.onBuffer readLittleEndian64 with
        | (some _, input) => some input
        | (none, _) => none
    | some .lengthDelimited =>
        -- the `uint32` length becomes the `int` parameter
        match input.onBuffer readVarint32 with
        | (some length, input) => input.skip length.toInt32.toInt
        | (none, _) => none
    | some .startGroup =>
        (input.incrementRecursionDepth.bind skipMessage).bind fun input =>
          let input := input.decrementRecursionDepth
          if input.lastTagWas (makeTag (getTagFieldNumber tag) .endGroup) then some input else none
    | some .endGroup => none
    | some .fixed32 =>
        match input.onBuffer readLittleEndian32 with
        | (some _, input) => some input
        | (none, _) => none
    | none => none

def skipMessageLoop (skipField : CodedInputStream → UInt32 → Option CodedInputStream) :
    Loop CodedInputStream (Option CodedInputStream) where
  body := fun input =>
    let read := input.readTag
    if read.1 = 0 then .inl (some read.2)
    else if getTagWireType read.1 = some .endGroup then .inl (some read.2)
    else
      match skipField read.2 read.1 with
      | none => .inl none
      | some input => .inr input
  size := fun input => input.buffer.length
  exhausted := fun _ => none

def skipFieldWithin : Nat → CodedInputStream → UInt32 → Option CodedInputStream
  | 0 => skipFieldWith fun _ => none
  | depth + 1 => skipFieldWith (skipMessageLoop (skipFieldWithin depth)).run

def skipField (input : CodedInputStream) (tag : UInt32) : Option CodedInputStream :=
  skipFieldWithin input.recursionBudget.toNat input tag

/-! ### Reading fields -/

abbrev Merge (M : Type) := M → CodedInputStream → M × Option CodedInputStream

def readDouble (buffer : List UInt8) : Option Binary64 × List UInt8 :=
  let read := readLittleEndian64 buffer
  (read.1.map Binary64.mk, read.2)

def readUInt32 (buffer : List UInt8) : Option UInt32 × List UInt8 :=
  readVarint32 buffer

def readBool (buffer : List UInt8) : Option Bool × List UInt8 :=
  let read := readVarint64 buffer
  (read.1.map fun temp => decide (temp ≠ 0), read.2)

/-- `ReadPrimitive` into a field of the message; `left` is what a read that fails leaves there, if
it writes to the field at all. -/
def readPrimitive {M α : Type} (read : List UInt8 → Option α × List UInt8) (left : Option α)
    (set : M → α → M) : Merge M :=
  fun message input =>
    match input.onBuffer read with
    | (some value, input) => (set message value, some input)
    | (none, _) => (left.elim message (set message), none)

def readMessage {M : Type} (mergePartialFromCodedStream : Merge M) : Merge M :=
  fun value input =>
    match input.onBuffer readVarintSizeAsInt with
    | (none, _) => (value, none)
    | (some length, input) =>
        let pushed := input.incrementRecursionDepthAndPushLimit length
        if pushed.1.2 < 0 then (value, none)
        else
          match mergePartialFromCodedStream value pushed.2 with
          | (value, none) => (value, none)
          | (value, some input) => (value, input.decrementRecursionDepthAndPopLimit pushed.1.1)

/-- The merge of a message that is part of another one. -/
def subMessage {M N : Type} (get : M → N) (set : M → N → M) (read : Merge N) : Merge M :=
  fun message input =>
    let read := read (get message) input
    (set message read.1, read.2)

/-! ### Repeated messages

The generated code reads them with `ReadMessageNoVirtualNoRecursionDepth`, which the runtime of the
repository does not have. -/

def CodedInputStream.withLastTag (input : CodedInputStream) (tag : UInt32) : CodedInputStream :=
  { input with lastTag := tag }

/-- The outcome of a merge, less the last tag that was read. -/
def forgetTag {M : Type} (outcome : M × Option CodedInputStream) : M × Option CodedInputStream :=
  (outcome.1, outcome.2.map fun input => input.withLastTag 0)

/-- What a merge does does not depend on the last tag. -/
def Merge.Blind {M : Type} (merge : Merge M) : Prop :=
  ∀ message input tag, forgetTag (merge message (input.withLastTag tag)) =
    forgetTag (merge message input)

/-- Between the two states only bytes before the limit were read. -/
structure CodedInputStream.Advances (input after : CodedInputStream) : Prop where
  buffer : after.buffer <:+ input.buffer
  afterLimit : after.afterLimit = input.afterLimit
  recursionBudget : input.recursionBudget ≤ defaultRecursionLimit →
    after.recursionBudget = input.recursionBudget

def Merge.Advancing {M : Type} (merge : Merge M) : Prop :=
  ∀ ⦃message input message' after⦄, merge message input = (message', some after) →
    input.Advances after

def CodedInputStream.withBudget (input : CodedInputStream) (change : Int) : CodedInputStream :=
  { input with recursionBudget := input.recursionBudget + change }

/-- `ReadMessageNoVirtualNoRecursionDepth`. It reads a message as `ReadMessage` does, less the
recursion depth, which its caller keeps. Nothing is said of a length that cannot be read, but that
only bytes before the limit are read. -/
structure RepeatedReader where
  read : ∀ {M : Type}, Merge M → Merge M
  reads : ∀ {M : Type} (merge : Merge M) (value : M) (input : CodedInputStream),
    (readVarintSizeAsInt input.buffer).1 ≠ none → 0 ≤ input.recursionBudget →
    read merge value input =
      ((readMessage merge value (input.withBudget 1)).1,
        (readMessage merge value (input.withBudget 1)).2.map fun after => after.withBudget (-1))
  advancing : ∀ {M : Type} (merge : Merge M), merge.Advancing → (read merge).Advancing
  blind : ∀ {M : Type} (merge : Merge M), merge.Blind → (read merge).Blind

/-! ### Writing fields -/

def writeTag (fieldNumber : UInt32) (type : WireType) : List UInt8 :=
  writeTagToArray (makeTag fieldNumber type)

def writeDoubleToArray (fieldNumber : UInt32) (value : Binary64) : List UInt8 :=
  writeTag fieldNumber .fixed64 ++ writeLittleEndian64ToArray value.bits

def writeUInt32ToArray (fieldNumber : UInt32) (value : UInt32) : List UInt8 :=
  writeTag fieldNumber .varint ++ writeVarint32ToArray value

def writeBoolToArray (fieldNumber : UInt32) (value : Bool) : List UInt8 :=
  writeTag fieldNumber .varint ++ writeVarint32ToArray (if value then 1 else 0)

/-- `InternalWriteMessageNoVirtualToArray` of a message with its cached size and its bytes. -/
def writeMessageToArray (fieldNumber : UInt32) (cachedSize : Nat) (bytes : List UInt8) :
    List UInt8 :=
  writeTag fieldNumber .lengthDelimited ++
    (writeVarint32ToArray (UInt32.ofNat cachedSize) ++ bytes)

def uint32Size (value : UInt32) : Nat :=
  varintSize32 value

def lengthDelimitedSize (length : Nat) : Nat :=
  length + varintSize32 (UInt32.ofNat length)

end FiraClient.Pb
