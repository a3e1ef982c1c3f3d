import FiraClient.Library.Wire

/-!
# The coded streams

`CodedInputStream` over one array and the array writers of `CodedOutputStream`. The stream has the
bytes up to the current limit in `buffer` and those of the array past it in `afterLimit`; a limit is
the count of bytes past it. An array is shorter than `INT_MAX`, so no read meets the total limit,
and nothing is left to refresh from when the buffer is empty.
-/

namespace FiraClient.Pb

structure CodedInputStream where
  buffer : List UInt8
  afterLimit : List UInt8
  lastTag : UInt32
  legitimateMessageEnd : Bool
  recursionBudget : Int
deriving DecidableEq, Repr

def kMaxVarintBytes : Nat := 10

def intMax : Int := 2 ^ 31 - 1

def defaultRecursionLimit : Int := 100

/-! ### Varints in an array

The unrolled readers do not check for the end of the buffer. Each of their lines is
`b = *(ptr++); result += b << s; if (!(b & 0x80)) goto done; result -= 0x80 << s`, and the lines
for bytes whose bits are discarded only test the high bit. -/

inductive ArrayRead (α : Type) where
  | ended (value : α) (rest : List UInt8)
  | unended (value : α) (rest : List UInt8)
  /-- A byte past the end of the buffer was read. -/
  | outOfBounds
deriving DecidableEq, Repr

def placed : Option UInt32 → UInt32 → UInt32
  | some shift, b => b <<< shift
  | none, _ => 0

def varintLines : List (Option UInt32) → UInt32 → List UInt8 → ArrayRead UInt32
  | [], result, buffer => .unended result buffer
  | _ :: _, _, [] => .outOfBounds
  | shift :: shifts, result, b :: buffer =>
      let result := result + placed shift b.toUInt32
      if b &&& 0x80 = 0 then .ended result buffer
      else varintLines shifts (result - placed shift 0x80) buffer

def readVarint32FromArray (firstByte : UInt32) (buffer : List UInt8) : ArrayRead UInt32 :=
  varintLines [some 7, some 14, some 21, some 28, none, none, none, none, none]
    (firstByte - 0x80) (buffer.drop 1)

def joinParts (part0 part1 part2 : UInt32) : UInt64 :=
  part0.toUInt64 ||| part1.toUInt64 <<< 28 ||| part2.toUInt64 <<< 56

def readVarint64FromArray (buffer : List UInt8) : ArrayRead UInt64 :=
  match varintLines [some 0, some 7, some 14, some 21] 0 buffer with
  | .outOfBounds => .outOfBounds
  | .ended part0 rest => .ended (joinParts part0 0 0) rest
  | .unended part0 rest =>
      match varintLines [some 0, some 7, some 14, some 21] 0 rest with
      | .outOfBounds => .outOfBounds
      | .ended part1 rest => .ended (joinParts part0 part1 0) rest
      | .unended part1 rest =>
          match varintLines [some 0, some 7] 0 rest with
          | .outOfBounds => .outOfBounds
          | .ended part2 rest => .ended (joinParts part0 part1 part2) rest
          | .unended _ rest => .unended 0 rest

/-- The test under which the unrolled readers are used: ten bytes, or a last byte that would end a
varint. -/
def endsVarint (buffer : List UInt8) : Bool :=
  kMaxVarintBytes ≤ buffer.length ||
    match buffer.getLast? with
    | some b => b &&& 0x80 = 0
    | none => false

/-! ### Reading from the buffer

These reads use nothing of the stream but its buffer, so they are functions of it. One that returns
`false` gives no value. A caller sees what it leaves in its result only of `ReadVarint32`, which is
given the field itself to read into. -/

/-- `static_cast<uint32>(-1)`, which a `ReadVarint32` that fails leaves in its result. -/
def failedVarint32 : UInt32 := 0xFFFFFFFF

def varint64SlowLoop : Nat → Nat → UInt64 → List UInt8 → Option UInt64 × List UInt8
  | 0, _, _, buffer => (none, buffer)
  | _ + 1, _, _, [] => (none, [])
  | left + 1, count, result, b :: buffer =>
      let result := result ||| (b &&& 0x7F).toUInt64 <<< UInt64.ofNat (7 * count)
      if b &&& 0x80 ≠ 0 then varint64SlowLoop left (count + 1) result buffer
      else (some result, buffer)

def readVarint64Slow (buffer : List UInt8) : Option UInt64 × List UInt8 :=
  varint64SlowLoop kMaxVarintBytes 0 0 buffer

def readVarint64Fallback (buffer : List UInt8) : Option UInt64 × List UInt8 :=
  if endsVarint buffer then
    match readVarint64FromArray buffer with
    | .ended value rest => (some value, rest)
    | _ => (none, buffer)
  else readVarint64Slow buffer

def readVarint64 : List UInt8 → Option UInt64 × List UInt8
  | b :: buffer =>
      if b < 0x80 then (some b.toUInt64, buffer) else readVarint64Fallback (b :: buffer)
  | [] => readVarint64Fallback []

def readVarint32Slow (buffer : List UInt8) : Option UInt32 × List UInt8 :=
  let read := readVarint64Fallback buffer
  (read.1.map UInt64.toUInt32, read.2)

def readVarint32Fallback (firstByteOrZero : UInt32) (buffer : List UInt8) :
    Option UInt32 × List UInt8 :=
  if endsVarint buffer then
    match readVarint32FromArray firstByteOrZero buffer with
    | .ended value rest => (some value, rest)
    | _ => (none, buffer)
  else readVarint32Slow buffer

def readVarint32 : List UInt8 → Option UInt32 × List UInt8
  | v :: buffer =>
      if v < 0x80 then (some v.toUInt32, buffer)
      else readVarint32Fallback v.toUInt32 (v :: buffer)
  | [] => readVarint32Fallback 0 []

def readVarintSizeAsIntSlow (buffer : List UInt8) : Option Int × List UInt8 :=
  match readVarint64Fallback buffer with
  | (some value, rest) => (if (value.toNat : Int) > intMax then none else some value.toNat, rest)
  | (none, rest) => (none, rest)

def readVarintSizeAsIntFallback (buffer : List UInt8) : Option Int × List UInt8 :=
  if endsVarint buffer then
    match readVarint64FromArray buffer with
    | .ended value rest =>
        if (value.toNat : Int) > intMax then (none, buffer) else (some value.toNat, rest)
    | _ => (none, buffer)
  else readVarintSizeAsIntSlow buffer

def readVarintSizeAsInt : List UInt8 → Option Int × List UInt8
  | v :: buffer =>
      if v < 0x80 then (some v.toNat, buffer) else readVarintSizeAsIntFallback (v :: buffer)
  | [] => readVarintSizeAsIntFallback []

def readLittleEndian32 (buffer : List UInt8) : Option UInt32 × List UInt8 :=
  if 4 ≤ buffer.length then
    (some (UInt32.ofNat (Wire.littleEndian (buffer.take 4))), buffer.drop 4)
  else (none, [])

def readLittleEndian64 (buffer : List UInt8) : Option UInt64 × List UInt8 :=
  if 8 ≤ buffer.length then
    (some (UInt64.ofNat (Wire.littleEndian (buffer.take 8))), buffer.drop 8)
  else (none, [])

namespace CodedInputStream

def ofArray (buffer : List UInt8) : CodedInputStream where
  buffer := buffer
  afterLimit := []
  lastTag := 0
  legitimateMessageEnd := false
  recursionBudget := defaultRecursionLimit

def withBuffer (input : CodedInputStream) (buffer : List UInt8) : CodedInputStream :=
  { input with buffer := buffer }

def advance (input : CodedInputStream) (amount : Nat) : CodedInputStream :=
  input.withBuffer (input.buffer.drop amount)

def onBuffer {α : Type} (input : CodedInputStream)
    (read : List UInt8 → Option α × List UInt8) : Option α × CodedInputStream :=
  ((read input.buffer).1, input.withBuffer (read input.buffer).2)

def skip (input : CodedInputStream) (count : Int) : Option CodedInputStream :=
  if count < 0 then none
  else if count ≤ input.buffer.length then some (input.advance count.toNat)
  else none

/-! ### Tags -/

def readTagSlow (input : CodedInputStream) : UInt32 × CodedInputStream :=
  match input.onBuffer readVarint64 with
  | (some result, input) => (result.toUInt32, input)
  | (none, input) => (0, input)

def readTagFallback (input : CodedInputStream) (firstByteOrZero : UInt32) :
    UInt32 × CodedInputStream :=
  if endsVarint input.buffer then
    if firstByteOrZero = 0 then (0, input.advance 1)
    else
      match readVarint32FromArray firstByteOrZero input.buffer with
      | .ended tag rest => (tag, input.withBuffer rest)
      | _ => (0, input)
  else if input.buffer = [] then (0, { input with legitimateMessageEnd := true })
  else input.readTagSlow

def readTagNoLastTag (input : CodedInputStream) : UInt32 × CodedInputStream :=
  match input.buffer with
  | v :: _ =>
      if v < 0x80 then (v.toUInt32, input.advance 1) else input.readTagFallback v.toUInt32
  | [] => input.readTagFallback 0

def readTag (input : CodedInputStream) : UInt32 × CodedInputStream :=
  let read := input.readTagNoLastTag
  (read.1, { read.2 with lastTag := read.1 })

def readTagWithCutoffNoLastTag (input : CodedInputStream) (cutoff : UInt32) :
    (UInt32 × Bool) × CodedInputStream :=
  let slowPath (firstByteOrZero : UInt32) :=
    let read := input.readTagFallback firstByteOrZero
    ((read.1, decide (read.1 - 1 < cutoff)), read.2)
  match input.buffer with
  | [] => slowPath 0
  | [b] =>
      -- `static_cast<int8>(buffer_[0]) > 0`
      if 0 < b ∧ b < 0x80 then
        ((b.toUInt32, decide (cutoff ≥ 0x7f ∨ b.toUInt32 ≤ cutoff)), input.advance 1)
      else slowPath b.toUInt32
  | b :: c :: _ =>
      if 0 < b ∧ b < 0x80 then
        ((b.toUInt32, decide (cutoff ≥ 0x7f ∨ b.toUInt32 ≤ cutoff)), input.advance 1)
      else if cutoff ≥ 0x80 ∧ b &&& ~~~c ≥ 0x80 then
        let tag := ((1 : UInt32) <<< 7) * c.toUInt32 + (b.toUInt32 - 0x80)
        ((tag, decide (cutoff ≥ ((0x7f : UInt32) <<< 7) + 0x7f ∨ tag ≤ cutoff)), input.advance 2)
      else slowPath b.toUInt32

def readTagWithCutoff (input : CodedInputStream) (cutoff : UInt32) :
    (UInt32 × Bool) × CodedInputStream :=
  let read := input.readTagWithCutoffNoLastTag cutoff
  (read.1, { read.2 with lastTag := read.1.1 })

def lastTagWas (input : CodedInputStream) (expected : UInt32) : Bool :=
  input.lastTag == expected

/-- `ExpectTag` returns `true` and advances, or `false`. -/
def expectTag (input : CodedInputStream) (expected : UInt32) : Option CodedInputStream :=
  if expected < (1 : UInt32) <<< 7 then
    match input.buffer with
    | b :: _ => if b.toUInt32 = expected then some (input.advance 1) else none
    | [] => none
  else if expected < (1 : UInt32) <<< 14 then
    match input.buffer with
    | b :: c :: _ =>
        if b = (expected ||| 0x80).toUInt8 ∧ c = (expected >>> 7).toUInt8 then
          some (input.advance 2)
        else none
    | _ => none
  else none

/-- The end of the array is a limit too. -/
def expectAtEnd (input : CodedInputStream) : Option CodedInputStream :=
  if input.buffer = [] then some { input with lastTag := 0, legitimateMessageEnd := true }
  else none

def consumedEntireMessage (input : CodedInputStream) : Bool :=
  input.legitimateMessageEnd

/-! ### Limits -/

abbrev Limit := Nat

/-- A limit that is negative, or not before the current one, leaves the current one in force. -/
def pushLimit (input : CodedInputStream) (byteLimit : Int) : Limit × CodedInputStream :=
  let oldLimit := input.afterLimit.length
  if 0 ≤ byteLimit ∧ byteLimit < input.buffer.length then
    (oldLimit,
      { input with
        buffer := input.buffer.take byteLimit.toNat
        afterLimit := input.buffer.drop byteLimit.toNat ++ input.afterLimit })
  else (oldLimit, input)

def popLimit (input : CodedInputStream) (limit : Limit) : CodedInputStream :=
  let freed := input.afterLimit.length - limit
  { input with
    buffer := input.buffer ++ input.afterLimit.take freed
    afterLimit := input.afterLimit.drop freed
    legitimateMessageEnd := false }

def incrementRecursionDepth (input : CodedInputStream) : Option CodedInputStream :=
  let input := { input with recursionBudget := input.recursionBudget - 1 }
  if input.recursionBudget ≥ 0 then some input else none

def decrementRecursionDepth (input : CodedInputStream) : CodedInputStream :=
  if input.recursionBudget < defaultRecursionLimit then
    { input with recursionBudget := input.recursionBudget + 1 }
  else input

def unsafeDecrementRecursionDepth (input : CodedInputStream) : CodedInputStream :=
  { input with recursionBudget := input.recursionBudget + 1 }

def incrementRecursionDepthAndPushLimit (input : CodedInputStream) (byteLimit : Int) :
    (Limit × Int) × CodedInputStream :=
  let pushed := input.pushLimit byteLimit
  let input := { pushed.2 with recursionBudget := pushed.2.recursionBudget - 1 }
  ((pushed.1, input.recursionBudget), input)

def decrementRecursionDepthAndPopLimit (input : CodedInputStream) (limit : Limit) :
    Option CodedInputStream :=
  let result := input.consumedEntireMessage
  let input := (input.popLimit limit).unsafeDecrementRecursionDepth
  if result then some input else none

def readLengthAndPushLimit (input : CodedInputStream) : Limit × CodedInputStream :=
  -- the `uint32` length becomes the `int` parameter
  match input.onBuffer readVarint32 with
  | (some length, input) => input.pushLimit length.toInt32.toInt
  | (none, input) => input.pushLimit 0

def checkEntireMessageConsumedAndPopLimit (input : CodedInputStream) (limit : Limit) :
    Option CodedInputStream :=
  let result := input.consumedEntireMessage
  let input := input.popLimit limit
  if result then some input else none

end CodedInputStream

/-! ### Writing into an array

A writer returns the bytes it stores from its target on. -/

def writeVarint32ToArray (value : UInt32) : List UInt8 :=
  if value ≥ 0x80 then (value ||| 0x80).toUInt8 :: writeVarint32ToArray (value >>> 7)
  else [value.toUInt8]
termination_by value.toNat
decreasing_by
  rename_i hvalue
  have hle : 128 ≤ value.toNat := UInt32.le_iff_toNat_le.mp hvalue
  have hshift : (value >>> 7).toNat = value.toNat / 128 := by
    rw [UInt32.toNat_shiftRight]
    exact Nat.shiftRight_eq_div_pow value.toNat 7
  omega

def writeTagToArray (value : UInt32) : List UInt8 :=
  writeVarint32ToArray value

def writeLittleEndian64ToArray (value : UInt64) : List UInt8 :=
  Wire.toLittleEndian 8 value.toNat

/-- `floor(log2(value)) / 7 + 1` by a multiplication and a shift, and one byte for zero. -/
def varintSize32 (value : UInt32) : Nat :=
  let log2value := Nat.log2 (value ||| 0x1).toNat
  (log2value * 9 + 73) / 64

end FiraClient.Pb
