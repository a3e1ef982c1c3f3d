import FiraClient.Pb.CodedStream
import Mathlib.Data.UInt

/-!
# Reading and writing varints

The stream reads a varint on one of three paths: a first byte that ends it, the unrolled readers
that do not check for the end of the buffer, and the loop that does. All of them read the base-128
numeral at the front of the buffer, in at most ten bytes, up to the width of the result; and the
unrolled readers are used only where they cannot run off the buffer.
-/

namespace FiraClient.Pb

/-! ### Bytes -/

theorem highBit_of_lt {n : ℕ} (hn : n < 256) : n &&& 128 = 0 ↔ n < 128 := by
  revert n
  decide +kernel

theorem or_highBit_of_lt {n : ℕ} (hn : n < 256) : n ||| 128 = n % 128 + 128 := by
  revert n
  decide +kernel

theorem highBit_eq_zero_iff (b : UInt8) : b &&& 0x80 = 0 ↔ b.toNat < 128 := by
  rw [← UInt8.toNat_inj, UInt8.toNat_and]
  exact highBit_of_lt b.toNat_lt

theorem lt_0x80_iff (b : UInt8) : b < 0x80 ↔ b.toNat < 128 := UInt8.lt_iff_toNat_lt

theorem toNat_and_0x7F (b : UInt8) : (b &&& 0x7F).toNat = b.toNat % 128 := by
  rw [UInt8.toNat_and]
  exact Nat.and_two_pow_sub_one_eq_mod b.toNat 7

/-! ### Writing -/

theorem toNat_shiftRight_seven (value : UInt32) : (value >>> 7).toNat = value.toNat / 128 := by
  rw [UInt32.toNat_shiftRight]
  exact Nat.shiftRight_eq_div_pow value.toNat 7

theorem toUInt8_or_0x80 (value : UInt32) :
    (value ||| 0x80).toUInt8 = UInt8.ofNat (value.toNat % 128 + 128) := by
  have hmod : value.toNat % 256 % 128 = value.toNat % 128 := Nat.mod_mod_of_dvd _ (by decide)
  apply UInt8.toNat_inj.mp
  rw [UInt32.toNat_toUInt8, UInt32.toNat_or, Nat.or_mod_two_pow, UInt8.toNat_ofNat',
    Nat.mod_eq_of_lt (show value.toNat % 128 + 128 < 2 ^ 8 by omega), ← hmod]
  exact or_highBit_of_lt (Nat.mod_lt _ (by decide))

theorem writeVarint32ToArray_eq (value : UInt32) :
    writeVarint32ToArray value = Varint.encode value.toNat := by
  fun_induction writeVarint32ToArray value with
  | case1 value hvalue ih =>
      have hle : 128 ≤ value.toNat := UInt32.le_iff_toNat_le.mp hvalue
      rw [ih, toNat_shiftRight_seven, Varint.encode_of_le hle, toUInt8_or_0x80]
  | case2 value hvalue =>
      have hbelow : value < 0x80 := UInt32.not_le.mp hvalue
      have hlt : value.toNat < 128 := UInt32.lt_iff_toNat_lt.mp hbelow
      rw [Varint.encode_of_lt hlt]
      rfl

theorem log2_or_one (n : ℕ) : Nat.log2 (n ||| 1) = Nat.log2 n := by
  by_cases hn : n = 0
  · subst hn
    rfl
  · have hor : n ||| 1 ≠ 0 := by
      intro hzero
      exact hn (Nat.or_eq_zero_iff.mp hzero).1
    apply le_antisymm
    · have hone : 1 < 2 ^ (Nat.log2 n + 1) := Nat.one_lt_two_pow (Nat.succ_ne_zero _)
      exact Nat.le_of_lt_succ ((Nat.log2_lt hor).mpr (Nat.or_lt_two_pow Nat.lt_log2_self hone))
    · exact (Nat.le_log2 hor).mpr ((Nat.log2_self_le hn).trans Nat.left_le_or)

theorem log2_lt (value : UInt32) : Nat.log2 value.toNat < 32 := by
  by_cases hvalue : value.toNat = 0
  · rw [hvalue]
    decide
  · exact (Nat.log2_lt hvalue).mpr value.toNat_lt

/-- The multiplication and the shift divide by seven what a 32-bit logarithm can be. -/
theorem varintSize32_eq (value : UInt32) :
    varintSize32 value = (writeVarint32ToArray value).length := by
  have hlog := log2_lt value
  have hdivide : ∀ log < 32, (log * 9 + 73) / 64 = log / 7 + 1 := by decide
  rw [writeVarint32ToArray_eq, Varint.length_encode, varintSize32, UInt32.toNat_or]
  exact (hdivide _ (by rwa [show UInt32.toNat 0x1 = 1 from rfl, log2_or_one])).trans
    (by rw [show UInt32.toNat 0x1 = 1 from rfl, log2_or_one])

/-! ### The unrolled lines -/

/-- What a line multiplies its byte by. -/
def weight : Option UInt32 → UInt32
  | some shift => 1 <<< shift
  | none => 0

theorem placed_eq (shift : Option UInt32) (b : UInt32) : placed shift b = weight shift * b := by
  cases shift with
  | none => simp [placed, weight]
  | some shift =>
      apply UInt32.toNat_inj.mp
      simp only [placed, weight, UInt32.toNat_shiftLeft, UInt32.toNat_mul, Nat.shiftLeft_eq,
        UInt32.toNat_one, one_mul, Nat.mod_mul_mod]
      rw [mul_comm]

/-- The lines give the bytes the weights of the digits from a position on. -/
def Places : ℕ → List (Option UInt32) → Prop
  | _, [] => True
  | start, shift :: shifts =>
      weight shift = UInt32.ofNat (128 ^ start) ∧ Places (start + 1) shifts

theorem varintLines_eq {shifts : List (Option UInt32)} {start : ℕ} (hplaces : Places start shifts)
    (result : UInt32) (buffer : List UInt8) :
    varintLines shifts result buffer =
      match Varint.decode shifts.length buffer with
      | some (value, rest) => .ended (result + UInt32.ofNat (128 ^ start * value)) rest
      | none =>
          if buffer.length < shifts.length then .outOfBounds
          else
            .unended (result + UInt32.ofNat (128 ^ start * Varint.low shifts.length buffer))
              (buffer.drop shifts.length) := by
  induction shifts generalizing start result buffer with
  | nil => simp [varintLines, Varint.decode, Varint.low]
  | cons shift shifts ih =>
      obtain ⟨hweight, hothers⟩ := hplaces
      cases buffer with
      | nil => simp [varintLines, Varint.decode]
      | cons b buffer =>
          have hbyte : b.toUInt32 = UInt32.ofNat b.toNat := (UInt32.ofNat_uInt8ToNat b).symm
          simp only [varintLines, placed_eq, hweight, highBit_eq_zero_iff, List.length_cons,
            Varint.decode]
          by_cases hlast : b.toNat < 128
          · simp only [if_pos hlast, hbyte, ← UInt32.ofNat_mul]
          · have hstep : ∀ tail : ℕ,
                result + UInt32.ofNat (128 ^ start) * b.toUInt32 -
                    UInt32.ofNat (128 ^ start) * 0x80 + UInt32.ofNat (128 ^ (start + 1) * tail) =
                  result + UInt32.ofNat (128 ^ start * (b.toNat - 128 + 128 * tail)) := by
              intro tail
              have hbyte' : b.toUInt32 = UInt32.ofNat (b.toNat - 128) + 0x80 := by
                rw [hbyte, show (0x80 : UInt32) = UInt32.ofNat 128 from rfl, ← UInt32.ofNat_add,
                  Nat.sub_add_cancel (Nat.not_lt.mp hlast)]
              have hconst : (0x80 : UInt32) = UInt32.ofNat 128 := rfl
              rw [hbyte', pow_succ]
              simp only [UInt32.ofNat_mul, UInt32.ofNat_add, hconst]
              grind
            simp only [if_neg hlast, ih hothers]
            cases hdecode : Varint.decode shifts.length buffer with
            | some decoded => simp only [Option.map_some, hstep]
            | none =>
                simp only [Option.map_none, hstep, Varint.low, List.drop_succ_cons,
                  Nat.add_lt_add_iff_right]

/-! ### The unrolled readers -/

/-- What a reader that does not check the end of the buffer is to give. -/
def ArrayRead.Reads {α : Type} (convert : ℕ → α) (buffer : List UInt8) (read : ArrayRead α) :
    Prop :=
  match Varint.decode 10 buffer with
  | some (value, rest) => read = .ended (convert value) rest
  | none => ∃ value rest, read = .unended value rest

theorem length_of_endsVarint {buffer : List UInt8} (hends : endsVarint buffer = true)
    (hnone : Varint.decode 10 buffer = none) : 10 ≤ buffer.length := by
  by_contra hshort
  rw [endsVarint, Bool.or_eq_true, decide_eq_true_iff] at hends
  rcases hends with hlong | hlast
  · exact hshort hlong
  · cases hbuffer : buffer.getLast? with
    | none => simp [hbuffer] at hlast
    | some b =>
        rw [hbuffer] at hlast
        have hb : b.toNat < 128 := (highBit_eq_zero_iff b).mp (of_decide_eq_true hlast)
        have hpos : 0 < buffer.length := by
          apply List.length_pos_of_ne_nil
          rintro rfl
          cases hbuffer
        have hlt : buffer.length - 1 < buffer.length := by omega
        have hget : buffer[buffer.length - 1] = b := by
          rw [List.getLast?_eq_getElem?, List.getElem?_eq_getElem hlt] at hbuffer
          exact Option.some.inj hbuffer
        have hindex : buffer.length - 1 < 10 := by omega
        have hsome := Varint.decode_isSome_of_getElem hindex hlt (hget.symm ▸ hb)
        rw [hnone] at hsome
        cases hsome

theorem readVarint32FromArray_reads {b : UInt8} {buffer : List UInt8} (hb : ¬ b.toNat < 128)
    (hends : endsVarint (b :: buffer) = true) :
    (readVarint32FromArray b.toUInt32 (b :: buffer)).Reads UInt32.ofNat (b :: buffer) := by
  have hplaces : Places 1 [some 7, some 14, some 21, some 28, none, none, none, none, none] := by
    simp only [Places, weight]
    decide
  have hlines := varintLines_eq hplaces (b.toUInt32 - 0x80) buffer
  have hfirst : b.toUInt32 - 0x80 = UInt32.ofNat (b.toNat - 128) := by
    rw [UInt32.ofNat_sub (Nat.not_lt.mp hb), UInt32.ofNat_uInt8ToNat]
    rfl
  have hlong := length_of_endsVarint hends
  unfold ArrayRead.Reads
  rw [Varint.decode, if_neg hb] at hlong ⊢
  simp only [readVarint32FromArray, List.drop_succ_cons, List.drop_zero, hlines, List.length_cons,
    List.length_nil, Nat.zero_add, Nat.reduceAdd] at hlong ⊢
  cases hdecode : Varint.decode 9 buffer with
  | some decoded =>
      simp only [Option.map_some, hfirst, ← UInt32.ofNat_add, pow_one]
  | none =>
      have hlength := hlong (by rw [hdecode]; rfl)
      rw [if_neg (by omega)]
      exact ⟨_, _, rfl⟩

theorem joinParts_ofNat {low middle high : ℕ} (hlow : low < 2 ^ 28) (hmiddle : middle < 2 ^ 28)
    (hhigh : high < 2 ^ 14) :
    joinParts (UInt32.ofNat low) (UInt32.ofNat middle) (UInt32.ofNat high) =
      UInt64.ofNat (low + 2 ^ 28 * (middle + 2 ^ 28 * high)) := by
  have hparts : low + 2 ^ 28 * middle < 2 ^ 56 := by omega
  have htop : 2 ^ 56 * high % 2 ^ 64 = 2 ^ 56 * (high % 2 ^ 8) := by omega
  have hor := Nat.two_pow_add_eq_or_of_lt hlow middle
  have hor' := Nat.two_pow_add_eq_or_of_lt hparts (high % 2 ^ 8)
  apply UInt64.toNat_inj.mp
  simp only [joinParts, UInt64.toNat_or, UInt64.toNat_shiftLeft, UInt32.toNat_toUInt64,
    UInt32.toNat_ofNat', UInt64.toNat_ofNat', Nat.shiftLeft_eq,
    show UInt64.toNat 28 % 64 = 28 from rfl, show UInt64.toNat 56 % 64 = 56 from rfl]
  rw [Nat.mod_eq_of_lt (show low < 2 ^ 32 by omega),
    Nat.mod_eq_of_lt (show middle < 2 ^ 32 by omega),
    Nat.mod_eq_of_lt (show high < 2 ^ 32 by omega),
    Nat.mod_eq_of_lt (show middle * 2 ^ 28 < 2 ^ 64 by omega), mul_comm middle, mul_comm high, htop,
    Nat.or_comm low, ← hor, Nat.or_comm, add_comm _ low, ← hor']
  omega

theorem varintLines_zero {shifts : List (Option UInt32)} (hplaces : Places 0 shifts)
    (buffer : List UInt8) :
    varintLines shifts 0 buffer =
      match Varint.decode shifts.length buffer with
      | some (value, rest) => .ended (UInt32.ofNat value) rest
      | none =>
          if buffer.length < shifts.length then .outOfBounds
          else
            .unended (UInt32.ofNat (Varint.low shifts.length buffer))
              (buffer.drop shifts.length) := by
  rw [varintLines_eq hplaces]
  simp only [pow_zero, one_mul, UInt32.zero_add]

theorem value_lt_of_decode {count value : ℕ} {bytes rest : List UInt8}
    (hdecode : Varint.decode count bytes = some (value, rest)) : value < 128 ^ count := by
  obtain ⟨used, -, -, hused, hlt⟩ := Varint.decode_eq_some hdecode
  exact hlt.trans_le (Nat.pow_le_pow_right (by decide) hused)

/-- The three parts have four, four and two digits. -/
theorem readVarint64FromArray_reads {buffer : List UInt8} (hends : endsVarint buffer = true) :
    (readVarint64FromArray buffer).Reads UInt64.ofNat buffer := by
  have hplaces : Places 0 [some 0, some 7, some 14, some 21] := by
    simp only [Places, weight]
    decide
  have hplaces' : Places 0 [some 0, some 7] := by
    simp only [Places, weight]
    decide
  have hlong := length_of_endsVarint hends
  set middle := buffer.drop 4 with hmiddle
  set high := middle.drop 4 with hhigh
  have hmiddleLength : middle.length = buffer.length - 4 := List.length_drop
  have hhighLength : high.length = middle.length - 4 := List.length_drop
  have hlow : Varint.low 4 buffer < 2 ^ 28 := Varint.low_lt 4 buffer
  have hlow' : Varint.low 4 middle < 2 ^ 28 := Varint.low_lt 4 middle
  unfold ArrayRead.Reads readVarint64FromArray
  simp only [varintLines_zero hplaces, varintLines_zero hplaces', List.length_cons,
    List.length_nil, Nat.reduceAdd]
  cases hfirst : Varint.decode 4 buffer with
  | some decoded =>
      have hvalue : decoded.1 < 2 ^ 28 := value_lt_of_decode hfirst
      rw [Varint.decode_add_of_some hfirst 6]
      exact congrArg (ArrayRead.ended · decoded.2)
        (joinParts_ofNat hvalue (show 0 < 2 ^ 28 by decide) (show 0 < 2 ^ 14 by decide))
  | none =>
      have hlength : 4 ≤ buffer.length := by
        by_contra hshort
        have := hlong (Varint.decode_add_of_short hfirst (Nat.not_le.mp hshort) 6)
        omega
      have hrest := Varint.decode_add_of_none hfirst hlength 6
      rw [hrest] at hlong ⊢
      simp only [if_neg (Nat.not_lt.mpr hlength), ← hmiddle] at hlong ⊢
      cases hsecond : Varint.decode 4 middle with
      | some decoded =>
          have hvalue : decoded.1 < 2 ^ 28 := value_lt_of_decode hsecond
          rw [Varint.decode_add_of_some hsecond 2]
          exact congrArg (ArrayRead.ended · decoded.2)
            (joinParts_ofNat hlow hvalue (show 0 < 2 ^ 14 by decide))
      | none =>
          have hlength' : 4 ≤ middle.length := by
            by_contra hshort
            have hnone := Varint.decode_add_of_short hsecond (Nat.not_le.mp hshort) 2
            have := hlong (by rw [hnone]; rfl)
            omega
          have hrest' := Varint.decode_add_of_none hsecond hlength' 2
          rw [hrest'] at hlong ⊢
          simp only [if_neg (Nat.not_lt.mpr hlength'), ← hhigh] at hlong ⊢
          cases hthird : Varint.decode 2 high with
          | some decoded =>
              have hvalue : decoded.1 < 2 ^ 14 := value_lt_of_decode hthird
              exact congrArg (ArrayRead.ended · decoded.2) (joinParts_ofNat hlow hlow' hvalue)
          | none =>
              have := hlong (by rw [hthird]; rfl)
              rw [if_neg (by omega)]
              exact ⟨_, _, rfl⟩

/-! ### The loop -/

theorem addDigit_toNat {result : UInt64} {count : ℕ} (hcount : count ≤ 9)
    (hresult : result.toNat < 128 ^ count) (b : UInt8) :
    (result ||| (b &&& 0x7F).toUInt64 <<< UInt64.ofNat (7 * count)).toNat =
      result.toNat + b.toNat % 128 * 128 ^ count % 2 ^ 64 := by
  have hpow : (128 : ℕ) ^ count = 2 ^ (7 * count) := by
    rw [pow_mul]
    rfl
  have hshift : (UInt64.ofNat (7 * count)).toNat % 64 = 7 * count := by
    rw [UInt64.toNat_ofNat', Nat.mod_eq_of_lt (show 7 * count < 2 ^ 64 by omega),
      Nat.mod_eq_of_lt (by omega)]
  have hsplit : (2 : ℕ) ^ 64 = 2 ^ (7 * count) * 2 ^ (64 - 7 * count) := by
    rw [← pow_add, Nat.add_sub_cancel' (by omega)]
  rw [hpow] at hresult
  rw [UInt64.toNat_or, UInt64.toNat_shiftLeft, UInt8.toNat_toUInt64, toNat_and_0x7F, hshift,
    Nat.shiftLeft_eq, hpow, mul_comm _ (2 ^ (7 * count)), hsplit, Nat.mul_mod_mul_left,
    Nat.or_comm, ← Nat.two_pow_add_eq_or_of_lt hresult, add_comm]

theorem varint64SlowLoop_eq {left count : ℕ} (hcount : left + count = 10) {result : UInt64}
    (hresult : result.toNat < 128 ^ count) (buffer : List UInt8) :
    varint64SlowLoop left count result buffer =
      match Varint.decode left buffer with
      | some (value, rest) => (some (UInt64.ofNat (result.toNat + 128 ^ count * value)), rest)
      | none => (none, buffer.drop left) := by
  induction left generalizing count result buffer with
  | zero => rfl
  | succ left ih =>
      cases buffer with
      | nil => rfl
      | cons b buffer =>
          have hdigit := addDigit_toNat (show count ≤ 9 by omega) hresult b
          have hfits := hdigit ▸ UInt64.toNat_lt _
          have hbound := b.toNat_lt
          have hpow : 128 ^ (count + 1) = 128 ^ count * 128 := pow_succ 128 count
          rw [varint64SlowLoop, Varint.decode]
          simp only [ne_eq, highBit_eq_zero_iff, ite_not]
          by_cases hlast : b.toNat < 128
          · rw [if_pos hlast, if_pos hlast]
            refine congrArg (fun value => (some value, buffer)) (UInt64.toNat_inj.mp ?_)
            rw [hdigit, UInt64.toNat_ofNat', Nat.mod_eq_of_lt hlast, mul_comm b.toNat]
            rw [Nat.mod_eq_of_lt hlast, mul_comm b.toNat] at hfits
            omega
          · have hlow : b.toNat % 128 = b.toNat - 128 := by omega
            rw [hlow] at hdigit
            have hmore : (result ||| (b &&& 0x7F).toUInt64 <<< UInt64.ofNat (7 * count)).toNat <
                128 ^ (count + 1) := by
              have hdigits : (b.toNat - 128) * 128 ^ count ≤ 127 * 128 ^ count :=
                Nat.mul_le_mul_right _ (by omega)
              have hmod := Nat.mod_le ((b.toNat - 128) * 128 ^ count) (2 ^ 64)
              rw [hdigit, hpow]
              omega
            rw [if_neg hlast, if_neg hlast, ih (by omega) hmore]
            cases hdecode : Varint.decode left buffer with
            | none => rfl
            | some decoded =>
                have hsum : 128 ^ count * (b.toNat - 128 + 128 * decoded.1) =
                    (b.toNat - 128) * 128 ^ count + 128 ^ (count + 1) * decoded.1 := by
                  rw [hpow]
                  ring
                refine congrArg (fun value => (some value, decoded.2)) (UInt64.toNat_inj.mp ?_)
                rw [UInt64.toNat_ofNat', UInt64.toNat_ofNat', hdigit, hsum]
                omega

/-! ### The reads of the stream -/

/-- A read gives the numeral at the front of the buffer, converted, if there is one. -/
def ReadsVarint {α : Type} (convert : ℕ → Option α)
    (read : List UInt8 → Option α × List UInt8) : Prop :=
  ∀ buffer, match Varint.decode 10 buffer with
    | some (value, rest) =>
        match convert value with
        | some converted => read buffer = (some converted, rest)
        | none => (read buffer).1 = none
    | none => (read buffer).1 = none

theorem readVarint64Slow_reads : ReadsVarint (some ∘ UInt64.ofNat) readVarint64Slow := by
  intro buffer
  have hzero : (0 : UInt64).toNat < 128 ^ 0 := by decide
  have hloop := varint64SlowLoop_eq (show 10 + 0 = 10 from rfl) hzero buffer
  rw [readVarint64Slow, kMaxVarintBytes, hloop]
  cases hdecode : Varint.decode 10 buffer with
  | some decoded =>
      simp only [Function.comp_apply, UInt64.toNat_zero, pow_zero, one_mul, zero_add]
  | none => rfl

theorem readVarint64Fallback_reads : ReadsVarint (some ∘ UInt64.ofNat) readVarint64Fallback := by
  intro buffer
  rw [readVarint64Fallback]
  by_cases hends : endsVarint buffer = true
  · have hreads := readVarint64FromArray_reads hends
    unfold ArrayRead.Reads at hreads
    rw [if_pos hends]
    cases hdecode : Varint.decode 10 buffer with
    | some decoded =>
        rw [hdecode] at hreads
        simp only [Function.comp_apply, hreads]
    | none =>
        rw [hdecode] at hreads
        obtain ⟨value, rest, hread⟩ := hreads
        simp only [hread]
  · rw [if_neg hends]
    exact readVarint64Slow_reads buffer

/-- A first byte that ends the numeral is the numeral. -/
theorem decode_of_lt {b : UInt8} (hb : b < 0x80) (buffer : List UInt8) :
    Varint.decode 10 (b :: buffer) = some (b.toNat, buffer) := by
  rw [Varint.decode, if_pos ((lt_0x80_iff b).mp hb)]

theorem readVarint64_reads : ReadsVarint (some ∘ UInt64.ofNat) readVarint64 := by
  intro buffer
  cases buffer with
  | nil => exact readVarint64Fallback_reads []
  | cons b buffer =>
      by_cases hb : b < 0x80
      · simp only [decode_of_lt hb, readVarint64, if_pos hb, Function.comp_apply]
        rw [UInt64.ofNat_uInt8ToNat]
      · rw [readVarint64, if_neg hb]
        exact readVarint64Fallback_reads (b :: buffer)

theorem readVarint32Slow_reads : ReadsVarint (some ∘ UInt32.ofNat) readVarint32Slow := by
  intro buffer
  have hreads := readVarint64Fallback_reads buffer
  cases hdecode : Varint.decode 10 buffer with
  | some decoded =>
      simp only [hdecode, Function.comp_apply] at hreads
      simp only [readVarint32Slow, hreads, Option.map_some, Function.comp_apply]
      rw [UInt64.toUInt32_ofNat']
  | none =>
      simp only [hdecode] at hreads
      simp only [readVarint32Slow, hreads, Option.map_none]

theorem readVarint32_reads : ReadsVarint (some ∘ UInt32.ofNat) readVarint32 := by
  intro buffer
  cases buffer with
  | nil => exact readVarint32Slow_reads []
  | cons b buffer =>
      by_cases hb : b < 0x80
      · simp only [decode_of_lt hb, readVarint32, if_pos hb, Function.comp_apply]
        rw [UInt32.ofNat_uInt8ToNat]
      · rw [readVarint32, if_neg hb, readVarint32Fallback]
        by_cases hends : endsVarint (b :: buffer) = true
        · have hreads := readVarint32FromArray_reads (mt (lt_0x80_iff b).mpr hb) hends
          unfold ArrayRead.Reads at hreads
          rw [if_pos hends]
          cases hdecode : Varint.decode 10 (b :: buffer) with
          | some decoded =>
              simp only [hdecode] at hreads
              simp only [hreads, Function.comp_apply]
          | none =>
              simp only [hdecode] at hreads
              obtain ⟨value, rest, hread⟩ := hreads
              simp only [hread]
        · rw [if_neg hends]
          exact readVarint32Slow_reads (b :: buffer)

/-- The size a numeral stands for: 64 bits of it, if they are a positive `int`. -/
def sizeOf? (value : ℕ) : Option Int :=
  if value % 2 ^ 64 < 2 ^ 31 then some (value % 2 ^ 64 : ℕ) else none

theorem le_intMax_iff (size : ℕ) : (size : Int) ≤ intMax ↔ size < 2 ^ 31 := by
  rw [intMax]
  omega

theorem readVarintSizeAsIntSlow_reads : ReadsVarint sizeOf? readVarintSizeAsIntSlow := by
  intro buffer
  have hreads := readVarint64Fallback_reads buffer
  cases hdecode : Varint.decode 10 buffer with
  | some decoded =>
      simp only [hdecode, Function.comp_apply] at hreads
      simp only [readVarintSizeAsIntSlow, hreads, UInt64.toNat_ofNat', sizeOf?]
      by_cases hsize : decoded.1 % 2 ^ 64 < 2 ^ 31
      · simp only [if_pos hsize, if_neg (not_lt.mpr ((le_intMax_iff _).mpr hsize))]
      · simp only [if_neg hsize, if_pos (not_le.mp (mt (le_intMax_iff _).mp hsize))]
  | none =>
      simp only [hdecode] at hreads
      rcases hread : readVarint64Fallback buffer with ⟨value, rest⟩
      rw [hread] at hreads
      simp only at hreads
      simp only [readVarintSizeAsIntSlow, hread, hreads]

theorem readVarintSizeAsInt_reads : ReadsVarint sizeOf? readVarintSizeAsInt := by
  intro buffer
  cases buffer with
  | nil => exact readVarintSizeAsIntSlow_reads []
  | cons b buffer =>
      by_cases hb : b < 0x80
      · have hbyte := b.toNat_lt
        have hsize : sizeOf? b.toNat = some (b.toNat : Int) := by
          rw [sizeOf?, Nat.mod_eq_of_lt (by omega), if_pos (by omega)]
        simp only [decode_of_lt hb, hsize, readVarintSizeAsInt, if_pos hb]
      · rw [readVarintSizeAsInt, if_neg hb, readVarintSizeAsIntFallback]
        by_cases hends : endsVarint (b :: buffer) = true
        · have hreads := readVarint64FromArray_reads hends
          unfold ArrayRead.Reads at hreads
          rw [if_pos hends]
          cases hdecode : Varint.decode 10 (b :: buffer) with
          | some decoded =>
              simp only [hdecode] at hreads
              simp only [hreads, UInt64.toNat_ofNat', sizeOf?]
              by_cases hsize : decoded.1 % 2 ^ 64 < 2 ^ 31
              · simp only [if_pos hsize, if_neg (not_lt.mpr ((le_intMax_iff _).mpr hsize))]
              · simp only [if_neg hsize, if_pos (not_le.mp (mt (le_intMax_iff _).mp hsize))]
          | none =>
              simp only [hdecode] at hreads
              obtain ⟨value, rest, hread⟩ := hreads
              simp only [hread]
        · rw [if_neg hends]
          exact readVarintSizeAsIntSlow_reads (b :: buffer)

theorem ArrayRead.Reads.ne_outOfBounds {α : Type} {convert : ℕ → α} {buffer : List UInt8}
    {read : ArrayRead α} (hreads : read.Reads convert buffer) : read ≠ .outOfBounds := by
  rintro rfl
  unfold Reads at hreads
  split at hreads
  · cases hreads
  · obtain ⟨_, _, hread⟩ := hreads
    cases hread

/-- **One varint, three readers.** Under the test they are used behind, the unrolled readers stay
within the buffer. Whichever path a read takes it gives what the loop that checks every byte gives,
or its low half, or, as a size, only what is a positive `int`. -/
theorem varint_paths_agree (buffer : List UInt8) :
    (endsVarint buffer = true →
      readVarint64FromArray buffer ≠ .outOfBounds ∧
        ∀ b rest, buffer = b :: rest → ¬ b < 0x80 →
          readVarint32FromArray b.toUInt32 buffer ≠ .outOfBounds) ∧
      match readVarint64Slow buffer with
      | (some value, rest) =>
          readVarint64 buffer = (some value, rest) ∧
            readVarint32 buffer = (some value.toUInt32, rest) ∧
            if (value.toNat : Int) ≤ intMax then
              readVarintSizeAsInt buffer = (some (value.toNat : Int), rest)
            else (readVarintSizeAsInt buffer).1 = none
      | (none, _) =>
          (readVarint64 buffer).1 = none ∧ (readVarint32 buffer).1 = none ∧
            (readVarintSizeAsInt buffer).1 = none := by
  have hslow := readVarint64Slow_reads buffer
  have hwide := readVarint64_reads buffer
  have hnarrow := readVarint32_reads buffer
  have hsize := readVarintSizeAsInt_reads buffer
  constructor
  · intro hends
    refine ⟨(readVarint64FromArray_reads hends).ne_outOfBounds, ?_⟩
    rintro b rest rfl hb
    exact (readVarint32FromArray_reads (mt (lt_0x80_iff b).mpr hb) hends).ne_outOfBounds
  cases hdecode : Varint.decode 10 buffer with
  | some decoded =>
      simp only [hdecode, Function.comp_apply] at hslow hwide hnarrow hsize
      simp only [hslow, hwide, hnarrow, true_and]
      refine ⟨by rw [UInt64.toUInt32_ofNat'], ?_⟩
      simp only [le_intMax_iff, UInt64.toNat_ofNat']
      unfold sizeOf? at hsize
      split at hsize
      · rename_i size heq
        split at heq
        · rename_i hfits
          rw [if_pos hfits, hsize, Option.some.inj heq]
        · cases heq
      · rename_i heq
        split at heq
        · cases heq
        · rename_i hlarge
          rwa [if_neg hlarge]
  | none =>
      simp only [hdecode] at hslow hwide hnarrow hsize
      rcases hread : readVarint64Slow buffer with ⟨value, rest⟩
      rw [hread] at hslow
      simp only at hslow
      simp only [hslow, hwide, hnarrow, hsize, and_self]

theorem readVarint32_write (value : UInt32) (rest : List UInt8) :
    readVarint32 (writeVarint32ToArray value ++ rest) = (some value, rest) := by
  have hfits : value.toNat < 128 ^ 10 := value.toNat_lt.trans (by decide)
  have hreads := readVarint32_reads (writeVarint32ToArray value ++ rest)
  rw [writeVarint32ToArray_eq] at hreads ⊢
  simp only [Varint.decode_encode (show 0 < 10 by decide) hfits, Function.comp_apply] at hreads
  rw [hreads, UInt32.ofNat_toNat]

/-- **What is written is read back**, in the bytes `VarintSize32` counts, and no bytes that are read
as the same number are fewer. -/
theorem varint32_round_trip (value : UInt32) (rest : List UInt8) :
    readVarint32 (writeVarint32ToArray value ++ rest) = (some value, rest) ∧
      (writeVarint32ToArray value).length = varintSize32 value ∧
      ∀ buffer after, readVarint64 buffer = (some value.toUInt64, after) →
        varintSize32 value + after.length ≤ buffer.length := by
  refine ⟨readVarint32_write value rest, (varintSize32_eq value).symm, ?_⟩
  intro buffer after hread
  have hreads := readVarint64_reads buffer
  cases hdecode : Varint.decode 10 buffer with
  | none =>
      simp only [hdecode, hread] at hreads
      cases hreads
  | some decoded =>
      simp only [hdecode, Function.comp_apply, hread] at hreads
      obtain ⟨hvalue, hafter⟩ := Prod.mk.inj hreads
      obtain ⟨used, rfl, hpos, -, hlt⟩ := Varint.decode_eq_some hdecode
      have hmod : value.toNat = decoded.1 % 2 ^ 64 := by
        rw [← UInt32.toNat_toUInt64, Option.some.inj hvalue, UInt64.toNat_ofNat']
      have hsmall : value.toNat < 128 ^ used.length :=
        (hmod.trans_le (Nat.mod_le _ _)).trans_lt hlt
      have hshort := Varint.length_encode_le hpos hsmall
      rw [varintSize32_eq, writeVarint32ToArray_eq, List.length_append, hafter]
      omega

/-! ### Tags -/

theorem suffix_of_decode {count value : ℕ} {bytes rest : List UInt8}
    (hdecode : Varint.decode count bytes = some (value, rest)) : rest <:+ bytes := by
  obtain ⟨used, rfl, -⟩ := Varint.decode_eq_some hdecode
  exact List.suffix_append used rest

theorem readVarint64Fallback_suffix (buffer : List UInt8) :
    (readVarint64Fallback buffer).2 <:+ buffer := by
  have hreads := readVarint64Fallback_reads buffer
  cases hdecode : Varint.decode 10 buffer with
  | some decoded =>
      simp only [hdecode, Function.comp_apply] at hreads
      rw [hreads]
      exact suffix_of_decode hdecode
  | none =>
      simp only [hdecode] at hreads
      rw [readVarint64Fallback] at hreads ⊢
      by_cases hends : endsVarint buffer = true
      · rw [if_pos hends] at hreads ⊢
        split
        · rename_i value rest hread
          simp only [hread] at hreads
          cases hreads
        · exact List.suffix_refl buffer
      · have hzero : (0 : UInt64).toNat < 128 ^ 0 := by decide
        have hloop := varint64SlowLoop_eq (show 10 + 0 = 10 from rfl) hzero buffer
        rw [hdecode] at hloop
        rw [if_neg hends, readVarint64Slow, kMaxVarintBytes, hloop]
        exact List.drop_suffix 10 buffer

namespace CodedInputStream

variable (input : CodedInputStream)

/-- Reading a tag does what `Wire.readTag` says; where that gives none, the result is zero, and
only at the end of the buffer the message may end. -/
structure TagRead (read : UInt32 × CodedInputStream) : Prop where
  atEnd : input.buffer = [] → read = (0, { input with legitimateMessageEnd := true })
  of_some : ∀ tag rest, Wire.readTag input.buffer = some (tag, rest) →
    read = (UInt32.ofNat tag, input.withBuffer rest)
  of_none : input.buffer ≠ [] → Wire.readTag input.buffer = none →
    ∃ rest, rest <:+ input.buffer ∧ read = (0, input.withBuffer rest)

theorem TagRead.of_decode {input : CodedInputStream} {read : UInt32 × CodedInputStream}
    (hbuffer : input.buffer ≠ [])
    (hsome : ∀ value rest, Varint.decode 10 input.buffer = some (value, rest) →
      read = (UInt32.ofNat value, input.withBuffer rest))
    (hnone : Varint.decode 10 input.buffer = none →
      ∃ rest, rest <:+ input.buffer ∧ read = (0, input.withBuffer rest)) :
    input.TagRead read where
  atEnd := fun hnil => absurd hnil hbuffer
  of_some := fun tag rest htag => by
    obtain ⟨value, hdecode, rfl, -⟩ := Wire.decode_of_readTag htag
    rw [hsome value rest hdecode]
    exact congrArg (·, _) (UInt32.ofNat_mod_size).symm
  of_none := fun _ htag => by
    cases hdecode : Varint.decode 10 input.buffer with
    | none => exact hnone hdecode
    | some decoded =>
        simp only [Wire.readTag, hdecode] at htag
        split at htag
        · rename_i hzero
          have htag : UInt32.ofNat decoded.1 = 0 :=
            (UInt32.ofNat_mod_size).symm.trans (congrArg UInt32.ofNat hzero)
          exact ⟨decoded.2, suffix_of_decode hdecode, by rw [hsome _ _ hdecode, htag]⟩
        · cases htag

theorem readTagSlow_spec (hbuffer : input.buffer ≠ []) : input.TagRead input.readTagSlow := by
  have hreads := readVarint64_reads input.buffer
  refine TagRead.of_decode hbuffer (fun value rest hdecode => ?_) fun hdecode => ?_
  · simp only [hdecode, Function.comp_apply] at hreads
    simp only [readTagSlow, onBuffer, hreads]
    rw [UInt64.toUInt32_ofNat']
  · simp only [hdecode] at hreads
    have hsuffix : (readVarint64 input.buffer).2 <:+ input.buffer := by
      cases hinput : input.buffer with
      | nil => exact absurd hinput hbuffer
      | cons b buffer =>
          rw [readVarint64]
          split
          · exact List.suffix_cons b buffer
          · exact readVarint64Fallback_suffix (b :: buffer)
    exact ⟨_, hsuffix, by simp only [readTagSlow, onBuffer, hreads]⟩

theorem readTagFallback_nil (hbuffer : input.buffer = []) :
    input.TagRead (input.readTagFallback 0) where
  atEnd := fun _ => by
    rw [readTagFallback, hbuffer]
    rfl
  of_some := fun tag rest htag => by
    rw [hbuffer] at htag
    cases htag
  of_none := fun hne => absurd hbuffer hne

theorem readTagFallback_cons {b : UInt8} {buffer : List UInt8}
    (hbuffer : input.buffer = b :: buffer) (hb : b = 0 ∨ ¬ b < 0x80) :
    input.TagRead (input.readTagFallback b.toUInt32) := by
  have hne : input.buffer ≠ [] := by
    rw [hbuffer]
    exact List.cons_ne_nil b buffer
  rw [readTagFallback]
  by_cases hends : endsVarint input.buffer = true
  · rw [if_pos hends]
    by_cases hzero : b = 0
    · subst hzero
      rw [if_pos (show UInt8.toUInt32 0 = 0 from rfl)]
      refine TagRead.of_decode hne (fun value rest hdecode => ?_) fun hdecode => ?_
      · rw [hbuffer, decode_of_lt (by decide)] at hdecode
        obtain ⟨rfl, rfl⟩ := Prod.mk.inj (Option.some.inj hdecode)
        rw [advance, hbuffer]
        rfl
      · rw [hbuffer, decode_of_lt (by decide)] at hdecode
        cases hdecode
    · have hlarge := hb.resolve_left hzero
      have hfirst : b.toUInt32 ≠ 0 := by
        intro hfirst
        exact hzero (UInt8.toUInt32_inj.mp hfirst)
      have hreads := readVarint32FromArray_reads (mt (lt_0x80_iff b).mpr hlarge) (hbuffer ▸ hends)
      unfold ArrayRead.Reads at hreads
      rw [← hbuffer] at hreads
      rw [if_neg hfirst]
      refine TagRead.of_decode hne (fun value rest hdecode => ?_) fun hdecode => ?_
      · simp only [hdecode] at hreads
        simp only [hreads]
      · simp only [hdecode] at hreads
        obtain ⟨value, rest, hread⟩ := hreads
        exact ⟨input.buffer, List.suffix_refl _, by simp only [hread]; rfl⟩
  · rw [if_neg hends, if_neg hne]
    exact input.readTagSlow_spec hne

theorem tagRead_cons_of_lt {b : UInt8} {buffer : List UInt8} (hbuffer : input.buffer = b :: buffer)
    (hb : b < 0x80) : input.TagRead (b.toUInt32, input.advance 1) := by
  have hne : input.buffer ≠ [] := hbuffer ▸ List.cons_ne_nil b buffer
  refine TagRead.of_decode hne (fun value rest hdecode => ?_) fun hdecode => ?_
  · rw [hbuffer, decode_of_lt hb] at hdecode
    obtain ⟨rfl, rfl⟩ := Prod.mk.inj (Option.some.inj hdecode)
    rw [advance, hbuffer, UInt32.ofNat_uInt8ToNat]
    rfl
  · rw [hbuffer, decode_of_lt hb] at hdecode
    cases hdecode

theorem readTagNoLastTag_spec : input.TagRead input.readTagNoLastTag := by
  cases hbuffer : input.buffer with
  | nil =>
      rw [readTagNoLastTag, hbuffer]
      exact input.readTagFallback_nil hbuffer
  | cons b buffer =>
      rw [readTagNoLastTag, hbuffer]
      simp only
      split
      · rename_i hb
        exact input.tagRead_cons_of_lt hbuffer hb
      · rename_i hb
        exact input.readTagFallback_cons hbuffer (Or.inr hb)

theorem sub_one_lt_of_hot {b : UInt8} (hb : 0 < b ∧ b < 0x80) : b.toUInt32 - 1 < 127 := by
  have hpos : 0 < b.toNat := UInt8.lt_iff_toNat_lt.mp hb.1
  have hlt : b.toNat < 128 := (lt_0x80_iff b).mp hb.2
  rw [UInt32.lt_iff_toNat_lt, UInt32.toNat_sub, UInt8.toNat_toUInt32]
  change (2 ^ 32 - 1 + b.toNat) % 2 ^ 32 < 127
  omega

/-- The cutoff of the generated parsers: only the slow path compares, and to the same effect. -/
theorem readTagWithCutoff_spec :
    ∃ read, input.TagRead read ∧ input.readTagWithCutoff 127 =
      ((read.1, decide (read.1 - 1 < 127)), { read.2 with lastTag := read.1 }) := by
  have hcutoff : ¬ (127 : UInt32) ≥ 0x80 := by decide
  cases hbuffer : input.buffer with
  | nil =>
      refine ⟨_, input.readTagFallback_nil hbuffer, ?_⟩
      simp only [readTagWithCutoff, readTagWithCutoffNoLastTag, hbuffer]
  | cons b buffer =>
      by_cases hhot : 0 < b ∧ b < 0x80
      · refine ⟨_, input.tagRead_cons_of_lt hbuffer hhot.2, ?_⟩
        have hcold := sub_one_lt_of_hot hhot
        have hatMost : decide ((127 : UInt32) ≥ 0x7f ∨ b.toUInt32 ≤ 127) = true :=
          decide_eq_true (Or.inl (by decide))
        cases buffer <;>
          simp only [readTagWithCutoff, readTagWithCutoffNoLastTag, hbuffer, if_pos hhot, hcold,
            hatMost, decide_true]
      · have hb : b = 0 ∨ ¬ b < 0x80 := by
          by_cases hzero : b = 0
          · exact Or.inl hzero
          · exact Or.inr fun hlt => hhot ⟨UInt8.pos_iff_ne_zero.mpr hzero, hlt⟩
        refine ⟨_, input.readTagFallback_cons hbuffer hb, ?_⟩
        cases buffer <;>
          simp only [readTagWithCutoff, readTagWithCutoffNoLastTag, hbuffer, if_neg hhot, hcutoff,
            false_and, if_false]

end CodedInputStream

end FiraClient.Pb
