import Mathlib.Data.Nat.Log
import Mathlib.Tactic.Ring

/-!
# Base-128 numerals

A number as bytes of seven bits each, the least significant first; the high bit of a byte says that
another one follows. A reader gives up after a fixed count of bytes.
-/

namespace Varint

def encode (n : ℕ) : List UInt8 :=
  if n < 128 then [UInt8.ofNat n] else UInt8.ofNat (n % 128 + 128) :: encode (n / 128)

/-- The number at the front of the bytes, in at most `count` of them, and the bytes after it. -/
def decode : ℕ → List UInt8 → Option (ℕ × List UInt8)
  | 0, _ => none
  | _ + 1, [] => none
  | count + 1, byte :: bytes =>
      if byte.toNat < 128 then some (byte.toNat, bytes)
      else (decode count bytes).map fun result => (byte.toNat - 128 + 128 * result.1, result.2)

/-- What the first `count` bytes add up to when each of them says that another one follows. -/
def low : ℕ → List UInt8 → ℕ
  | 0, _ => 0
  | _ + 1, [] => 0
  | count + 1, byte :: bytes => byte.toNat - 128 + 128 * low count bytes

/-! ### Writing -/

theorem encode_of_lt {n : ℕ} (hn : n < 128) : encode n = [UInt8.ofNat n] := by
  rw [encode, if_pos hn]

theorem encode_of_le {n : ℕ} (hn : 128 ≤ n) :
    encode n = UInt8.ofNat (n % 128 + 128) :: encode (n / 128) := by
  rw [encode, if_neg (Nat.not_lt.mpr hn)]

theorem toNat_ofNat_of_lt {n : ℕ} (hn : n < 256) : (UInt8.ofNat n).toNat = n := by
  rw [UInt8.toNat_ofNat']
  exact Nat.mod_eq_of_lt hn

/-- One byte for every seven bits, and one for zero. -/
theorem length_encode (n : ℕ) : (encode n).length = Nat.log2 n / 7 + 1 := by
  induction n using Nat.strongRecOn with
  | ind n ih =>
      by_cases hn : n < 128
      · have hlog : Nat.log2 n < 7 := by
          by_cases hzero : n = 0
          · simp [hzero]
          · exact (Nat.log2_lt hzero).mpr hn
        rw [encode_of_lt hn]
        simp only [List.length_cons, List.length_nil]
        omega
      · have hle : 128 ≤ n := Nat.not_lt.mp hn
        have hdiv : Nat.log2 (n / 128) = Nat.log2 n - 7 := by
          rw [Nat.log2_eq_log_two, Nat.log2_eq_log_two,
            show 128 = 2 ^ 7 from rfl, Nat.log_div_base_pow]
        have hlog : 7 ≤ Nat.log2 n := (Nat.le_log2 (by omega)).mpr hle
        rw [encode_of_le hle, List.length_cons, ih (n / 128) (by omega), hdiv]
        omega

theorem length_encode_mono {m n : ℕ} (hle : m ≤ n) : (encode m).length ≤ (encode n).length := by
  have hlog : Nat.log2 m ≤ Nat.log2 n := by
    rw [Nat.log2_eq_log_two, Nat.log2_eq_log_two]
    exact Nat.log_mono_right hle
  rw [length_encode, length_encode]
  omega

theorem length_encode_add_le (m n : ℕ) :
    (encode (m + n)).length ≤ (encode m).length + (encode n).length := by
  wlog hle : m ≤ n generalizing m n
  · have hswapped := this n m (Nat.le_of_not_le hle)
    rwa [Nat.add_comm n, Nat.add_comm (encode n).length] at hswapped
  · have hdouble : (encode (n * 2)).length ≤ (encode n).length + 1 := by
      rw [length_encode, length_encode, Nat.log2_eq_log_two, Nat.log2_eq_log_two]
      rcases Nat.eq_zero_or_pos n with rfl | hpos
      · decide
      · rw [Nat.log_mul_base (by decide) hpos.ne']
        omega
    have hpos : 0 < (encode m).length := by
      rw [length_encode]
      exact Nat.succ_pos _
    calc (encode (m + n)).length ≤ (encode (n * 2)).length := length_encode_mono (by omega)
      _ ≤ (encode n).length + 1 := hdouble
      _ ≤ (encode m).length + (encode n).length := by omega

theorem length_encode_le {n count : ℕ} (hcount : 0 < count) (hn : n < 128 ^ count) :
    (encode n).length ≤ count := by
  induction count generalizing n with
  | zero => exact absurd hcount (lt_irrefl 0)
  | succ count ih =>
      by_cases hlt : n < 128
      · simp [encode_of_lt hlt]
      · rw [encode_of_le (Nat.not_lt.mp hlt), List.length_cons]
        rcases Nat.eq_zero_or_pos count with rfl | hpos
        · simp only [zero_add, pow_one] at hn
          exact absurd hn hlt
        · have hdiv : n / 128 < 128 ^ count := by
            rw [Nat.div_lt_iff_lt_mul (by decide), ← pow_succ]
            exact hn
          exact Nat.succ_le_succ (ih hpos hdiv)

/-! ### Reading -/

/-- **Round trip.** A number that fits the bytes a reader accepts is read back, with what follows
it left alone. -/
theorem decode_encode {n count : ℕ} (hcount : 0 < count) (hn : n < 128 ^ count)
    (rest : List UInt8) : decode count (encode n ++ rest) = some (n, rest) := by
  induction count generalizing n with
  | zero => exact absurd hcount (lt_irrefl 0)
  | succ count ih =>
      by_cases hlt : n < 128
      · simp only [encode_of_lt hlt, List.cons_append, List.nil_append, decode,
          toNat_ofNat_of_lt (hlt.trans (by decide)), if_pos hlt]
      · have hpos : 0 < count := by
          rcases Nat.eq_zero_or_pos count with rfl | hpos
          · simp only [zero_add, pow_one] at hn
            exact absurd hn hlt
          · exact hpos
        have hdiv : n / 128 < 128 ^ count := by
          rw [Nat.div_lt_iff_lt_mul (by decide), ← pow_succ]
          exact hn
        have hbyte : (UInt8.ofNat (n % 128 + 128)).toNat = n % 128 + 128 :=
          toNat_ofNat_of_lt (by omega)
        rw [encode_of_le (Nat.not_lt.mp hlt), List.cons_append, decode, hbyte,
          if_neg (by omega), ih hpos hdiv]
        simp only [Option.map_some, Option.some.injEq, Prod.mk.injEq, and_true]
        omega

/-- A number is read off a nonempty prefix that is long enough for it. -/
theorem decode_eq_some {count value : ℕ} {bytes rest : List UInt8}
    (hdecode : decode count bytes = some (value, rest)) :
    ∃ used, bytes = used ++ rest ∧ 0 < used.length ∧ used.length ≤ count ∧
      value < 128 ^ used.length := by
  induction count generalizing bytes value with
  | zero => simp [decode] at hdecode
  | succ count ih =>
      cases bytes with
      | nil => simp [decode] at hdecode
      | cons byte bytes =>
          rw [decode] at hdecode
          split at hdecode
          · rename_i hbyte
            obtain ⟨rfl, rfl⟩ := Prod.mk.inj (Option.some.inj hdecode)
            exact ⟨[byte], rfl, by simp, by simp, by simpa using hbyte⟩
          · obtain ⟨⟨high, after⟩, hhigh, hresult⟩ := Option.map_eq_some_iff.mp hdecode
            obtain ⟨rfl, rfl⟩ := Prod.mk.inj hresult
            obtain ⟨used, rfl, hpos, hlength, hlt⟩ := ih hhigh
            refine ⟨byte :: used, rfl, by simp, by simpa using hlength, ?_⟩
            have hbyte := byte.toNat_lt
            simp only [List.length_cons, pow_succ]
            omega

theorem length_lt_of_decode {count value : ℕ} {bytes rest : List UInt8}
    (hdecode : decode count bytes = some (value, rest)) : rest.length < bytes.length := by
  obtain ⟨used, rfl, hpos, -, -⟩ := decode_eq_some hdecode
  rw [List.length_append]
  omega

/-- Nothing shorter than its numeral is read as a number. -/
theorem length_encode_le_of_decode {count value : ℕ} {bytes rest : List UInt8}
    (hdecode : decode count bytes = some (value, rest)) :
    (encode value).length + rest.length ≤ bytes.length := by
  obtain ⟨used, rfl, hpos, -, hlt⟩ := decode_eq_some hdecode
  rw [List.length_append]
  have := length_encode_le hpos hlt
  omega

/-- A byte that ends a number makes the reader stop there at the latest. -/
theorem decode_isSome_of_getElem {count index : ℕ} {bytes : List UInt8} (hcount : index < count)
    (hindex : index < bytes.length) (hend : bytes[index].toNat < 128) :
    (decode count bytes).isSome := by
  induction count generalizing index bytes with
  | zero => exact absurd hcount (Nat.not_lt_zero _)
  | succ count ih =>
      cases bytes with
      | nil => exact absurd hindex (Nat.not_lt_zero _)
      | cons byte bytes =>
          rw [decode]
          split
          · rfl
          · rename_i hbyte
            cases index with
            | zero => exact absurd hend hbyte
            | succ index =>
                rw [Option.isSome_map]
                exact ih (Nat.lt_of_succ_lt_succ hcount) (Nat.lt_of_succ_lt_succ hindex) hend

theorem low_lt (count : ℕ) (bytes : List UInt8) : low count bytes < 128 ^ count := by
  induction count generalizing bytes with
  | zero => simp [low]
  | succ count ih =>
      cases bytes with
      | nil => simp [low]
      | cons byte bytes =>
          have hbyte := byte.toNat_lt
          have htail := ih bytes
          simp only [low, pow_succ]
          omega

theorem decode_add_of_short {count : ℕ} {bytes : List UInt8} (hnone : decode count bytes = none)
    (hlength : bytes.length < count) (more : ℕ) : decode (count + more) bytes = none := by
  induction count generalizing bytes with
  | zero => exact absurd hlength (Nat.not_lt_zero _)
  | succ count ih =>
      cases bytes with
      | nil => rw [Nat.succ_add]; rfl
      | cons byte bytes =>
          rw [decode] at hnone
          split at hnone
          · cases hnone
          · rename_i hbyte
            have htail := Option.map_eq_none_iff.mp hnone
            rw [Nat.succ_add, decode, if_neg hbyte, ih htail (Nat.lt_of_succ_lt_succ hlength)]
            rfl

theorem decode_add_of_some {count : ℕ} {bytes : List UInt8} {result : ℕ × List UInt8}
    (hsome : decode count bytes = some result) (more : ℕ) :
    decode (count + more) bytes = some result := by
  induction count generalizing bytes result with
  | zero => simp [decode] at hsome
  | succ count ih =>
      cases bytes with
      | nil => simp [decode] at hsome
      | cons byte bytes =>
          rw [decode] at hsome
          rw [Nat.succ_add, decode]
          split at hsome
          · rename_i hbyte
            rw [if_pos hbyte, hsome]
          · rename_i hbyte
            obtain ⟨tail, htail, rfl⟩ := Option.map_eq_some_iff.mp hsome
            rw [if_neg hbyte, ih htail]
            rfl

/-- A reader that did not come to an end of the number goes on from there. -/
theorem decode_add_of_none {count : ℕ} {bytes : List UInt8} (hnone : decode count bytes = none)
    (hlength : count ≤ bytes.length) (more : ℕ) :
    decode (count + more) bytes =
      (decode more (bytes.drop count)).map fun result =>
        (low count bytes + 128 ^ count * result.1, result.2) := by
  induction count generalizing bytes with
  | zero => simp [low]
  | succ count ih =>
      cases bytes with
      | nil => exact absurd hlength (Nat.not_succ_le_zero _)
      | cons byte bytes =>
          rw [decode] at hnone
          split at hnone
          · cases hnone
          · rename_i hbyte
            have htail := Option.map_eq_none_iff.mp hnone
            rw [Nat.succ_add, decode, if_neg hbyte, ih htail (Nat.le_of_succ_le_succ hlength),
              Option.map_map, List.drop_succ_cons]
            refine congrArg (Option.map · _) (funext fun result => Prod.ext ?_ rfl)
            have hpow : 128 ^ (count + 1) = 128 * 128 ^ count := pow_succ' 128 count
            simp only [Function.comp_apply, low, hpow]
            ring

end Varint
