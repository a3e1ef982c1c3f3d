import Mathlib.Data.Int.ModEq
import Mathlib.Tactic.Linarith

/-!
# Machine integers

Two's complement integer types of 32 bits or more, and their values. Nothing narrower than `int` is
here, so no operand is promoted. A conversion keeps the value modulo the number of values of the
type it goes to.
-/

structure IntType where
  signed : Bool
  bits : ℕ
  bits_ge : 32 ≤ bits
  deriving DecidableEq

namespace IntType

variable (type : IntType)

def min : ℤ := if type.signed then -2 ^ (type.bits - 1) else 0

def max : ℤ := type.min + 2 ^ type.bits - 1

def Represents (v : ℤ) : Prop := type.min ≤ v ∧ v ≤ type.max

instance : DecidablePred type.Represents := fun v =>
  inferInstanceAs (Decidable (type.min ≤ v ∧ v ≤ type.max))

/-- Reduction to the value that the type represents. -/
def convert (v : ℤ) : ℤ := type.min + (v - type.min) % 2 ^ type.bits

theorem represents_convert (v : ℤ) : type.Represents (type.convert v) := by
  have hnonneg : 0 ≤ (v - type.min) % 2 ^ type.bits := Int.emod_nonneg _ (by positivity)
  have hlt : (v - type.min) % 2 ^ type.bits < 2 ^ type.bits := Int.emod_lt_of_pos _ (by positivity)
  rw [Represents, convert, max]
  constructor <;> linarith

theorem pow_bits_ge : 2 ^ 32 ≤ (2 : ℤ) ^ type.bits :=
  pow_le_pow_right₀ (by decide) type.bits_ge

theorem pow_bits : (2 : ℤ) ^ type.bits = 2 * 2 ^ (type.bits - 1) := by
  have hbits := type.bits_ge
  rw [← pow_succ', Nat.sub_add_cancel (by omega)]

theorem min_nonpos : type.min ≤ 0 := by
  unfold min
  split_ifs
  · have hpow : (0 : ℤ) ≤ 2 ^ (type.bits - 1) := by positivity
    linarith
  · exact le_rfl

variable {type}

theorem convert_of_represents {v : ℤ} (hv : type.Represents v) : type.convert v = v := by
  obtain ⟨hmin, hmax⟩ := hv
  rw [max] at hmax
  rw [convert, Int.emod_eq_of_lt (by linarith) (by linarith), add_sub_cancel]

theorem convert_congr {u v : ℤ} (hmod : u ≡ v [ZMOD 2 ^ type.bits]) :
    type.convert u = type.convert v := by
  have hsub : (u - type.min) % 2 ^ type.bits = (v - type.min) % 2 ^ type.bits := hmod.sub_right _
  rw [convert, convert, hsub]

theorem represents_zero (type : IntType) : type.Represents 0 := by
  have hpow := type.pow_bits
  have hge := type.pow_bits_ge
  rw [Represents, max, min]
  split_ifs <;> constructor <;> linarith

theorem Represents.of_between {u v : ℤ} (hu : type.Represents u)
    (hbetween : 0 ≤ v ∧ v ≤ u ∨ u ≤ v ∧ v ≤ 0) : type.Represents v := by
  obtain ⟨hmin, hmax⟩ := hu
  obtain ⟨hmin_zero, hzero_max⟩ := type.represents_zero
  rcases hbetween with ⟨hnonneg, hle⟩ | ⟨hge, hnonpos⟩
  · exact ⟨hmin_zero.trans hnonneg, hle.trans hmax⟩
  · exact ⟨hmin.trans hge, hnonpos.trans hzero_max⟩

/-- What lies between two values of the type is one. -/
theorem Represents.of_mem {u v x : ℤ} (hu : type.Represents u) (hv : type.Represents v)
    (hlow : u ≤ x) (hhigh : x ≤ v) : type.Represents x :=
  ⟨hu.1.trans hlow, hhigh.trans hv.2⟩

/-- The type that the usual arithmetic conversions bring two operands to: the wider one, and of two
types of one width the unsigned one. -/
def common (first second : IntType) : IntType :=
  if first.bits < second.bits then second
  else if second.bits < first.bits then first
  else { first with signed := first.signed && second.signed }

/-- A value of both types is one of their common type. -/
theorem represents_common {first second : IntType} {v : ℤ} (hfirst : first.Represents v)
    (hsecond : second.Represents v) : (first.common second).Represents v := by
  unfold common
  split_ifs with hlt hgt
  · exact hsecond
  · exact hfirst
  · have hbits : first.bits = second.bits := by omega
    simp only [Represents, max, min, ← hbits] at hfirst hsecond ⊢
    cases hsigned : first.signed <;> cases hsigned' : second.signed <;>
      simp [hsigned, hsigned'] at hfirst hsecond ⊢ <;> omega

theorem tmod_nonpos {u : ℤ} (hu : u ≤ 0) (v : ℤ) : u.tmod v ≤ 0 := by
  have hrem := Int.tmod_nonneg v (neg_nonneg.mpr hu)
  rwa [Int.neg_tmod, neg_nonneg] at hrem

theorem Represents.tmod {u : ℤ} (hu : type.Represents u) (v : ℤ) : type.Represents (u.tmod v) := by
  have habs := Int.natAbs_tmod u v
  have hle := Nat.mod_le u.natAbs v.natAbs
  rcases le_total 0 u with hnonneg | hnonpos
  · have hrem := Int.tmod_nonneg v hnonneg
    exact hu.of_between (Or.inl ⟨hrem, by omega⟩)
  · have hrem := tmod_nonpos hnonpos v
    exact hu.of_between (Or.inr ⟨by omega, hrem⟩)

theorem Represents.tdiv {u v : ℤ} (hu : type.Represents u) (hv : 0 ≤ v) :
    type.Represents (u.tdiv v) := by
  have habs : (u.tdiv v).natAbs = u.natAbs / v.natAbs := Int.natAbs_tdiv u v
  have hle := Nat.div_le_self u.natAbs v.natAbs
  rcases le_total 0 u with hnonneg | hnonpos
  · have hquot := Int.tdiv_nonneg hnonneg hv
    exact hu.of_between (Or.inl ⟨hquot, by omega⟩)
  · have hquot := Int.tdiv_nonneg (neg_nonneg.mpr hnonpos) hv
    rw [Int.neg_tdiv] at hquot
    exact hu.of_between (Or.inr ⟨by omega, by omega⟩)

/-- The remainder has lost at least one divisor to the dividend. -/
theorem tmod_le_sub {x y : ℤ} (hy : 0 < y) (hle : y ≤ x) : x.tmod y ≤ x - y := by
  have hquot : 1 ≤ x / y := (Int.le_ediv_iff_mul_le hy).mpr (by linarith)
  have hdiv := Int.emod_add_mul_ediv x y
  rw [Int.tmod_eq_emod_of_nonneg (hy.le.trans hle)]
  nlinarith

/-! ### There and back through `int` -/

def int : IntType := ⟨true, 32, le_rfl⟩

def int64 : IntType := ⟨true, 64, by decide⟩

/-- What is left of a value of the type that was stored in an `int`. -/
def throughInt (type : IntType) (v : ℤ) : ℤ := type.convert (int.convert v)

/-- The values that an `int` gives back: its own, and those that its negative ones turn into. -/
def Kept (type : IntType) (v : ℤ) : Prop := int.Represents v ∨ int.Represents (v - 2 ^ type.bits)

theorem represents_int {v : ℤ} : int.Represents v ↔ -2 ^ 31 ≤ v ∧ v < 2 ^ 31 := by
  rw [Represents, max]
  exact and_congr_right fun _ => Int.le_sub_one_iff

theorem pow_int_dvd (type : IntType) : (2 : ℤ) ^ int.bits ∣ 2 ^ type.bits :=
  pow_dvd_pow 2 type.bits_ge

theorem kept_throughInt (type : IntType) (v : ℤ) : Kept type (throughInt type v) := by
  have hint := int.represents_convert v
  have hturn : int.convert v ≡ int.convert v + 2 ^ type.bits [ZMOD 2 ^ type.bits] :=
    Int.modEq_iff_dvd.mpr (by simp)
  obtain ⟨hlow, hhigh⟩ := represents_int.mp hint
  by_cases hrep : type.Represents (int.convert v)
  · rw [throughInt, convert_of_represents hrep]
    exact Or.inl hint
  · have hrep' : type.Represents (int.convert v + 2 ^ type.bits) := by
      have hpow := type.pow_bits
      have hge := type.pow_bits_ge
      rw [Represents, max, min] at hrep ⊢
      split_ifs at hrep ⊢
      · exact absurd ⟨by linarith, by linarith⟩ hrep
      · have hneg : int.convert v < 0 := by
          by_contra hnonneg
          exact hrep ⟨not_lt.mp hnonneg, by linarith⟩
        constructor <;> linarith
    rw [throughInt, convert_congr hturn, convert_of_represents hrep']
    exact Or.inr (by rwa [add_sub_cancel_right])

theorem throughInt_eq_iff {v : ℤ} (hv : type.Represents v) :
    throughInt type v = v ↔ Kept type v := by
  constructor
  · intro heq
    rw [← heq]
    exact kept_throughInt type v
  · have hturn : v - 2 ^ type.bits ≡ v [ZMOD 2 ^ type.bits] := Int.modEq_iff_dvd.mpr (by simp)
    rintro (hint | hint)
    · rw [throughInt, convert_of_represents hint, convert_of_represents hv]
    · rw [throughInt, convert_congr (hturn.symm.of_dvd type.pow_int_dvd), convert_of_represents hint,
        convert_congr hturn, convert_of_represents hv]

/-- A type as wide as `int` loses nothing in one. -/
theorem kept_of_bits_eq {v : ℤ} (hbits : type.bits = 32) (hv : type.Represents v) :
    Kept type v := by
  obtain ⟨hmin, hmax⟩ := hv
  rw [max, hbits] at hmax
  rw [Kept, represents_int, represents_int, hbits]
  rw [min, hbits] at hmin hmax
  split_ifs at hmin hmax <;> omega

/-- Division by a value of `int` leaves one. -/
theorem represents_int_tmod {x y : ℤ} (hy : int.Represents y) (hne : y ≠ 0) :
    int.Represents (x.tmod y) := by
  have habs := Int.natAbs_tmod x y
  have hlt := Nat.mod_lt x.natAbs (Int.natAbs_pos.mpr hne)
  rw [represents_int] at hy ⊢
  omega

/-- The values beyond `int` that it gives back are the last ones of an unsigned type, so what they
leave of a value that is not less is small. -/
theorem represents_int_tmod_of_le {x y : ℤ} (hx : type.Represents x)
    (hy : int.Represents (y - 2 ^ type.bits)) (hle : y ≤ x) : int.Represents (x.tmod y) := by
  obtain ⟨hlow, hhigh⟩ := represents_int.mp hy
  have hmax := hx.2
  have hmin := type.min_nonpos
  have hge := type.pow_bits_ge
  rw [max] at hmax
  have hpos : 0 < y := by linarith
  have hsub := tmod_le_sub hpos hle
  have hnonneg : 0 ≤ x.tmod y := Int.tmod_nonneg y (hpos.le.trans hle)
  rw [represents_int]
  constructor <;> linarith

theorem nonneg_of_represents {x y : ℤ} (hx : type.Represents x) (hy : type.Represents y)
    (hint : int.Represents (y - 2 ^ type.bits)) : 0 ≤ x := by
  obtain ⟨hlow, hhigh⟩ := represents_int.mp hint
  have hpow := type.pow_bits
  have hge := type.pow_bits_ge
  have hmax := hy.2
  have hmin := hx.1
  rw [max, min] at hmax
  rw [min] at hmin
  split_ifs at hmax hmin
  · linarith
  · exact hmin

/-- What keeps the remainders of a run of divisions intact. -/
theorem Kept.tmod {x y : ℤ} (hkept : Kept type y) (hx : type.Represents x)
    (hy : type.Represents y) (hne : y ≠ 0) (hcase : Kept type x ∨ y ≤ x) :
    Kept type (x.tmod y) := by
  rcases hkept with hint | hint
  · exact Or.inl (represents_int_tmod hint hne)
  · rcases le_or_gt y x with hle | hlt
    · exact Or.inl (represents_int_tmod_of_le hx hint hle)
    · rw [Int.tmod_eq_of_lt (nonneg_of_represents hx hy hint) hlt]
      exact hcase.resolve_right (not_le.mpr hlt)

end IntType

/-- A value of the type. -/
@[ext]
structure MachineInt (type : IntType) where
  val : ℤ
  represents : type.Represents val
  deriving DecidableEq

namespace MachineInt

variable {type : IntType}

def ofInt (v : ℤ) : MachineInt type := ⟨type.convert v, type.represents_convert v⟩

/-- What an operation yields whose exact result is `v`: signed overflow has no result. -/
def checked (v : ℤ) : Option (MachineInt type) :=
  if type.signed ∧ ¬type.Represents v then none else some (ofInt v)

theorem checked_of_represents {v : ℤ} (hv : type.Represents v) :
    checked v = some (⟨v, hv⟩ : MachineInt type) := by
  rw [checked, if_neg (fun h => h.2 hv), ofInt]
  simp only [IntType.convert_of_represents hv]

theorem checked_eq_none_iff {v : ℤ} (hsigned : type.signed) :
    (checked v : Option (MachineInt type)) = none ↔ ¬type.Represents v := by
  simp [checked, hsigned]

end MachineInt
