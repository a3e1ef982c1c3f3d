import FiraClient.Library.Turn
import Mathlib.Algebra.Order.Round

/-!
# Distances on a circle

The distance of an angle from the nearest whole turn, rounding to the nearest integer with ties to
the even one, and the representative of an angle such a rounding picks. A representative of at most
half a turn is worth the distance, whichever it is.
-/

namespace Turn

open AddCommGroup

variable {K : Type*} [Field K] [LinearOrder K] [IsStrictOrderedRing K] [FloorRing K]

/-! ### The distance -/

def circleDist (turn x : K) : K := |x - round (x / turn) * turn|

omit [IsStrictOrderedRing K] in
theorem exists_modEq_abs_eq_circleDist (turn x : K) :
    ∃ a, a ≡ x [PMOD turn] ∧ |a| = circleDist turn x := by
  refine ⟨x - round (x / turn) * turn, ?_, rfl⟩
  rw [modEq_iff_eq_add_zsmul]
  exact ⟨round (x / turn), by simp⟩

theorem circleDist_le_abs {turn a x : K} (hturn : 0 < turn) (hmod : a ≡ x [PMOD turn]) :
    circleDist turn x ≤ |a| := by
  obtain ⟨z, rfl⟩ := modEq_iff_eq_add_zsmul.mp hmod
  have hscale (n : ℤ) : |a + z • turn - n * turn| = |(a + z • turn) / turn - n| * turn := by
    rw [← abs_of_pos hturn, ← abs_mul, abs_of_pos hturn]
    congr 1
    field_simp
  have hround := round_le ((a + z • turn) / turn) z
  calc
    circleDist turn (a + z • turn) = |(a + z • turn) / turn - round ((a + z • turn) / turn)| * turn :=
      hscale _
    _ ≤ |(a + z • turn) / turn - z| * turn := mul_le_mul_of_nonneg_right hround hturn.le
    _ = |a + z • turn - z * turn| := (hscale z).symm
    _ = |a| := by simp

/-- The distance is the least magnitude a representative of the angle has. -/
theorem isLeast_circleDist {turn : K} (hturn : 0 < turn) (x : K) :
    IsLeast {d | ∃ a, a ≡ x [PMOD turn] ∧ |a| = d} (circleDist turn x) := by
  refine ⟨exists_modEq_abs_eq_circleDist turn x, ?_⟩
  rintro d ⟨a, hmod, rfl⟩
  exact circleDist_le_abs hturn hmod

theorem circleDist_congr {turn x y : K} (hturn : 0 < turn) (hmod : x ≡ y [PMOD turn]) :
    circleDist turn x = circleDist turn y := by
  have hrepresentatives : {d | ∃ a, a ≡ x [PMOD turn] ∧ |a| = d} =
      {d | ∃ a, a ≡ y [PMOD turn] ∧ |a| = d} := by
    ext d
    exact exists_congr fun a => and_congr_left' ⟨(·.trans hmod), (·.trans hmod.symm)⟩
  have hleast := isLeast_circleDist hturn x
  rw [hrepresentatives] at hleast
  exact hleast.unique (isLeast_circleDist hturn y)

theorem circleDist_neg {turn : K} (hturn : 0 < turn) (x : K) :
    circleDist turn (-x) = circleDist turn x := by
  have hle (x : K) : circleDist turn (-x) ≤ circleDist turn x := by
    obtain ⟨a, ha, habs⟩ := exists_modEq_abs_eq_circleDist turn x
    rw [← habs, ← abs_neg]
    exact circleDist_le_abs hturn (neg_modEq_neg.mpr ha)
  refine le_antisymm (hle x) ?_
  have hback := hle (-x)
  rwa [neg_neg] at hback

theorem circleDist_add_le {turn : K} (hturn : 0 < turn) (x y : K) :
    circleDist turn (x + y) ≤ circleDist turn x + circleDist turn y := by
  obtain ⟨a, ha, habs⟩ := exists_modEq_abs_eq_circleDist turn x
  obtain ⟨b, hb, hbbs⟩ := exists_modEq_abs_eq_circleDist turn y
  calc
    circleDist turn (x + y) ≤ |a + b| := circleDist_le_abs hturn (ha.add hb)
    _ ≤ |a| + |b| := abs_add_le a b
    _ = circleDist turn x + circleDist turn y := by rw [habs, hbbs]

section Half

variable {half : K} (hhalf : 0 < half)

include hhalf

theorem circleDist_le_half (x : K) : circleDist (2 * half) x ≤ half := by
  have hturn : 0 < 2 * half := by linarith
  have hround := abs_sub_round (x / (2 * half))
  have hscale : circleDist (2 * half) x =
      |x / (2 * half) - round (x / (2 * half))| * (2 * half) := by
    rw [circleDist, ← abs_of_pos hturn, ← abs_mul, abs_of_pos hturn]
    congr 1
    field_simp
  rw [hscale]
  calc
    |x / (2 * half) - round (x / (2 * half))| * (2 * half) ≤ 1 / 2 * (2 * half) :=
      mul_le_mul_of_nonneg_right hround hturn.le
    _ = half := by ring

/-- A representative of at most half a turn has the distance for its magnitude. -/
theorem circleDist_eq_abs {a x : K} (hmod : a ≡ x [PMOD 2 * half]) (ha : |a| ≤ half) :
    circleDist (2 * half) x = |a| := by
  obtain ⟨b, hb, hbbs⟩ := exists_modEq_abs_eq_circleDist (2 * half) x
  have hbHalf : |b| ≤ half := hbbs.trans_le (circleDist_le_half hhalf x)
  rw [← hbbs]
  exact abs_eq_of_modEq (hb.trans hmod.symm) hbHalf ha

theorem circleDist_add_half (x : K) :
    circleDist (2 * half) (x + half) = half - circleDist (2 * half) x := by
  obtain ⟨a, ha, habs⟩ := exists_modEq_abs_eq_circleDist (2 * half) x
  obtain ⟨b, hb, hbbs⟩ := exists_modEq_abs_eq_circleDist (2 * half) (x + half)
  have haHalf : |a| ≤ half := habs.trans_le (circleDist_le_half hhalf x)
  have hbHalf : |b| ≤ half := hbbs.trans_le (circleDist_le_half hhalf (x + half))
  rw [← habs, ← hbbs]
  exact abs_eq_half_sub_of_modEq_add_half (hb.trans (ha.symm.add_right half)) hbHalf haHalf

end Half

/-! ### Representatives of at most half a turn -/

omit [FloorRing K] in
theorem eq_or_abs_eq_half {half a b : K} (hmod : a ≡ b [PMOD 2 * half]) (ha : |a| ≤ half)
    (hb : |b| ≤ half) : a = b ∨ |a| = half ∧ |b| = half := by
  by_cases hclose : |b - a| < 2 * half
  · exact Or.inl (eq_of_modEq_of_abs_sub_lt hmod hclose)
  · have hsum : |b - a| ≤ |b| + |a| := abs_sub b a
    push Not at hclose
    exact Or.inr ⟨by linarith, by linarith⟩

omit [FloorRing K] in
theorem eq_of_modEq_of_abs_lt_half {half a b : K} (hmod : a ≡ b [PMOD 2 * half])
    (ha : |a| < half) (hb : |b| ≤ half) : a = b := by
  rcases eq_or_abs_eq_half hmod ha.le hb with heq | ⟨hend, -⟩
  · exact heq
  · exact absurd hend ha.ne

omit [FloorRing K] in
theorem abs_eq_half_iff {half a x : K} (hhalf : 0 < half) (hmod : a ≡ x [PMOD 2 * half])
    (ha : |a| ≤ half) : |a| = half ↔ ∃ k : ℤ, x = (2 * k + 1) * half := by
  obtain ⟨z, rfl⟩ := modEq_iff_eq_add_zsmul.mp hmod
  constructor
  · intro hend
    rcases (abs_eq hhalf.le).mp hend with rfl | rfl
    · exact ⟨z, by simp; ring⟩
    · exact ⟨z - 1, by simp; ring⟩
  · rintro ⟨k, hk⟩
    have hmodHalf : half ≡ a [PMOD 2 * half] := by
      rw [modEq_iff_eq_add_zsmul]
      refine ⟨k - z, ?_⟩
      rw [zsmul_eq_mul] at hk ⊢
      push_cast
      linarith
    have hself : |half| = half := abs_of_pos hhalf
    rw [← abs_eq_of_modEq hmodHalf hself.le ha, hself]

/-! ### Forward turns -/

/-- How far an angle is ahead: its representative in `[0, turn)`. -/
def forward (turn x : K) : K := Int.fract (x / turn) * turn

section Forward

variable {turn : K} (hturn : 0 < turn)

include hturn

theorem forward_nonneg (x : K) : 0 ≤ forward turn x :=
  mul_nonneg (Int.fract_nonneg _) hturn.le

theorem forward_lt (x : K) : forward turn x < turn :=
  mul_lt_of_lt_one_left hturn (Int.fract_lt_one _)

omit [IsStrictOrderedRing K] in
theorem forward_modEq (x : K) : forward turn x ≡ x [PMOD turn] := by
  rw [modEq_iff_eq_add_zsmul]
  refine ⟨⌊x / turn⌋, ?_⟩
  rw [forward, Int.fract, sub_mul, div_mul_cancel₀ x hturn.ne', zsmul_eq_mul]
  ring

theorem forward_eq {a x : K} (hmod : a ≡ x [PMOD turn]) (hnonneg : 0 ≤ a) (hlt : a < turn) :
    forward turn x = a := by
  have hlow := forward_nonneg hturn x
  have hhigh := forward_lt hturn x
  apply eq_of_modEq_of_abs_sub_lt ((forward_modEq hturn x).trans hmod.symm)
  rw [abs_lt]
  constructor <;> linarith

theorem forward_congr {x y : K} (hmod : x ≡ y [PMOD turn]) : forward turn x = forward turn y :=
  forward_eq hturn ((forward_modEq hturn y).trans hmod.symm) (forward_nonneg hturn y)
    (forward_lt hturn y)

end Forward

/-! ### Rounding with ties to even -/

def rint (x : K) : ℤ :=
  if x - ⌊x⌋ < ⌊x⌋ + 1 - x then ⌊x⌋
  else if ⌊x⌋ + 1 - x < x - ⌊x⌋ then ⌊x⌋ + 1
  else if Even ⌊x⌋ then ⌊x⌋
  else ⌊x⌋ + 1

theorem abs_sub_rint_le (x : K) : |x - rint x| ≤ 1 / 2 := by
  have hlow := Int.floor_le x
  have hhigh := Int.lt_floor_add_one x
  unfold rint
  split_ifs
  · rw [abs_le]
    constructor <;> linarith
  · push_cast
    rw [abs_le]
    constructor <;> linarith
  · rw [abs_le]
    constructor <;> linarith
  · push_cast
    rw [abs_le]
    constructor <;> linarith

/-- What is left of an angle when the nearest whole number of turns is taken off. -/
def nearest (turn x : K) : K := x - turn * rint (x / turn)

omit [IsStrictOrderedRing K] in
theorem nearest_modEq (turn x : K) : nearest turn x ≡ x [PMOD turn] := by
  rw [modEq_iff_eq_add_zsmul]
  exact ⟨rint (x / turn), by simp [nearest, mul_comm]⟩

theorem abs_nearest_le {half : K} (hhalf : 0 < half) (x : K) :
    |nearest (2 * half) x| ≤ half := by
  have hturn : 0 < 2 * half := by linarith
  have hscale : nearest (2 * half) x = (x / (2 * half) - rint (x / (2 * half))) * (2 * half) := by
    rw [nearest]
    field_simp
  rw [hscale, abs_mul, abs_of_pos hturn]
  calc
    |x / (2 * half) - rint (x / (2 * half))| * (2 * half) ≤ 1 / 2 * (2 * half) :=
      mul_le_mul_of_nonneg_right (abs_sub_rint_le _) hturn.le
    _ = half := by ring

end Turn
