import Mathlib.Algebra.Group.ModEq
import Mathlib.Algebra.Order.Floor.Ring
import Mathlib.Tactic.FieldSimp
import Mathlib.Tactic.Linarith
import Mathlib.Tactic.Ring

/-!
# Angles up to whole turns

Exact arithmetic of angles over an ordered field with a floor: the truncated remainder, the single
corrective turn, and what a representative of an angle in `[-half, half]` is worth. Congruence
modulo a turn is Mathlib's `a ≡ b [PMOD p]`.
-/

namespace Turn

open AddCommGroup

variable {K : Type*} [Field K] [LinearOrder K] [IsStrictOrderedRing K] [FloorRing K]

def trunc (x : K) : ℤ := if 0 ≤ x then ⌊x⌋ else ⌈x⌉

/-- The remainder of the division truncated towards zero, so that it has the sign of `x`. -/
def fmod (x y : K) : K := x - trunc (x / y) * y

omit [IsStrictOrderedRing K] in
theorem fmod_modEq (x y : K) : fmod x y ≡ x [PMOD y] := by
  rw [modEq_iff_eq_add_zsmul]
  refine ⟨trunc (x / y), ?_⟩
  simp [fmod]

theorem fmod_nonneg {x y : K} (hx : 0 ≤ x) (hy : 0 < y) : 0 ≤ fmod x y := by
  have hfloor : (⌊x / y⌋ : K) ≤ x / y := Int.floor_le _
  rw [fmod, trunc, if_pos (div_nonneg hx hy.le), sub_nonneg]
  exact (le_div_iff₀ hy).mp hfloor

theorem fmod_lt {x y : K} (hx : 0 ≤ x) (hy : 0 < y) : fmod x y < y := by
  have hfloor : x / y < ⌊x / y⌋ + 1 := Int.lt_floor_add_one _
  have hmul : x < (⌊x / y⌋ + 1) * y := (div_lt_iff₀ hy).mp hfloor
  rw [fmod, trunc, if_pos (div_nonneg hx hy.le)]
  linarith

theorem fmod_of_nonneg {x y : K} (hx : 0 ≤ x) (hy : 0 < y) :
    fmod x y = Int.fract (x / y) * y := by
  rw [fmod, trunc, if_pos (div_nonneg hx hy.le), Int.fract, sub_mul, div_mul_cancel₀ x hy.ne']

theorem trunc_neg (x : K) : trunc (-x) = -trunc x := by
  rcases lt_trichotomy x 0 with hneg | rfl | hpos
  · rw [trunc, trunc, if_pos (by linarith), if_neg (by linarith), Int.floor_neg]
  · simp [trunc]
  · rw [trunc, trunc, if_neg (by linarith), if_pos hpos.le, Int.ceil_neg]

theorem fmod_neg (x y : K) : fmod (-x) y = -fmod x y := by
  rw [fmod, fmod, neg_div, trunc_neg]
  push_cast
  ring

theorem abs_fmod_lt (x : K) {y : K} (hy : 0 < y) : |fmod x y| < y := by
  rcases le_total 0 x with hx | hx
  · rw [abs_of_nonneg (fmod_nonneg hx hy)]
    exact fmod_lt hx hy
  · have hneg : 0 ≤ -x := by linarith
    rw [← abs_neg, ← fmod_neg, abs_of_nonneg (fmod_nonneg hneg hy)]
    exact fmod_lt hneg hy

theorem fmod_of_abs_lt {x y : K} (hxy : |x| < y) : fmod x y = x := by
  have hy : 0 < y := lt_of_le_of_lt (abs_nonneg x) hxy
  have hself {x : K} (hx : 0 ≤ x) (hlt : x < y) : fmod x y = x := by
    have hfract : Int.fract (x / y) = x / y :=
      Int.fract_eq_self.mpr ⟨div_nonneg hx hy.le, (div_lt_one hy).mpr hlt⟩
    rw [fmod_of_nonneg hx hy, hfract, div_mul_cancel₀ x hy.ne']
  obtain ⟨hlow, hhigh⟩ := abs_lt.mp hxy
  rcases le_total 0 x with hx | hx
  · exact hself hx hhigh
  · have hneg : fmod (-x) y = -x := hself (by linarith) (by linarith)
    rwa [fmod_neg, neg_inj] at hneg

/-- One corrective turn: what brings an angle that is less than three half turns away back into
`[-half, half]`. -/
def wrapOnce (half angle : K) : K :=
  if angle > half then angle - 2 * half
  else if angle < -half then angle + 2 * half
  else angle

omit [IsStrictOrderedRing K] [FloorRing K] in
theorem wrapOnce_modEq (half angle : K) : wrapOnce half angle ≡ angle [PMOD 2 * half] := by
  rw [modEq_iff_eq_add_zsmul]
  unfold wrapOnce
  split_ifs
  · exact ⟨1, by simp⟩
  · exact ⟨-1, by simp⟩
  · exact ⟨0, by simp⟩

omit [FloorRing K] in
theorem abs_wrapOnce_le {half angle : K} (hangle : |angle| ≤ 3 * half) :
    |wrapOnce half angle| ≤ half := by
  obtain ⟨hlow, hhigh⟩ := abs_le.mp hangle
  unfold wrapOnce
  split_ifs with hgt hlt
  · rw [abs_le]
    constructor <;> linarith
  · rw [abs_le]
    constructor <;> linarith
  · rw [abs_le]
    constructor <;> linarith

omit [FloorRing K] in
theorem abs_wrapOnce_le_iff {half angle : K} (hhalf : 0 < half) :
    |wrapOnce half angle| ≤ half ↔ |angle| ≤ 3 * half := by
  refine ⟨fun hle => ?_, abs_wrapOnce_le⟩
  obtain ⟨hlow, hhigh⟩ := abs_le.mp hle
  unfold wrapOnce at hlow hhigh
  rw [abs_le]
  split_ifs at hlow hhigh
  · constructor <;> linarith
  · constructor <;> linarith
  · constructor <;> linarith

omit [FloorRing K] in
theorem wrapOnce_of_abs_le {half angle : K} (hangle : |angle| ≤ half) :
    wrapOnce half angle = angle := by
  obtain ⟨hlow, hhigh⟩ := abs_le.mp hangle
  rw [wrapOnce, if_neg (not_lt.mpr hhigh), if_neg (not_lt.mpr hlow)]

omit [FloorRing K] in
theorem wrapOnce_neg {half : K} (hhalf : 0 < half) (angle : K) :
    wrapOnce half (-angle) = -wrapOnce half angle := by
  unfold wrapOnce
  split_ifs
  · linarith
  · ring
  · linarith
  · ring
  · linarith
  · linarith
  · linarith
  · linarith
  · rfl

omit [FloorRing K] in
theorem eq_of_modEq_of_abs_sub_lt {turn a b : K} (hmod : a ≡ b [PMOD turn])
    (hclose : |b - a| < turn) : a = b := by
  obtain ⟨z, rfl⟩ := modEq_iff_eq_add_zsmul.mp hmod
  have hturn : 0 < turn := lt_of_le_of_lt (abs_nonneg _) hclose
  have hz : z = 0 := by
    rw [add_sub_cancel_left, zsmul_eq_mul, abs_mul, abs_of_pos hturn] at hclose
    have hlt : |(z : K)| < 1 := by
      by_contra hge
      push Not at hge
      exact absurd hclose (not_lt.mpr (le_mul_of_one_le_left hturn.le hge))
    rw [← Int.cast_abs] at hlt
    exact Int.abs_lt_one_iff.mp (by exact_mod_cast hlt)
  simp [hz]

omit [FloorRing K] in
/-- The representatives of an angle in `[-half, half]` have one magnitude: they are the same, or
they are the two ends. -/
theorem abs_eq_of_modEq {half a b : K} (hmod : a ≡ b [PMOD 2 * half])
    (ha : |a| ≤ half) (hb : |b| ≤ half) : |a| = |b| := by
  by_cases hclose : |b - a| < 2 * half
  · rw [eq_of_modEq_of_abs_sub_lt hmod hclose]
  · have hsum : |b - a| ≤ |b| + |a| := abs_sub b a
    push Not at hclose
    linarith

omit [FloorRing K] in
theorem abs_eq_half_sub_of_modEq_add_half {half a b : K} (hmod : a ≡ b + half [PMOD 2 * half])
    (ha : |a| ≤ half) (hb : |b| ≤ half) : |a| = half - |b| := by
  have hhalf : 0 ≤ half := le_trans (abs_nonneg _) ha
  obtain ⟨hlow, hhigh⟩ := abs_le.mp hb
  rcases le_total 0 b with hnonneg | hnonpos
  · have hback : b + half ≡ b - half [PMOD 2 * half] := by
      rw [modEq_iff_eq_add_zsmul]
      exact ⟨-1, by simp; ring⟩
    have habs : |b - half| = half - b := by
      rw [abs_of_nonpos (by linarith)]
      ring
    calc
      |a| = |b - half| := abs_eq_of_modEq (hmod.trans hback) ha (by rw [habs]; linarith)
      _ = half - b := habs
      _ = half - |b| := by rw [abs_of_nonneg hnonneg]
  · have habs : |b + half| = half + b := by
      rw [abs_of_nonneg (by linarith)]
      ring
    calc
      |a| = |b + half| := abs_eq_of_modEq hmod ha (by rw [habs]; linarith)
      _ = half + b := habs
      _ = half - |b| := by rw [abs_of_nonpos hnonpos, sub_neg_eq_add]

end Turn
