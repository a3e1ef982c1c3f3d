import FiraClient.Proof.Front
import FiraClient.Util.Angle

/-!
# The two families of angle functions

`main.cpp` reduces an angle by a truncated remainder and one corrective turn, `util.h` by rounding to
the nearest turn. Both leave a representative of at most half a turn wherever one correction is
enough, and two of those are the same angle or the two ends of the range.
-/

namespace FiraClient

open AddCommGroup Turn

theorem angleMod_modEq (angle : ℚ) : angleMod angle ≡ angle [PMOD 2 * mPi] :=
  nearest_modEq (2 * mPi) angle

theorem abs_angleMod_le (angle : ℚ) : |angleMod angle| ≤ mPi := abs_nearest_le mPi_pos angle

/-! ### The normalizers -/

theorem to180range_of_abs_le {angle : ℚ} (hangle : |angle| ≤ mPi) : to180range angle = angle := by
  have hpos := mPi_pos
  have hfmod : Turn.fmod angle (2 * mPi) = angle := fmod_of_abs_lt (by linarith)
  rw [to180range_eq, hfmod, wrapOnce_of_abs_le hangle]

theorem to180range_neg (angle : ℚ) : to180range (-angle) = -to180range angle := by
  rw [to180range_eq, to180range_eq, fmod_neg, wrapOnce_neg mPi_pos]

/-- An odd multiple of `π`, where the two ends of the range are one angle. -/
def OddHalfTurns (angle : ℚ) : Prop := ∃ k : ℤ, angle = (2 * k + 1) * mPi

theorem abs_eq_mPi_iff {representative angle : ℚ}
    (hmod : representative ≡ angle [PMOD 2 * mPi]) (hle : |representative| ≤ mPi) :
    |representative| = mPi ↔ OddHalfTurns angle :=
  abs_eq_half_iff mPi_pos hmod hle

/-- **The normalizers agree**: `to180range` gives the representative of an angle in `[-π, π]`, fixes
it, is odd, and differs from `angle_mod` at most in the sign of a half turn. -/
theorem to180range_agrees (angle : ℚ) :
    |to180range angle| ≤ mPi ∧
      to180range angle ≡ angle [PMOD 2 * mPi] ∧
      to180range (to180range angle) = to180range angle ∧
      to180range (-angle) = -to180range angle ∧
      (¬OddHalfTurns angle → to180range angle = angleMod angle) ∧
      (OddHalfTurns angle → |to180range angle| = mPi ∧ |angleMod angle| = mPi) := by
  have hmod := to180range_modEq angle
  have hle := abs_to180range_le angle
  refine ⟨hle, hmod, to180range_of_abs_le hle, to180range_neg angle, fun hodd => ?_, fun hodd => ?_⟩
  · have hend : |to180range angle| ≠ mPi := fun hend => hodd ((abs_eq_mPi_iff hmod hle).mp hend)
    exact eq_of_modEq_of_abs_lt_half (hmod.trans (angleMod_modEq angle).symm)
      (lt_of_le_of_ne hle hend) (abs_angleMod_le angle)
  · exact ⟨(abs_eq_mPi_iff hmod hle).mpr hodd,
      (abs_eq_mPi_iff (angleMod_modEq angle) (abs_angleMod_le angle)).mpr hodd⟩

/-! ### The differences -/

/-- What is asked of `smallestAngleDiff` for two angles. -/
structure DiffAgrees (target source : ℚ) : Prop where
  abs_le : |smallestAngleDiff target source| ≤ mPi
  modEq : smallestAngleDiff target source ≡ target - source [PMOD 2 * mPi]
  agrees : smallestAngleDiff target source = angleDiff target source ∨
    |smallestAngleDiff target source| = mPi ∧ |angleDiff target source| = mPi

theorem diffAgrees_iff_abs_le (target source : ℚ) :
    DiffAgrees target source ↔ |smallestAngleDiff target source| ≤ mPi := by
  refine ⟨DiffAgrees.abs_le, fun hle => ?_⟩
  have hmod := smallestAngleDiff_modEq target source
  have hdiff : angleDiff target source ≡ target - source [PMOD 2 * mPi] := nearest_modEq _ _
  exact ⟨hle, hmod, eq_or_abs_eq_half (hmod.trans hdiff.symm) hle (abs_nearest_le mPi_pos _)⟩

/-- One angle not more than a turn below zero and one further down: their remainders have opposite
signs, and one corrective turn is enough for what they add up to. -/
def OneCorrection (above below : ℚ) : Prop :=
  -(2 * mPi) ≤ above → below < -(2 * mPi) →
    Int.fract (above / (2 * mPi)) + Int.fract (-below / (2 * mPi)) ≤ 3 / 2

theorem fmod_add_turn_of_le {angle : ℚ} (hle : -(2 * mPi) ≤ angle) :
    Turn.fmod (angle + 2 * mPi) (2 * mPi) = forward (2 * mPi) angle := by
  have hturn := two_mPi_pos
  rw [forward, fmod_of_nonneg (by linarith) hturn, add_div, div_self hturn.ne', Int.fract_add_one]

theorem fmod_add_turn_of_lt {angle : ℚ} (hlt : angle < -(2 * mPi)) :
    Turn.fmod (angle + 2 * mPi) (2 * mPi) = -forward (2 * mPi) (-angle) := by
  have hturn := two_mPi_pos
  have hneg : -(angle + 2 * mPi) = -angle - 2 * mPi := by ring
  have hflip := fmod_neg (-(angle + 2 * mPi)) (2 * mPi)
  rw [neg_neg] at hflip
  rw [hflip, fmod_of_nonneg (by linarith) hturn, hneg, sub_div, div_self hturn.ne',
    Int.fract_sub_one, forward]

/-- Remainders of opposite signs are apart by the sum of their magnitudes. -/
theorem abs_fmod_sub_le_iff {above below : ℚ} (habove : -(2 * mPi) ≤ above)
    (hbelow : below < -(2 * mPi)) :
    |Turn.fmod (above + 2 * mPi) (2 * mPi) - Turn.fmod (below + 2 * mPi) (2 * mPi)| ≤ 3 * mPi ↔
      Int.fract (above / (2 * mPi)) + Int.fract (-below / (2 * mPi)) ≤ 3 / 2 := by
  have hnonneg : 0 ≤ Int.fract (above / (2 * mPi)) + Int.fract (-below / (2 * mPi)) :=
    add_nonneg (Int.fract_nonneg _) (Int.fract_nonneg _)
  have hbound : 3 * mPi = 3 / 2 * (2 * mPi) := by ring
  rw [fmod_add_turn_of_le habove, fmod_add_turn_of_lt hbelow, forward, forward, sub_neg_eq_add,
    ← add_mul, abs_of_nonneg (mul_nonneg hnonneg two_mPi_pos.le), hbound]
  exact mul_le_mul_iff_left₀ two_mPi_pos

theorem oneCorrection_of_le {above below : ℚ} (hbelow : -(2 * mPi) ≤ below) :
    OneCorrection above below :=
  fun _ hlt => absurd hbelow (not_le.mpr hlt)

theorem oneCorrection_of_lt {above below : ℚ} (habove : above < -(2 * mPi)) :
    OneCorrection above below :=
  fun hle _ => absurd hle (not_le.mpr habove)

/-- **The differences agree exactly when** one corrective turn is enough. -/
theorem angle_differences_agree_iff (target source : ℚ) :
    DiffAgrees target source ↔ OneCorrection target source ∧ OneCorrection source target := by
  have hpos := mPi_pos
  rw [diffAgrees_iff_abs_le, smallestAngleDiff_eq, abs_wrapOnce_le_iff hpos]
  -- the remainder has the sign of the angle after the added turn
  rcases le_or_gt (-(2 * mPi)) target with htarget | htarget <;>
    rcases le_or_gt (-(2 * mPi)) source with hsource | hsource
  · refine iff_of_true ?_ ⟨oneCorrection_of_le hsource, oneCorrection_of_le htarget⟩
    have ht := forward_nonneg two_mPi_pos target
    have ht' := forward_lt two_mPi_pos target
    have hs := forward_nonneg two_mPi_pos source
    have hs' := forward_lt two_mPi_pos source
    rw [fmod_add_turn_of_le htarget, fmod_add_turn_of_le hsource, abs_le]
    constructor <;> linarith
  · rw [abs_fmod_sub_le_iff htarget hsource, and_iff_left (oneCorrection_of_lt hsource)]
    exact ⟨fun hle _ _ => hle, fun hone => hone htarget hsource⟩
  · rw [abs_sub_comm, abs_fmod_sub_le_iff hsource htarget,
      and_iff_right (oneCorrection_of_lt htarget)]
    exact ⟨fun hle _ _ => hle, fun hone => hone hsource htarget⟩
  · refine iff_of_true ?_ ⟨oneCorrection_of_lt htarget, oneCorrection_of_lt hsource⟩
    have ht := forward_nonneg two_mPi_pos (-target)
    have ht' := forward_lt two_mPi_pos (-target)
    have hs := forward_nonneg two_mPi_pos (-source)
    have hs' := forward_lt two_mPi_pos (-source)
    rw [fmod_add_turn_of_lt htarget, fmod_add_turn_of_lt hsource, abs_le]
    constructor <;> linarith

/-- Almost a turn ahead of zero and almost two turns behind it: one correction leaves more than half
a turn. -/
theorem angle_differences_disagree : ¬DiffAgrees 6 (-12) := by
  intro hagrees
  have hle := hagrees.abs_le
  revert hle
  decide +kernel

end FiraClient
