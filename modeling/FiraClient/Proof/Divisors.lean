import FiraClient.Util.Divisor
import Mathlib.Algebra.Ring.Int.Units
import Mathlib.RingTheory.Coprime.Lemmas

/-!
# What `lcm` computes

The loop of `gcd` is Euclid's. `lcm` divides both arguments by the greatest common divisor where it
should divide one of them, so it is right for coprime arguments and for no others.
-/

namespace FiraClient

/-- How many divisions the loop makes. -/
def divisions (x y : ℕ) : ℕ :=
  if h : y = 0 then 0 else divisions y (x % y) + 1
termination_by y
decreasing_by exact Nat.mod_lt x (Nat.pos_of_ne_zero h)

theorem units_mul_tmod (s t : ℤˣ) (x y : ℕ) :
    (s * x : ℤ).tmod (t * y) = s * ((x % y : ℕ) : ℤ) := by
  have hrem : (x : ℤ).tmod y = ((x % y : ℕ) : ℤ) := (Int.ofNat_tmod x y).symm
  rcases Int.units_eq_one_or s with rfl | rfl <;> rcases Int.units_eq_one_or t with rfl | rfl <;>
    simp [hrem]

/-- The arguments' signs change places at each division, and the result has the first one's. -/
theorem gcd_signed {fuel x y : ℕ} (s t : ℤˣ) (hfuel : y < fuel) :
    gcd fuel (s * x : ℤ) (t * y) =
      some ((if Even (divisions x y) then s else t) * (Nat.gcd x y : ℤ)) := by
  induction fuel generalizing x y s t with
  | zero => cases hfuel
  | succ fuel ih =>
      rw [gcd, divisions]
      by_cases hy : y = 0
      · subst hy
        simp
      · have hne : (t * y : ℤ) ≠ 0 := mul_ne_zero t.ne_zero (Int.natCast_ne_zero.mpr hy)
        have hdescends : x % y < fuel := by
          have hlt := Nat.mod_lt x (Nat.pos_of_ne_zero hy)
          omega
        have hrem : viaInt (rem (s * x : ℤ) (t * y)) = s * ((x % y : ℕ) : ℤ) :=
          units_mul_tmod s t x y
        have hgcd : Nat.gcd y (x % y) = Nat.gcd x y := by
          rw [Nat.gcd_comm y, ← Nat.gcd_rec, Nat.gcd_comm]
        rw [if_pos hne, hrem, ih t s hdescends, hgcd, dif_neg hy]
        simp only [Nat.even_add_one, ite_not]

theorem gcd_exact {fuel x y : ℕ} (hfuel : y < fuel) :
    gcd fuel (x : ℤ) (y : ℤ) = some (Nat.gcd x y : ℤ) := by
  simpa using gcd_signed 1 1 hfuel

theorem gcd_returns (x y : ℕ) : Returns (gcd · (x : ℤ) (y : ℤ)) (Nat.gcd x y : ℤ) :=
  ⟨y + 1, fun _ hfuel => gcd_exact hfuel⟩

theorem lcm_returns (x y : ℕ) :
    Returns (lcm · (x : ℤ) (y : ℤ)) (((x / Nat.gcd x y) * (y / Nat.gcd x y) : ℕ) : ℤ) := by
  refine ⟨y + 1, fun fuel hfuel => ?_⟩
  have hgcd : gcd fuel (x : ℤ) (y : ℤ) = some (Nat.gcd x y : ℤ) := gcd_exact hfuel
  simp only [lcm, hgcd, Option.bind_eq_bind, Option.bind_some, Option.pure_def]
  push_cast
  rfl

/-- The product of the two quotients is short of a factor. -/
theorem div_mul_div_mul_gcd_iff {x y : ℕ} (hx : 0 < x) (hy : 0 < y) :
    x / Nat.gcd x y * (y / Nat.gcd x y) * Nat.gcd x y = x * y ↔ Nat.gcd x y = 1 := by
  have hright : y / Nat.gcd x y * Nat.gcd x y = y := Nat.div_mul_cancel (Nat.gcd_dvd_right x y)
  rw [mul_assoc, hright, Nat.mul_left_inj hy.ne', Nat.div_eq_self]
  exact or_iff_right hx.ne'

/-- `r` is a least common multiple, and goes with the greatest common divisor `d`. -/
structure LeastCommonMultiple (x y d r : ℤ) : Prop where
  dvd_left : x ∣ r
  dvd_right : y ∣ r
  dvd_common : ∀ m, x ∣ m → y ∣ m → r ∣ m
  mul_gcd : r * d = x * y

/-- **`lcm` is the least common multiple exactly of coprime arguments.** -/
theorem lcm_least_iff_coprime {x y : ℤ} (hx : 0 < x) (hy : 0 < y) :
    ∃ d r, Returns (gcd · x y) d ∧ Returns (lcm · x y) r ∧
      (LeastCommonMultiple x y d r ↔ IsCoprime x y) := by
  obtain ⟨x, rfl⟩ := Int.eq_ofNat_of_zero_le hx.le
  obtain ⟨y, rfl⟩ := Int.eq_ofNat_of_zero_le hy.le
  have hproduct := div_mul_div_mul_gcd_iff (Int.natCast_pos.mp hx) (Int.natCast_pos.mp hy)
  refine ⟨_, _, gcd_returns x y, lcm_returns x y, ?_⟩
  rw [Nat.isCoprime_iff_coprime, Nat.Coprime]
  constructor
  · intro hlcm
    exact hproduct.mp (by exact_mod_cast hlcm.mul_gcd)
  · intro hone
    have hcoprime : IsCoprime (x : ℤ) (y : ℤ) := Nat.isCoprime_iff_coprime.mpr hone
    rw [hone, Nat.div_one, Nat.div_one, Nat.cast_mul]
    exact ⟨dvd_mul_right _ _, dvd_mul_left _ _, fun m hxm hym => hcoprime.mul_dvd hxm hym, by simp⟩

theorem lcm_least_of_coprime :
    ∃ d r, Returns (gcd · 4 9) d ∧ Returns (lcm · 4 9) r ∧ LeastCommonMultiple 4 9 d r := by
  have hcoprime : IsCoprime (4 : ℤ) 9 := ⟨-2, 1, by decide⟩
  obtain ⟨d, r, hgcd, hlcm, hiff⟩ :=
    lcm_least_iff_coprime (show (0 : ℤ) < 4 by decide) (show (0 : ℤ) < 9 by decide)
  exact ⟨d, r, hgcd, hlcm, hiff.mpr hcoprime⟩

/-- The result for 4 and 6 is 6, no multiple of 4. -/
theorem lcm_not_least :
    Returns (gcd · (4 : ℤ) 6) 2 ∧ Returns (lcm · (4 : ℤ) 6) 6 ∧ ¬LeastCommonMultiple 4 6 2 6 := by
  refine ⟨gcd_returns 4 6, lcm_returns 4 6, fun hlcm => ?_⟩
  exact absurd hlcm.dvd_left (by decide)

end FiraClient
