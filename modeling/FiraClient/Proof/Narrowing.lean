import FiraClient.Proof.Divisors

/-!
# `gcd` of machine integers

The loop stores each remainder in an `int`. From the second pass on that changes nothing, since the
divisor has been through an `int` itself, so the first remainder decides whether the result is right.
-/

namespace FiraClient

open IntType

theorem gcd_of_nonneg {fuel : ℕ} {x y : ℤ} (hx : 0 ≤ x) (hfuel : y.natAbs < fuel) :
    gcd fuel x y =
      some ((if 0 ≤ y ∨ Even (divisions x.natAbs y.natAbs) then 1 else -1) * (Int.gcd x y : ℤ)) := by
  obtain ⟨x, rfl⟩ := Int.eq_ofNat_of_zero_le hx
  rcases le_or_gt 0 y with hy | hy
  · obtain ⟨y, rfl⟩ := Int.eq_ofNat_of_zero_le hy
    rw [if_pos (Or.inl hy), one_mul]
    exact gcd_exact hfuel
  · obtain ⟨y, rfl⟩ := Int.exists_eq_neg_ofNat hy.le
    rw [Int.natAbs_neg, Int.natAbs_natCast] at hfuel
    have hsigned := gcd_signed (x := x) 1 (-1) hfuel
    simp only [Units.val_one, Units.val_neg, one_mul, neg_one_mul] at hsigned
    rw [hsigned, Int.gcd_neg, Int.gcd_natCast_natCast, Int.natAbs_neg, Int.natAbs_natCast,
      Int.natAbs_natCast]
    simp only [not_le.mpr hy, false_or]
    split_ifs <;> rfl

section MachineGcd

variable {type : IntType}

theorem exists_returns {call : ℕ → Option (MachineInt type)} {enough : ℕ} {v : ℤ}
    (hcall : ∀ fuel, enough ≤ fuel → (call fuel).map MachineInt.val = some v) :
    ∃ r, Returns call r ∧ r.val = v := by
  obtain ⟨r, hr, hv⟩ := Option.map_eq_some_iff.mp (hcall enough le_rfl)
  refine ⟨r, ⟨enough, fun fuel hfuel => ?_⟩, hv⟩
  obtain ⟨r', hr', hv'⟩ := Option.map_eq_some_iff.mp (hcall fuel hfuel)
  rw [hr', MachineInt.ext (hv'.trans hv.symm)]

theorem val_viaInt_rem (x y : MachineInt type) :
    (viaInt (rem x y)).val = throughInt type (x.val.tmod y.val) := by
  have hrem : type.convert (x.val.tmod y.val) = x.val.tmod y.val :=
    convert_of_represents (x.represents.tmod y.val)
  change type.convert (int.convert (type.convert (x.val.tmod y.val))) = _
  rw [hrem, throughInt]

theorem val_ne_zero {y : MachineInt type} (hy : y ≠ 0) : y.val ≠ 0 :=
  fun hzero => hy (MachineInt.ext hzero)

theorem gcd_returns_of_zero (x : MachineInt type) {y : MachineInt type} (hy : y = 0) :
    Returns (gcd · x y) x := by
  refine ⟨1, fun fuel hfuel => ?_⟩
  obtain ⟨fuel, rfl⟩ := Nat.exists_eq_add_of_le' hfuel
  change gcd (fuel + 1) x y = some x
  rw [gcd, if_neg (not_not.mpr hy)]

theorem gcd_returns_of_rem {x y r : MachineInt type} (hy : y ≠ 0)
    (hr : Returns (gcd · y (viaInt (rem x y))) r) : Returns (gcd · x y) r := by
  obtain ⟨enough, hr⟩ := hr
  refine ⟨enough + 1, fun fuel hfuel => ?_⟩
  obtain ⟨fuel, rfl⟩ := Nat.exists_eq_add_of_le' hfuel
  change gcd (fuel + enough + 1) x y = some r
  rw [gcd, if_pos hy]
  exact hr (fuel + enough) (Nat.le_add_left _ _)

/-- The loop over the exact integers, as long as its remainders survive. -/
theorem gcd_map_val {fuel : ℕ} {x y : MachineInt type} (hy : Kept type y.val)
    (hcase : Kept type x.val ∨ y.val ≤ x.val) :
    (gcd fuel x y).map MachineInt.val = gcd fuel x.val y.val := by
  induction fuel generalizing x y with
  | zero => rfl
  | succ fuel ih =>
      by_cases hzero : y = 0
      · have hval : y.val = 0 := congrArg MachineInt.val hzero
        rw [gcd, gcd, if_neg (not_not.mpr hzero), if_neg (not_not.mpr hval), Option.map_some]
      · have hne := val_ne_zero hzero
        have hkept := hy.tmod x.represents y.represents hne hcase
        have hrem : (viaInt (rem x y)).val = x.val.tmod y.val := by
          rw [val_viaInt_rem, (throughInt_eq_iff (x.represents.tmod y.val)).mpr hkept]
        rw [gcd, gcd, if_pos hzero, if_pos hne, ih (by rwa [hrem]) (Or.inl hy), hrem]
        rfl

/-- The greatest common divisor, up to a sign that only a negative `y` can bring in. -/
theorem gcd_returns_of_kept {x y : MachineInt type} (hx : 0 ≤ x.val) (hy : Kept type y.val)
    (hcase : Kept type x.val ∨ y.val ≤ x.val) :
    ∃ r, Returns (gcd · x y) r ∧ r.val =
      (if 0 ≤ y.val ∨ Even (divisions x.val.natAbs y.val.natAbs) then 1 else -1) *
        (Int.gcd x.val y.val : ℤ) := by
  refine exists_returns fun fuel (hfuel : y.val.natAbs + 1 ≤ fuel) => ?_
  rw [gcd_map_val hy hcase, gcd_of_nonneg hx hfuel]

/-- What an `int` makes of the remainder has the same divisors in common with `y` as the remainder,
and if it is negative, the divisions that follow end on `y`'s sign. -/
def Coincides (type : IntType) (x y : ℤ) : Prop :=
  let rest := x % y
  let w := throughInt type rest
  if y < w then Int.gcd w (throughInt type y) = Int.gcd y rest
  else Int.gcd y w = Int.gcd y rest ∧ (0 ≤ w ∨ Even (divisions y.natAbs w.natAbs))

theorem gcd_rest (x y : ℤ) : Int.gcd y (x % y) = Int.gcd x y := by
  rw [Int.gcd_comm, Int.gcd_emod]

theorem coincides_of_kept {x y : ℤ} (hrep : type.Represents (x % y)) (hy : 0 < y)
    (hkept : Kept type (x % y)) : Coincides type x y := by
  have hlt : x % y < y := Int.emod_lt_of_pos x hy
  rw [Coincides, (throughInt_eq_iff hrep).mpr hkept]
  simp only [not_lt.mpr hlt.le, if_false, true_and]
  exact Or.inl (Int.emod_nonneg x hy.ne')

theorem val_viaInt_rem_of_nonneg {x y : MachineInt type} (hx : 0 ≤ x.val) :
    (viaInt (rem x y)).val = throughInt type (x.val % y.val) := by
  rw [val_viaInt_rem, Int.tmod_eq_emod_of_nonneg hx]

theorem kept_viaInt_rem (x y : MachineInt type) : Kept type (viaInt (rem x y)).val := by
  rw [val_viaInt_rem]
  exact kept_throughInt type _

theorem ne_zero_of_pos {y : MachineInt type} (hy : 0 < y.val) : y ≠ 0 := by
  rintro rfl
  exact absurd hy (lt_irrefl 0)

theorem represents_rest (x : MachineInt type) {y : MachineInt type} (hy : 0 < y.val) :
    type.Represents (x.val % y.val) :=
  y.represents.of_between
    (Or.inl ⟨Int.emod_nonneg _ hy.ne', (Int.emod_lt_of_pos _ hy).le⟩)

/-- Where an `int` makes the remainder larger than the divisor, the type is unsigned. -/
theorem represents_int_of_lt {x y : MachineInt type} (hx : 0 ≤ x.val) (hy : 0 < y.val)
    (hlt : y.val < (viaInt (rem x y)).val) :
    int.Represents ((viaInt (rem x y)).val - 2 ^ type.bits) := by
  refine (kept_viaInt_rem x y).resolve_left fun hint => ?_
  have hrem_nonneg : 0 ≤ x.val % y.val := Int.emod_nonneg _ hy.ne'
  have hrem_lt : x.val % y.val < y.val := Int.emod_lt_of_pos _ hy
  have hrem_int : int.Represents (x.val % y.val) :=
    hint.of_between (Or.inl ⟨hrem_nonneg, (hrem_lt.trans hlt).le⟩)
  rw [val_viaInt_rem_of_nonneg hx,
    (throughInt_eq_iff (represents_rest x hy)).mpr (Or.inl hrem_int)] at hlt
  exact lt_asymm hlt hrem_lt

/-- A remainder larger than the divisor is the dividend of the next division but one, and the divisor
goes through an `int` itself. -/
theorem gcd_returns_of_lt {x y : MachineInt type} (hx : 0 ≤ x.val) (hy : 0 < y.val)
    (hlt : y.val < throughInt type (x.val % y.val)) :
    ∃ r, Returns (gcd · x y) r ∧
      r.val = Int.gcd (throughInt type (x.val % y.val)) (throughInt type y.val) := by
  have hw : (viaInt (rem x y)).val = throughInt type (x.val % y.val) := val_viaInt_rem_of_nonneg hx
  rw [← hw] at hlt ⊢
  set w : MachineInt type := viaInt (rem x y)
  have hw' : (viaInt (rem y w)).val = throughInt type y.val := by
    rw [val_viaInt_rem, Int.tmod_eq_of_lt hy.le hlt]
  have hnonneg : 0 ≤ (viaInt (rem y w)).val :=
    nonneg_of_represents (viaInt (rem y w)).represents w.represents (represents_int_of_lt hx hy hlt)
  obtain ⟨r, hr, hval⟩ := gcd_returns_of_kept (x := w) (hy.trans hlt).le (kept_viaInt_rem y w)
    (Or.inl (kept_viaInt_rem x y))
  refine ⟨r, ?_, ?_⟩
  · exact gcd_returns_of_rem (ne_zero_of_pos hy)
      (gcd_returns_of_rem (ne_zero_of_pos (hy.trans hlt)) hr)
  · rw [hval, if_pos (Or.inl hnonneg), one_mul, hw']

theorem gcd_returns_of_le {x y : MachineInt type} (hx : 0 ≤ x.val) (hy : 0 < y.val)
    (hle : throughInt type (x.val % y.val) ≤ y.val) :
    ∃ r, Returns (gcd · x y) r ∧ r.val =
      (if 0 ≤ throughInt type (x.val % y.val) ∨
        Even (divisions y.val.natAbs (throughInt type (x.val % y.val)).natAbs) then 1 else -1) *
        (Int.gcd y.val (throughInt type (x.val % y.val)) : ℤ) := by
  have hw : (viaInt (rem x y)).val = throughInt type (x.val % y.val) := val_viaInt_rem_of_nonneg hx
  rw [← hw] at hle ⊢
  obtain ⟨r, hr, hval⟩ := gcd_returns_of_kept hy.le (kept_viaInt_rem x y) (Or.inr hle)
  exact ⟨r, gcd_returns_of_rem (ne_zero_of_pos hy) hr, hval⟩

theorem sign_mul_eq_iff {condition : Prop} [Decidable condition] {d e : ℕ} (hd : 0 < d) :
    (if condition then 1 else -1) * (d : ℤ) = e ↔ d = e ∧ condition := by
  split_ifs with h
  · simp [h]
  · simp only [h, and_false, iff_false]
    omega

theorem gcd_right_iff_coincides {x y : MachineInt type} (hx : 0 ≤ x.val) (hy : 0 < y.val) :
    ∃ r, Returns (gcd · x y) r ∧
      (r.val = Int.gcd x.val y.val ↔ Coincides type x.val y.val) := by
  rcases lt_or_ge y.val (throughInt type (x.val % y.val)) with hlt | hle
  · obtain ⟨r, hr, hval⟩ := gcd_returns_of_lt hx hy hlt
    refine ⟨r, hr, ?_⟩
    simp only [hval, Coincides, gcd_rest, hlt, if_true, Nat.cast_inj]
  · obtain ⟨r, hr, hval⟩ := gcd_returns_of_le hx hy hle
    have hpos := Int.gcd_pos_of_ne_zero_left (throughInt type (x.val % y.val)) hy.ne'
    refine ⟨r, hr, ?_⟩
    rw [hval, sign_mul_eq_iff hpos]
    simp only [Coincides, gcd_rest, not_lt.mpr hle, if_false]

/-- **`gcd` is right where** there is no remainder to take, or the first one survives the `int`. -/
theorem gcd_right_of_kept {x y : MachineInt type} (hx : 0 ≤ x.val) (hy : 0 ≤ y.val)
    (hkept : y.val = 0 ∨ Kept type (x.val % y.val)) :
    ∃ r, Returns (gcd · x y) r ∧ r.val = Int.gcd x.val y.val := by
  rcases hy.eq_or_lt' with hzero | hpos
  · refine ⟨x, gcd_returns_of_zero x (MachineInt.ext hzero), ?_⟩
    simp [hzero, abs_of_nonneg hx]
  · obtain ⟨r, hr, hiff⟩ := gcd_right_iff_coincides hx hpos
    have hkept' := hkept.resolve_left hpos.ne'
    exact ⟨r, hr, hiff.mpr (coincides_of_kept (represents_rest x hpos) hpos hkept')⟩

/-- A type as wide as `int` comes to no harm. -/
theorem gcd_right_of_bits_eq {x y : MachineInt type} (hbits : type.bits = 32) (hx : 0 ≤ x.val)
    (hy : 0 ≤ y.val) : ∃ r, Returns (gcd · x y) r ∧ r.val = Int.gcd x.val y.val := by
  refine gcd_right_of_kept hx hy (hy.eq_or_lt'.imp id fun hpos => ?_)
  exact kept_of_bits_eq hbits (represents_rest x hpos)

/-- **`gcd` is right exactly when** the first remainder survives, or another one in its place happens
to give the same. -/
theorem gcd_right_iff {x y : MachineInt type} (hx : 0 ≤ x.val) (hy : 0 ≤ y.val) :
    ∃ r, Returns (gcd · x y) r ∧ (r.val = Int.gcd x.val y.val ↔
      y.val = 0 ∨ Kept type (x.val % y.val) ∨ Coincides type x.val y.val) := by
  rcases hy.eq_or_lt' with hzero | hpos
  · refine ⟨x, gcd_returns_of_zero x (MachineInt.ext hzero), ?_⟩
    simp [hzero, abs_of_nonneg hx]
  · obtain ⟨r, hr, hiff⟩ := gcd_right_iff_coincides hx hpos
    refine ⟨r, hr, hiff.trans ?_⟩
    rw [or_iff_right hpos.ne']
    exact (or_iff_right_of_imp (coincides_of_kept (represents_rest x hpos) hpos)).symm

end MachineGcd

theorem gcd_right_forty_two :
    ∃ r, Returns (gcd · (⟨84, by decide⟩ : MachineInt int64) ⟨126, by decide⟩) r ∧ r.val = 42 := by
  have hkept : Kept int64 (84 % 126) := Or.inl (by decide)
  obtain ⟨r, hr, hiff⟩ := gcd_right_iff (x := (⟨84, by decide⟩ : MachineInt int64))
    (y := ⟨126, by decide⟩) (by decide) (by decide)
  exact ⟨r, hr, hiff.mpr (Or.inr (Or.inl hkept))⟩

/-- The remainder `2 ^ 32` is stored as 0, which ends the loop. -/
theorem gcd_not_right :
    Returns (gcd · (⟨2 ^ 32, by decide⟩ : MachineInt int64) ⟨2 ^ 33, by decide⟩)
        ⟨2 ^ 33, by decide⟩ ∧
      (2 ^ 33 : ℤ) ≠ Int.gcd (2 ^ 32) (2 ^ 33) := by
  refine ⟨gcd_returns_of_rem (by decide) (gcd_returns_of_zero _ (by decide)), by decide⟩

end FiraClient
