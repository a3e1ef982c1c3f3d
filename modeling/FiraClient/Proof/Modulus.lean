import FiraClient.Util.Divisor

/-!
# `mod` of machine integers

Adding the divisor makes the remainder of a negative dividend positive, and every other one larger:
the sum can be close to twice the divisor, more than the type holds.
-/

namespace FiraClient

open IntType

/-- `r` is `x mod m`. -/
structure IsModulus (x m r : ℤ) : Prop where
  nonneg : 0 ≤ r
  lt : r < m
  modEq : r ≡ x [ZMOD m]

theorem isModulus_tmod (x : ℤ) {m : ℤ} (hm : 0 < m) :
    IsModulus x m ((x.tmod m + m).tmod m) := by
  have hlow : -m < x.tmod m := Int.lt_tmod_of_pos x hm
  have hrest : x.tmod m ≡ x [ZMOD m] := Int.modEq_iff_dvd.mpr Int.dvd_self_sub_tmod
  have hmoved : x.tmod m + m ≡ x.tmod m [ZMOD m] := Int.modEq_iff_dvd.mpr (by simp)
  have hlast : (x.tmod m + m).tmod m ≡ x.tmod m + m [ZMOD m] :=
    Int.modEq_iff_dvd.mpr Int.dvd_self_sub_tmod
  exact ⟨Int.tmod_nonneg m (by linarith), Int.tmod_lt_of_pos _ hm, hlast.trans (hmoved.trans hrest)⟩

theorem tmod_add_le_iff {x m limit : ℤ} (hm : 0 < m) (hx : x ≤ limit) (hlimit : m ≤ limit) :
    x.tmod m + m ≤ limit ↔ m ≤ x ∨ x + m ≤ limit := by
  rcases le_or_gt m x with hle | hlt
  · have hsub := tmod_le_sub hm hle
    exact iff_of_true (by linarith) (Or.inl hle)
  · rw [or_iff_right (not_le.mpr hlt)]
    rcases le_or_gt 0 x with hnonneg | hneg
    · rw [Int.tmod_eq_of_lt hnonneg hlt]
    · have hrest := tmod_nonpos hneg.le m
      exact iff_of_true (by linarith) (by linarith)

section MachineMod

variable {type : IntType} {x m : MachineInt type}

theorem remainder_of_pos (hm : 0 < m.val) :
    remainder x m = some ⟨x.val.tmod m.val, x.represents.tmod m.val⟩ := by
  have hguard : m.val ≠ 0 := hm.ne'
  change (do
    guard (m.val ≠ 0)
    let _ : MachineInt type ← MachineInt.checked (x.val.tdiv m.val)
    MachineInt.checked (x.val.tmod m.val)) = _
  rw [MachineInt.checked_of_represents (x.represents.tdiv hm.le),
    MachineInt.checked_of_represents (x.represents.tmod m.val), guard, if_pos hguard]
  rfl

/-- The inner sum is all that can go wrong. -/
theorem mod_eq_sum (hm : 0 < m.val) :
    mod x m = (MachineInt.checked (x.val.tmod m.val + m.val)).bind (remainder · m) := by
  rw [mod, remainder_of_pos hm]
  rfl

theorem mod_of_represents (hm : 0 < m.val) (hsum : type.Represents (x.val.tmod m.val + m.val)) :
    mod x m = some ⟨(x.val.tmod m.val + m.val).tmod m.val, hsum.tmod m.val⟩ := by
  rw [mod_eq_sum hm, MachineInt.checked_of_represents hsum, Option.bind_some, remainder_of_pos hm]

theorem mod_of_not_represents (hsigned : type.signed) (hm : 0 < m.val)
    (hsum : ¬type.Represents (x.val.tmod m.val + m.val)) : mod x m = none := by
  rw [mod_eq_sum hm, (MachineInt.checked_eq_none_iff hsigned).mpr hsum, Option.bind_none]

theorem represents_sum_iff (hm : 0 < m.val) :
    type.Represents (x.val.tmod m.val + m.val) ↔ m.val ≤ x.val ∨ x.val + m.val ≤ type.max := by
  have hlow : -m.val < x.val.tmod m.val := Int.lt_tmod_of_pos x.val hm
  have hmin := type.min_nonpos
  rw [← tmod_add_le_iff hm x.represents.2 m.represents.2]
  exact and_iff_right (by linarith)

/-- **`mod` is a modulus exactly where its sum fits**: for a dividend of at least the divisor, or one
that leaves room for it. -/
theorem mod_right_iff (hsigned : type.signed) (hm : 0 < m.val) :
    (∃ r, mod x m = some r ∧ IsModulus x.val m.val r.val) ↔
      m.val ≤ x.val ∨ x.val + m.val ≤ type.max := by
  rw [← represents_sum_iff hm]
  constructor
  · rintro ⟨r, hr, -⟩
    by_contra hsum
    rw [mod_of_not_represents hsigned hm hsum] at hr
    cases hr
  · intro hsum
    exact ⟨_, mod_of_represents hm hsum, isModulus_tmod x.val hm⟩

end MachineMod

theorem mod_right_seven :
    ∃ r, mod (⟨-3, by decide⟩ : MachineInt int) ⟨7, by decide⟩ = some r ∧
      IsModulus (-3) 7 r.val :=
  (mod_right_iff rfl (by decide)).mpr (Or.inr (by decide))

/-- The remainder is the dividend itself, and the sum `2 ^ 32 - 3`. -/
theorem mod_overflows :
    mod (⟨2 ^ 31 - 2, by decide⟩ : MachineInt int) ⟨2 ^ 31 - 1, by decide⟩ = none :=
  mod_of_not_represents rfl (by decide) (by decide)

end FiraClient
