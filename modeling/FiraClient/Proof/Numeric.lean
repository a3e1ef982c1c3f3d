import FiraClient.Double
import FiraClient.Util.Numeric
import Mathlib.Data.List.Induction
import Mathlib.Order.WithBot

/-!
# Selecting and counting

What the loops over an array select when some of its elements are unordered, as NaN is; what a run
of the counter does to every count at once; which numbers have one bit set.
-/

namespace FiraClient

/-! ### One bit -/

theorem not_and_eq_right_iff {w : ℕ} (mask n : BitVec w) :
    ~~~mask &&& n = n ↔ mask &&& n = 0#w := by
  simp only [BitVec.eq_of_getElem_eq_iff, BitVec.getElem_and, BitVec.getElem_not,
    BitVec.getElem_zero]
  refine forall₂_congr fun i hi => ?_
  cases mask[i] <;> cases n[i] <;> decide

/-- **One bit.** Exactly the powers of two pass the test, at every width. -/
theorem oneBitSet_iff {w : ℕ} (n : BitVec w) : oneBitSet n = true ↔ n.toNat.isPowerOfTwo := by
  have hneg : -n = ~~~(n - 1#w) := by
    rw [BitVec.neg_eq_not_add, BitVec.not_sub_eq_not_add]
  have hzero : n ≠ 0 ↔ n.toNat ≠ 0 := not_congr BitVec.toNat_eq
  rw [oneBitSet, Bool.and_eq_true, bne_iff_ne, beq_iff_eq, hneg, not_and_eq_right_iff, hzero,
    ← Nat.ne_zero_and_sub_one_eq_zero_iff_isPowerOfTwo]
  refine and_congr_right fun hne => ?_
  have hone : (1#w).toNat = 1 := by
    have hlt := n.isLt
    rw [BitVec.toNat_ofNat, Nat.mod_eq_of_lt (by omega)]
  have hle : 1#w ≤ n := by
    rw [BitVec.le_def, hone]
    omega
  have hpred : (n - 1#w).toNat = n.toNat - 1 := by
    rw [BitVec.toNat_sub_of_le hle, hone]
  rw [BitVec.toNat_eq, BitVec.toNat_and, hpred, Nat.and_comm]
  rfl

/-! ### Selecting -/

section Selecting

variable {α L : Type} [LinearOrder L] {better : α → α → Prop}

/-- The index stands at the first of the greatest elements that have a value, of those up to the
last one seen. -/
structure Best (value : α → Option L) (arr : ℕ → α) (last mi : ℕ) (best : L) : Prop where
  value_eq : value (arr mi) = some best
  le_last : mi ≤ last
  le_best : ∀ i ≤ last, ∀ x, value (arr i) = some x → x ≤ best
  lt_best : ∀ i < mi, ∀ x, value (arr i) = some x → x < best

/-- What the loop looks for: an element without a value is better than none, and none than it. -/
def ComparesBy (better : α → α → Prop) (value : α → Option L) : Prop :=
  ∀ a b, better a b ↔ ∃ x y, value a = some x ∧ value b = some y ∧ y < x

variable {value : α → Option L} {arr : ℕ → α}

theorem Best.next [DecidableRel better] (hcompares : ComparesBy better value) {last mi : ℕ}
    {best : L} (hbest : Best value arr last mi best) :
    ∃ next, Best value arr (last + 1)
      (if better (arr (last + 1)) (arr mi) then last + 1 else mi) next := by
  have hle := hbest.le_last
  split
  · rename_i hbetter
    obtain ⟨x, y, hx, hy, hlt⟩ := (hcompares _ _).mp hbetter
    obtain rfl : best = y := Option.some.inj (hbest.value_eq.symm.trans hy)
    refine ⟨x, hx, le_rfl, ?_, ?_⟩
    · intro i hi z hz
      rcases Nat.lt_or_eq_of_le hi with hearlier | rfl
      · exact (hbest.le_best i (by omega) z hz).trans hlt.le
      · exact (Option.some.inj (hz.symm.trans hx)).le
    · intro i hi z hz
      exact (hbest.le_best i (by omega) z hz).trans_lt hlt
  · rename_i hnot
    refine ⟨best, hbest.value_eq, by omega, ?_, hbest.lt_best⟩
    intro i hi z hz
    rcases Nat.lt_or_eq_of_le hi with hearlier | rfl
    · exact hbest.le_best i (by omega) z hz
    · by_contra hgreater
      exact hnot ((hcompares _ _).mpr ⟨z, best, hz, hbest.value_eq, not_le.mp hgreater⟩)

theorem bestIdx_first [DecidableRel better] (hcompares : ComparesBy better value)
    (hnone : value (arr 0) = none) (num : ℤ) : bestIdx better arr num = 0 := by
  unfold bestIdx
  induction (num - 1).toNat with
  | zero => rfl
  | succ k ih =>
      rw [List.range'_concat, List.foldl_append, ih]
      refine if_neg fun hbetter => ?_
      obtain ⟨x, y, -, hy, -⟩ := (hcompares _ _).mp hbetter
      rw [hnone] at hy
      cases hy

theorem bestIdx_best [DecidableRel better] (hcompares : ComparesBy better value) {first : L}
    (hfirst : value (arr 0) = some first) (num : ℤ) :
    ∃ best, Best value arr (num - 1).toNat (bestIdx better arr num) best := by
  unfold bestIdx
  induction (num - 1).toNat with
  | zero =>
      refine ⟨first, hfirst, le_rfl, ?_, nofun⟩
      intro i hi z hz
      rw [Nat.le_zero.mp hi, hfirst] at hz
      exact (Option.some.inj hz).ge
  | succ k ih =>
      obtain ⟨best, hbest⟩ := ih
      have hnext := hbest.next hcompares
      rwa [List.range'_concat, List.foldl_append, Nat.one_mul, Nat.add_comm 1 k]

/-- The same in the terms of the loop. -/
theorem bestIdx_spec [DecidableRel better] (hcompares : ComparesBy better value)
    (hfirst : value (arr 0) ≠ none) (num : ℤ) :
    value (arr (bestIdx better arr num)) ≠ none ∧
      ((bestIdx better arr num : ℤ) < num ∨ bestIdx better arr num = 0) ∧
      ∀ i : ℕ, (i : ℤ) < num → ¬better (arr i) (arr (bestIdx better arr num)) ∧
        (i < bestIdx better arr num → value (arr i) ≠ none →
          better (arr (bestIdx better arr num)) (arr i)) := by
  obtain ⟨first, hfirst⟩ := Option.ne_none_iff_exists'.mp hfirst
  obtain ⟨best, hbest⟩ := bestIdx_best hcompares hfirst num
  have hle := hbest.le_last
  refine ⟨?_, by omega, fun i hi => ⟨fun hbetter => ?_, fun hearlier hsome => ?_⟩⟩
  · rw [hbest.value_eq]
    exact Option.some_ne_none best
  · obtain ⟨x, y, hx, hy, hlt⟩ := (hcompares _ _).mp hbetter
    obtain rfl : best = y := Option.some.inj (hbest.value_eq.symm.trans hy)
    exact (hbest.le_best i (by omega) x hx).not_gt hlt
  · obtain ⟨x, hx⟩ := Option.ne_none_iff_exists'.mp hsome
    exact (hcompares _ _).mpr ⟨best, x, hbest.value_eq, hx, hbest.lt_best i hearlier x hx⟩

end Selecting

/-- Where a double stands among the others. -/
def Extended.rank : Double → Option (WithBot (WithTop ℚ))
  | .nan => none
  | .inf negative => some (if negative then ⊥ else ((⊤ : WithTop ℚ) : WithBot (WithTop ℚ)))
  | .finite x => some ((x : WithTop ℚ) : WithBot (WithTop ℚ))

theorem Extended.rank_ne_none_iff (a : Double) : Extended.rank a ≠ none ↔ a ≠ .nan := by
  cases a <;> simp [Extended.rank]

theorem comparesBy_gt : ComparesBy (fun a b : Double => a > b) Extended.rank := by
  intro a b
  change Extended.lt b a = true ↔ _
  rcases a with _ | ⟨_ | _⟩ | x <;> rcases b with _ | ⟨_ | _⟩ | y <;>
    simp [Extended.lt, Extended.rank]
  exact WithBot.coe_lt_coe.mpr (WithTop.coe_lt_top y)

/-- The other way round, for what is less. -/
def Extended.rankDown (a : Double) : Option (WithBot (WithTop ℚ))ᵒᵈ :=
  (Extended.rank a).map OrderDual.toDual

theorem Extended.rankDown_ne_none_iff (a : Double) : Extended.rankDown a ≠ none ↔ a ≠ .nan := by
  rw [Extended.rankDown, ne_eq, Option.map_eq_none_iff]
  exact Extended.rank_ne_none_iff a

theorem comparesBy_lt : ComparesBy (fun a b : Double => a < b) Extended.rankDown := by
  intro a b
  have hcompares := comparesBy_gt b a
  simp only [Extended.rankDown, Option.map_eq_some_iff]
  constructor
  · intro hlt
    obtain ⟨x, y, hx, hy, hxy⟩ := hcompares.mp hlt
    exact ⟨_, _, ⟨y, hy, rfl⟩, ⟨x, hx, rfl⟩, hxy⟩
  · rintro ⟨_, _, ⟨y, hy, rfl⟩, ⟨x, hx, rfl⟩, hxy⟩
    exact hcompares.mpr ⟨x, y, hx, hy, hxy⟩

/-- **Selecting doubles.** A NaN in front stays selected. Otherwise no double is greater than the one
`max_idx` selects, or less than the one `min_idx` does, NaNs are passed over, and among equals the
first is taken. -/
theorem doubles_selected (arr : ℕ → Double) (num : ℤ) :
    (arr 0 = .nan → maxIdx arr num = 0 ∧ minIdx arr num = 0) ∧
      (arr 0 ≠ .nan →
        (arr (maxIdx arr num) ≠ .nan ∧ ((maxIdx arr num : ℤ) < num ∨ maxIdx arr num = 0) ∧
          ∀ i : ℕ, (i : ℤ) < num → ¬arr i > arr (maxIdx arr num) ∧
            (i < maxIdx arr num → arr i ≠ .nan → arr (maxIdx arr num) > arr i)) ∧
        arr (minIdx arr num) ≠ .nan ∧ ((minIdx arr num : ℤ) < num ∨ minIdx arr num = 0) ∧
          ∀ i : ℕ, (i : ℤ) < num → ¬arr i < arr (minIdx arr num) ∧
            (i < minIdx arr num → arr i ≠ .nan → arr (minIdx arr num) < arr i)) := by
  constructor
  · intro hnan
    have hnone : Extended.rank (arr 0) = none := by rw [hnan]; rfl
    have hnoneDown : Extended.rankDown (arr 0) = none := by rw [hnan]; rfl
    exact ⟨bestIdx_first comparesBy_gt hnone num, bestIdx_first comparesBy_lt hnoneDown num⟩
  · intro hfirst
    have hgreatest := bestIdx_spec comparesBy_gt ((Extended.rank_ne_none_iff _).mpr hfirst) num
    have hleast := bestIdx_spec comparesBy_lt ((Extended.rankDown_ne_none_iff _).mpr hfirst) num
    simp only [Extended.rank_ne_none_iff] at hgreatest
    simp only [Extended.rankDown_ne_none_iff] at hleast
    exact ⟨hgreatest, hleast⟩

/-! ### Counting -/

section Counting

/-- The count over the integers, where nothing is converted. -/
def satCount (min max cnt : ℤ) (val : Bool) : ℤ :=
  if val then if cnt < max then cnt + 1 else max
  else if cnt > min then cnt - 1 else min

/-- Up or down by one, and then into the range. -/
def clippedCount (min max cnt : ℤ) (val : Bool) : ℤ :=
  bound (cnt + if val then 1 else -1) min max

/-- How far the values move a count that nothing bounds. -/
def drift (vals : List Bool) : ℤ := vals.count true - vals.count false

section Machine

variable {num num2 : IntType} {min max : MachineInt num2}

/-- The arithmetic of the types is exact on counts that the common type has. -/
theorem boolSatCount_exact (hmin : num.Represents min.val) (hmax : num.Represents max.val)
    {cnt : MachineInt num} (hcnt : (num.common num2).Represents cnt.val) (val : Bool) :
    ∃ next, boolSatCount cnt min max val = some next ∧
      next.val = satCount min.val max.val cnt.val val ∧
      (num.common num2).Represents next.val := by
  have hminCommon := IntType.represents_common hmin min.represents
  have hmaxCommon := IntType.represents_common hmax max.represents
  unfold boolSatCount satCount
  simp only [IntType.convert_of_represents hcnt, IntType.convert_of_represents hminCommon,
    IntType.convert_of_represents hmaxCommon]
  split_ifs with hval hlt hgt
  · have hsum : num.Represents (cnt.val + 1) := cnt.represents.of_mem hmax (by omega) (by omega)
    have hsumCommon := hcnt.of_mem hmaxCommon (x := cnt.val + 1) (by omega) (by omega)
    rw [MachineInt.checked_of_represents hsum, Option.map_some]
    refine ⟨_, rfl, ?_, ?_⟩ <;>
      simp only [MachineInt.ofInt, IntType.convert_of_represents hsumCommon,
        IntType.convert_of_represents hsum, hsumCommon]
  · refine ⟨_, rfl, ?_, ?_⟩ <;>
      simp only [MachineInt.ofInt, IntType.convert_of_represents hmax, hmaxCommon]
  · have hdiff : num.Represents (cnt.val - 1) := hmin.of_mem cnt.represents (by omega) (by omega)
    have hdiffCommon := hminCommon.of_mem hcnt (x := cnt.val - 1) (by omega) (by omega)
    rw [MachineInt.checked_of_represents hdiff, Option.map_some]
    refine ⟨_, rfl, ?_, ?_⟩ <;>
      simp only [MachineInt.ofInt, IntType.convert_of_represents hdiffCommon,
        IntType.convert_of_represents hdiff, hdiffCommon]
  · refine ⟨_, rfl, ?_, ?_⟩ <;>
      simp only [MachineInt.ofInt, IntType.convert_of_represents hmin, hminCommon]

theorem satCounter_exact (hmin : num.Represents min.val) (hmax : num.Represents max.val)
    {cnt : MachineInt num} (hcnt : (num.common num2).Represents cnt.val) (vals : List Bool) :
    ∃ result, satCounter cnt min max vals = some result ∧
      result.val = vals.foldl (satCount min.val max.val) cnt.val := by
  induction vals generalizing cnt with
  | nil => exact ⟨cnt, rfl, rfl⟩
  | cons val vals ih =>
      obtain ⟨next, hnext, hval, hrepresents⟩ := boolSatCount_exact hmin hmax hcnt val
      obtain ⟨result, hresult, hfold⟩ := ih hrepresents
      refine ⟨result, ?_, ?_⟩
      · rw [satCounter, hnext]
        exact hresult
      · rw [hfold, hval, List.foldl_cons]

end Machine

variable {min max : ℤ}

/-- Moving and bounding again is moving once, between the two bounds moved. -/
theorem bound_bound {low high : ℤ} (hrange : min ≤ max) (hle : low ≤ high) (x step : ℤ) :
    bound (bound x low high + step) min max =
      bound (x + step) (bound (low + step) min max) (bound (high + step) min max) := by
  unfold bound
  grind

theorem bound_mem (hrange : min ≤ max) (x : ℤ) : min ≤ bound x min max ∧ bound x min max ≤ max := by
  unfold bound
  grind

theorem bound_of_mem {x : ℤ} (hmin : min ≤ x) (hmax : x ≤ max) : bound x min max = x := by
  unfold bound
  grind

theorem bound_mono (hrange : min ≤ max) {x y : ℤ} (hxy : x ≤ y) :
    bound x min max ≤ bound y min max := by
  unfold bound
  grind

/-- Within the range the count is the clipped one. -/
theorem satCount_eq {cnt : ℤ} (val : Bool) (hmin : min ≤ cnt) (hmax : cnt ≤ max) :
    satCount min max cnt val = clippedCount min max cnt val := by
  unfold satCount clippedCount bound
  cases val <;> simp <;> grind

theorem foldl_satCount (hrange : min ≤ max) (vals : List Bool) {cnt : ℤ} (hmin : min ≤ cnt)
    (hmax : cnt ≤ max) :
    vals.foldl (satCount min max) cnt = vals.foldl (clippedCount min max) cnt := by
  induction vals generalizing cnt with
  | nil => rfl
  | cons val vals ih =>
      obtain ⟨hlow, hhigh⟩ := bound_mem hrange (cnt + if val then 1 else -1)
      rw [List.foldl_cons, List.foldl_cons, satCount_eq val hmin hmax]
      exact ih hlow hhigh

/-- The range that the counts of the whole range have moved to. -/
theorem foldl_clippedCount_mem (hrange : min ≤ max) (vals : List Bool) :
    min ≤ vals.foldl (clippedCount min max) min ∧
      vals.foldl (clippedCount min max) min ≤ vals.foldl (clippedCount min max) max ∧
      vals.foldl (clippedCount min max) max ≤ max := by
  induction vals using List.reverseRecOn with
  | nil => exact ⟨le_rfl, hrange, le_rfl⟩
  | append_singleton vals val ih =>
      simp only [List.foldl_append, List.foldl_cons, List.foldl_nil]
      exact ⟨(bound_mem hrange _).1, bound_mono hrange (by linarith [ih.2.1]),
        (bound_mem hrange _).2⟩

theorem foldl_clippedCount (hrange : min ≤ max) (vals : List Bool) {cnt : ℤ} (hmin : min ≤ cnt)
    (hmax : cnt ≤ max) :
    vals.foldl (clippedCount min max) cnt =
      bound (cnt + drift vals) (vals.foldl (clippedCount min max) min)
        (vals.foldl (clippedCount min max) max) := by
  induction vals using List.reverseRecOn with
  | nil =>
      rw [drift, List.count_nil, List.count_nil, sub_self, add_zero]
      exact (bound_of_mem hmin hmax).symm
  | append_singleton vals val ih =>
      obtain ⟨-, hle, -⟩ := foldl_clippedCount_mem hrange vals
      have hdrift : drift (vals ++ [val]) = drift vals + if val then 1 else -1 := by
        cases val <;> simp [drift] <;> ring
      simp only [List.foldl_append, List.foldl_cons, List.foldl_nil]
      rw [hdrift, ← add_assoc, ih, clippedCount, bound_bound hrange hle]
      rfl

/-- Wherever the count starts, a `true` ends above the range for good, and a `false` below it. -/
theorem foldl_satCount_enters (hrange : min ≤ max) (cnt : ℤ) (vals : List Bool) :
    (cnt ≤ max ∨ true ∈ vals → vals.foldl (satCount min max) cnt ≤ max) ∧
      (min ≤ cnt ∨ false ∈ vals → min ≤ vals.foldl (satCount min max) cnt) := by
  induction vals generalizing cnt with
  | nil => simp
  | cons val vals ih =>
      obtain ⟨hupper, hlower⟩ := ih (satCount min max cnt val)
      rw [List.foldl_cons]
      refine ⟨fun hbelow => hupper ?_, fun habove => hlower ?_⟩
      · rw [List.mem_cons, ← or_assoc] at hbelow
        refine hbelow.imp_left fun hreached => ?_
        unfold satCount
        grind
      · rw [List.mem_cons, ← or_assoc] at habove
        refine habove.imp_left fun hreached => ?_
        unfold satCount
        grind

/-- Above the range a `false` moves the count, and does not clip it. -/
example : satCounter (⟨20, by decide⟩ : MachineInt .int) (⟨0, by decide⟩ : MachineInt .int)
    ⟨10, by decide⟩ [false] = some ⟨19, by decide⟩ := by
  decide

end Counting

end FiraClient
