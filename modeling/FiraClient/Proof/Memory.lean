import FiraClient.Util.Memory
import Mathlib.Algebra.Order.Ring.Int
import Mathlib.Logic.Nontrivial.Basic

/-!
# Copying between arrays that overlap

The loop of `mcopy` runs upwards. When the destination begins within the source it reads what it has
written, and repeats the elements between the two beginnings.
-/

namespace FiraClient

variable {α : Type}

/-- The loop, for what it ends with, if what is read at each `i` is that when the cells before are
written already. -/
theorem writeEach_eq {value : Cells α → ℤ → α} (cells : Cells α) (dest num : ℤ) (final : ℤ → α)
    (hvalue : ∀ (n : ℕ) (written : Cells α),
      (∀ address, written address =
        if dest ≤ address ∧ address < dest + n then final (address - dest) else cells address) →
      value written n = final n) (address : ℤ) :
    writeEach cells dest num value address =
      if dest ≤ address ∧ address < dest + num then final (address - dest) else cells address := by
  have hrounds : ∀ (n : ℕ) (address : ℤ),
      (List.range n).foldl
          (fun cells (i : ℕ) => Function.update cells (dest + i) (value cells i)) cells address =
        if dest ≤ address ∧ address < dest + n then final (address - dest)
        else cells address := by
    intro n
    induction n with
    | zero =>
        intro address
        exact (if_neg (by omega)).symm
    | succ n ih =>
        intro address
        rw [List.range_succ, List.foldl_append, List.foldl_cons, List.foldl_nil,
          Function.update_apply, hvalue n _ ih, ih]
        by_cases hlast : address = dest + n
        · rw [if_pos hlast, if_pos (by omega), hlast, add_sub_cancel_left]
        · rw [if_neg hlast]
          exact if_congr (by omega) rfl rfl
  rw [writeEach, hrounds]
  exact if_congr (by omega) rfl rfl

/-- Where the element that ends at the index comes from. -/
def sourceIndex (dest src i : ℤ) : ℤ := if src < dest then i % (dest - src) else i

theorem mcopy_eq (cells : Cells α) (dest src num address : ℤ) :
    (mcopy cells dest src num).1 address =
      if dest ≤ address ∧ address < dest + num then
        cells (src + sourceIndex dest src (address - dest))
      else cells address := by
  change writeEach cells dest num (fun cells i => cells (src + i)) address = _
  refine writeEach_eq cells dest num (fun i => cells (src + sourceIndex dest src i)) ?_ address
  intro n written hwritten
  rw [hwritten]
  simp only [sourceIndex]
  by_cases hbehind : src < dest
  · by_cases hread : dest ≤ src + n
    · -- the element read is one written `dest - src` rounds before
      have hsame : (src + n - dest) % (dest - src) = n % (dest - src) := by
        rw [← Int.sub_emod_right (n : ℤ) (dest - src)]
        congr 1
        omega
      rw [if_pos (by omega), if_pos hbehind, if_pos hbehind, hsame]
    · have hsmall : (n : ℤ) % (dest - src) = n := Int.emod_eq_of_lt (by omega) (by omega)
      rw [if_neg (by omega), if_pos hbehind, hsmall]
  · rw [if_neg (by omega), if_neg hbehind]

/-- **Copying.** `mcopy` writes the destination only: with the source as it was, unless the
destination begins within it, and then with the elements between the two beginnings over and over.
So it copies every memory rightly exactly if the destination does not begin within the source. -/
theorem mcopy_overlaps [Nontrivial α] (dest src num : ℤ) :
    (∀ (cells : Cells α) (address : ℤ), (mcopy cells dest src num).1 address =
      if dest ≤ address ∧ address < dest + num then
        cells (src + sourceIndex dest src (address - dest))
      else cells address) ∧
    ((∀ (cells : Cells α) (i : ℤ), 0 ≤ i → i < num →
        (mcopy cells dest src num).1 (dest + i) = cells (src + i)) ↔
      ¬(src < dest ∧ dest < src + num)) := by
  refine ⟨fun cells address => mcopy_eq cells dest src num address, ?_⟩
  constructor
  · rintro hcopies ⟨hbehind, hwithin⟩
    obtain ⟨first, second, hne⟩ := exists_pair_ne α
    -- the first element of the source against all others
    have hcopied := hcopies (fun address => if address = src then first else second)
      (dest - src) (by omega) (by omega)
    rw [mcopy_eq, if_pos (by omega), add_sub_cancel_left, sourceIndex, if_pos hbehind,
      Int.emod_self, if_pos (by omega), if_neg (by omega)] at hcopied
    exact hne hcopied
  · intro houtside cells i hi hlt
    rw [mcopy_eq, if_pos (by omega), add_sub_cancel_left, sourceIndex]
    split
    · rw [Int.emod_eq_of_lt hi (by omega)]
    · rfl

theorem mcopy_overlaps_bool : ¬∀ (cells : Cells Bool) (i : ℤ), 0 ≤ i → i < 3 →
    (mcopy cells 1 0 3).1 (1 + i) = cells (0 + i) := fun hcopies =>
  ((mcopy_overlaps 1 0 3).2.mp hcopies) (by decide)

theorem writeEach_const (cells : Cells α) (dest num : ℤ) (val : α) (address : ℤ) :
    writeEach cells dest num (fun _ _ => val) address =
      if dest ≤ address ∧ address < dest + num then val else cells address :=
  writeEach_eq cells dest num (fun _ => val) (fun _ _ _ => rfl) address

/-- **Filling.** `mset` and `set_range` write the value to their range, and nowhere else. -/
theorem ranges_filled (cells : Cells α) (arr start num : ℤ) (val : α) (address : ℤ) :
    setRange cells arr start num val address =
        (if arr + start ≤ address ∧ address < arr + start + num then val else cells address) ∧
      (mset cells arr val num).1 address =
        if arr ≤ address ∧ address < arr + num then val else cells address :=
  ⟨writeEach_const cells (arr + start) num val address, writeEach_const cells arr num val address⟩

end FiraClient
