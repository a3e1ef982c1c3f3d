import FiraClient.Library.MachineInt

/-!
# Selecting and counting in `util.h`

The loops over an array, which compare its elements by `>` or `<` only, the counter of a boolean and
the test for a power of two. A count below zero makes no round of a loop.
-/

namespace FiraClient

section Loops

variable {α : Type}

/-- The loop of `max_idx` and `min_idx`: the index so far moves to an element that is better. -/
def bestIdx (better : α → α → Prop) [DecidableRel better] (arr : ℕ → α) (num : ℤ) : ℕ :=
  (List.range' 1 (num - 1).toNat).foldl (fun mi i => if better (arr i) (arr mi) then i else mi) 0

def maxIdx [LT α] [DecidableLT α] (arr : ℕ → α) (num : ℤ) : ℕ := bestIdx (· > ·) arr num

def minIdx [LT α] [DecidableLT α] (arr : ℕ → α) (num : ℤ) : ℕ := bestIdx (· < ·) arr num

end Loops

/-- `bound`; the second test sees what the first one left. -/
def bound {num : Type} [LT num] [DecidableLT num] (x low high : num) : num :=
  let x := if x < low then low else x
  if x > high then high else x

section Counter

variable {num num2 : IntType}

/-- `bool_sat_count`. The count and the bound are compared in their common type, which is also that
of the conditional expression; the sum is one of the type of the count. -/
def boolSatCount (cnt : MachineInt num) (min max : MachineInt num2) (val : Bool) :
    Option (MachineInt num) :=
  let common := num.common num2
  let moved (sum : MachineInt num) : MachineInt num := .ofInt (common.convert sum.val)
  if val then
    if common.convert cnt.val < common.convert max.val then
      (MachineInt.checked (cnt.val + 1)).map moved
    else some (.ofInt (common.convert max.val))
  else
    if common.convert cnt.val > common.convert min.val then
      (MachineInt.checked (cnt.val - 1)).map moved
    else some (.ofInt (common.convert min.val))

/-- A counter after the values it is given. -/
def satCounter (cnt : MachineInt num) (min max : MachineInt num2) :
    List Bool → Option (MachineInt num)
  | [] => some cnt
  | val :: vals => do
      let cnt ← boolSatCount cnt min max val
      satCounter cnt min max vals

end Counter

/-- `one_bit_set`, of an unsigned number of that width. -/
def oneBitSet {w : ℕ} (n : BitVec w) : Bool := n != 0 && (-n &&& n) == n

end FiraClient
