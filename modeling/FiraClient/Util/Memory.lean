import Mathlib.Algebra.Ring.Int.Defs
import Mathlib.Logic.Function.Basic

/-!
# The memory functions of `util.h`

Loops that write cell after cell, from the lowest on. Memory is a function from addresses, counted in
elements; an array is its address, and two of them may overlap.
-/

namespace FiraClient

variable {α : Type}

abbrev Cells (α : Type) := ℤ → α

/-- `for(i=0; i<num; i++) dest[i] = value`, where the value may be read at each `i`. -/
def writeEach (cells : Cells α) (dest num : ℤ) (value : Cells α → ℤ → α) : Cells α :=
  (List.range num.toNat).foldl
    (fun cells (i : ℕ) => Function.update cells (dest + i) (value cells i)) cells

def mcopy (cells : Cells α) (dest src num : ℤ) : Cells α × ℤ :=
  (writeEach cells dest num fun cells i => cells (src + i), num)

def mset (cells : Cells α) (dest : ℤ) (val : α) (num : ℤ) : Cells α × α :=
  (writeEach cells dest num fun _ _ => val, val)

/-- `set_range`; its indices start at `start`. -/
def setRange (cells : Cells α) (arr start num : ℤ) (val : α) : Cells α :=
  writeEach cells (arr + start) num fun _ _ => val

end FiraClient
