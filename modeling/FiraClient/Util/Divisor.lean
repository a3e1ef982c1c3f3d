import FiraClient.Library.MachineInt
import Mathlib.Algebra.Ring.Int.Defs

/-!
# `gcd`, `lcm` and `mod` of `util.h`

Templates over the integer type. The loop of `gcd` stores its remainder in an `int`, whatever the
type; `viaInt` is what a value is worth after that. Over the exact integers nothing is lost.
-/

namespace FiraClient

class IntegerType (num : Type) extends Zero num, Mul num where
  /-- `/`, truncated towards zero. -/
  quot : num → num → num
  /-- `%`, with the sign of the dividend. -/
  rem : num → num → num
  viaInt : num → num

export IntegerType (quot rem viaInt)

instance : IntegerType ℤ where
  quot := Int.tdiv
  rem := Int.tmod
  viaInt := id

/-- The operations of a machine type, wrapped. Of arguments that are not negative, `gcd` makes only
divisions that are defined. -/
instance {type : IntType} : IntegerType (MachineInt type) where
  zero := ⟨0, type.represents_zero⟩
  mul x y := .ofInt (x.val * y.val)
  quot x y := .ofInt (x.val.tdiv y.val)
  rem x y := .ofInt (x.val.tmod y.val)
  viaInt x := .ofInt (IntType.int.convert x.val)

variable {num : Type} [IntegerType num] [DecidableEq num]

/-- The loop, given up when the fuel is spent. -/
def gcd : ℕ → num → num → Option num
  | 0, _, _ => none
  | fuel + 1, x, y =>
      if y ≠ 0 then
        let w := viaInt (rem x y)
        gcd fuel y w
      else some x

def lcm (fuel : ℕ) (x y : num) : Option num := do
  let d ← gcd fuel x y
  return quot x d * quot y d

/-- The operations of `mod`, without a result where their behaviour is undefined. -/
class CheckedType (num : Type) where
  sum : num → num → Option num
  remainder : num → num → Option num

export CheckedType (sum remainder)

/-- `%` is defined where `/` is. -/
instance {type : IntType} : CheckedType (MachineInt type) where
  sum x y := MachineInt.checked (x.val + y.val)
  remainder x y := do
    guard (y.val ≠ 0)
    let _ : MachineInt type ← MachineInt.checked (x.val.tdiv y.val)
    MachineInt.checked (x.val.tmod y.val)

def mod {num : Type} [CheckedType num] (x m : num) : Option num := do
  let rest ← remainder x m
  let moved ← sum rest m
  remainder moved m

/-- The call returns the value: any fuel from some amount on is enough for it. -/
def Returns (call : ℕ → Option num) (value : num) : Prop :=
  ∃ enough, ∀ fuel, enough ≤ fuel → call fuel = some value

end FiraClient
