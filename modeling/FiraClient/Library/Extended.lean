import FiraClient.Library.Turn

/-!
# Numbers with infinities and NaN

The values a floating-point variable can hold, with exact finite arithmetic: the special values
propagate as IEEE 754 has them, and a comparison with NaN is false. There is no signed zero.
`finite` is a homomorphism, which is all the arithmetic of finite numbers needs here.
-/

inductive Extended (K : Type) where
  | nan
  | inf (negative : Bool)
  | finite (value : K)
deriving DecidableEq, Repr

namespace Extended

variable {K : Type}

section Operations

variable [Field K] [LinearOrder K]

instance : Add (Extended K) where
  add
    | nan, _ => nan
    | _, nan => nan
    | inf a, inf b => if a = b then inf a else nan
    | inf a, finite _ => inf a
    | finite _, inf b => inf b
    | finite x, finite y => finite (x + y)

instance : Neg (Extended K) where
  neg
    | nan => nan
    | inf a => inf !a
    | finite x => finite (-x)

instance : Sub (Extended K) where
  sub x y := x + -y

instance : Mul (Extended K) where
  mul
    | nan, _ => nan
    | _, nan => nan
    | inf a, inf b => inf (a ^^ b)
    | inf a, finite y => if y = 0 then nan else inf (a ^^ decide (y < 0))
    | finite x, inf b => if x = 0 then nan else inf (decide (x < 0) ^^ b)
    | finite x, finite y => finite (x * y)

def lt : Extended K → Extended K → Bool
  | nan, _ => false
  | _, nan => false
  | inf a, inf b => a && !b
  | inf a, finite _ => a
  | finite _, inf b => !b
  | finite x, finite y => decide (x < y)

instance : LT (Extended K) where
  lt x y := lt x y = true

instance : DecidableLT (Extended K) := fun x y => inferInstanceAs (Decidable (lt x y = true))

def abs : Extended K → Extended K
  | nan => nan
  | inf _ => inf false
  | finite x => finite |x|

/-- The truncated remainder: undefined for an infinite dividend or a zero divisor. -/
def fmod [FloorRing K] : Extended K → Extended K → Extended K
  | finite x, finite y => if y = 0 then nan else finite (Turn.fmod x y)
  | finite x, inf _ => finite x
  | _, _ => nan

end Operations

section Lemmas

variable [Field K] [LinearOrder K]

omit [LinearOrder K] in
@[simp]
theorem finite_add (x y : K) : (finite x + finite y : Extended K) = finite (x + y) := rfl

omit [LinearOrder K] in
@[simp]
theorem finite_neg (x : K) : (-finite x : Extended K) = finite (-x) := rfl

omit [LinearOrder K] in
@[simp]
theorem finite_sub (x y : K) : (finite x - finite y : Extended K) = finite (x - y) := by
  rw [sub_eq_add_neg]
  rfl

@[simp]
theorem finite_mul (x y : K) : (finite x * finite y : Extended K) = finite (x * y) := rfl

omit [Field K] in
@[simp]
theorem finite_lt_finite {x y : K} : (finite x : Extended K) < finite y ↔ x < y := by
  change decide (x < y) = true ↔ x < y
  exact decide_eq_true_iff

omit [Field K] in
@[simp]
theorem not_nan_lt (x : Extended K) : ¬nan < x := Bool.false_ne_true

omit [Field K] in
@[simp]
theorem not_lt_nan (x : Extended K) : ¬x < nan := by
  cases x <;> exact Bool.false_ne_true

omit [LinearOrder K] in
@[simp]
theorem nan_add (x : Extended K) : nan + x = nan := rfl

omit [LinearOrder K] in
@[simp]
theorem add_nan (x : Extended K) : x + nan = nan := by
  cases x <;> rfl

omit [LinearOrder K] in
@[simp]
theorem neg_nan : (-nan : Extended K) = nan := rfl

omit [LinearOrder K] in
@[simp]
theorem nan_sub (x : Extended K) : nan - x = nan := rfl

omit [LinearOrder K] in
@[simp]
theorem sub_nan (x : Extended K) : x - nan = nan := add_nan x

@[simp]
theorem nan_mul (x : Extended K) : nan * x = nan := rfl

@[simp]
theorem mul_nan (x : Extended K) : x * nan = nan := by
  cases x <;> rfl

@[simp]
theorem abs_nan : abs (nan : Extended K) = nan := rfl

@[simp]
theorem abs_finite (x : K) : abs (finite x : Extended K) = finite |x| := rfl

@[simp]
theorem fmod_nan_left [FloorRing K] (y : Extended K) : fmod nan y = nan := rfl

@[simp]
theorem fmod_inf_left [FloorRing K] (negative : Bool) (y : Extended K) :
    fmod (inf negative) y = nan := rfl

theorem fmod_finite [FloorRing K] (x : K) {y : K} (hy : y ≠ 0) :
    fmod (finite x) (finite y) = finite (Turn.fmod x y) := if_neg hy

end Lemmas

end Extended
