import FiraClient.Library.Mealy

/-!
# The array functions of `util.h`

A `data *` is null or points to a block that `new[]` gave, which never fails. What a caller does with
an array is a sequence of calls that each store the returned pointer back; the counts are natural
numbers, so products and sums are the ones the source has while these fit its types.
-/

namespace FiraClient

variable {α : Type}

abbrev Pointer (α : Type) := Option (List α)

/-- The elements of the block; a null pointer has none. -/
def elements (arr : Pointer α) : List α := arr.getD []

/-- `new data[size]` over what the memory holds. -/
def newArray (memory : ℕ → α) (size : ℕ) : Pointer α := some ((List.range size).map memory)

/-- A read or write of an element of a block of that length. -/
structure Access where
  length : ℕ
  index : ℕ
deriving DecidableEq, Repr

structure Sized (α : Type) where
  arr : Pointer α
  size : ℕ

def Sized.null : Sized α := ⟨none, 0⟩

/-- The test `alloc_array` and `resize_array` begin with. -/
abbrev Sized.Keeps (pair : Sized α) (newSize : ℕ) : Prop :=
  (pair.arr.isSome ∧ newSize = pair.size) ∨ (pair.arr.isNone ∧ newSize = 0)

def allocArray (memory : ℕ → α) (pair : Sized α) (newSize : ℕ) : Sized α :=
  if pair.Keeps newSize then pair
  else
    let arr := newArray memory newSize
    ⟨arr, if arr.isSome then newSize else 0⟩

/-- `narr[i] = arr[i]`. An element that is not there is not read, and none is written. -/
def copyElement (arr : List α) (copied : List α × List Access) (i : ℕ) : List α × List Access :=
  let narr :=
    match arr[i]? with
    | some value => copied.1.set i value
    | none => copied.1
  (narr, copied.2 ++ [⟨arr.length, i⟩, ⟨copied.1.length, i⟩])

def copyElements (arr narr : List α) (curUsed : ℕ) : List α × List Access :=
  (List.range curUsed).foldl (copyElement arr) (narr, [])

def resizeArray (memory : ℕ → α) (pair : Sized α) (newSize curUsed : ℕ) :
    Sized α × List Access :=
  if pair.Keeps newSize then (pair, [])
  else
    match newArray memory newSize with
    | some narr =>
        -- copy existing data
        let copied := copyElements (elements pair.arr) narr curUsed
        (⟨some copied.1, newSize⟩, copied.2)
    | none => (pair, [])

def freeArray (_pair : Sized α) : Sized α := ⟨none, 0⟩

inductive ArrayOp (α : Type) where
  | alloc (newSize : ℕ) (memory : ℕ → α)
  | resize (newSize curUsed : ℕ) (memory : ℕ → α)
  | free

/-- One pair over its operations, each with the accesses it makes. -/
def arrays : Mealy (Sized α) (ArrayOp α) (List Access) where
  next := fun pair operation =>
    match operation with
    | .alloc newSize memory => allocArray memory pair newSize
    | .resize newSize curUsed memory => (resizeArray memory pair newSize curUsed).1
    | .free => freeArray pair
  emit := fun pair operation =>
    match operation with
    | .resize newSize curUsed memory => (resizeArray memory pair newSize curUsed).2
    | .alloc _ _ | .free => []

structure Shape where
  w : ℕ
  h : ℕ
deriving DecidableEq, Repr

def Shape.area (shape : Shape) : ℕ := shape.w * shape.h

structure Grid (α : Type) where
  arr : Pointer α
  shape : Shape

def Grid.null : Grid α := ⟨none, ⟨0, 0⟩⟩

def allocArray2 (memory : ℕ → α) (grid : Grid α) (newShape : Shape) : Grid α :=
  let size := grid.shape.w * grid.shape.h
  let newSize := newShape.w * newShape.h
  if (grid.arr.isSome ∧ newSize = size) ∨ (grid.arr.isNone ∧ newSize = 0) then grid
  else
    let arr := newArray memory newSize
    ⟨arr, if arr.isSome then newShape else ⟨0, 0⟩⟩

structure GridCall (α : Type) where
  newShape : Shape
  memory : ℕ → α

/-- One array over its calls of `alloc_array2`, each with the pointer it returns. -/
def grids : Mealy (Grid α) (GridCall α) (Pointer α) where
  next := fun grid call => allocArray2 call.memory grid call.newShape
  emit := fun grid call => (allocArray2 call.memory grid call.newShape).arr

end FiraClient
