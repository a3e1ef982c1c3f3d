import FiraClient.Util.Array
import Mathlib.Data.List.Induction
import Mathlib.Order.MinMax

/-!
# Array helpers over runs

The size recorded beside an array is the length of its block after any calls. What `resize_array`
copies is bounded by `cur_used` alone, so a call that shrinks the array below it writes past the new
block. `alloc_array2` keeps its array when the product of the dimensions is the same, and then also
the old dimensions.
-/

namespace FiraClient

variable {α : Type}

/-! ### The copy loop -/

section Copy

variable (arr narr : List α) (curUsed : ℕ)

theorem copyElements_succ :
    copyElements arr narr (curUsed + 1) =
      copyElement arr (copyElements arr narr curUsed) curUsed := by
  rw [copyElements, copyElements, List.range_succ, List.foldl_append, List.foldl_cons,
    List.foldl_nil]

@[simp]
theorem length_copyElement (copied : List α × List Access) (i : ℕ) :
    (copyElement arr copied i).1.length = copied.1.length := by
  unfold copyElement
  cases arr[i]? <;> simp

@[simp]
theorem length_copyElements : (copyElements arr narr curUsed).1.length = narr.length := by
  induction curUsed with
  | zero => rfl
  | succ curUsed ih => rw [copyElements_succ, length_copyElement, ih]

theorem getElem?_copyElements {i : ℕ} (hi : i < curUsed) (harr : i < arr.length)
    (hnarr : i < narr.length) : (copyElements arr narr curUsed).1[i]? = arr[i]? := by
  induction curUsed with
  | zero => cases hi
  | succ curUsed ih =>
      rw [copyElements_succ, copyElement]
      cases hvalue : arr[curUsed]? with
      | none =>
          have hlt : i < curUsed := by
            have hge := List.getElem?_eq_none_iff.mp hvalue
            omega
          exact ih hlt
      | some value =>
          by_cases hlast : i = curUsed
          · subst hlast
            rw [hvalue]
            exact List.getElem?_set_self (by rwa [length_copyElements])
          · have hlt : i < curUsed := by omega
            rw [← ih hlt]
            exact List.getElem?_set_ne (Ne.symm hlast)

theorem mem_accesses_copyElements {access : Access} :
    access ∈ (copyElements arr narr curUsed).2 ↔
      ∃ i < curUsed, access = ⟨arr.length, i⟩ ∨ access = ⟨narr.length, i⟩ := by
  induction curUsed with
  | zero => simp [copyElements]
  | succ curUsed ih =>
      simp only [copyElements_succ, copyElement, List.mem_append, ih, List.mem_cons,
        List.not_mem_nil, or_false, length_copyElements, Nat.lt_succ_iff_lt_or_eq, or_and_right,
        exists_or, exists_eq_left]

end Copy

/-! ### One array -/

def Access.InBounds (access : Access) : Prop := access.index < access.length

theorem accesses_inBounds_iff {arr narr : List α} {curUsed : ℕ} (hused : curUsed ≤ arr.length) :
    (∀ access ∈ (copyElements arr narr curUsed).2, access.InBounds) ↔ curUsed ≤ narr.length := by
  simp only [mem_accesses_copyElements]
  constructor
  · intro hall
    by_contra hover
    exact absurd (hall ⟨narr.length, narr.length⟩ ⟨narr.length, by omega, Or.inr rfl⟩)
      (Nat.lt_irrefl _)
  · rintro hfits access ⟨i, hi, rfl | rfl⟩
    · exact lt_of_lt_of_le hi hused
    · exact lt_of_lt_of_le hi hfits

namespace ArrayOp

def requested : ArrayOp α → ℕ
  | .alloc newSize _ => newSize
  | .resize newSize _ _ => newSize
  | .free => 0

/-- What a caller of `resize_array` promises of the elements in use. -/
def Valid (pair : Sized α) : ArrayOp α → Prop
  | .resize _ curUsed _ => curUsed ≤ pair.size
  | .alloc _ _ | .free => True

/-- The elements in use fit the new block. -/
def Fits : ArrayOp α → Prop
  | .resize newSize curUsed _ => curUsed ≤ newSize
  | .alloc _ _ | .free => True

end ArrayOp

def Sized.InStep (pair : Sized α) : Prop := pair.size = (elements pair.arr).length

theorem Sized.inStep_null : (Sized.null : Sized α).InStep := rfl

@[simp]
theorem isSome_newArray (memory : ℕ → α) (size : ℕ) : (newArray memory size).isSome = true := rfl

@[simp]
theorem length_elements_newArray (memory : ℕ → α) (size : ℕ) :
    (elements (newArray memory size)).length = size := by
  simp [elements, newArray]

section Step

variable {pair : Sized α} (hpair : pair.InStep)

include hpair

theorem size_of_keeps {newSize : ℕ} (hkeeps : pair.Keeps newSize) : pair.size = newSize := by
  rcases hkeeps with ⟨-, hsame⟩ | ⟨hnull, hzero⟩
  · exact hsame.symm
  · rw [hzero, hpair, Option.isNone_iff_eq_none.mp hnull]
    rfl

/-- Each operation leaves the size it was asked for, recorded and in the block. -/
theorem inStep_next (operation : ArrayOp α) :
    (arrays.next pair operation).InStep ∧
      (arrays.next pair operation).size = operation.requested := by
  cases operation with
  | alloc newSize memory =>
      simp only [arrays, allocArray, isSome_newArray, if_true, ArrayOp.requested]
      split_ifs with hkeeps
      · exact ⟨hpair, size_of_keeps hpair hkeeps⟩
      · exact ⟨(length_elements_newArray memory newSize).symm, rfl⟩
  | resize newSize curUsed memory =>
      simp only [arrays, resizeArray, newArray, ArrayOp.requested]
      split_ifs with hkeeps
      · exact ⟨hpair, size_of_keeps hpair hkeeps⟩
      · refine ⟨?_, rfl⟩
        simp [Sized.InStep, elements]
  | free => exact ⟨rfl, rfl⟩

theorem inBounds_emit_iff {operation : ArrayOp α} (hvalid : operation.Valid pair) :
    (∀ access ∈ arrays.emit pair operation, access.InBounds) ↔ operation.Fits := by
  cases operation with
  | alloc newSize memory => exact iff_of_true (List.forall_mem_nil _) trivial
  | resize newSize curUsed memory =>
      simp only [arrays, resizeArray, newArray, ArrayOp.Fits]
      split_ifs with hkeeps
      · exact iff_of_true (List.forall_mem_nil _) ((size_of_keeps hpair hkeeps) ▸ hvalid)
      · have hused : curUsed ≤ (elements pair.arr).length := hpair ▸ hvalid
        rw [accesses_inBounds_iff hused, List.length_map, List.length_range]
  | free => exact iff_of_true (List.forall_mem_nil _) trivial

theorem getElem?_resize {newSize curUsed i : ℕ} {memory : ℕ → α} (hused : curUsed ≤ pair.size)
    (hi : i < min curUsed newSize) :
    (elements (arrays.next pair (.resize newSize curUsed memory)).arr)[i]? =
      (elements pair.arr)[i]? := by
  obtain ⟨hcurUsed, hnewSize⟩ := lt_min_iff.mp hi
  simp only [arrays, resizeArray, newArray]
  split_ifs with hkeeps
  · rfl
  · have harr : i < (elements pair.arr).length := lt_of_lt_of_le hcurUsed (hpair ▸ hused)
    exact getElem?_copyElements _ _ _ hcurUsed harr (by simpa using hnewSize)

end Step

/-! ### Every run of one array -/

def reached (operations : List (ArrayOp α)) : Sized α := arrays.after Sized.null operations

def lastRequested (operations : List (ArrayOp α)) : ℕ :=
  (operations.getLast?.map ArrayOp.requested).getD 0

/-- At each `resize_array` no more elements are in use than the array has. -/
def UsedWithin (operations : List (ArrayOp α)) : Prop :=
  ∀ earlier operation later, operations = earlier ++ operation :: later →
    operation.Valid (reached earlier)

/-- What is asked of the helpers over a run. -/
structure KeptInStep (operations : List (ArrayOp α)) : Prop where
  size_eq_length : (reached operations).size = (elements (reached operations).arr).length
  size_eq_requested : (reached operations).size = lastRequested operations
  inBounds : ∀ accesses ∈ arrays.emitted Sized.null operations,
    ∀ access ∈ accesses, access.InBounds
  preserved : ∀ earlier newSize curUsed memory later,
    operations = earlier ++ .resize newSize curUsed memory :: later →
      ∀ i < min curUsed newSize,
        (elements (reached (earlier ++ [.resize newSize curUsed memory])).arr)[i]? =
          (elements (reached earlier).arr)[i]?

theorem reached_append_singleton (operations : List (ArrayOp α)) (operation : ArrayOp α) :
    reached (operations ++ [operation]) = arrays.next (reached operations) operation :=
  arrays.after_append _ _ _

theorem inStep_reached (operations : List (ArrayOp α)) : (reached operations).InStep :=
  arrays.after_induction Sized.InStep (fun _ => True)
    (fun _ operation _ hpair => (inStep_next hpair operation).1) Sized.inStep_null operations
    fun _ _ => trivial

theorem size_reached (operations : List (ArrayOp α)) :
    (reached operations).size = lastRequested operations := by
  rcases List.eq_nil_or_concat operations with rfl | ⟨earlier, last, rfl⟩
  · rfl
  · rw [List.concat_eq_append, reached_append_singleton,
      (inStep_next (inStep_reached earlier) last).2]
    simp [lastRequested]

/-- **The array helpers stay in step exactly when** every `resize_array` leaves room for the elements
in use. -/
theorem arrays_kept_in_step_iff {operations : List (ArrayOp α)} (hused : UsedWithin operations) :
    KeptInStep operations ↔ ∀ operation ∈ operations, operation.Fits := by
  have hinBounds : (∀ accesses ∈ arrays.emitted Sized.null operations,
      ∀ access ∈ accesses, access.InBounds) ↔ ∀ operation ∈ operations, operation.Fits := by
    rw [arrays.forall_mem_emitted_iff]
    constructor
    · intro hall operation hoperation
      obtain ⟨earlier, later, hsplit⟩ := List.append_of_mem hoperation
      exact (inBounds_emit_iff (inStep_reached earlier) (hused _ _ _ hsplit)).mp
        (hall _ _ _ hsplit)
    · intro hall earlier operation later hsplit
      have hfits : operation.Fits := hall operation (by simp [hsplit])
      exact (inBounds_emit_iff (inStep_reached earlier) (hused _ _ _ hsplit)).mpr hfits
  refine ⟨fun hkept => hinBounds.mp hkept.inBounds, fun hfits => ?_⟩
  refine ⟨inStep_reached operations, size_reached operations, hinBounds.mpr hfits, ?_⟩
  intro earlier newSize curUsed memory later hsplit i hi
  rw [reached_append_singleton]
  exact getElem?_resize (inStep_reached earlier) (hused _ _ _ hsplit) hi

theorem usedWithin_pair {first second : ArrayOp α} (hfirst : first.Valid Sized.null)
    (hsecond : second.Valid (reached [first])) : UsedWithin [first, second] := by
  rintro (_ | ⟨head, _ | ⟨next, earlier⟩⟩) operation later hsplit
  · obtain ⟨rfl, -⟩ := List.cons.inj hsplit
    exact hfirst
  · obtain ⟨rfl, hrest⟩ := List.cons.inj hsplit
    obtain ⟨rfl, -⟩ := List.cons.inj hrest
    exact hsecond
  · simp at hsplit

/-- Grown with every element in use. -/
theorem arrays_kept_in_step_growing :
    KeptInStep [.alloc 2 fun i => i, .resize 3 2 fun _ => 7] := by
  have hused : UsedWithin [ArrayOp.alloc 2 fun i => i, .resize 3 2 fun _ => 7] :=
    usedWithin_pair trivial (le_refl 2)
  exact (arrays_kept_in_step_iff hused).mpr
    (List.forall_mem_cons.mpr ⟨trivial, List.forall_mem_singleton.mpr (Nat.le_succ 2)⟩)

/-- Shrunk below the elements in use: the second of the copies is past the new block. -/
theorem arrays_overrun :
    UsedWithin [.alloc 2 fun i => i, .resize 1 2 fun _ => 7] ∧
      ¬KeptInStep [.alloc 2 fun i => i, .resize 1 2 fun _ => 7] := by
  refine ⟨usedWithin_pair trivial (le_refl 2), fun hkept => ?_⟩
  have hmem : (⟨1, 1⟩ : Access) ∈ [(⟨2, 0⟩ : Access), ⟨1, 0⟩, ⟨2, 1⟩, ⟨1, 1⟩] := by decide
  exact Nat.lt_irrefl 1 (hkept.inBounds _ (List.mem_cons_of_mem _ List.mem_cons_self) _ hmem)

/-! ### One grid -/

/-- The dimensions recorded are those of the last call, and its every element has a place. -/
structure Delivered (grid : Grid α) (shape : Shape) : Prop where
  shape_eq : grid.shape = shape
  room : grid.shape.area ≤ (elements grid.arr).length
  indexed : ∀ x y, x < shape.w → y < shape.h →
    y * grid.shape.w + x = y * shape.w + x ∧ y * grid.shape.w + x < (elements grid.arr).length

def Grid.InStep (grid : Grid α) : Prop := grid.shape.area = (elements grid.arr).length

theorem Grid.inStep_null : (Grid.null : Grid α).InStep := rfl

theorem delivered_iff {grid : Grid α} (hgrid : grid.InStep) (shape : Shape) :
    Delivered grid shape ↔ grid.shape = shape := by
  refine ⟨Delivered.shape_eq, ?_⟩
  rintro rfl
  refine ⟨rfl, hgrid.le, fun x y hx hy => ⟨rfl, ?_⟩⟩
  have hrow : (y + 1) * grid.shape.w ≤ grid.shape.h * grid.shape.w :=
    Nat.mul_le_mul_right _ hy
  rw [← hgrid, Shape.area, Nat.mul_comm grid.shape.w]
  rw [Nat.succ_mul] at hrow
  omega

section GridStep

variable {grid : Grid α} (hgrid : grid.InStep) (call : GridCall α)

include hgrid

theorem grids_next_eq :
    grids.next grid call =
      if call.newShape.area = grid.shape.area then grid
      else ⟨newArray call.memory call.newShape.area, call.newShape⟩ := by
  have hnull : grid.arr.isNone → grid.shape.area = 0 := fun hnone => by
    rw [hgrid, Option.isNone_iff_eq_none.mp hnone]
    rfl
  have hkeeps : (grid.arr.isSome ∧ call.newShape.area = grid.shape.area) ∨
      (grid.arr.isNone ∧ call.newShape.area = 0) ↔ call.newShape.area = grid.shape.area := by
    cases harr : grid.arr with
    | none =>
        rw [hnull (by rw [harr]; rfl)]
        simp
    | some block => simp
  exact if_congr hkeeps rfl rfl

theorem grid_inStep_next : (grids.next grid call).InStep := by
  rw [grids_next_eq hgrid]
  split_ifs
  · exact hgrid
  · exact (length_elements_newArray _ _).symm

/-- A call delivers unless it has the recorded area in another shape. -/
theorem delivered_next_iff :
    Delivered (grids.next grid call) call.newShape ↔
      (call.newShape.area = grid.shape.area → call.newShape = grid.shape) := by
  rw [delivered_iff (grid_inStep_next hgrid call), grids_next_eq hgrid]
  split_ifs with hsame
  · exact ⟨fun heq _ => heq.symm, fun h => (h hsame).symm⟩
  · exact iff_of_true rfl fun heq => absurd heq hsame

end GridStep

def gridReached (calls : List (GridCall α)) : Grid α := grids.after Grid.null calls

/-- The shape the last call asked for; before any it is that of the null array. -/
def lastShape (calls : List (GridCall α)) : Shape :=
  (calls.getLast?.map GridCall.newShape).getD ⟨0, 0⟩

theorem inStep_gridReached (calls : List (GridCall α)) : (gridReached calls).InStep :=
  grids.after_induction Grid.InStep (fun _ => True)
    (fun _ call _ hgrid => grid_inStep_next hgrid call) Grid.inStep_null calls fun _ _ => trivial

theorem gridReached_append_singleton (calls : List (GridCall α)) (call : GridCall α) :
    gridReached (calls ++ [call]) = grids.next (gridReached calls) call :=
  grids.after_append _ _ _

theorem lastShape_append_singleton (calls : List (GridCall α)) (call : GridCall α) :
    lastShape (calls ++ [call]) = call.newShape := by
  simp [lastShape]

/-- Each call of a run delivers the shape it asks for. -/
def AllDelivered (calls : List (GridCall α)) : Prop :=
  ∀ earlier call later, calls = earlier ++ call :: later →
    Delivered (gridReached (earlier ++ [call])) call.newShape

/-- No call asks for the area of the one before it in another shape. -/
def NoReshape (calls : List (GridCall α)) : Prop :=
  ∀ earlier call later, calls = earlier ++ call :: later →
    call.newShape.area = (lastShape earlier).area → call.newShape = lastShape earlier

theorem delivered_append_singleton_iff {calls : List (GridCall α)} (call : GridCall α)
    (hshape : (gridReached calls).shape = lastShape calls) :
    Delivered (gridReached (calls ++ [call])) call.newShape ↔
      (call.newShape.area = (lastShape calls).area → call.newShape = lastShape calls) := by
  rw [gridReached_append_singleton, delivered_next_iff (inStep_gridReached calls), hshape]

/-- **`alloc_array2` delivers the requested dimensions exactly when** no call asks for the area of the
call before it in another shape. -/
theorem grids_delivered_iff (calls : List (GridCall α)) : AllDelivered calls ↔ NoReshape calls := by
  constructor
  · intro hall earlier call later hsplit
    refine (delivered_append_singleton_iff call ?_).mp (hall earlier call later hsplit)
    rcases List.eq_nil_or_concat earlier with rfl | ⟨before, last, rfl⟩
    · rfl
    · rw [List.concat_eq_append] at hsplit ⊢
      rw [lastShape_append_singleton]
      exact (hall before last (call :: later) (by rw [hsplit, List.append_assoc]; rfl)).shape_eq
  · intro hnone
    have hshape (earlier : List (GridCall α)) :
        ∀ later, calls = earlier ++ later → (gridReached earlier).shape = lastShape earlier := by
      induction earlier using List.reverseRecOn with
      | nil => exact fun _ _ => rfl
      | append_singleton before last ih =>
          intro later hsplit
          rw [List.append_assoc, List.singleton_append] at hsplit
          rw [lastShape_append_singleton]
          exact ((delivered_append_singleton_iff last (ih _ hsplit)).mpr
            (hnone before last later hsplit)).shape_eq
    intro earlier call later hsplit
    exact (delivered_append_singleton_iff call (hshape earlier _ hsplit)).mpr
      (hnone earlier call later hsplit)

/-- Two by three, then three by two: the row stride stays two. -/
theorem grids_not_delivered :
    ¬AllDelivered [⟨⟨2, 3⟩, fun i => i⟩, ⟨⟨3, 2⟩, fun i => i⟩] := by
  intro hall
  have hdelivered := hall [⟨⟨2, 3⟩, fun i => i⟩] ⟨⟨3, 2⟩, fun i => i⟩ [] rfl
  exact absurd hdelivered.shape_eq (by decide)

end FiraClient
