import Mathlib.Data.List.Basic

/-!
# Machines that emit at every step

A `Mealy` machine reads an input, emits an output that depends on the state it is in, and moves on.
A run is the list of emitted along a list of inputs. Facts about every run are reduced here to facts
about one step at a state that some prefix of the inputs reaches.
-/

structure Mealy (σ ι ω : Type*) where
  next : σ → ι → σ
  emit : σ → ι → ω

namespace Mealy

variable {σ ι ω κ : Type*} (machine : Mealy σ ι ω)

def after (state : σ) (inputs : List ι) : σ :=
  inputs.foldl machine.next state

def emitted : σ → List ι → List ω
  | _, [] => []
  | state, input :: inputs =>
      machine.emit state input :: emitted (machine.next state input) inputs

@[simp]
theorem after_nil (state : σ) : machine.after state [] = state := rfl

@[simp]
theorem after_cons (state : σ) (input : ι) (inputs : List ι) :
    machine.after state (input :: inputs) =
      machine.after (machine.next state input) inputs := rfl

@[simp]
theorem after_append (state : σ) (first second : List ι) :
    machine.after state (first ++ second) =
      machine.after (machine.after state first) second :=
  List.foldl_append

@[simp]
theorem emitted_nil (state : σ) : machine.emitted state [] = [] := rfl

@[simp]
theorem emitted_cons (state : σ) (input : ι) (inputs : List ι) :
    machine.emitted state (input :: inputs) =
      machine.emit state input :: machine.emitted (machine.next state input) inputs := rfl

theorem exists_of_mem_emitted {state : σ} {inputs : List ι} {output : ω}
    (houtput : output ∈ machine.emitted state inputs) :
    ∃ earlier input later, inputs = earlier ++ input :: later ∧
      output = machine.emit (machine.after state earlier) input := by
  induction inputs generalizing state with
  | nil => cases houtput
  | cons first inputs ih =>
      rcases List.mem_cons.mp houtput with rfl | hlater
      · exact ⟨[], first, inputs, rfl, rfl⟩
      · obtain ⟨earlier, input, later, rfl, heq⟩ := ih hlater
        exact ⟨first :: earlier, input, later, rfl, heq⟩

/-- **The invariant rule.** What every step preserves holds after every run. -/
theorem after_induction (invariant : σ → Prop) (allowed : ι → Prop)
    (hstep : ∀ state input, allowed input → invariant state → invariant (machine.next state input))
    {state : σ} (hstate : invariant state) (inputs : List ι)
    (hinputs : ∀ input ∈ inputs, allowed input) :
    invariant (machine.after state inputs) := by
  induction inputs generalizing state with
  | nil => exact hstate
  | cons input inputs ih =>
      apply ih (hstep state input (hinputs input List.mem_cons_self) hstate)
      intro later hlater
      exact hinputs later (List.mem_cons_of_mem _ hlater)

theorem forall_mem_emitted_iff {state : σ} {inputs : List ι} {holds : ω → Prop} :
    (∀ output ∈ machine.emitted state inputs, holds output) ↔
      ∀ earlier input later, inputs = earlier ++ input :: later →
        holds (machine.emit (machine.after state earlier) input) := by
  constructor
  · rintro hall earlier input later rfl
    apply hall
    induction earlier generalizing state with
    | nil => exact List.mem_cons_self
    | cons first earlier ih =>
        exact List.mem_cons_of_mem _
          (ih fun output houtput => hall output (List.mem_cons_of_mem _ houtput))
  · intro hall output houtput
    obtain ⟨earlier, input, later, rfl, rfl⟩ := machine.exists_of_mem_emitted houtput
    exact hall earlier input later rfl

/-! ### Runs of one key among others

The outputs of one key in a run with every key, against the run of the inputs of that key alone. -/

theorem forall_split_cons_iff {first : ι} {inputs : List ι} (holds : List ι → ι → Prop) :
    (∀ earlier input later, first :: inputs = earlier ++ input :: later → holds earlier input) ↔
      holds [] first ∧ ∀ earlier input later, inputs = earlier ++ input :: later →
        holds (first :: earlier) input := by
  constructor
  · intro h
    refine ⟨h [] first inputs rfl, fun earlier input later heq => ?_⟩
    exact h (first :: earlier) input later (by rw [heq, List.cons_append])
  · rintro ⟨hfirst, hrest⟩ earlier input later heq
    cases earlier with
    | nil =>
        obtain ⟨rfl, -⟩ := List.cons.inj heq
        exact hfirst
    | cons head earlier =>
        obtain ⟨rfl, htail⟩ := List.cons.inj heq
        exact hrest earlier input later htail

/-- The run of one key alone emits what the full run emits for it exactly when, at every input of
the key, the two states the runs have reached give the same output. -/
theorem filter_emitted_eq_iff [DecidableEq κ] (key : ι → κ) (tag : ω → κ)
    (htag : ∀ state input, tag (machine.emit state input) = key input) (k : κ)
    (full alone : σ) (inputs : List ι) :
    (machine.emitted full inputs).filter (fun output => tag output = k) =
        machine.emitted alone (inputs.filter fun input => key input = k) ↔
      ∀ earlier input later, inputs = earlier ++ input :: later → key input = k →
        machine.emit (machine.after full earlier) input =
          machine.emit (machine.after alone (earlier.filter fun input => key input = k)) input := by
  induction inputs generalizing full alone with
  | nil => simp
  | cons first inputs ih =>
      rw [forall_split_cons_iff fun earlier input => key input = k → _]
      by_cases hkey : key first = k
      · have htagFirst : tag (machine.emit full first) = k := by rw [htag, hkey]
        rw [emitted_cons, List.filter_cons_of_pos (by simpa using htagFirst),
          List.filter_cons_of_pos (by simpa using hkey), emitted_cons, List.cons.injEq, ih]
        simp [hkey]
      · have htagFirst : ¬tag (machine.emit full first) = k := by rw [htag]; exact hkey
        rw [emitted_cons, List.filter_cons_of_neg (by simpa using htagFirst),
          List.filter_cons_of_neg (by simpa using hkey), ih]
        simp [hkey]

/-! ### Simulation with idle inputs

One machine refines another when each of its inputs either is an input of the other, and then both
do the same, or changes nothing and emits nothing. -/

/-- `view` is what the abstract machine sees of a state, `filter` what it sees of an input. -/
structure Refines {τ : Type*} (concrete : Mealy σ ι (List ω)) (abstract : Mealy τ κ ω)
    (view : σ → τ) (filter : ι → Option κ) : Prop where
  idle : ∀ state input, filter input = none →
    view (concrete.next state input) = view state ∧ concrete.emit state input = []
  active : ∀ state input seen, filter input = some seen →
    view (concrete.next state input) = abstract.next (view state) seen ∧
      concrete.emit state input = [abstract.emit (view state) seen]

section Refinement

variable {τ : Type*} {concrete : Mealy σ ι (List ω)} {abstract : Mealy τ κ ω}
  {view : σ → τ} {filter : ι → Option κ}

theorem Refines.view_after (h : concrete.Refines abstract view filter) (state : σ)
    (inputs : List ι) :
    view (concrete.after state inputs) = abstract.after (view state) (inputs.filterMap filter) := by
  induction inputs generalizing state with
  | nil => rfl
  | cons input inputs ih =>
      cases hfilter : filter input with
      | none =>
          rw [after_cons, ih, (h.idle state input hfilter).1, List.filterMap_cons_none hfilter]
      | some seen =>
          rw [after_cons, ih, (h.active state input seen hfilter).1,
            List.filterMap_cons_some hfilter, after_cons]

theorem Refines.flatten_emitted (h : concrete.Refines abstract view filter) (state : σ)
    (inputs : List ι) :
    (concrete.emitted state inputs).flatten =
      abstract.emitted (view state) (inputs.filterMap filter) := by
  induction inputs generalizing state with
  | nil => rfl
  | cons input inputs ih =>
      rw [emitted_cons, List.flatten_cons, ih]
      cases hfilter : filter input with
      | none =>
          obtain ⟨hview, hemit⟩ := h.idle state input hfilter
          rw [hview, hemit, List.filterMap_cons_none hfilter, List.nil_append]
      | some seen =>
          obtain ⟨hview, hemit⟩ := h.active state input seen hfilter
          rw [hview, hemit, List.filterMap_cons_some hfilter, emitted_cons, List.singleton_append]

/-- The abstract machine on the inputs of the concrete one, with what it does for each of them. -/
def filtered (abstract : Mealy τ κ ω) (filter : ι → Option κ) : Mealy τ ι (List ω) where
  next := fun state input => (filter input).elim state (abstract.next state)
  emit := fun state input => ((filter input).map (abstract.emit state)).toList

theorem Refines.step (h : concrete.Refines abstract view filter) (state : σ) (input : ι) :
    view (concrete.next state input) = (abstract.filtered filter).next (view state) input ∧
      concrete.emit state input = (abstract.filtered filter).emit (view state) input := by
  cases hfilter : filter input with
  | none =>
      simp only [filtered, hfilter]
      exact h.idle state input hfilter
  | some seen =>
      simp only [filtered, hfilter]
      exact h.active state input seen hfilter

theorem filtered_refines (abstract : Mealy τ κ ω) (filter : ι → Option κ) :
    (abstract.filtered filter).Refines abstract id filter where
  idle := fun state input hfilter => by
    simp only [filtered, hfilter]
    exact ⟨rfl, rfl⟩
  active := fun state input seen hfilter => by
    simp only [filtered, hfilter]
    exact ⟨rfl, rfl⟩

end Refinement

end Mealy
