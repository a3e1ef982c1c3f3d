import Mathlib.Data.List.Induction

/-!
# Programs that call an environment

A program over an interface makes calls and continues with the answers. Nothing is assumed of the
environment: a `World` answers each call knowing everything that was called and answered before, so
a statement about every world is a statement about every combination of outcomes. A run returns the
program's value and the history it leaves.

`Runs` is the same without the world: a value and a trace the program may leave when any call may
get any answer. A run in a world is one of these, and a program is taken apart by its `Runs`.
-/

structure Interface where
  Call : Type
  Answer : Call → Type

namespace Interaction

variable {I : Interface} {α β : Type}

structure Event (I : Interface) where
  call : I.Call
  answer : I.Answer call

instance [DecidableEq I.Call] [∀ call, DecidableEq (I.Answer call)] : DecidableEq (Event I)
  | ⟨call, answer⟩, ⟨call', answer'⟩ =>
      if hcall : call = call' then
        match call', answer', hcall with
        | _, answer', rfl => decidable_of_iff (answer = answer') (by simp)
      else
        isFalse fun hevent => hcall (congrArg Event.call hevent)

abbrev History (I : Interface) := List (Event I)

inductive Prog (I : Interface) (α : Type) where
  | ret (value : α)
  | request (call : I.Call) (next : I.Answer call → Prog I α)

def Prog.bind : Prog I α → (α → Prog I β) → Prog I β
  | .ret value, rest => rest value
  | .request call next, rest => .request call fun answer => (next answer).bind rest

instance : Monad (Prog I) where
  pure := Prog.ret
  bind := Prog.bind

@[simp]
def perform (call : I.Call) : Prog I (I.Answer call) := .request call .ret

/-- A call made only under a condition, whose answer is not looked at. -/
def performIf (condition : Prop) [Decidable condition] (call : I.Call) : Prog I Unit :=
  if condition then .request call fun _ => .ret () else .ret ()

def runAll {σ ι : Type} (exec : σ → ι → Prog I σ) : σ → List ι → Prog I σ
  | state, [] => pure state
  | state, operation :: operations => do
      let state ← exec state operation
      runAll exec state operations

/-! ### Runs -/

def World (I : Interface) := History I → (call : I.Call) → I.Answer call

def Prog.run (world : World I) : Prog I α → History I → α × History I
  | .ret value, history => (value, history)
  | .request call next, history =>
      (next (world history call)).run world (history ++ [⟨call, world history call⟩])

inductive Runs : Prog I α → α → History I → Prop where
  | ret (value : α) : Runs (.ret value) value []
  | request {call : I.Call} {next : I.Answer call → Prog I α} {value : α} {trace : History I}
      (answer : I.Answer call) (rest : Runs (next answer) value trace) :
      Runs (.request call next) value (⟨call, answer⟩ :: trace)

theorem exists_runs_run (world : World I) (program : Prog I α) (history : History I) :
    ∃ trace, Runs program (program.run world history).1 trace ∧
      (program.run world history).2 = history ++ trace := by
  induction program generalizing history with
  | ret value => exact ⟨[], .ret value, (List.append_nil history).symm⟩
  | request call next ih =>
      obtain ⟨trace, hruns, hhistory⟩ :=
        ih (world history call) (history ++ [⟨call, world history call⟩])
      refine ⟨⟨call, world history call⟩ :: trace, .request _ hruns, ?_⟩
      rw [Prog.run, hhistory, List.append_assoc, List.singleton_append]

theorem runs_run_nil (world : World I) (program : Prog I α) :
    Runs program (program.run world []).1 (program.run world []).2 := by
  obtain ⟨trace, hruns, hhistory⟩ := exists_runs_run world program []
  rwa [hhistory, List.nil_append]

/-- Every event of a run is what the world answers to its call after the events before it. -/
theorem eq_of_run_append {world : World I} {program : Prog I α} {history earlier later : History I}
    {event : Event I}
    (hrun : (program.run world history).2 = history ++ (earlier ++ event :: later)) :
    event = ⟨event.call, world (history ++ earlier) event.call⟩ := by
  induction program generalizing history earlier with
  | ret value => simp [Prog.run] at hrun
  | request call next ih =>
      obtain ⟨trace, -, htrace⟩ :=
        exists_runs_run world (next (world history call))
          (history ++ [⟨call, world history call⟩])
      have hevents : earlier ++ event :: later = ⟨call, world history call⟩ :: trace := by
        rw [Prog.run, htrace, List.append_assoc] at hrun
        exact (List.append_cancel_left hrun).symm
      cases earlier with
      | nil =>
          obtain ⟨rfl, -⟩ := List.cons.inj hevents
          rw [List.append_nil]
      | cons first earlier =>
          obtain ⟨rfl, htail⟩ := List.cons.inj hevents
          rw [← htail] at htrace
          have hevent := ih (world history call) htrace
          rwa [List.append_assoc] at hevent

section Inversion

variable {value : α} {trace : History I}

@[simp]
theorem runs_ret {value' : α} :
    Runs (.ret value' : Prog I α) value trace ↔ value = value' ∧ trace = [] := by
  constructor
  · rintro ⟨⟩
    exact ⟨rfl, rfl⟩
  · rintro ⟨rfl, rfl⟩
    exact .ret _

@[simp]
theorem runs_pure {value' : α} :
    Runs (pure value' : Prog I α) value trace ↔ value = value' ∧ trace = [] := runs_ret

@[simp]
theorem runs_request {call : I.Call} {next : I.Answer call → Prog I α} :
    Runs (.request call next) value trace ↔
      ∃ answer rest, Runs (next answer) value rest ∧ trace = ⟨call, answer⟩ :: rest := by
  constructor
  · rintro (_ | ⟨answer, hrest⟩)
    exact ⟨answer, _, hrest, rfl⟩
  · rintro ⟨answer, rest, hrest, rfl⟩
    exact .request answer hrest

@[simp]
theorem runs_bind {program : Prog I α} {rest : α → Prog I β} {value : β} :
    Runs (program >>= rest) value trace ↔
      ∃ middle first, Runs program middle first ∧
        ∃ second, Runs (rest middle) value second ∧ trace = first ++ second := by
  change Runs (program.bind rest) value trace ↔ _
  induction program generalizing trace with
  | ret middle => simp [Prog.bind]
  | request call next ih =>
      simp only [Prog.bind, runs_request, ih]
      constructor
      · rintro ⟨answer, _, ⟨middle, first, hfirst, second, hsecond, rfl⟩, rfl⟩
        exact ⟨middle, _, ⟨answer, first, hfirst, rfl⟩, second, hsecond, rfl⟩
      · rintro ⟨middle, _, ⟨answer, first, hfirst, rfl⟩, second, hsecond, rfl⟩
        exact ⟨answer, _, ⟨middle, first, hfirst, second, hsecond, rfl⟩, rfl⟩

theorem runs_bind_pure {program : Prog I α} {result : α → β} {value : β} :
    Runs (program >>= fun middle => pure (result middle)) value trace ↔
      ∃ middle, Runs program middle trace ∧ value = result middle := by
  simp

def Calls (call : I.Call) (trace : History I) : Prop := ∃ answer, trace = [⟨call, answer⟩]

def CallsIf (condition : Prop) (call : I.Call) (trace : History I) : Prop :=
  (condition ∧ Calls call trace) ∨ (¬condition ∧ trace = [])

theorem Calls.forall_mem {call : I.Call} {property : Event I → Prop} (hcalls : Calls call trace)
    (hproperty : ∀ answer, property ⟨call, answer⟩) : ∀ event ∈ trace, property event := by
  obtain ⟨answer, rfl⟩ := hcalls
  exact List.forall_mem_singleton.mpr (hproperty answer)

@[simp]
theorem runs_performIf {condition : Prop} [Decidable condition] {call : I.Call} {value : Unit} :
    Runs (performIf condition call) value trace ↔ CallsIf condition call trace := by
  by_cases hcondition : condition
  · simp [hcondition, performIf, CallsIf, Calls]
  · simp [hcondition, performIf, CallsIf]

theorem CallsIf.forall_mem {condition : Prop} {call : I.Call} {property : Event I → Prop}
    (hcalls : CallsIf condition call trace) (hproperty : ∀ answer, property ⟨call, answer⟩) :
    ∀ event ∈ trace, property event := by
  rcases hcalls with ⟨-, hcalls⟩ | ⟨-, rfl⟩
  · exact hcalls.forall_mem hproperty
  · exact List.forall_mem_nil _

end Inversion

section Invariants

variable {σ ι : Type} {exec : σ → ι → Prog I σ} (invariant : σ → History I → Prop)
  (hexec : ∀ state operation history next trace, invariant state history →
    Runs (exec state operation) next trace → invariant next (history ++ trace))

include hexec

theorem Runs.runAll_append {operations : List ι} {state final : σ} {history trace : History I}
    (hinvariant : invariant state history)
    (hruns : Runs (runAll exec state operations) final trace) :
    invariant final (history ++ trace) := by
  induction operations generalizing state history trace with
  | nil =>
      obtain ⟨rfl, rfl⟩ := runs_pure.mp hruns
      rwa [List.append_nil]
  | cons operation operations ih =>
      obtain ⟨next, first, hfirst, second, hsecond, rfl⟩ := runs_bind.mp hruns
      rw [← List.append_assoc]
      exact ih (hexec _ _ _ _ _ hinvariant hfirst) hsecond

/-- **The invariant rule.** What every operation preserves holds after any operations. -/
theorem Runs.runAll {operations : List ι} {state final : σ} {trace : History I}
    (hinvariant : invariant state [])
    (hruns : Runs (Interaction.runAll exec state operations) final trace) :
    invariant final trace :=
  Runs.runAll_append invariant hexec hinvariant hruns

end Invariants

/-! ### Executions

A run of operations, one after another, that keeps what each of them did. -/

structure Step (I : Interface) (σ ι ρ : Type) where
  before : σ
  operation : ι
  result : ρ
  trace : History I
  after : σ

section Execution

variable {σ ι ρ : Type}

/-- The executions from a state, whatever the calls answer. -/
inductive Execution (exec : σ → ι → Prog I (ρ × σ)) (start : σ) :
    List (Step I σ ι ρ) → σ → Prop where
  | start : Execution exec start [] start
  | step {steps : List (Step I σ ι ρ)} {before after : σ} {operation : ι} {result : ρ}
      {trace : History I} (earlier : Execution exec start steps before)
      (hruns : Runs (exec before operation) (result, after) trace) :
      Execution exec start (steps ++ [⟨before, operation, result, trace, after⟩]) after

/-- The step an operation takes in a world. -/
def Step.take (exec : σ → ι → Prog I (ρ × σ)) (world : World I) (before : σ) (operation : ι) :
    Step I σ ι ρ :=
  let run := (exec before operation).run world []
  ⟨before, operation, run.1.1, run.2, run.1.2⟩

def execute (exec : σ → ι → Prog I (ρ × σ)) (world : World I) (start : σ) (operations : List ι) :
    List (Step I σ ι ρ) × σ :=
  operations.foldl (fun reached operation =>
    let step := Step.take exec world reached.2 operation
    (reached.1 ++ [step], step.after)) ([], start)

variable {exec : σ → ι → Prog I (ρ × σ)}

theorem execution_execute (world : World I) (start : σ) (operations : List ι) :
    Execution exec start (execute exec world start operations).1
      (execute exec world start operations).2 := by
  induction operations using List.reverseRecOn with
  | nil => exact .start
  | append_singleton operations operation ih =>
      rw [execute, List.foldl_append]
      exact .step ih (runs_run_nil world _)

theorem forall_mem_run {property : Event I → Prop} {world : World I}
    (hworld : ∀ history call, property ⟨call, world history call⟩) (program : Prog I α)
    {history : History I} (hhistory : ∀ event ∈ history, property event) :
    ∀ event ∈ (program.run world history).2, property event := by
  induction program generalizing history with
  | ret value => exact hhistory
  | request call next ih =>
      apply ih
      exact List.forall_mem_append.mpr
        ⟨hhistory, List.forall_mem_singleton.mpr (hworld history call)⟩

theorem forall_mem_execute {property : Event I → Prop} {world : World I}
    (hworld : ∀ history call, property ⟨call, world history call⟩) (start : σ)
    (operations : List ι) :
    ∀ step ∈ (execute exec world start operations).1, ∀ event ∈ step.trace, property event := by
  induction operations using List.reverseRecOn with
  | nil => exact List.forall_mem_nil _
  | append_singleton operations operation ih =>
      rw [execute, List.foldl_append]
      exact List.forall_mem_append.mpr ⟨ih, List.forall_mem_singleton.mpr
        (forall_mem_run hworld _ (List.forall_mem_nil _))⟩

/-- **The invariant rule for executions**, for an invariant the allowed steps preserve. -/
theorem Execution.induction {start : σ} (invariant : σ → Prop)
    (allowed : Step I σ ι ρ → Prop) (hstart : invariant start)
    (hstep : ∀ step, allowed step → invariant step.before →
      Runs (exec step.before step.operation) (step.result, step.after) step.trace →
      invariant step.after)
    {steps : List (Step I σ ι ρ)} {final : σ} (hexecution : Execution exec start steps final)
    (hallowed : ∀ step ∈ steps, allowed step) : invariant final := by
  induction hexecution with
  | start => exact hstart
  | step earlier hruns ih =>
      obtain ⟨hearlier, hlast⟩ := List.forall_mem_append.mp hallowed
      exact hstep _ (List.forall_mem_singleton.mp hlast) (ih hearlier) hruns

theorem forall_prefix_concat {property : List α → α → Prop} {items : List α} {last : α} :
    (∀ earlier item, earlier ++ [item] <+: items ++ [last] → property earlier item) ↔
      (∀ earlier item, earlier ++ [item] <+: items → property earlier item) ∧
        property items last := by
  constructor
  · intro hall
    refine ⟨fun earlier item hprefix => hall earlier item ?_, hall items last List.prefix_rfl⟩
    exact hprefix.trans (List.prefix_append items [last])
  · rintro ⟨hearlier, hlast⟩ earlier item hprefix
    rcases List.prefix_concat_iff.mp hprefix with heq | hprefix
    · obtain ⟨rfl, hitem⟩ := List.append_inj' heq rfl
      obtain rfl := List.singleton_inj.mp hitem
      exact hlast
    · exact hearlier earlier item hprefix

/-- **The exactness rule.** Where the invariant holds a step has the property exactly when it is
good, and a good step preserves the invariant. Then every step of an execution has the property
exactly when every one is good. -/
theorem Execution.forall_prefix_iff {start : σ} (invariant : List (Step I σ ι ρ) → σ → Prop)
    (allowed good : Step I σ ι ρ → Prop)
    (property : List (Step I σ ι ρ) → Step I σ ι ρ → Prop) (hstart : invariant [] start)
    (hexact : ∀ earlier step, allowed step → invariant earlier step.before →
      Runs (exec step.before step.operation) (step.result, step.after) step.trace →
      (property earlier step ↔ good step))
    (hstep : ∀ earlier step, property earlier step → invariant (earlier ++ [step]) step.after)
    {steps : List (Step I σ ι ρ)} {final : σ} (hexecution : Execution exec start steps final)
    (hallowed : ∀ step ∈ steps, allowed step) :
    (∀ earlier step, earlier ++ [step] <+: steps → property earlier step) ↔
      ∀ step ∈ steps, good step := by
  suffices h : ((∀ earlier step, earlier ++ [step] <+: steps → property earlier step) ↔
      ∀ step ∈ steps, good step) ∧ ((∀ step ∈ steps, good step) → invariant steps final) from h.1
  induction hexecution with
  | start => simpa using hstart
  | @step steps before after operation result trace earlier hruns ih =>
      obtain ⟨hearlier, hlast⟩ := List.forall_mem_append.mp hallowed
      obtain ⟨hall, hinvariant⟩ := ih hearlier
      have hexact' := fun hgood => hexact steps ⟨before, operation, result, trace, after⟩
        (List.forall_mem_singleton.mp hlast) (hinvariant hgood) hruns
      rw [forall_prefix_concat, List.forall_mem_append, List.forall_mem_singleton, hall]
      refine ⟨and_congr_right hexact', ?_⟩
      rintro ⟨hgood, hgoodLast⟩
      exact hstep _ _ ((hexact' hgood).mpr hgoodLast)

end Execution

/-! ### Monitors -/

/-- A state updated by the events of a history, and the events it allows. -/
structure Monitor (I : Interface) (σ : Type) where
  step : σ → Event I → σ
  Allowed : σ → Event I → Prop

namespace Monitor

variable {σ : Type} (monitor : Monitor I σ)

def after (state : σ) (history : History I) : σ := history.foldl monitor.step state

def Accepts : σ → History I → Prop
  | _, [] => True
  | state, event :: history =>
      monitor.Allowed state event ∧ Accepts (monitor.step state event) history

@[simp]
theorem after_nil (state : σ) : monitor.after state [] = state := rfl

@[simp]
theorem after_cons (state : σ) (event : Event I) (history : History I) :
    monitor.after state (event :: history) =
      monitor.after (monitor.step state event) history := rfl

@[simp]
theorem after_append (state : σ) (first second : History I) :
    monitor.after state (first ++ second) = monitor.after (monitor.after state first) second :=
  List.foldl_append

@[simp]
theorem accepts_nil (state : σ) : monitor.Accepts state [] := trivial

@[simp]
theorem accepts_cons (state : σ) (event : Event I) (history : History I) :
    monitor.Accepts state (event :: history) ↔
      monitor.Allowed state event ∧ monitor.Accepts (monitor.step state event) history := Iff.rfl

@[simp]
theorem accepts_append (state : σ) (first second : History I) :
    monitor.Accepts state (first ++ second) ↔
      monitor.Accepts state first ∧ monitor.Accepts (monitor.after state first) second := by
  induction first generalizing state with
  | nil => simp
  | cons event first ih => simp [ih, and_assoc]

instance decidableAccepts [∀ state event, Decidable (monitor.Allowed state event)] :
    (state : σ) → (history : History I) → Decidable (monitor.Accepts state history)
  | _, [] => .isTrue trivial
  | state, event :: history =>
      have := decidableAccepts (monitor.step state event) history
      inferInstanceAs (Decidable (_ ∧ _))

theorem after_accepts_of_passes {state : σ} {history : History I}
    (hpasses : ∀ event ∈ history, monitor.step state event = state ∧
      monitor.Allowed state event) :
    monitor.after state history = state ∧ monitor.Accepts state history := by
  induction history with
  | nil => exact ⟨rfl, trivial⟩
  | cons event history ih =>
      obtain ⟨hevent, hrest⟩ := List.forall_mem_cons.mp hpasses
      obtain ⟨hafter, haccepts⟩ := ih hrest
      rw [after_cons, accepts_cons, hevent.1]
      exact ⟨hafter, hevent.2, haccepts⟩

end Monitor

/-! ### Programs side by side

The calls of several programs that run at once, in the order in which they are made. -/

section Parties

variable {P : Type}

/-- The interface with every call marked with the program that makes it. -/
abbrev labelled (I : Interface) (P : Type) : Interface :=
  ⟨P × I.Call, fun call => I.Answer call.2⟩

def Event.labelled (party : P) (event : Event I) : Event (labelled I P) :=
  ⟨(party, event.call), event.answer⟩

variable [DecidableEq P] {party : P}

def partOf (party : P) (event : Event (labelled I P)) : Option (Event I) :=
  if event.call.1 = party then some ⟨event.call.2, event.answer⟩ else none

/-- What one of the programs has called. -/
def part (party : P) (history : History (labelled I P)) : History I :=
  history.filterMap (partOf party)

theorem partOf_eq_some {event : Event (labelled I P)} {own : Event I} :
    partOf party event = some own ↔ event = own.labelled party := by
  unfold partOf Event.labelled
  constructor
  · intro howned
    split at howned
    · rename_i hparty
      subst hparty
      obtain rfl := Option.some.inj howned
      rfl
    · cases howned
  · rintro rfl
    exact if_pos rfl

theorem mem_part {event : Event I} {history : History (labelled I P)} :
    event ∈ part party history ↔ event.labelled party ∈ history := by
  simp only [part, List.mem_filterMap, partOf_eq_some, exists_eq_right]

end Parties

end Interaction
