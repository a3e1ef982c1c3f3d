import FiraClient.Proof.Envelope

/-!
# Interference between robots

`PID` is told which robot it drives, but remembers one error for all of them. The command of a robot
is the one it would get alone exactly when the error of whichever robot was driven last and the error
of its own last call give the same control value after the clamp.
-/

namespace FiraClient

def lastErrorOf (inputs : List (PidInput ℚ)) : ℚ :=
  (inputs.getLast?.map PidInput.error).getD 0

/-- Two remembered errors that make no difference to a call with this error: they are equal, or the
error is so large against both that the control value is clamped at the same end. -/
def SameControl (error first second : ℚ) : Prop :=
  first = second ∨
    (first + 12 ≤ 9 * error ∧ second + 12 ≤ 9 * error) ∨
    (9 * error ≤ first - 12 ∧ 9 * error ≤ second - 12)

theorem pid_after_eq (inputs : List (PidInput ℚ)) :
    pid.after initialError inputs = lastErrorOf inputs := by
  rcases List.eq_nil_or_concat inputs with rfl | ⟨earlier, last, rfl⟩
  · rfl
  · simp [lastErrorOf, pid]

theorem normalize_eq_high_iff (value : ℚ) : normalize value = 30 ↔ 30 ≤ value := by
  rw [normalize_eq]
  constructor
  · intro heq
    by_contra hlt
    push Not at hlt
    have hclamped : max (-30) (min 30 value) < 30 :=
      max_lt (by norm_num) (lt_of_le_of_lt (min_le_right _ _) hlt)
    linarith
  · intro hle
    rw [min_eq_left hle]
    norm_num

theorem normalize_eq_low_iff (value : ℚ) : normalize value = -30 ↔ value ≤ -30 := by
  rw [normalize_eq]
  constructor
  · intro heq
    by_contra hlt
    push Not at hlt
    have hclamped : -30 < max (-30) (min 30 value) :=
      lt_max_of_lt_right (lt_min (by norm_num) hlt)
    linarith
  · intro hle
    exact max_eq_left ((min_le_right _ _).trans hle)

theorem normalize_of_between {value : ℚ} (hlow : ¬value ≤ -30) (hhigh : ¬30 ≤ value) :
    normalize value = value := by
  rw [normalize_eq, min_eq_right (not_le.mp hhigh).le, max_eq_right (not_le.mp hlow).le]

theorem normalize_eq_iff (first second : ℚ) :
    normalize first = normalize second ↔
      first = second ∨ (30 ≤ first ∧ 30 ≤ second) ∨ (first ≤ -30 ∧ second ≤ -30) := by
  constructor
  · intro heq
    by_cases hhigh : 30 ≤ first
    · have hsecond := (normalize_eq_high_iff second).mp
        (heq ▸ (normalize_eq_high_iff first).mpr hhigh)
      exact Or.inr (Or.inl ⟨hhigh, hsecond⟩)
    by_cases hlow : first ≤ -30
    · have hsecond := (normalize_eq_low_iff second).mp
        (heq ▸ (normalize_eq_low_iff first).mpr hlow)
      exact Or.inr (Or.inr ⟨hlow, hsecond⟩)
    have hhigh' : ¬30 ≤ second := fun hsecond =>
      hhigh ((normalize_eq_high_iff first).mp
        (heq.trans ((normalize_eq_high_iff second).mpr hsecond)))
    have hlow' : ¬second ≤ -30 := fun hsecond =>
      hlow ((normalize_eq_low_iff first).mp (heq.trans ((normalize_eq_low_iff second).mpr hsecond)))
    rw [normalize_of_between hlow hhigh, normalize_of_between hlow' hhigh'] at heq
    exact Or.inl heq
  · rintro (rfl | ⟨hfirst, hsecond⟩ | ⟨hfirst, hsecond⟩)
    · rfl
    · rw [(normalize_eq_high_iff first).mpr hfirst, (normalize_eq_high_iff second).mpr hsecond]
    · rw [(normalize_eq_low_iff first).mpr hfirst, (normalize_eq_low_iff second).mpr hsecond]

theorem sameControl_iff (error first second : ℚ) :
    SameControl error first second ↔
      normalize (motorSpeed error first) = normalize (motorSpeed error second) := by
  have hequal : motorSpeed error first = motorSpeed error second ↔ first = second := by
    simp [motorSpeed]
  have hhigh (lastError : ℚ) : 30 ≤ motorSpeed error lastError ↔ lastError + 12 ≤ 9 * error := by
    simp only [motorSpeed, lit_rat]
    constructor <;> intro hle <;> linarith
  have hlow (lastError : ℚ) : motorSpeed error lastError ≤ -30 ↔ 9 * error ≤ lastError - 12 := by
    simp only [motorSpeed, lit_rat]
    constructor <;> intro hle <;> linarith
  rw [normalize_eq_iff, hequal, hhigh, hhigh, hlow, hlow, SameControl]

theorem pidCommand_eq_iff (first second : ℚ) (input : PidInput ℚ) :
    pidCommand first input = pidCommand second input ↔ SameControl input.error first second := by
  rw [sameControl_iff]
  constructor
  · intro heq
    rw [← pidCommand_difference, ← pidCommand_difference, heq]
  · intro heq
    simp only [pidCommand, heq]

/-- **One memory for all robots.** In a run every robot gets the commands it would get alone exactly
when, at each of its calls, the error left by the previous call of any robot and the error left by
the previous call of its own make no difference to the control value. -/
theorem commands_independent_iff (inputs : List (PidInput ℚ)) :
    (∀ index : Int32,
      (pid.emitted initialError inputs).filter (fun command => command.index = index) =
        pid.emitted initialError (inputs.filter fun input => input.index = index)) ↔
      ∀ earlier input later, inputs = earlier ++ input :: later →
        SameControl input.error (lastErrorOf earlier)
          (lastErrorOf (earlier.filter fun other => other.index = input.index)) := by
  have hindex (index : Int32) := pid.filter_emitted_eq_iff PidInput.index WheelCommand.index
    (fun _ _ => rfl) index (initialError : ℚ) initialError inputs
  simp only [hindex, pid_after_eq]
  constructor
  · intro h earlier input later hinputs
    exact (pidCommand_eq_iff _ _ _).mp (h input.index earlier input later hinputs rfl)
  · rintro h index earlier input later hinputs rfl
    exact (pidCommand_eq_iff _ _ _).mpr (h earlier input later hinputs)

/-- Robot 1 faces its objective and would drive straight on; the error of robot 0 turns it. -/
theorem commands_not_independent :
    let first : PidInput ℚ := { heading := 1, bearing := 0, index := 0 }
    let second : PidInput ℚ := { heading := 0, bearing := 0, index := 1 }
    (pid.emitted initialError [first, second]).filter (fun command => command.index = 1) ≠
      pid.emitted initialError ([first, second].filter fun input => input.index = 1) := by
  decide +kernel

end FiraClient
