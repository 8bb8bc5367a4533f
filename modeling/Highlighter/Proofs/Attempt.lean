import Mathlib

/-!
# Attempts

An attempt gives a value or fails with a problem. One that is followed by another gives what the
latter makes of the value of the former, or fails with the problem of the first that fails.
-/

namespace Highlighter.Attempt

variable {Input Output Problem : Type}

/-- Two attempts succeed one after the other if each of them does. -/
theorem bind_eq_ok_iff {first : Except Problem Input} {next : Input → Except Problem Output}
    {output : Output} :
    first >>= next = .ok output ↔ ∃ input, first = .ok input ∧ next input = .ok output := by
  cases first with
  | error problem => simp [Bind.bind, Except.bind]
  | ok input => simp [Bind.bind, Except.bind]

/-- They fail with the problem of the former, or with that of the latter. -/
theorem bind_eq_error_iff {first : Except Problem Input} {next : Input → Except Problem Output}
    {problem : Problem} :
    first >>= next = .error problem ↔
      first = .error problem ∨ ∃ input, first = .ok input ∧ next input = .error problem := by
  cases first with
  | error problem => simp [Bind.bind, Except.bind]
  | ok input => simp [Bind.bind, Except.bind]

/-- An attempt whose value is changed succeeds if it does. -/
theorem map_eq_ok_iff {first : Except Problem Input} {change : Input → Output} {output : Output} :
    first.map change = .ok output ↔ ∃ input, first = .ok input ∧ change input = output := by
  cases first with
  | error problem => simp [Except.map]
  | ok input => simp [Except.map]

/-- An attempt whose problem is put in other words succeeds if it does. -/
theorem map_error_eq_ok_iff {Other : Type} {attempt : Except Problem Output}
    {change : Problem → Other} {output : Output} :
    attempt.mapError change = .ok output ↔ attempt = .ok output := by
  cases attempt <;> simp [Except.mapError]

/-- Two attempts agree if they fail with the same problem, or succeed with values that look alike. -/
def Agree {View : Type} (view : Output → View) (first second : Except Problem Output) : Prop :=
  first.map view = second.map view

/-- Attempts that agree fail together or succeed together. -/
theorem Agree.cases {View : Type} {view : Output → View} {first second : Except Problem Output}
    (agree : Agree view first second) :
    (∃ problem, first = .error problem ∧ second = .error problem) ∨
      ∃ former latter, first = .ok former ∧ second = .ok latter ∧ view former = view latter := by
  unfold Agree at agree
  cases first <;> cases second <;> simp_all [Except.map]

/-- Attempts that follow one another agree if the first ones do, and then the second ones. -/
theorem Agree.bind {View Outlook : Type} {view : Input → View} {outlook : Output → Outlook}
    {first second : Except Problem Input} {next other : Input → Except Problem Output}
    (begun : Agree view first second)
    (onward : ∀ former latter, view former = view latter →
      Agree outlook (next former) (other latter)) :
    Agree outlook (first >>= next) (second >>= other) := by
  rcases begun.cases with ⟨_, rfl, rfl⟩ | ⟨former, latter, rfl, rfl, same⟩
  · rfl
  · exact onward former latter same

/-- If each of a list of attempts succeeds, the values stand in the order of the list. -/
theorem results_of_map {step : Input → Except Problem Output} {inputs : List Input}
    {outputs : List Output} (succeeded : inputs.mapM step = .ok outputs) :
    List.Forall₂ (fun input output => step input = .ok output) inputs outputs := by
  induction inputs generalizing outputs with
  | nil =>
    obtain rfl : [] = outputs := Except.ok.inj succeeded
    exact .nil
  | cons input others induction =>
    rw [List.mapM_cons] at succeeded
    obtain ⟨output, first, succeeded⟩ := bind_eq_ok_iff.mp succeeded
    obtain ⟨results, rest, succeeded⟩ := bind_eq_ok_iff.mp succeeded
    obtain rfl : output :: results = outputs := Except.ok.inj succeeded
    exact .cons first (induction rest)

/-- An attempt for each of some inputs, which are known to be among them. -/
theorem attach_map_m (inputs : List Input) (step : Input → Except Problem Output) :
    (inputs.attach.mapM fun input => step input.1) = inputs.mapM step := by
  rw [List.mapM_subtype fun _ _ => rfl, List.unattach_attach]

end Highlighter.Attempt
