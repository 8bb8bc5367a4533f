import Highlighter.Proofs.Attempt
import Highlighter.Regex.Compile

/-!
# What compiling looks at

Whether an expression has a matcher does not depend on what its sets hold and which conditions it
has, but for two things: the sets count for the bytes that an automaton takes, and conditions on words
are asked for by themselves. The `outline` of an expression is what is left without the sets, with
one condition of either kind. Two expressions of one outline are both compiled or both refused, unless
one of them is too large, see `matcher_of_outline`.
-/

namespace Highlighter.Regex

/-- No class takes fewer bytes than a state. -/
theorem CharClass.state_bytes_le_memory (set : CharClass) : stateBytes ≤ set.memory := by
  induction set with
  | nothing => exact Nat.le_refl _
  | range first last =>
    have encoded : 1 ≤ first.utf8Size := first.utf8Size_pos
    simp only [memory]
    split
    · exact Nat.le_mul_of_pos_right _ encoded
    · split <;> simp [stateBytes]
  | having property => cases property <;> simp [memory, stateBytes]
  | union | symmetricDifference | intersection | difference | complement | caseClosure =>
    simp only [memory]
    omega

namespace Expr

/-- The expression with all that may differ between two expressions of one shape made equal. Of a set
it only tells whether it makes sense. -/
@[simp] def outline : Expr → Expr
  | empty => empty
  | one set => one (set.map fun _ => .single 'a')
  | assertion condition => assertion (if condition.concernsWords then .wordBoundary else .textStart)
  | sequence first second => sequence first.outline second.outline
  | either first second => either first.outline second.outline
  | repetition body least most greedy => repetition body.outline least most greedy
  | capture number body => capture number body.outline
  | group body => group body.outline
  | look direction negated body => look direction negated body.outline
  | atomic body => atomic body.outline
  | reference number => reference number

variable (expression : Expr)

@[simp] theorem minimal_length_outline : expression.outline.minimalLength = expression.minimalLength := by
  induction expression <;> simp_all [minimalLength]

@[simp] theorem fixed_length_outline : expression.outline.fixedLength = expression.fixedLength := by
  induction expression <;> simp_all [fixedLength]

@[simp] theorem consumes_nothing_outline :
    expression.outline.consumesNothing = expression.consumesNothing := by
  induction expression <;> simp_all [consumesNothing]

@[simp] theorem references_outline : expression.outline.references = expression.references := by
  induction expression <;> simp_all [references]

@[simp] theorem needs_choices_outline (referred : List Nat) :
    expression.outline.needsChoices referred = expression.needsChoices referred := by
  induction expression <;> simp_all [needsChoices]

@[simp] theorem asks_for_words_outline : expression.outline.asksForWords = expression.asksForWords := by
  induction expression with
  | assertion condition => cases condition <;> rfl
  | _ => simp_all [asksForWords]

@[simp] theorem plain_outline (referred : List Nat) :
    expression.outline.plain referred = expression.plain referred := by
  simp [plain]

/-- The outline of what is spelled out is spelled out. -/
theorem spelled_out_outline (spelled : expression.spelledOut) : expression.outline.spelledOut := by
  induction expression with
  | one set =>
    cases set with
    | none => cases spelled
    | some set => rfl
  | sequence first second former latter =>
    obtain ⟨begun, ended⟩ := Bool.and_eq_true_iff.mp spelled
    exact Bool.and_eq_true_iff.mpr ⟨former begun, latter ended⟩
  | group body induction => exact induction spelled
  | _ => cases spelled

@[simp] theorem checked_groups_outline (begun : Nat) :
    expression.outline.checkedGroups begun = expression.checkedGroups begun := by
  induction expression generalizing begun <;> simp_all [checkedGroups]

@[simp] theorem malformed_outline : expression.outline.malformed = expression.malformed := by
  induction expression <;> simp_all [malformed]

@[simp] theorem repeatable_outline : expression.outline.repeatable = expression.repeatable := by
  cases expression <;> rfl

theorem parts_outline : expression.outline.parts = expression.parts.map outline := by
  induction expression <;> simp_all [parts]

theorem options_outline : expression.outline.options = expression.options.map outline := by
  induction expression <;> simp_all [options]

theorem ungrouped_outline : expression.outline.ungrouped = expression.ungrouped.outline := by
  induction expression <;> simp_all [ungrouped]

theorem grouped_outline : expression.outline.grouped = expression.grouped.outline := by
  cases expression <;> rfl

theorem outline_eq_empty_iff : expression.outline = .empty ↔ expression = .empty := by
  cases expression <;> simp

theorem sequences_outline (parts : List Expr) :
    (sequences parts).outline = sequences (parts.map .outline) := by
  induction parts with
  | nil => rfl
  | cons part others induction =>
    cases others with
    | nil => rfl
    | cons next further => exact congrArg (sequence part.outline) induction

theorem alternatives_outline (options : List Expr) :
    (alternatives options).outline = alternatives (options.map outline) := by
  induction options with
  | nil => rfl
  | cons option others induction =>
    cases others with
    | nil => rfl
    | cons next further => exact congrArg (either option.outline) induction

/-- An expression takes no fewer bytes than its outline. -/
theorem memory_outline_le : expression.outline.memory ≤ expression.memory := by
  induction expression with
  | one set =>
    cases set with
    | none => exact Nat.le_refl _
    | some set => exact set.state_bytes_le_memory
  | empty | assertion | reference => exact Nat.le_refl _
  | sequence first second former latter | either first second former latter =>
    simp only [outline, memory]
    omega
  | capture _ body induction | group body induction | look _ _ body induction
  | atomic body induction =>
    simp only [outline, memory]
    omega
  | repetition body least most greedy induction =>
    simp only [outline, memory, consumes_nothing_outline]
    cases most with
    | none => exact Nat.add_le_add_right (Nat.mul_le_mul_left _ induction) _
    | some most =>
      exact Nat.add_le_add_right (Nat.add_le_add_right (Nat.mul_le_mul_left _ induction) _) _

end Expr

namespace Compile

variable {Input Output Value Other : Type}

/-- The attempt succeeds if and only if the other one does, or it asks for too large an
automaton. -/
def Parallels (attempt : Except Obstacle Output) (other : Except Obstacle Value) : Prop :=
  attempt = .error .tooLarge ∨ attempt.isOk = other.isOk

namespace Parallels

theorem ok (output : Output) (value : Value) :
    Parallels (.ok output : Except Obstacle Output) (.ok value : Except Obstacle Value) :=
  .inr rfl

theorem error (obstacle hindrance : Obstacle) :
    Parallels (.error obstacle : Except Obstacle Output)
      (.error hindrance : Except Obstacle Value) :=
  .inr rfl

/-- Two steps parallel two steps if the first do, and the second do behind them. -/
theorem bind {first : Except Obstacle Input} {other : Except Obstacle Other}
    {next : Input → Except Obstacle Output} {step : Other → Except Obstacle Value}
    (begun : Parallels first other) (onward : ∀ input start, Parallels (next input) (step start)) :
    Parallels (first >>= next) (other >>= step) := by
  rcases begun with rfl | same
  · exact .inl rfl
  · cases first <;> cases other
    · exact .inr rfl
    · cases same
    · cases same
    · exact onward _ _

theorem map {attempt : Except Obstacle Input} {other : Except Obstacle Other}
    (begun : Parallels attempt other) (change : Input → Output) (turn : Other → Value) :
    Parallels (attempt.map change) (other.map turn) := by
  rcases begun with rfl | same
  · exact .inl rfl
  · cases attempt <;> cases other
    · exact .inr rfl
    · cases same
    · cases same
    · exact .inr rfl

/-- A list of attempts parallels another one if each attempt parallels its partner. -/
theorem map_m {items : List Input} {turn : Input → Other} {step : Input → Except Obstacle Output}
    {other : Other → Except Obstacle Value}
    (each : ∀ item ∈ items, Parallels (step item) (other (turn item))) :
    Parallels (items.mapM step) ((items.map turn).mapM other) := by
  induction items with
  | nil => exact ok _ _
  | cons item items induction =>
    obtain ⟨first, others⟩ := List.forall_mem_cons.mp each
    rw [List.map_cons, List.mapM_cons, List.mapM_cons]
    exact first.bind fun _ _ => (induction others).bind fun _ _ => ok _ _

end Parallels

theorem check_outline (expression : Expr) :
    Parallels (check expression) (check expression.outline) := by
  have bytes := expression.memory_outline_le
  rw [check, check, Expr.malformed_outline]
  by_cases malformed : expression.malformed
  · rw [if_pos malformed, if_pos malformed]
    exact .error _ _
  · rw [if_neg malformed, if_neg malformed]
    by_cases large : memoryLimit < expression.memory
    · rw [if_pos large]
      exact .inl rfl
    · rw [if_neg large, if_neg (by omega)]
      exact .ok _ _

/-- What is spelled out makes sense. -/
theorem formed_of_spelled_out {expression : Expr} (spelled : expression.spelledOut) :
    expression.malformed = false := by
  induction expression with
  | one set =>
    cases set with
    | none => cases spelled
    | some set => rfl
  | sequence first second former latter =>
    obtain ⟨begun, ended⟩ := Bool.and_eq_true_iff.mp spelled
    exact Bool.or_eq_false_iff.mpr ⟨former begun, latter ended⟩
  | group body induction => exact induction spelled
  | _ => cases spelled

/-- Parts are settled as their outlines are, unless they are too large.

The outlines may be spelled out when the parts are not. Then the parts make sense, and only their
size can keep them from being settled. -/
theorem settled_outline (parts : List Expr) :
    Parallels (settled parts) (settled (parts.map .outline)) := by
  have whole := check_outline (.sequences parts)
  rw [Expr.sequences_outline] at whole
  by_cases spelled : parts.all Expr.spelledOut
  · have outlined : (parts.map .outline).all Expr.spelledOut := by
      rw [List.all_map]
      refine List.all_eq_true.mpr fun part listed => ?_
      exact part.spelled_out_outline (List.all_eq_true.mp spelled part listed)
    rw [settled, if_pos spelled, settled, if_pos outlined]
    exact .ok _ _
  · by_cases outlined : (parts.map .outline).all Expr.spelledOut
    · rw [settled, if_neg spelled, settled, if_pos outlined]
      have formed : (Expr.sequences parts).malformed = false := by
        rw [← Expr.malformed_outline, Expr.sequences_outline]
        refine Expr.sequences_of_parts (fun part => part.malformed = false) rfl
          (fun _ _ former latter => Bool.or_eq_false_iff.mpr ⟨former, latter⟩) fun part listed => ?_
        exact formed_of_spelled_out (List.all_eq_true.mp outlined part listed)
      cases checked : check (.sequences parts) with
      | ok => exact .ok _ _
      | error obstacle =>
        rw [check, formed, if_neg Bool.false_ne_true] at checked
        split at checked <;> cases checked
        exact .inl rfl
    · rw [settled, if_neg spelled, settled, if_neg outlined]
      exact whole.bind fun _ _ => .ok _ _

/-- A sequence is divided at the same places as its outline. -/
theorem divide_outline (referred : List Nat) (choicesFollow : Bool) (parts : List Expr) :
    divide referred choicesFollow (parts.map .outline) =
      let divided := divide referred choicesFollow parts
      (divided.1.map .outline, divided.2.1.map .outline, divided.2.2.map .outline) := by
  simp only [divide, List.takeWhile_map, List.length_map, ← List.map_drop, ← List.map_reverse,
    ← List.map_take, Function.comp_def, Expr.fixed_length_outline, Expr.plain_outline]

/-- An expression is made into a program as its outline is, unless it is too large.

Proof: induction over the size of the expression. Which way is gone is told by the shape alone. -/
theorem code_outline (referred : List Nat) (choicesFollow : Bool) (expression : Expr) :
    Parallels (code referred choicesFollow expression)
      (code referred choicesFollow expression.outline) := by
  generalize size : sizeOf expression = count
  induction count using Nat.strongRecOn generalizing choicesFollow expression with
  | ind count induction =>
    subst size
    have whole : Parallels ((settled [expression]).map Code.sequences)
        ((settled [expression.outline]).map Code.sequences) :=
      (settled_outline [expression]).map _ _
    by_cases settles : !choicesFollow && expression.plain referred
    · rw [code.eq_def, if_pos settles, code.eq_def, Expr.plain_outline, if_pos settles]
      exact whole
    · rw [code.eq_def, if_neg settles, code.eq_def, Expr.plain_outline, if_neg settles]
      cases expression with
      | empty | one set | assertion condition => exact whole
      | sequence first second =>
        simp only [Expr.outline, Attempt.attach_map_m, Expr.parts_outline, ← List.map_append, divide_outline]
        refine (settled_outline _).bind fun _ _ => ?_
        refine (Parallels.map_m fun part among => ?_).bind fun _ _ => ?_
        · refine induction _ ?_ _ _ rfl
          rw [Expr.sequence.sizeOf_spec]
          rcases List.mem_append.mp (mem_of_mem_divide among) with inFirst | inSecond
          · have bounded := Expr.sizeOf_of_mem_parts inFirst
            omega
          · have bounded := Expr.sizeOf_of_mem_parts inSecond
            omega
        · exact (settled_outline _).bind fun _ _ => .ok _ _
      | either first second =>
        rw [Expr.either.sizeOf_spec] at induction
        exact (induction _ (by omega) _ first rfl).bind fun _ _ =>
          (induction _ (by omega) _ second rfl).bind fun _ _ => .ok _ _
      | repetition body least most greedy =>
        rw [Expr.repetition.sizeOf_spec] at induction
        simp only [Expr.outline, Expr.plain_outline]
        exact (induction _ (by omega) _ body rfl).bind fun _ _ => .ok _ _
      | capture group body =>
        rw [Expr.capture.sizeOf_spec] at induction
        refine (induction _ (by omega) _ body rfl).bind fun _ _ => ?_
        exact .ok _ _
      | group body =>
        rw [Expr.group.sizeOf_spec] at induction
        exact induction _ (by omega) _ body rfl
      | atomic body =>
        rw [Expr.atomic.sizeOf_spec] at induction
        exact (induction _ (by omega) _ body rfl).bind fun _ _ => .ok _ _
      | reference group => exact .ok _ _
      | look direction negated body =>
        rw [Expr.look.sizeOf_spec] at induction
        cases direction with
        | ahead => exact (induction _ (by omega) _ body rfl).bind fun _ _ => .ok _ _
        | behind =>
          simp only [Expr.outline, Expr.fixed_length_outline, Expr.minimal_length_outline]
          split
          · exact (induction _ (by omega) _ body rfl).bind fun _ _ => .ok _ _
          · let single (option : Expr) : Except Obstacle Code :=
              if option.fixedLength then do
                return Code.look option.minimalLength negated (← code referred false option)
              else throw .variableLookBehind
            have looks (options : List Expr) :
                (options.attach.mapM fun option => do
                  if option.1.fixedLength then
                    return Code.look option.1.minimalLength negated
                      (← code referred false option.1)
                  else throw .variableLookBehind) = options.mapM single :=
              Attempt.attach_map_m options single
            rw [looks, looks, Expr.ungrouped_outline, Expr.options_outline]
            refine (Parallels.map_m fun option among => ?_).bind fun _ _ => .ok _ _
            simp only [single, Expr.fixed_length_outline, Expr.minimal_length_outline]
            split
            · have smaller := Expr.sizeOf_of_mem_options among
              have stripped := Expr.sizeOf_ungrouped_le body
              exact (induction _ (by omega) _ option rfl).bind fun _ _ => .ok _ _
            · exact .error _ _

/-- References are checked first; then the expression becomes a program or an automaton. -/
theorem matcher_eq (expression : Expr) :
    matcher expression =
      if (expression.checkedGroups 0).isNone then .error .unknownReference
      else if expression.needsChoices expression.references then
        (code expression.references true expression).map .machine
      else (check expression).map fun _ => .automaton (Automaton.ofExpr expression) := by
  unfold matcher
  split
  · rfl
  · simp only
    split
    · cases code expression.references true expression <;> rfl
    · cases check expression <;> rfl

/-- A matcher is chosen for an expression as for its outline, unless it is too large. -/
theorem matcher_outline (expression : Expr) :
    Parallels (matcher expression) (matcher expression.outline) := by
  rw [matcher_eq, matcher_eq, Expr.checked_groups_outline, Expr.references_outline,
    Expr.needs_choices_outline]
  split
  · exact .error _ _
  · split
    · exact (code_outline _ _ _).map _ _
    · exact (check_outline _).map _ _

/-- Of two expressions with the same outline both have a matcher or none has one, unless one of them
is too large. -/
theorem matcher_of_outline {expression other : Expr} {made : Matcher}
    (same : expression.outline = other.outline) (has : matcher expression = .ok made) :
    (∃ made, matcher other = .ok made) ∨ matcher other = .error .tooLarge := by
  have former := matcher_outline expression
  rw [has, same] at former
  rcases matcher_outline other with large | latter
  · exact .inr large
  · rcases former with failed | former
    · cases failed
    · rw [← former] at latter
      cases found : matcher other with
      | error obstacle => rw [found] at latter; cases latter
      | ok made => exact .inl ⟨made, rfl⟩

/-- Beside an expression with a matcher, one with the same outline can only be too large. -/
theorem obstacle_of_outline {expression other : Expr} {made : Matcher} {obstacle : Obstacle}
    (same : expression.outline = other.outline) (has : matcher expression = .ok made)
    (fails : matcher other = .error obstacle) : obstacle = .tooLarge := by
  rcases matcher_of_outline same has with ⟨_, found⟩ | large
  · rw [found] at fails
    cases fails
  · rw [large] at fails
    cases fails
    rfl

/-- Parentheses around the whole do not matter for whether there is a matcher. -/
theorem matcher_group (body : Expr) (obstacle : Obstacle) :
    matcher (.group body) = .error obstacle ↔ matcher body = .error obstacle := by
  have checked : check (.group body) = check body := rfl
  have coded : code body.references true (.group body) = code body.references true body := by
    rw [code.eq_def, if_neg (by simp)]
  rw [matcher_eq, matcher_eq]
  simp only [Expr.checkedGroups, Expr.references, Expr.needsChoices, checked, coded]
  split
  · exact Iff.rfl
  · split
    · exact Iff.rfl
    · cases check body <;> simp [Except.map]

theorem matcher_grouped (expression : Expr) (obstacle : Obstacle) :
    matcher expression.grouped = .error obstacle ↔ matcher expression = .error obstacle := by
  cases expression with
  | sequence | either => exact matcher_group _ obstacle
  | _ => exact Iff.rfl

theorem exists_matcher_grouped {expression : Expr} {made : Matcher}
    (has : matcher expression = .ok made) : ∃ made, matcher expression.grouped = .ok made := by
  cases grouped : matcher expression.grouped with
  | error obstacle =>
    rw [(matcher_grouped _ _).mp grouped] at has
    cases has
  | ok made => exact ⟨made, rfl⟩

/-- An expression with a matcher has sound references. -/
theorem checked_of_matcher {expression : Expr} {made : Matcher}
    (has : matcher expression = .ok made) : (expression.checkedGroups 0).isSome := by
  rw [matcher_eq] at has
  split at has
  · cases has
  · rename_i known
    exact Option.isSome_iff_ne_none.mpr (by simpa using known)

end Compile

end Highlighter.Regex
