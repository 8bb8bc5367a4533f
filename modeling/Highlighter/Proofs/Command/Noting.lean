import Highlighter.Command.Request
import Highlighter.Proofs.Attempt

/-!
# Noting switches

A switch that has been recognised is noted with what is attached to it. One that takes a value
waits for it, and with its value it waits until something else has been recognised; only then is it
noted. So what has been given changes in two steps: what waits is noted, and then the switch itself.

Beside what has been given stands what has been given apart from one switch. Another switch is noted
in both in the same way, and the switch itself in the former only. They do not go in step: where the
former has noted what waited before the switch, the latter still waits.
-/

namespace Highlighter.Command

/-- The switch has a value. -/
def Switch.takesValue (switch : Switch) : Bool :=
  match switch.use with
  | .value _ => true
  | _ => false

namespace Given

variable {given settled next left : Given} {switch : Switch} {attached : Option String}
  {long : String}

/-- What has been given apart from the switch with the long name. -/
def without (long : String) (given : Given) : Given :=
  { flags := given.flags.filter fun switch => switch.long ≠ long
    values := given.values.filter fun entry => entry.1.long ≠ long
    others := given.others
    waiting := given.waiting.filter fun entry => entry.1.long ≠ long }

/-- The switch that waits for its value. -/
def awaited (given : Given) : Option Switch :=
  match given.waiting with
  | some (switch, none) => some switch
  | _ => none

/-- Of another switch the same value is given. -/
theorem value_without {name : String} (apart : name ≠ long) :
    (given.without long).value? name = given.value? name := by
  rw [value?, value?, without, List.find?_filter]
  congr 2
  funext entry
  by_cases named : entry.1.long = name
  · simp [named, apart]
  · simp [named]

/-- Another switch is given as often. -/
theorem count_without {name : String} (apart : name ≠ long) :
    (given.without long).count name = given.count name := by
  rw [count, count, without, List.countP_filter]
  congr 1
  funext switch
  by_cases named : switch.long = name
  · simp [named, apart]
  · simp [named]

/-- The switch that waits for its value is the one that waits, without a value. -/
theorem waiting_of_awaited (awaits : given.awaited = some switch) :
    given.waiting = some (switch, none) := by
  unfold awaited at awaits
  split at awaits
  · cases awaits
    assumption
  · cases awaits

/-- Where nothing waits, no switch waits for its value. -/
theorem awaited_of_none (nothing : given.waiting = none) : given.awaited = none := by
  rw [awaited, nothing]

/-- Where nothing waits there is nothing to note. -/
theorem settle_of_none (nothing : given.waiting = none) : given.settle = .ok given := by
  rw [settle, nothing]

/-- What waits can be noted if it has its value, has not been given, and may have that value. -/
theorem settle_eq_ok_iff :
    given.settle = .ok settled ↔
      (given.waiting = none ∧ settled = given) ∨
      ∃ switch value, given.waiting = some (switch, some value) ∧
        (∀ entry ∈ given.values, entry.1 ≠ switch) ∧
        ¬ (value.isEmpty ∧ switch.use = .value false) ∧
        settled = { given with values := (switch, value) :: given.values, waiting := none } := by
  have fresh_iff (switch : Switch) : (given.values.any fun entry => entry.1 = switch) = false ↔
      ∀ entry ∈ given.values, entry.1 ≠ switch := by
    simp [List.any_eq_false]
  unfold settle
  constructor
  · intro settles
    rcases waits : given.waiting with _ | ⟨switch, _ | value⟩ <;> rw [waits] at settles
    · exact .inl ⟨rfl, (Except.ok.inj settles).symm⟩
    · cases settles
    · dsimp only at settles
      split_ifs at settles with repeated empty
      exact .inr ⟨switch, value, rfl, (fresh_iff switch).mp (Bool.eq_false_of_not_eq_true repeated),
        empty, (Except.ok.inj settles).symm⟩
  · rintro (⟨waits, rfl⟩ | ⟨switch, value, waits, fresh, allowed, rfl⟩)
    · rw [waits]
    · rw [waits]
      dsimp only
      rw [(fresh_iff switch).mpr fresh, if_neg Bool.false_ne_true, if_neg allowed]

/-- When what waits has been noted, nothing waits. -/
theorem waiting_of_settle (settles : given.settle = .ok settled) : settled.waiting = none := by
  obtain ⟨nothing, rfl⟩ | ⟨_, _, -, -, -, rfl⟩ := settle_eq_ok_iff.mp settles
  · exact nothing
  · rfl

/-- A switch that still waits for its value cannot be noted. -/
theorem awaited_of_settle (settles : given.settle = .ok settled) : given.awaited = none := by
  unfold awaited
  obtain ⟨nothing, -⟩ | ⟨_, _, waits, -⟩ := settle_eq_ok_iff.mp settles
  · rw [nothing]
  · rw [waits]

/-- Noting what waits does not touch the other arguments. -/
theorem others_of_settle (settles : given.settle = .ok settled) :
    settled.others = given.others := by
  obtain ⟨-, rfl⟩ | ⟨_, _, -, -, -, rfl⟩ := settle_eq_ok_iff.mp settles <;> rfl

/-- What can be noted can be noted apart from a switch. -/
theorem settle_without (long : String) (settles : given.settle = .ok settled) :
    (given.without long).settle = .ok (settled.without long) := by
  obtain ⟨nothing, rfl⟩ | ⟨switch, value, waits, fresh, allowed, rfl⟩ :=
    settle_eq_ok_iff.mp settles
  · exact settle_of_none (by simp [without, nothing])
  · by_cases named : switch.long = long
    · rw [settle_of_none (by simp [without, waits, named])]
      simp [without, waits, named]
    · refine settle_eq_ok_iff.mpr (.inr ⟨switch, value, ?_, ?_, allowed, ?_⟩)
      · simp [without, waits, named]
      · intro entry kept
        exact fresh entry (List.mem_of_mem_filter kept)
      · simp [without, named]

/-- Note a switch with what is attached to it. -/
def take (given : Given) (switch : Switch) : Option String → Except Stop Given
  | some value =>
    if switch.takesValue then given.addValue switch value
    else .error (.failed (.unexpectedValue switch value))
  | none => if switch.takesValue then given.await switch else given.addFlag switch

/-- How a switch is noted with what is attached to it, when nothing waits. -/
inductive Notes (settled : Given) (switch : Switch) : Option String → Given → Prop where
  | flag (valueless : switch.takesValue = false)
      (lasting : switch.use ≠ .version ∧ switch.use ≠ .help)
      (fresh : switch.use = .flag → switch ∉ settled.flags) :
      Notes settled switch none { settled with flags := switch :: settled.flags }
  | awaits (takes : switch.takesValue = true) :
      Notes settled switch none { settled with waiting := some (switch, none) }
  | value {value : String} (takes : switch.takesValue = true)
      (fresh : ∀ entry ∈ settled.values, entry.1 ≠ switch)
      (allowed : ¬ (value.isEmpty ∧ switch.use = .value false)) :
      Notes settled switch (some value)
        { settled with values := (switch, value) :: settled.values, waiting := none }

/-- A switch without a value is noted behind what waits. -/
theorem addFlag_eq_ok_iff (valueless : switch.takesValue = false) :
    given.addFlag switch = .ok next ↔
      ∃ settled, given.settle = .ok settled ∧ settled.Notes switch none next := by
  unfold addFlag
  cases given.settle with
  | error stop => simp [Bind.bind, Except.bind]
  | ok settled =>
    simp only [Bind.bind, Except.bind, Except.ok.injEq, exists_eq_left']
    constructor
    · intro adds
      split at adds
      · cases adds
      · cases adds
      · rename_i single
        split_ifs at adds with repeated
        cases adds
        refine .flag valueless (by simp [single]) fun _ member => repeated ?_
        exact List.contains_iff_mem.mpr member
      · rename_i version help single
        cases adds
        exact .flag valueless ⟨version, help⟩ fun same => absurd same single
    · intro notes
      cases notes with
      | flag _ lasting fresh =>
        split
        · exact absurd ‹_› lasting.1
        · exact absurd ‹_› lasting.2
        · rename_i single
          have new : ¬ settled.flags.contains switch := fun repeated =>
            fresh single (List.contains_iff_mem.mp repeated)
          rw [if_neg new]
          rfl
        · rfl
      | awaits takes => rw [valueless] at takes; cases takes

/-- A switch with the value that is attached to it is noted behind what waits. -/
theorem addValue_eq_ok_iff {value : String} (takes : switch.takesValue = true) :
    given.addValue switch value = .ok next ↔
      ∃ settled, given.settle = .ok settled ∧ settled.Notes switch (some value) next := by
  unfold addValue
  cases given.settle with
  | error stop => simp [Bind.bind, Except.bind]
  | ok settled =>
    simp only [Bind.bind, Except.bind, Except.ok.injEq, exists_eq_left']
    rw [settle_eq_ok_iff]
    constructor
    · rintro (⟨⟨⟩, -⟩ | ⟨_, _, ⟨⟩, fresh, allowed, rfl⟩)
      exact .value takes fresh allowed
    · rintro ⟨⟩
      exact .inr ⟨switch, value, rfl, ‹_›, ‹_›, rfl⟩

/-- A switch waits for its value behind what waited before. -/
theorem await_eq_ok_iff (takes : switch.takesValue = true) :
    given.await switch = .ok next ↔
      ∃ settled, given.settle = .ok settled ∧ settled.Notes switch none next := by
  unfold await
  cases given.settle with
  | error stop => simp [Bind.bind, Except.bind]
  | ok settled =>
    simp only [Bind.bind, Except.bind, Except.ok.injEq, exists_eq_left']
    constructor
    · rintro ⟨⟩
      exact .awaits takes
    · intro notes
      cases notes with
      | flag valueless => rw [valueless] at takes; cases takes
      | awaits => rfl

/-- A switch is noted behind what waits. -/
theorem take_eq_ok_iff :
    given.take switch attached = .ok next ↔
      ∃ settled, given.settle = .ok settled ∧ settled.Notes switch attached next := by
  cases attached with
  | none =>
    by_cases takes : switch.takesValue
    · rw [take, if_pos takes]
      exact await_eq_ok_iff takes
    · rw [take, if_neg takes]
      exact addFlag_eq_ok_iff (Bool.eq_false_of_not_eq_true takes)
  | some value =>
    by_cases takes : switch.takesValue
    · rw [take, if_pos takes]
      exact addValue_eq_ok_iff takes
    · rw [take, if_neg takes]
      constructor
      · rintro ⟨⟩
      · rintro ⟨settled, -, notes⟩
        cases notes
        contradiction

/-- In front of a switch that has been noted none waits for its value. -/
theorem ready_of_take (takes : given.take switch attached = .ok next) : given.awaited = none := by
  obtain ⟨settled, settles, -⟩ := take_eq_ok_iff.mp takes
  exact awaited_of_settle settles

/-- A switch that has been noted waits for its value if it takes one and none is attached. -/
theorem awaited_of_take (takes : given.take switch attached = .ok next) :
    next.awaited = if switch.takesValue ∧ attached = none then some switch else none := by
  obtain ⟨settled, settles, notes⟩ := take_eq_ok_iff.mp takes
  have nothing := waiting_of_settle settles
  cases notes with
  | flag valueless => simp [awaited, nothing, valueless]
  | awaits valued => simp [awaited, valued]
  | value => simp [awaited]

/-- A switch is noted apart from another one in the same way. -/
theorem Notes.without {long : String} (apart : switch.long ≠ long)
    (notes : settled.Notes switch attached next) :
    (settled.without long).Notes switch attached (next.without long) := by
  cases notes with
  | flag valueless lasting fresh =>
    have noted : (settled.without long).Notes switch none _ :=
      .flag valueless lasting fun single member => fresh single (List.mem_of_mem_filter member)
    simpa [Given.without, apart] using noted
  | awaits takes =>
    have noted : (settled.without long).Notes switch none _ := .awaits takes
    simpa [Given.without, Option.filter, apart] using noted
  | value takes fresh allowed =>
    have noted : (settled.without long).Notes switch (some _) _ :=
      .value takes (fun entry member => fresh entry (List.mem_of_mem_filter member)) allowed
    simpa [Given.without, apart] using noted

/-- A switch that is noted does not count apart from it. -/
theorem Notes.without_same (nothing : settled.waiting = none)
    (notes : settled.Notes switch attached next) :
    next.without switch.long = settled.without switch.long := by
  cases notes <;> simp [Given.without, nothing]

/-- The reading without a switch is where the other one is, or it still has something to note that
the other one has noted. This is what every argument keeps. -/
def Behind (long : String) (given left : Given) : Prop :=
  left = given.without long ∨ left.settle = .ok (given.without long)

/-- What the one reading can note, the other can. -/
theorem Behind.settle (behind : Behind long given left) (settles : given.settle = .ok settled) :
    left.settle = .ok (settled.without long) := by
  have settledWithout := settle_without long settles
  rcases behind with rfl | later
  · exact settledWithout
  · rw [settle_of_none (waiting_of_settle later), Except.ok.injEq] at settledWithout
    rwa [← settledWithout]

/-- Another switch is noted in both readings. -/
theorem Behind.take (behind : Behind long given left) (apart : switch.long ≠ long)
    (takes : given.take switch attached = .ok next) :
    left.take switch attached = .ok (next.without long) := by
  obtain ⟨settled, settles, notes⟩ := take_eq_ok_iff.mp takes
  exact take_eq_ok_iff.mpr ⟨_, behind.settle settles, notes.without apart⟩

/-- The switch itself is noted in the one reading only. -/
theorem Behind.of_take (behind : Behind switch.long given left)
    (takes : given.take switch attached = .ok next) : Behind switch.long next left := by
  obtain ⟨settled, settles, notes⟩ := take_eq_ok_iff.mp takes
  refine .inr ?_
  rw [notes.without_same (waiting_of_settle settles)]
  exact behind.settle settles

/-- Where no switch waits for its value, none does in the other reading. -/
theorem Behind.ready (behind : Behind long given left) (ready : given.awaited = none) :
    left.awaited = none := by
  rcases behind with rfl | later
  · cases awaits : (given.without long).awaited with
    | none => rfl
    | some switch =>
      have waits : given.waiting = some (switch, none) :=
        (Option.filter_eq_some_iff.mp (waiting_of_awaited awaits)).1
      rw [awaited, waits] at ready
      cases ready
  · exact awaited_of_settle later

/-- A value of the switch counts in the one reading only. -/
theorem Behind.of_value {value : String} (behind : Behind long given left)
    (waits : given.waiting = some (switch, none)) (named : switch.long = long) :
    Behind long { given with waiting := some (switch, some value) } left := by
  have same : ({ given with waiting := some (switch, some value) } : Given).without long =
      given.without long := by
    simp [without, Option.filter, waits, named]
  unfold Behind
  rwa [same]

/-- While another switch waits for its value, both readings are at the same place. -/
theorem Behind.eq_of_waiting (behind : Behind long given left)
    (waits : given.waiting = some (switch, none)) (apart : switch.long ≠ long) :
    left = given.without long := by
  rcases behind with same | later
  · exact same
  · have nothing := waiting_of_settle later
    simp [without, Option.filter, waits, apart] at nothing

/-- Both readings have the same other arguments. -/
theorem Behind.others (behind : Behind long given left) : left.others = given.others := by
  rcases behind with rfl | later
  · rfl
  · exact (others_of_settle later).symm

end Given

end Highlighter.Command
