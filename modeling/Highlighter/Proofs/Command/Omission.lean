import Highlighter.Proofs.Command.Noting

/-!
# Leaving out a switch

A command line without one of its switches: the switch is left out with its value, also from
among the letters of a group. What stands in the place of a value, behind two hyphens, or inside an
attached value is no switch and stays. If the command line can be read, so can what is left of it,
and the same has been given apart from the switch.
-/

namespace Highlighter.Command

namespace Form

variable {form : Form} {given next left : Given} {long : String}

/-- The name of a long switch, in front of an equals sign. -/
def nameOf (text : List Char) : String := String.ofList (text.takeWhile (· ≠ '='))

/-- The value that is attached to a long switch behind an equals sign. -/
def attachedTo (text : List Char) : Option String :=
  match text.dropWhile (· ≠ '=') with
  | [] => none
  | _ :: value => some (String.ofList value)

/-- The value that is attached to a letter, with or without an equals sign. -/
def attachedToLetter : List Char → Option String
  | [] => none
  | '=' :: value => some (String.ofList value)
  | value => some (String.ofList value)

/-- What stands behind a letter without an equals sign is its value. -/
theorem attachedToLetter_of_plain {rest : List Char} (filled : rest ≠ [])
    (plain : ∀ value, rest ≠ '=' :: value) :
    attachedToLetter rest = some (String.ofList rest) := by
  unfold attachedToLetter
  split
  · exact absurd rfl filled
  · exact absurd rfl (plain _)
  · rfl

/-- A long switch that is known is noted with what is attached to it. -/
theorem readLong_eq (form : Form) (given : Given) (text : List Char) :
    form.readLong given text =
      (form.switches.find? fun switch => switch.long = nameOf text).elim
        (.error (.failed (.unexpectedArgument ("--" ++ nameOf text))))
        fun switch => given.take switch (attachedTo text) := by
  unfold readLong nameOf attachedTo
  dsimp only
  cases form.switches.find? fun switch =>
    switch.long = String.ofList (text.takeWhile (· ≠ '=')) with
  | none => rfl
  | some switch =>
    rw [Option.elim_some]
    unfold Given.take Switch.takesValue
    dsimp only
    cases text.dropWhile (· ≠ '=') <;> cases switch.use <;> rfl

/-- A long switch is noted with what is attached to it. -/
theorem readLong_eq_ok_iff {text : List Char} :
    form.readLong given text = .ok next ↔
      ∃ switch, form.switches.find? (fun switch => switch.long = nameOf text) = some switch ∧
        given.take switch (attachedTo text) = .ok next := by
  rw [readLong_eq]
  cases form.switches.find? fun switch => switch.long = nameOf text with
  | none => simp
  | some switch => simp

/-- A letter is noted with what is attached to it if it takes a value, and else the letters behind
it are read. -/
theorem readShort_eq_ok_iff {letter : Char} {rest : List Char} :
    form.readShort given (letter :: rest) = .ok next ↔
      ∃ switch, form.switches.find? (fun switch => switch.short = some letter) = some switch ∧
        if switch.takesValue then given.take switch (attachedToLetter rest) = .ok next
        else ∃ further, given.take switch none = .ok further ∧
          form.readShort further rest = .ok next := by
  rw [readShort]
  cases form.switches.find? (fun switch => switch.short = some letter) with
  | none => simp
  | some switch =>
    simp only [Option.some.injEq, exists_eq_left']
    split
    · rename_i use
      have takes : switch.takesValue := by rw [Switch.takesValue, use]
      rw [if_pos takes, attachedToLetter, Given.take, if_pos takes]
    · rename_i use
      have takes : switch.takesValue := by rw [Switch.takesValue, use]
      rw [if_pos takes, attachedToLetter, Given.take, if_pos takes]
    · rename_i use filled plain
      have takes : switch.takesValue := by rw [Switch.takesValue, use]
      rw [if_pos takes, attachedToLetter_of_plain filled plain, Given.take, if_pos takes]
    · rename_i valueless _ _
      have takes : ¬ switch.takesValue := by
        unfold Switch.takesValue
        split
        · exact absurd ‹_› (valueless _)
        · exact Bool.false_ne_true
      rw [if_neg takes, Given.take, if_neg takes]
      cases given.addFlag switch with
      | error stop => simp [Bind.bind, Except.bind]
      | ok further => simp [Bind.bind, Except.bind]

/-- The letters of a group without the switch of the long name, and the switch that waits for its
value behind the group. What stands behind a letter that takes a value is its value. -/
def lettersWithout (form : Form) (long : String) : List Char → List Char × Option Switch
  | [] => ([], none)
  | letter :: rest =>
    match form.switches.find? fun switch => switch.short = some letter with
    | none => (letter :: rest, none)
    | some switch =>
      if switch.takesValue then
        (if switch.long = long then [] else letter :: rest,
          if attachedToLetter rest = none then some switch else none)
      else
        let (letters, awaited) := form.lettersWithout long rest
        (if switch.long = long then letters else letter :: letters, awaited)

/-- An argument that stands for switches. -/
def isSwitch (argument : String) : Bool :=
  match argument.toList with
  | '-' :: _ :: _ => true
  | _ => false

/-- What is left of an argument that stands for switches, and the switch that waits for its value
behind it. -/
def argumentWithout (form : Form) (long argument : String) : List String × Option Switch :=
  match argument.toList with
  | '-' :: '-' :: text =>
    match form.switches.find? fun switch => switch.long = nameOf text with
    | none => ([argument], none)
    | some switch =>
      (if switch.long = long then [] else [argument],
        if switch.takesValue ∧ attachedTo text = none then some switch else none)
  | '-' :: group =>
    let (letters, awaited) := form.lettersWithout long group
    (if letters = [] then [] else [String.ofList ('-' :: letters)], awaited)
  | _ => ([argument], none)

/-- The arguments without the switch of the long name, if the given switch waits for its value in
front of them. Behind a command the arguments are treated as those of the command. -/
def without (form : Form) (long : String) (behindCommand : String → List String → List String) :
    Option Switch → List String → List String
  | _, [] => []
  | some switch, argument :: rest =>
    (if switch.long = long then [] else [argument]) ++
      form.without long behindCommand none rest
  | none, argument :: rest =>
    if argument = "--" then argument :: rest
    else if isSwitch argument then
      let (kept, awaited) := form.argumentWithout long argument
      kept ++ form.without long behindCommand awaited rest
    else if argument ∈ form.commands then argument :: behindCommand argument rest
    else argument :: form.without long behindCommand none rest

/-- Read an argument that stands for switches. -/
def readSwitch (form : Form) (given : Given) (argument : String) : Except Stop Given :=
  match argument.toList with
  | '-' :: '-' :: text => form.readLong given text
  | '-' :: group => form.readShort given group
  | _ => .ok given

/-- The letters of a group are read without a switch as with it.

Proof: induction over the letters. One that takes a value ends the group, with what is behind it as
its value; any other is noted, or is the switch and is passed over. -/
theorem readShort_without {letters : List Char} (behind : Given.Behind long given left)
    (ready : given.awaited = none) (reads : form.readShort given letters = .ok next) :
    ∃ further, form.readShort left (form.lettersWithout long letters).1 = .ok further ∧
      Given.Behind long next further ∧ (form.lettersWithout long letters).2 = next.awaited := by
  induction letters generalizing given left with
  | nil =>
    cases reads
    exact ⟨left, rfl, behind, ready.symm⟩
  | cons letter rest induction =>
    obtain ⟨switch, found, taken⟩ := readShort_eq_ok_iff.mp reads
    rw [lettersWithout, found]
    dsimp only
    by_cases takes : switch.takesValue
    · rw [if_pos takes] at taken ⊢
      have awaits := Given.awaited_of_take taken
      by_cases named : switch.long = long
      · subst named
        rw [if_pos rfl]
        exact ⟨left, rfl, behind.of_take taken, by simp [awaits, takes]⟩
      · rw [if_neg named]
        have kept := behind.take named taken
        refine ⟨_, ?_, .inl rfl, by simp [awaits, takes]⟩
        exact readShort_eq_ok_iff.mpr ⟨switch, found, by rw [if_pos takes]; exact kept⟩
    · rw [if_neg takes] at taken ⊢
      obtain ⟨middle, flagged, remaining⟩ := taken
      have awaits := Given.awaited_of_take flagged
      by_cases named : switch.long = long
      · subst named
        dsimp only
        rw [if_pos rfl]
        exact induction (behind.of_take flagged) (by simp [awaits, takes]) remaining
      · dsimp only
        rw [if_neg named]
        have kept := behind.take named flagged
        obtain ⟨further, ended, behindNext, same⟩ :=
          induction (.inl rfl) (by simp [awaits, takes]) remaining
        refine ⟨further, ?_, behindNext, same⟩
        refine readShort_eq_ok_iff.mpr ⟨switch, found, ?_⟩
        rw [if_neg takes]
        exact ⟨_, kept, ended⟩

/-- An argument for switches is a hyphen in front of other characters. -/
theorem isSwitch_iff {argument : String} :
    isSwitch argument = true ↔ ∃ letter group, argument.toList = '-' :: letter :: group := by
  unfold isSwitch
  split
  · simp_all
  · simp_all

/-- Two hyphens alone stand for no switch by themselves. -/
theorem toList_ne_of_ne {argument : String} (lasting : argument ≠ "--") :
    argument.toList ≠ ['-', '-'] :=
  fun same => lasting (String.toList_inj.mp same)

/-- Switches are read one after the other. -/
theorem read_switch {argument : String} {rest : List String} (given : Given)
    (switches : isSwitch argument) (lasting : argument ≠ "--") :
    form.read given (argument :: rest) =
      form.readSwitch given argument >>= fun further => form.read further rest := by
  obtain ⟨letter, group, shape⟩ := isSwitch_iff.mp switches
  have more := toList_ne_of_ne lasting
  rw [read, readSwitch]
  rw [shape] at more ⊢
  by_cases hyphen : letter = '-'
  · subst hyphen
    cases group with
    | nil => exact absurd rfl more
    | cons => rfl
  · split
    · simp_all
    · simp_all
    · split
      · simp_all
      · simp_all
      · simp_all
    · simp_all

/-- An argument that stands for no switch is the value of the switch that waits for one. -/
theorem read_value {argument : String} {rest : List String} {switch : Switch}
    (waits : given.waiting = some (switch, none)) (plain : ¬ isSwitch argument) :
    form.read given (argument :: rest) =
      form.read { given with waiting := some (switch, some argument) } rest := by
  rw [isSwitch_iff] at plain
  rw [read]
  split
  · exact absurd ⟨_, _, ‹_›⟩ plain
  · exact absurd ⟨_, _, ‹_›⟩ plain
  · exact absurd ⟨_, _, ‹_›⟩ plain
  · rw [waits]

/-- An argument that stands for no switch is a command or another argument, where no switch waits
for its value. -/
theorem read_plain {argument : String} {rest : List String} (ready : given.awaited = none)
    (plain : ¬ isSwitch argument) :
    form.read given (argument :: rest) =
      if argument ∈ form.commands then
        given.settle >>= fun settled => .ok (settled, some (argument, rest))
      else form.readOther false given argument >>= fun further => form.read further rest := by
  rw [isSwitch_iff] at plain
  rw [read]
  split
  · exact absurd ⟨_, _, ‹_›⟩ plain
  · exact absurd ⟨_, _, ‹_›⟩ plain
  · exact absurd ⟨_, _, ‹_›⟩ plain
  · split
    · rename_i waits
      rw [Given.awaited, waits] at ready
      cases ready
    · rfl

/-- No switch has a hyphen as its letter. -/
def Hyphenless (form : Form) : Prop :=
  ∀ switch ∈ form.switches, switch.short ≠ some '-'

/-- A group of letters that can be read does not begin with a hyphen. -/
theorem Hyphenless.letter_ne (hyphenless : form.Hyphenless) {letter : Char} {rest : List Char}
    (reads : form.readShort given (letter :: rest) = .ok next) : letter ≠ '-' := by
  rintro rfl
  obtain ⟨switch, found, -⟩ := readShort_eq_ok_iff.mp reads
  have lettered := List.find?_some found
  exact hyphenless switch (List.mem_of_find?_eq_some found) (by simpa using lettered)

/-- A group of letters behind a hyphen is read as such. -/
theorem readSwitch_letters {argument : String} {letter : Char} {rest : List Char} (given : Given)
    (shape : argument.toList = '-' :: letter :: rest) (plain : letter ≠ '-') :
    form.readSwitch given argument = form.readShort given (letter :: rest) := by
  rw [readSwitch, shape]
  split <;> simp_all

/-- A long name behind two hyphens is read as such. -/
theorem readSwitch_long {argument : String} {text : List Char} (given : Given)
    (shape : argument.toList = '-' :: '-' :: text) :
    form.readSwitch given argument = form.readLong given text := by
  rw [readSwitch, shape]
  rfl

/-- Of a long switch all is left, or nothing. -/
theorem argumentWithout_long {argument : String} {text : List Char} {switch : Switch}
    (long : String) (shape : argument.toList = '-' :: '-' :: text)
    (found : form.switches.find? (fun switch => switch.long = nameOf text) = some switch) :
    form.argumentWithout long argument =
      (if switch.long = long then [] else [argument],
        if switch.takesValue ∧ attachedTo text = none then some switch else none) := by
  rw [argumentWithout, shape]
  change (match form.switches.find? (fun switch => switch.long = nameOf text) with
    | none => _
    | some switch => _) = _
  rw [found]

/-- Of a group of letters those are left that remain without the switch. -/
theorem argumentWithout_letters {argument : String} {letter : Char} {rest : List Char}
    (long : String) (shape : argument.toList = '-' :: letter :: rest) (plain : letter ≠ '-') :
    form.argumentWithout long argument =
      (if (form.lettersWithout long (letter :: rest)).1 = [] then []
        else [String.ofList ('-' :: (form.lettersWithout long (letter :: rest)).1)],
        (form.lettersWithout long (letter :: rest)).2) := by
  rw [argumentWithout, shape]
  split <;> simp_all

/-- A switch that has been read was not in the place of a value. -/
theorem ready_of_readSwitch {argument : String} (switches : isSwitch argument)
    (reads : form.readSwitch given argument = .ok next) : given.awaited = none := by
  obtain ⟨letter, group, shape⟩ := isSwitch_iff.mp switches
  by_cases hyphen : letter = '-'
  · subst hyphen
    rw [readSwitch_long given shape] at reads
    obtain ⟨switch, -, taken⟩ := readLong_eq_ok_iff.mp reads
    exact Given.ready_of_take taken
  · rw [readSwitch_letters given shape hyphen] at reads
    obtain ⟨switch, -, taken⟩ := readShort_eq_ok_iff.mp reads
    split_ifs at taken
    · exact Given.ready_of_take taken
    · obtain ⟨further, taken, -⟩ := taken
      exact Given.ready_of_take taken

/-- What is left of an argument for switches is read as the argument. -/
theorem readSwitch_without {argument : String} (hyphenless : form.Hyphenless)
    (behind : Given.Behind long given left) (switches : isSwitch argument)
    (lasting : argument ≠ "--") (reads : form.readSwitch given argument = .ok next) :
    ∃ further, Given.Behind long next further ∧
      (form.argumentWithout long argument).2 = next.awaited ∧
      ∀ rest, form.read left ((form.argumentWithout long argument).1 ++ rest) =
        form.read further rest := by
  have ready := ready_of_readSwitch switches reads
  obtain ⟨letter, group, shape⟩ := isSwitch_iff.mp switches
  by_cases hyphen : letter = '-'
  · subst hyphen
    rw [readSwitch_long given shape] at reads
    obtain ⟨switch, found, taken⟩ := readLong_eq_ok_iff.mp reads
    have awaits := Given.awaited_of_take taken
    rw [argumentWithout_long long shape found]
    by_cases named : switch.long = long
    · subst named
      rw [if_pos rfl]
      exact ⟨left, behind.of_take taken, awaits.symm, fun rest => rfl⟩
    · rw [if_neg named]
      refine ⟨_, .inl rfl, awaits.symm, fun rest => ?_⟩
      have kept := readLong_eq_ok_iff.mpr ⟨switch, found, behind.take named taken⟩
      rw [List.singleton_append, read_switch left switches lasting, readSwitch_long left shape,
        kept]
      rfl
  · rw [readSwitch_letters given shape hyphen] at reads
    rw [argumentWithout_letters long shape hyphen]
    obtain ⟨further, kept, behindNext, awaits⟩ := readShort_without behind ready reads
    refine ⟨further, behindNext, awaits, fun rest => ?_⟩
    cases remaining : (form.lettersWithout long (letter :: group)).1 with
    | nil =>
      rw [remaining] at kept
      cases kept
      rfl
    | cons first others =>
      rw [remaining] at kept
      have plain := hyphenless.letter_ne kept
      rw [if_neg (List.cons_ne_nil _ _), List.singleton_append]
      have shape' : (String.ofList ('-' :: first :: others)).toList = '-' :: first :: others :=
        String.toList_ofList
      rw [read_switch left (isSwitch_iff.mpr ⟨_, _, shape'⟩) ?_,
        readSwitch_letters left shape' plain, kept]
      · rfl
      · intro same
        rw [same] at shape'
        cases shape'
        exact plain rfl

/-- Another argument is noted behind what waits, if there is place. -/
theorem readOther_eq_ok_iff {ended : Bool} {argument : String} :
    form.readOther ended given argument = .ok next ↔
      given.others.length < form.places ∧ ∃ settled, given.settle = .ok settled ∧
        next = { settled with others := argument :: settled.others } := by
  unfold readOther
  by_cases place : given.others.length < form.places
  · rw [if_pos place]
    cases given.settle with
    | error stop => simp [Bind.bind, Except.bind]
    | ok settled => simp [Bind.bind, Except.bind, Pure.pure, Except.pure, place, eq_comm]
  · rw [if_neg place]
    split_ifs <;> simp [place]

/-- Behind another argument no switch waits for its value. -/
theorem awaited_of_readOther {ended : Bool} {argument : String}
    (reads : form.readOther ended given argument = .ok next) : next.awaited = none := by
  obtain ⟨-, settled, settles, rfl⟩ := readOther_eq_ok_iff.mp reads
  have nothing : settled.waiting = none := Given.waiting_of_settle settles
  exact Given.awaited_of_none nothing

/-- Another argument is noted without a switch as with it. -/
theorem readOther_without {ended : Bool} {argument : String}
    (behind : Given.Behind long given left)
    (reads : form.readOther ended given argument = .ok next) :
    form.readOther ended left argument = .ok (next.without long) := by
  obtain ⟨place, settled, settles, rfl⟩ := readOther_eq_ok_iff.mp reads
  refine readOther_eq_ok_iff.mpr ⟨?_, _, behind.settle settles, rfl⟩
  rwa [behind.others]

/-- The arguments behind the switches are read without a switch as with it. -/
theorem readOthers_without {arguments : List String} {final : Given}
    {command : Option (String × List String)} (behind : Given.Behind long given left)
    (reads : read.readOthers form given arguments = .ok (final, command)) :
    command = none ∧ given.awaited = none ∧
      read.readOthers form left arguments = .ok (final.without long, none) := by
  induction arguments generalizing given left with
  | nil =>
    obtain ⟨settled, settles, ended⟩ := Attempt.bind_eq_ok_iff.mp reads
    cases ended
    refine ⟨rfl, Given.awaited_of_settle settles, ?_⟩
    exact Attempt.bind_eq_ok_iff.mpr ⟨_, behind.settle settles, rfl⟩
  | cons argument rest induction =>
    obtain ⟨further, taken, remaining⟩ := Attempt.bind_eq_ok_iff.mp reads
    obtain ⟨-, settled, settles, -⟩ := readOther_eq_ok_iff.mp taken
    obtain ⟨ended, -, kept⟩ := induction (.inl rfl) remaining
    refine ⟨ended, Given.awaited_of_settle settles, ?_⟩
    exact Attempt.bind_eq_ok_iff.mpr ⟨_, readOther_without behind taken, kept⟩

/-- Arguments are read without a switch as with it: what is left of them gives the same apart from
the switch, up to the same command if there is one.

Proof: induction over the arguments, each of which keeps the one reading behind the other. What is
left of an argument for switches is one such argument, or nothing. Any other argument is the value
of a switch that waits for one, and is left out with it; or it is a command, in front of which both
note what waits; or both note it as another argument. -/
theorem read_without {behindCommand : String → List String → List String}
    {arguments : List String} {final : Given} {command : Option (String × List String)}
    (hyphenless : form.Hyphenless) (behind : Given.Behind long given left)
    (reads : form.read given arguments = .ok (final, command)) :
    form.read left (form.without long behindCommand given.awaited arguments) =
      .ok (final.without long,
        command.map fun entry => (entry.1, behindCommand entry.1 entry.2)) := by
  induction arguments generalizing given left with
  | nil =>
    obtain ⟨settled, settles, ended⟩ := Attempt.bind_eq_ok_iff.mp reads
    cases ended
    rw [without, read]
    exact Attempt.bind_eq_ok_iff.mpr ⟨_, behind.settle settles, rfl⟩
  | cons argument rest induction =>
    by_cases lasting : argument = "--"
    · subst lasting
      obtain ⟨rfl, ready, kept⟩ := readOthers_without behind reads
      rw [ready, without, if_pos rfl]
      exact kept
    · by_cases switches : isSwitch argument
      · rw [read_switch given switches lasting] at reads
        obtain ⟨middle, taken, remaining⟩ := Attempt.bind_eq_ok_iff.mp reads
        obtain ⟨further, behindNext, awaits, kept⟩ :=
          readSwitch_without hyphenless behind switches lasting taken
        rw [ready_of_readSwitch switches taken, without, if_neg lasting, if_pos switches]
        dsimp only
        rw [kept, awaits]
        exact induction behindNext remaining
      · cases awaits : given.awaited with
        | some switch =>
          have waits := Given.waiting_of_awaited awaits
          rw [read_value waits switches] at reads
          rw [without]
          by_cases named : switch.long = long
          · rw [if_pos named]
            exact induction (behind.of_value waits named) reads
          · -- While another switch waits, nothing is left that only one reading has noted.
            have same := behind.eq_of_waiting waits named
            have kept : left.waiting = some (switch, none) := by
              rw [same]
              simp [Given.without, Option.filter, waits, named]
            rw [if_neg named, List.singleton_append, read_value kept switches]
            refine induction (.inl ?_) reads
            rw [same]
            simp [Given.without, Option.filter, named]
        | none =>
          rw [read_plain awaits switches] at reads
          rw [without, if_neg lasting, if_neg switches]
          by_cases known : argument ∈ form.commands
          · rw [if_pos known] at reads ⊢
            obtain ⟨settled, settles, ended⟩ := Attempt.bind_eq_ok_iff.mp reads
            cases ended
            rw [read_plain (behind.ready awaits) switches, if_pos known]
            exact Attempt.bind_eq_ok_iff.mpr ⟨_, behind.settle settles, rfl⟩
          · rw [if_neg known] at reads ⊢
            obtain ⟨further, taken, remaining⟩ := Attempt.bind_eq_ok_iff.mp reads
            rw [read_plain (behind.ready awaits) switches, if_neg known]
            refine Attempt.bind_eq_ok_iff.mpr ⟨_, readOther_without behind taken, ?_⟩
            have kept := induction (.inl rfl) remaining
            rwa [awaited_of_readOther taken] at kept

end Form

end Highlighter.Command
