import Highlighter.Proofs.Regex.Brackets
import Highlighter.Proofs.Regex.Outlines
import Highlighter.Proofs.Regex.Prefixes

/-!
# Reading in other modes

Three of the modes of a pattern say what a dot matches, where a line begins and ends, and whether case
is regarded. They do not decide what a text is read as: from two states that differ in these modes
only, the reader takes the same turns, and fails with the same problem or ends in states that differ
in no more, see `read_agree`. So it reads expressions of one outline.
-/

namespace Highlighter.Regex

open Attempt (Agree)

namespace Escape

/-- The meaning without what its set holds. -/
def Meaning.outline : Meaning → Meaning
  | set members => set (members.map fun _ => .single 'a')
  | other => other

/-- Meanings without what their sets hold are the same if they are, or if they are sets that both
make sense or both do not. -/
theorem Meaning.cases_of_outline {former latter : Meaning}
    (same : former.outline = latter.outline) :
    former = latter ∨ ∃ one other, former = .set one ∧ latter = .set other ∧
      one.map (fun _ => CharClass.single 'a') = other.map fun _ => CharClass.single 'a' := by
  cases former <;> cases latter <;> simp_all [outline]

/-- What is read is seen without what its set holds. -/
def seen (result : Meaning × Nat) : Meaning × Nat := (result.1.outline, result.2)

/-- Whether a property is known does not depend on whether case is regarded. -/
theorem property_agree (first second negated : Bool) (position : Nat) (letter : Char)
    (rest : List Char) :
    Agree seen (property first negated position letter rest)
      (property second negated position letter rest) := by
  have known (body : List Char) :
      (CharClass.ofPropertyText? first negated body).map (fun _ => CharClass.single 'a') =
        (CharClass.ofPropertyText? second negated body).map fun _ => CharClass.single 'a' := by
    unfold CharClass.ofPropertyText?
    simp only [Option.map_map, Function.comp_def]
  rw [property, property]
  split
  · split
    · simp [Agree, Except.map, seen, Meaning.outline, known]
    · rfl
  · simp [Agree, Except.map, seen, Meaning.outline, known]

/-- Neither is what else is escaped. -/
theorem read_agree (inBrackets first second : Bool) (position : Nat) (rest : List Char) :
    Agree seen (read first inBrackets position rest) (read second inBrackets position rest) := by
  cases rest with
  | nil => rfl
  | cons letter further =>
    rw [read, read]
    split
    · rfl
    · split
      · rfl
      · split
        · rfl
        · rfl
        · cases further with
          | nil => rfl
          | cons next behind =>
            simp only
            split
            · exact property_agree first second _ _ _ _
            · rfl

end Escape

namespace Parser

/-- The modes that decide what a text is read as. -/
def Modes.layout (modes : Modes) : Modes where
  swapGreed := modes.swapGreed
  skipBlanks := modes.skipBlanks

variable {modes other : Modes} {position taken : Nat} {rest : List Char}

theorem blank_layout (modes : Modes) (position : Nat) (rest : List Char) :
    blank modes.layout position rest = blank modes position rest := rfl

theorem blanks_layout (modes : Modes) (position : Nat) (rest : List Char) :
    blanks modes.layout position rest = blanks modes position rest := by
  induction position, rest using blanks.induct modes with
  | case1 position => rw [blanks, blanks]
  | case2 position first others problem failed => rw [blanks, blanks, blank_layout, failed]
  | case3 position first others visible => rw [blanks, blanks, blank_layout, visible]
  | case4 position first others count skipped _ =>
    rename_i induction
    rw [blanks, blanks, blank_layout, skipped]
    exact congrArg (Except.map _) induction

theorem operator_layout (modes : Modes) (rest : List Char) :
    operator? modes.layout rest = operator? modes rest := by
  unfold operator? bounds?
  simp only [blanks_layout]

theorem manner_layout (modes : Modes) (position : Nat) (rest : List Char) :
    manner modes.layout position rest = manner modes position rest := by
  rw [manner, manner, blanks_layout]

/-- A letter sets the same mode, whatever the others are. -/
theorem set_mode_layout (same : modes.layout = other.layout) (value : Bool) (letter : Char) :
    (setMode? modes value letter).map Modes.layout =
      (setMode? other value letter).map Modes.layout := by
  have greed := congrArg Modes.swapGreed same
  have skips := congrArg Modes.skipBlanks same
  simp only [Modes.layout] at greed skips
  unfold setMode?
  split <;> simp [Modes.layout, greed, skips]

/-- Modes are seen by what they decide. -/
def seenModes (result : Modes × Bool × Nat) : Modes × Bool × Nat := (result.1.layout, result.2)

theorem mode_letters_agree (same : modes.layout = other.layout) (start : Nat) (negative : Bool)
    (written rest : List Char) (taken : Nat) :
    Agree seenModes (modeLetters start modes negative written rest taken)
      (modeLetters start other negative written rest taken) := by
  generalize counted : rest.length = length
  induction length using Nat.strongRecOn
    generalizing modes other negative written rest taken with
  | ind length induction =>
  subst counted
  cases rest with
  | nil =>
    rw [modeLetters, modeLetters]
    rfl
  | cons letter others =>
    have blanked := blank_layout modes (start + Text.byteLength written) (letter :: others)
    rw [same, blank_layout] at blanked
    rw [modeLetters, modeLetters, blanked]
    simp only
    split
    · rfl
    · refine induction _ ?_ same _ _ _ _ rfl
      rw [List.length_cons, List.length_drop]
      omega
    · have further {modes other : Modes} (same : modes.layout = other.layout) (negative : Bool) :=
        induction _ (Nat.lt_succ_self _) same negative (letter :: written) others (taken + 1) rfl
      split
      · split <;> simp [Agree, Except.map, seenModes, same]
      split
      · split <;> simp [Agree, Except.map, seenModes, same]
      split
      · split
        · rfl
        · exact further same _
      have letters := set_mode_layout same (!negative) letter
      cases former : setMode? modes (!negative) letter with
      | none =>
        cases latter : setMode? other (!negative) letter with
        | none => rfl
        | some => simp [former, latter] at letters
      | some =>
        cases latter : setMode? other (!negative) letter with
        | none => simp [former, latter] at letters
        | some =>
          simp only [former, latter, Option.map_some, Option.some.injEq] at letters
          exact further letters _

/-- What an opening parenthesis begins, with the modes seen by what they decide. -/
def Opening.seen (result : Opening × Nat) : Opening × Nat :=
  match result.1 with
  | .modes modes encloses => (.modes modes.layout encloses, result.2)
  | _ => result

theorem opening_agree (same : modes.layout = other.layout) (position : Nat) (rest : List Char) :
    Agree Opening.seen (opening modes position rest) (opening other position rest) := by
  have gap : blanks modes position rest = blanks other position rest := by
    rw [← blanks_layout, same, blanks_layout]
  rw [opening, opening, gap]
  cases blanks other position rest with
  | error problem => rfl
  | ok gap =>
    simp only [bind, Except.bind]
    split
    case h_10 =>
      rcases (mode_letters_agree same _ false [] _ 0).cases with
        ⟨problem, former, latter⟩ | ⟨⟨_, _, _⟩, ⟨_, _, _⟩, former, latter, seen⟩
      · rw [former, latter]
        rfl
      · rw [former, latter]
        simp only [seenModes, Prod.mk.injEq] at seen
        simp [Agree, Except.map, Opening.seen, seen]
    all_goals rfl

/-- What kind of parentheses is opened does not depend on the modes. -/
theorem enclosure_of_opening {enclosure : Modes → Nat → Enclosure} {captures : Bool}
    {name : Option String} (begun : opening modes position rest =
      .ok (.group enclosure captures name, taken)) (former latter : Modes) (number : Nat) :
    enclosure former number = enclosure latter number := by
  obtain ⟨gap, _, chosen⟩ := Attempt.bind_eq_ok_iff.mp begun
  simp only at chosen
  split at chosen
  case h_1 | h_2 | h_3 | h_4 | h_9 | h_11 =>
    cases chosen
    rfl
  case h_5 | h_6 | h_7 =>
    split at chosen
    · cases chosen
      rfl
    · cases chosen
  case h_8 => split at chosen <;> cases chosen
  case h_10 =>
    obtain ⟨_, _, ended⟩ := Attempt.bind_eq_ok_iff.mp chosen
    cases ended

/-- The parentheses, with the modes from before them seen by what they decide. -/
def Enclosure.outline : Enclosure → Enclosure
  | plain modes => plain modes.layout
  | other => other

theorem Enclosure.outline_wrap {former latter : Enclosure} (same : former.outline = latter.outline)
    {first second : Expr} (inside : first.outline = second.outline) :
    (former.wrap first).outline = (latter.wrap second).outline := by
  cases former <;> cases latter <;>
    simp_all [outline, wrap, Expr.outline, ← Expr.grouped_outline]

/-- The outlines of what has been read. -/
def Level.outline (level : Level) : Level :=
  ⟨level.finished.map .outline, level.parts.map .outline⟩

theorem Level.outline_add (level : Level) (part : Expr) :
    (level.add part).outline = level.outline.add part.outline := by
  rw [add, add]
  simp only [Expr.outline_eq_empty_iff]
  split <;> rfl

theorem Level.outline_divide (level : Level) : level.divide.outline = level.outline.divide := by
  simp [divide, outline, Expr.sequences_outline]

theorem Level.outline_expression (level : Level) :
    level.expression.outline = level.outline.expression := by
  simp only [expression, Expr.alternatives_outline, List.map_reverse, ← outline_divide]
  rfl

/-- The state without what does not decide how it is read on. -/
def State.outline (state : State) : State where
  modes := state.modes.layout
  groups := state.groups
  names := state.names
  numbered := state.numbered
  level := state.level.outline
  enclosing := state.enclosing.map fun (enclosure, level) => (enclosure.outline, level.outline)
  waiting := state.waiting.map .outline

/-- What two such states have read has one outline. -/
theorem State.outline_expression {state fellow : State} (same : state.outline = fellow.outline) :
    state.level.expression.outline = fellow.level.expression.outline := by
  rw [Level.outline_expression, Level.outline_expression]
  exact congrArg (fun state : State => state.level.expression) same

/-- The items are seen without what their sets hold. -/
def seenItems (result : List Bracket.Item × Nat) : List Bracket.Item × Nat :=
  (result.1.map .outline, result.2)

theorem bracket_items_agree (bound : Nat) (first second : Bool) (depth : Nat)
    {former latter : List Bracket.Item}
    (same : former.map Bracket.Item.outline = latter.map Bracket.Item.outline)
    (position taken : Nat) (rest : List Char) :
    Agree seenItems (bracketItems bound first depth former position taken rest)
      (bracketItems bound second depth latter position taken rest) := by
  generalize counted : rest.length = length
  induction length using Nat.strongRecOn generalizing rest depth former latter position taken with
  | ind length induction =>
  subst counted
  cases rest with
  | nil =>
    rw [bracketItems, bracketItems]
    rfl
  | cons character further =>
    have onward {former latter : List Bracket.Item}
        (same : former.map Bracket.Item.outline = latter.map Bracket.Item.outline)
        (depth position taken count : Nat) :
        Agree seenItems (bracketItems bound first depth former position taken (further.drop count))
          (bracketItems bound second depth latter position taken (further.drop count)) := by
      refine induction _ ?_ depth same position taken _ rfl
      rw [List.length_cons, List.length_drop]
      omega
    by_cases escaped : character = '\\'
    · subst escaped
      rw [bracketItems, bracketItems]
      rcases (Escape.read_agree true first second position further).cases with
        ⟨problem, failed, fails⟩ | ⟨⟨meaning, count⟩, ⟨other, _⟩, described, describes, seen⟩
      · rw [failed, fails]
        rfl
      · obtain ⟨seen, rfl⟩ := Prod.mk.inj seen
        rw [described, describes]
        rcases Escape.Meaning.cases_of_outline seen with rfl | ⟨one, others, rfl, rfl, sets⟩
        · cases meaning with
          | character _ _ => exact onward (by rw [List.map_cons, List.map_cons, same]) _ _ _ _
          | set _ => exact onward (by rw [List.map_cons, List.map_cons, same]) _ _ _ _
          | condition _ | name _ => rfl
          | number _ =>
            simp only
            split <;> rfl
        · refine onward ?_ _ _ _ _
          simp only [List.map_cons, Bracket.Item.outline, sets, same]
    by_cases closes : character = ']'
    · subst closes
      cases depth with
      | zero =>
        rw [bracketItems, bracketItems]
        simp [Agree, Except.map, seenItems, same]
      | succ depth =>
        rw [bracketItems, bracketItems]
        exact onward (by rw [List.map_cons, List.map_cons, same]) depth _ _ 0
    · rw [bracketItems.eq_5 _ _ _ _ _ _ _ _ escaped closes,
        bracketItems.eq_5 _ _ _ _ _ _ _ _ escaped closes]
      exact onward (by rw [List.map_cons, List.map_cons, same]) _ _ _ 0

/-- What a part leaves is seen by its outline. -/
def State.seen (result : State × Nat) : State × Nat := (result.1.outline, result.2)

section

variable {state fellow : State}

theorem outline_wait (same : state.outline = fellow.outline) {former latter : Expr}
    (alike : former.outline = latter.outline) :
    { state with waiting := some former }.outline = { fellow with waiting := some latter }.outline := by
  change { state.outline with waiting := some former.outline } =
    { fellow.outline with waiting := some latter.outline }
  rw [same, alike]

/-- What waits after both states took as many characters is seen alike. -/
theorem wait_agree (same : state.outline = fellow.outline) {former latter : Expr}
    (alike : former.outline = latter.outline) (taken : Nat) :
    Agree State.seen (.ok ({ state with waiting := some former }, taken) : Except Problem _)
      (.ok ({ fellow with waiting := some latter }, taken)) := by
  simp [Agree, Except.map, State.seen, outline_wait same alike]

theorem group_of_outline (same : state.outline = fellow.outline) (name : String) :
    groupOf? state name = groupOf? fellow name := by
  have names : state.names = fellow.names := (congrArg State.names same :)
  rw [groupOf?, groupOf?, names]

theorem escape_agree (same : state.outline = fellow.outline) (bound position : Nat)
    (rest : List Char) :
    Agree State.seen (escape bound state position rest) (escape bound fellow position rest) := by
  have described := Escape.read_agree false state.modes.caseInsensitive
    fellow.modes.caseInsensitive position rest
  refine described.bind fun ⟨former, taken⟩ ⟨latter, count⟩ seen => ?_
  obtain ⟨seen, rfl⟩ := Prod.mk.inj seen
  rcases Escape.Meaning.cases_of_outline seen with rfl | ⟨one, others, rfl, rfl, sets⟩
  · cases former with
    | character | set | condition => exact wait_agree same rfl _
    | number group =>
      simp only
      split
      · have marked : { state with numbered := true }.outline =
            { fellow with numbered := true }.outline :=
          congrArg (fun state : State => { state with numbered := true }) same
        exact wait_agree marked rfl _
      · rfl
    | name name =>
      simp only [group_of_outline same]
      split
      · exact wait_agree same rfl _
      · rfl
  · exact wait_agree same (by rw [Expr.outline, Expr.outline, sets]) _

theorem bracket_agree (same : state.outline = fellow.outline) (bound position : Nat)
    (rest : List Char) :
    Agree State.seen (bracket bound state position rest) (bracket bound fellow position rest) := by
  refine (bracket_items_agree bound _ _ 0 rfl _ _ _).bind fun ⟨former, taken⟩ ⟨latter, _⟩ seen => ?_
  obtain ⟨items, rfl⟩ := Prod.mk.inj seen
  refine wait_agree same ?_ _
  have items : former.reverse.map Bracket.Item.outline = latter.reverse.map Bracket.Item.outline := by
    rw [List.map_reverse, items, List.map_reverse]
  have sense := Bracket.is_some_parse items state.modes.caseInsensitive fellow.modes.caseInsensitive
  simp only [Expr.outline]
  cases one : Bracket.parse? state.modes.caseInsensitive former.reverse <;>
    cases other : Bracket.parse? fellow.modes.caseInsensitive latter.reverse <;>
    simp_all

theorem check_references_outline (same : state.outline = fellow.outline) :
    checkReferences state = checkReferences fellow := by
  have finished := congrArg (fun state : State => state.level.finished.isEmpty) same
  have names : state.names = fellow.names := (congrArg State.names same :)
  have numbered : state.numbered = fellow.numbered := (congrArg State.numbered same :)
  simp only [State.outline, Level.outline, List.isEmpty_map] at finished
  rw [checkReferences, checkReferences, finished, names, numbered]

/-- The state behind a closing parenthesis: the group waits. -/
def State.behind (state : State) (modes : Modes) (level : Level)
    (enclosing : List (Enclosure × Level)) (group : Expr) : State :=
  { state with modes, level, enclosing, waiting := some group }

theorem State.outline_behind (modes : Modes) (level : Level)
    (enclosing : List (Enclosure × Level)) (group : Expr) :
    (state.behind modes level enclosing group).outline =
      state.outline.behind modes.layout level.outline
        (enclosing.map fun (enclosure, level) => (enclosure.outline, level.outline))
        group.outline := rfl

theorem close_group_agree (same : state.outline = fellow.outline) (position : Nat) :
    Agree State.outline (closeGroup state position) (closeGroup fellow position) := by
  have modes : state.modes.layout = fellow.modes.layout := (congrArg State.modes same :)
  have inside := State.outline_expression same
  have enclosing := congrArg State.enclosing same
  simp only [State.outline] at enclosing
  rw [closeGroup, closeGroup, check_references_outline same]
  cases checkReferences fellow with
  | error problem => rfl
  | ok _ =>
    cases former : state.enclosing with
    | nil =>
      rw [former, List.map_nil, eq_comm, List.map_eq_nil_iff] at enclosing
      rw [enclosing]
      rfl
    | cons first others =>
      cases latter : fellow.enclosing with
      | nil => simp [former, latter] at enclosing
      | cons second further =>
        obtain ⟨enclosure, outer⟩ := first
        obtain ⟨kind, beyond⟩ := second
        simp only [former, latter, List.map_cons, List.cons.injEq, Prod.mk.injEq] at enclosing
        obtain ⟨⟨kinds, levels⟩, enclosing⟩ := enclosing
        have wrapped := Enclosure.outline_wrap kinds inside
        have alike {former latter : Modes} (modes : former.layout = latter.layout) :
            (state.behind former outer others (enclosure.wrap state.level.expression)).outline =
              (fellow.behind latter beyond further (kind.wrap fellow.level.expression)).outline := by
          rw [State.outline_behind, State.outline_behind, same, modes, levels, enclosing, wrapped]
        cases enclosure <;> cases kind <;> simp only [Enclosure.outline, reduceCtorEq] at kinds
        case plain.plain former latter =>
          exact congrArg Except.ok (alike (Enclosure.plain.inj kinds))
        all_goals exact congrArg Except.ok (alike modes)

/-- The state inside of an opening parenthesis. -/
def State.inside (state : State) (modes : Modes) (groups : Nat) (names : List (String × Nat))
    (enclosure : Enclosure) : State :=
  { state with
    modes, groups, names, level := {}, enclosing := (enclosure, state.level) :: state.enclosing }

theorem State.outline_inside (modes : Modes) (groups : Nat) (names : List (String × Nat))
    (enclosure : Enclosure) :
    (state.inside modes groups names enclosure).outline =
      state.outline.inside modes.layout groups names enclosure.outline := rfl

theorem open_group_agree (same : state.outline = fellow.outline) (position : Nat)
    (rest : List Char) :
    Agree State.seen (openGroup state position rest) (openGroup fellow position rest) := by
  have modes : state.modes.layout = fellow.modes.layout := (congrArg State.modes same :)
  have groups : state.groups = fellow.groups := (congrArg State.groups same :)
  have names : state.names = fellow.names := (congrArg State.names same :)
  have depth := congrArg (fun state : State => state.enclosing.length) same
  simp only [State.outline, List.length_map] at depth
  have opened {former latter : Modes} (modes : former.layout = latter.layout)
      {enclosure kind : Enclosure} (kinds : enclosure.outline = kind.outline) {one other : Nat}
      (groups : one = other) {some others : List (String × Nat)} (names : some = others)
      (taken : Nat) :
      Agree State.seen (.ok (state.inside former one some enclosure, taken) : Except Problem _)
        (.ok (fellow.inside latter other others kind, taken)) := by
    have alike : (state.inside former one some enclosure).outline =
        (fellow.inside latter other others kind).outline := by
      rw [State.outline_inside, State.outline_inside, same, modes, kinds, groups, names]
    exact congrArg (fun state => Except.ok (state, taken)) alike
  have gap : blanks state.modes (position + 1) rest = blanks fellow.modes (position + 1) rest := by
    rw [← blanks_layout, modes, blanks_layout]
  rw [openGroup, openGroup, depth]
  split
  · rfl
  · have begun := opening_agree modes (position + 1) rest
    rcases begun.cases with ⟨problem, failed, fails⟩ | ⟨⟨former, taken⟩, ⟨latter, _⟩, begins, starts, seen⟩
    · rw [failed, fails]
      rfl
    · cases former with
      | group enclosure captures name =>
        cases latter <;> simp only [Opening.seen, Prod.mk.injEq, reduceCtorEq, false_and] at seen
        obtain ⟨begun, rfl⟩ := seen
        cases begun
        have kinds := congrArg Enclosure.outline
          (enclosure_of_opening begins state.modes fellow.modes
            (if captures then fellow.groups + 1 else fellow.groups))
        simp only [begins, starts, groups, names, bind, Except.bind]
        exact opened modes kinds rfl rfl taken
      | modes set encloses =>
        cases latter <;> simp only [Opening.seen, Prod.mk.injEq, reduceCtorEq, false_and] at seen
        obtain ⟨begun, rfl⟩ := seen
        obtain ⟨within, rfl⟩ := Opening.modes.inj begun
        rw [begins, starts]
        cases encloses with
        | false =>
          have changed : { state with modes := set }.outline = { fellow with modes := _ }.outline :=
            congrArg₂ (fun (state : State) modes => { state with modes }) same within
          exact wait_agree changed rfl _
        | true =>
          have kinds : (Enclosure.plain state.modes).outline = (Enclosure.plain fellow.modes).outline :=
            congrArg Enclosure.plain modes
          exact opened within kinds groups names taken
      | reference name =>
        cases latter <;> simp only [Opening.seen, Prod.mk.injEq, reduceCtorEq, false_and] at seen
        obtain ⟨begun, rfl⟩ := seen
        cases begun
        simp only [begins, starts, gap, group_of_outline same, bind, Except.bind]
        split
        · exact wait_agree same rfl _
        · split <;> rfl

/-- A part is read alike. -/
theorem part_agree (same : state.outline = fellow.outline) (bound position : Nat) (first : Char)
    (rest : List Char) :
    Agree State.seen (part bound state position first rest)
      (part bound fellow position first rest) := by
  unfold part
  split
  case h_4 => exact open_group_agree same position rest
  case h_5 =>
    rcases (close_group_agree same position).cases with
      ⟨problem, failed, fails⟩ | ⟨former, latter, closed, closes, alike⟩
    · rw [failed, fails]
      rfl
    · rw [closed, closes]
      exact congrArg (fun state => Except.ok (state, 0)) alike
  case h_6 =>
    have divided : state.level.divide.outline = fellow.level.divide.outline := by
      rw [Level.outline_divide, Level.outline_divide]
      exact congrArg (fun state : State => state.level.divide) same
    have alike : { state with level := state.level.divide }.outline =
        { fellow with level := fellow.level.divide }.outline :=
      congrArg₂ (fun (state : State) level => { state with level }) same divided
    exact congrArg (fun state => Except.ok (state, 0)) alike
  case h_7 => exact escape_agree same bound position rest
  case h_8 => exact bracket_agree same bound _ rest
  case h_9 | h_10 | h_11 => rfl
  case h_2 | h_3 =>
    refine wait_agree same ?_ _
    cases state.modes.multiLine <;> cases fellow.modes.multiLine <;> rfl
  all_goals exact wait_agree same rfl _

theorem settle_outline (state : State) : (settle state).outline = settle state.outline := by
  rw [settle, settle]
  cases waits : state.waiting <;> simp [State.outline, waits, Level.outline_add]

theorem repeated_outline (state : State) (expression : Expr) (bounds : Nat × Option Nat)
    (kind : Bool × Bool) :
    (state.repeated expression bounds kind).outline =
      state.outline.repeated expression.outline bounds kind := by
  obtain ⟨greedy, possessive⟩ := kind
  cases possessive <;>
    simp [State.repeated, State.outline, Level.outline_add, Expr.outline, Modes.layout]

theorem blanked (same : state.outline = fellow.outline) (position : Nat) (rest : List Char) :
    blank state.modes position rest = blank fellow.modes position rest := by
  have modes : state.modes.layout = fellow.modes.layout := (congrArg State.modes same :)
  rw [← blank_layout, modes, blank_layout]

theorem repeating (same : state.outline = fellow.outline) (rest : List Char) :
    operator? state.modes rest = operator? fellow.modes rest := by
  have modes : state.modes.layout = fellow.modes.layout := (congrArg State.modes same :)
  rw [← operator_layout, modes, operator_layout]

theorem mannered (same : state.outline = fellow.outline) (position : Nat) (rest : List Char) :
    manner state.modes position rest = manner fellow.modes position rest := by
  have modes : state.modes.layout = fellow.modes.layout := (congrArg State.modes same :)
  rw [← manner_layout, modes, manner_layout]

/-- If nothing waits in the one state, nothing waits in the other. -/
theorem ready_of_outline (same : state.outline = fellow.outline) (ready : state.waiting = none) :
    fellow.waiting = none := by
  have waiting : state.waiting.map Expr.outline = fellow.waiting.map Expr.outline :=
    (congrArg State.waiting same :)
  rwa [ready, Option.map_none, eq_comm, Option.map_eq_none_iff] at waiting

/-- If something waits in the one state, something of the same outline waits in the other. -/
theorem waiting_of_outline (same : state.outline = fellow.outline) {expression : Expr}
    (waits : state.waiting = some expression) :
    ∃ other, fellow.waiting = some other ∧ expression.outline = other.outline := by
  have waiting : state.waiting.map Expr.outline = fellow.waiting.map Expr.outline :=
    (congrArg State.waiting same :)
  rw [waits, Option.map_some, eq_comm, Option.map_eq_some_iff] at waiting
  obtain ⟨other, present, alike⟩ := waiting
  exact ⟨other, present, alike.symm⟩

/-- What waits in the other state is repeated by the same operator, in the same manner. -/
theorem read_repeated_fellow (same : state.outline = fellow.outline) {first : Char}
    {others : List Char} {expression : Expr} {bounds : Nat × Option Nat} {bound : Nat}
    (visible : blank state.modes position (first :: others) = .ok 0)
    (waits : state.waiting = some expression)
    (repeats : operator? state.modes (first :: others) = some (bounds, taken)) :
    ∃ other, expression.outline = other.outline ∧
      let behind := position + Text.byteLength ((first :: others).take taken)
      read bound fellow position (first :: others) =
        if expression.repeatable then
          manner state.modes behind ((first :: others).drop taken) >>= fun (kind, further) =>
            read bound (fellow.repeated other bounds kind)
              (position + Text.byteLength ((first :: others).take (taken + further)))
              (others.drop (taken + further - 1))
        else .error (.malformed (behind - 1) .nothingToRepeat) := by
  obtain ⟨other, fellowWaits, alike⟩ := waiting_of_outline same waits
  have repeatable : expression.repeatable = other.repeatable := by
    rw [← Expr.repeatable_outline, alike, Expr.repeatable_outline]
  have fellowVisible := (blanked same _ _).symm.trans visible
  have fellowRepeats := (repeating same _).symm.trans repeats
  refine ⟨other, alike, ?_⟩
  simp only [repeatable, mannered same]
  exact read_repeated fellowVisible fellowWaits fellowRepeats

/-- From two states that differ in no more than what decides nothing the reader comes to two such
states, or fails with the same problem.

Proof: induction over the turns of the reader from the one state. From the other it takes the same. -/
theorem read_agree (same : state.outline = fellow.outline) (bound position : Nat)
    (rest : List Char) :
    Agree State.outline (read bound state position rest) (read bound fellow position rest) := by
  induction state, position, rest using read.induct bound generalizing fellow with
  | case1 state position =>
    have settled : (settle state).outline = (settle fellow).outline := by
      rw [settle_outline, same, settle_outline]
    have closed := congrArg (fun state : State => state.enclosing.isEmpty) settled
    simp only [State.outline, List.isEmpty_map] at closed
    rw [read, read, check_references_outline settled, closed]
    cases checkReferences (settle fellow) with
    | error problem => rfl
    | ok _ =>
      simp only [bind, Except.bind]
      split
      · exact congrArg Except.ok settled
      · rfl
  | case2 state position first others problem failed =>
    rw [read_failed failed, read_failed ((blanked same _ _).symm.trans failed)]
    rfl
  | case3 state position first others count skips _ =>
    rename_i induction
    rw [read_skipped skips, read_skipped ((blanked same _ _).symm.trans skips)]
    exact induction same
  | case4 state position first others visible expression waits least most taken repeats rigid =>
    obtain ⟨_, _, fellowReads⟩ := read_repeated_fellow same visible waits repeats
    rw [read_repeated visible waits repeats, fellowReads, if_neg (by simpa using rigid),
      if_neg (by simpa using rigid)]
    rfl
  | case5 state position first others visible expression waits least most taken repeats _
      repeatable problem =>
    rename_i failed
    obtain ⟨_, _, fellowReads⟩ := read_repeated_fellow same visible waits repeats
    rw [read_repeated visible waits repeats, fellowReads, if_pos (by simpa using repeatable),
      if_pos (by simpa using repeatable), failed]
    rfl
  | case6 state position first others visible expression waits least most taken repeats _
      repeatable greedy possessive further manners _ _ _ =>
    rename_i onward
    obtain ⟨other, alike, fellowReads⟩ := read_repeated_fellow same visible waits repeats
    rw [read_repeated visible waits repeats, fellowReads, if_pos (by simpa using repeatable),
      if_pos (by simpa using repeatable), manners]
    refine onward ?_
    have repeated := repeated_outline state expression (least, most) (greedy, possessive)
    rw [same, alike, ← repeated_outline] at repeated
    exact repeated
  | case7 state position first others visible expression waits unrepeated onward =>
    obtain ⟨other, fellowWaits, alike⟩ := waiting_of_outline same waits
    have fellowUnrepeated := (repeating same _).symm.trans unrepeated
    have fellowVisible := (blanked same _ _).symm.trans visible
    rw [read_unrepeated visible waits unrepeated,
      read_unrepeated fellowVisible fellowWaits fellowUnrepeated]
    exact onward (by rw [settle_outline, same, settle_outline])
  | case8 state position first others visible ready problem failed =>
    have fellowVisible := (blanked same _ _).symm.trans visible
    rw [read_part visible ready, read_part fellowVisible (ready_of_outline same ready)]
    rcases (part_agree same bound position first others).cases with
      ⟨_, fails, fellowFails⟩ | ⟨_, _, reads, _⟩
    · rw [fails, fellowFails]
      rfl
    · rw [failed] at reads
      cases reads
  | case9 state position first others visible ready next taken reads onward =>
    have fellowVisible := (blanked same _ _).symm.trans visible
    rw [read_part visible ready, read_part fellowVisible (ready_of_outline same ready)]
    rcases (part_agree same bound position first others).cases with
      ⟨_, fails, _⟩ | ⟨⟨former, _⟩, ⟨latter, _⟩, partRead, fellowRead, seen⟩
    · rw [reads] at fails
      cases fails
    · obtain ⟨alike, rfl⟩ := Prod.mk.inj seen
      rw [reads] at partRead
      cases partRead
      rw [reads, fellowRead]
      exact onward alike

end

end Parser

end Highlighter.Regex
