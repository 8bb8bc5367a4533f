import Highlighter.Proofs.Attempt
import Highlighter.Proofs.Regex.Frame
import Highlighter.Proofs.Regex.Machine
import Highlighter.Regex.Compile

/-!
# The matcher of an expression has the ways of the expression

What is matched by one automaton has the ways of the expression itself. The program of any
other expression may forget ways: a part that is settled keeps only its first one. That is
right in two cases, and only there parts are settled. Either all ways of the part end at
one place, so the lists are alike; or nothing behind the part can go back to it, so only
the first way of the whole counts.
-/

namespace Highlighter.Regex

open Text (Cursor)

variable {text : List Char}

namespace Code

/-- The code sets no marks. -/
def markless : Code → Bool
  | skip | one _ | condition _ | part _ | reference _ => true
  | sequence first second | either first second => first.markless && second.markless
  | repetition body _ _ _ | look _ _ body | atomic body => body.markless
  | capture _ _ => false

/-- Code that sets no marks leaves the marks alone. -/
theorem marks_of_mem_ends {code : Code} (markless : code.markless) {spot reached : Spot text}
    (member : reached ∈ code.ends spot) : reached.marks = spot.marks := by
  induction code generalizing spot reached with
  | skip =>
    obtain rfl : reached = spot := by simpa [ends] using member
    rfl
  | one set | part automaton | reference group =>
    obtain ⟨_, _, rfl⟩ := List.mem_map.mp member
    rfl
  | condition assertion =>
    obtain ⟨_, rfl⟩ : assertion.holds spot.here ∧ reached = spot := by simpa [ends] using member
    rfl
  | sequence first second former latter =>
    obtain ⟨begun, ended⟩ := Bool.and_eq_true_iff.mp markless
    obtain ⟨middle, inFirst, inSecond⟩ := List.mem_flatMap.mp member
    rw [latter ended inSecond, former begun inFirst]
  | either first second former latter =>
    obtain ⟨begun, ended⟩ := Bool.and_eq_true_iff.mp markless
    rcases List.mem_append.mp member with inFirst | inSecond
    · exact former begun inFirst
    · exact latter ended inSecond
  | repetition body least most greedy induction =>
    exact repeated_invariant (fun other => other.marks = spot.marks)
      (fun before behind same round => (induction markless round).trans same) rfl member
  | capture group body => cases markless
  | look distance negated body induction =>
    cases looked : spot.here.back? distance with
    | none => cases negated <;> simp_all [ends]
    | some place =>
      cases negated with
      | false =>
        rw [ends, looked] at member
        obtain ⟨ahead, inBody, rfl⟩ := List.mem_map.mp member
        have kept := induction markless inBody
        exact kept
      | true =>
        rw [ends, looked] at member
        obtain ⟨_, rfl⟩ : body.ends ⟨spot.marks, place⟩ = [] ∧ reached = spot := by
          simpa using member
        rfl
  | atomic body induction =>
    rw [ends, Option.mem_toList] at member
    exact induction markless (List.mem_of_mem_head? member)

/-- The ways of codes one after the other. -/
def through : List Code → Spot text → List (Spot text)
  | [], spot => [spot]
  | code :: others, spot => (code.ends spot).flatMap (through others)

/-- A sequence of codes has the ways of one after the other. -/
theorem ends_sequences (codes : List Code) (spot : Spot text) :
    (sequences codes).ends spot = through codes spot := by
  induction codes generalizing spot with
  | nil => rfl
  | cons code others induction =>
    cases others with
    | nil => simp [sequences, through]
    | cons second rest =>
      rw [sequences, ends, through]
      congr 1
      funext reached
      · exact induction reached
      · simp

theorem through_append (former latter : List Code) (spot : Spot text) :
    through (former ++ latter) spot = (through former spot).flatMap (through latter) := by
  induction former generalizing spot with
  | nil => simp [through]
  | cons code others induction =>
    rw [List.cons_append, through, through, List.flatMap_assoc]
    congr 1
    funext reached
    exact induction reached

end Code

namespace Expr

/-- The ways of expressions one after the other. -/
def through : List Expr → Cursor text → List (Cursor text)
  | [], place => [place]
  | expression :: others, place => (expression.ends place).flatMap (through others)

theorem through_append (former latter : List Expr) (place : Cursor text) :
    through (former ++ latter) place = (through former place).flatMap (through latter) := by
  induction former generalizing place with
  | nil => simp [through]
  | cons expression others induction =>
    rw [List.cons_append, through, through, List.flatMap_assoc]
    congr 1
    funext reached
    exact induction reached

/-- A sequence of expressions has the ways of one after the other. -/
theorem ends_sequences (expressions : List Expr) (place : Cursor text) :
    (sequences expressions).ends place = through expressions place := by
  induction expressions generalizing place with
  | nil => rfl
  | cons expression others induction =>
    cases others with
    | nil => simp [sequences, through]
    | cons second rest =>
      rw [sequences, ends, through]
      congr 1
      funext reached
      · exact induction reached
      · simp

/-- An expression has the ways of its parts one after the other. -/
theorem ends_parts (expression : Expr) (place : Cursor text) :
    expression.ends place = through expression.parts place := by
  induction expression generalizing place with
  | sequence first second former latter =>
    rw [parts, through_append, ends, former]
    congr 1
    funext reached
    exact latter reached
  | _ => simp [parts, through]

end Expr

/-- The places with marks that are the same for all. -/
def marked (marks : Machine.Marks text) (places : List (Cursor text)) : List (Spot text) :=
  places.map (Spot.mk marks)

/-- All ways are the same, or, if nothing will go back to them, the first one is. -/
def Fits (all : Bool) (left right : List (Spot text)) : Prop :=
  if all then Alike left right else left.head? = right.head?

theorem Alike.fits {left right : List (Spot text)} (alike : Alike left right) (all : Bool) :
    Fits all left right := by
  cases all with
  | true => exact alike
  | false => exact alike.head

theorem Fits.head {left right : List (Spot text)} {all : Bool} (fits : Fits all left right) :
    left.head? = right.head? := by
  cases all with
  | true => exact Alike.head fits
  | false => exact fits

/-- The code has the ways of the expression, all of them or at least the first, and sets no
marks. -/
def Means (all : Bool) (code : Code) (expression : Expr) : Prop :=
  code.markless ∧ ∀ {text : List Char} (spot : Spot text),
    Fits all (code.ends spot) (marked spot.marks (expression.ends spot.here))

/-- Behind places with marks, the marks stay. -/
theorem flat_map_marked (marks : Machine.Marks text) (places : List (Cursor text))
    {code : Spot text → List (Spot text)} {expression : Cursor text → List (Cursor text)}
    (same : ∀ place, code ⟨marks, place⟩ = marked marks (expression place)) :
    (marked marks places).flatMap code = marked marks (places.flatMap expression) := by
  rw [marked, marked, List.flatMap_map, List.map_flatMap]
  congr 1
  funext place
  exact same place

theorem prefer_marked (marks : Machine.Marks text) (greedy : Bool)
    (more fewer : List (Cursor text)) :
    prefer greedy (marked marks more) (marked marks fewer) = marked marks (prefer greedy more fewer) := by
  cases greedy <;> simp [prefer, marked]

/-- A repetition whose body leaves the marks alone has the ways of the body's places. -/
theorem repeated_marked (body : Cursor text → List (Cursor text)) (least : Nat)
    (most : Option Nat) (greedy : Bool) (spot : Spot text) :
    repeated Spot.here (fun spot => marked spot.marks (body spot.here)) least most greedy spot =
      marked spot.marks (repeated (fun cursor => cursor) body least most greedy spot.here) := by
  obtain ⟨marks, here⟩ := spot
  have timesMarked (count : Nat) (place : Cursor text) :
      times (fun spot : Spot text => marked spot.marks (body spot.here)) count ⟨marks, place⟩ =
        marked marks (times body count place) := by
    induction count generalizing place with
    | zero => rfl
    | succ count induction => exact flat_map_marked marks _ induction
  have upToMarked (count : Nat) (place : Cursor text) :
      upTo greedy (fun spot : Spot text => marked spot.marks (body spot.here)) count ⟨marks, place⟩ =
        marked marks (upTo greedy body count place) := by
    induction count generalizing place with
    | zero => rfl
    | succ count induction =>
      rw [upTo, upTo, ← prefer_marked, flat_map_marked marks _ induction]
      rfl
  have starMarked (place : Cursor text) :
      star Spot.here greedy (fun spot : Spot text => marked spot.marks (body spot.here))
          ⟨marks, place⟩ =
        marked marks (star (fun cursor => cursor) greedy body place) := by
    induction place using star.induct (fun cursor : Cursor text => cursor) with
    | case1 place induction =>
      rw [star, star, ← prefer_marked]
      congr 1
      refine flat_map_marked marks _ fun reached => ?_
      split
      · rename_i further
        exact induction reached further
      · rfl
  cases most with
  | none => rw [repeated, repeated, timesMarked, flat_map_marked marks _ starMarked]
  | some most =>
    rw [repeated, repeated, timesMarked, flat_map_marked marks _ (upToMarked _)]

namespace Code

/-- The code of an expression that can match in one way only has its way. -/
theorem ends_of_choiceless {expression : Expr} (single : expression.choiceless)
    (spot : Spot text) :
    (ofChoiceless expression).markless ∧
      (ofChoiceless expression).ends spot = marked spot.marks (expression.ends spot.here) := by
  induction expression generalizing spot with
  | empty => exact ⟨rfl, rfl⟩
  | one set => exact ⟨rfl, rfl⟩
  | assertion condition =>
    refine ⟨rfl, ?_⟩
    rw [ofChoiceless, ends, Expr.ends]
    split <;> rfl
  | sequence first second former latter =>
    obtain ⟨begun, ended⟩ := Bool.and_eq_true_iff.mp single
    refine ⟨Bool.and_eq_true_iff.mpr ⟨(former begun spot).1, (latter ended spot).1⟩, ?_⟩
    rw [ofChoiceless, ends, (former begun spot).2, Expr.ends]
    exact flat_map_marked _ _ fun place => (latter ended ⟨spot.marks, place⟩).2
  | capture group body induction => exact induction single spot
  | group body induction => exact induction single spot
  | either first second | repetition body least most greedy | look direction negated body
  | atomic body | reference group => cases single

end Code

namespace Compile

/-- Tame parts one after the other are tame. -/
theorem tame_sequences {parts : List Expr} (tame : ∀ part ∈ parts, part.tame) :
    (Expr.sequences parts).tame :=
  Expr.sequences_of_parts (fun part => part.tame) rfl
    (fun _ _ former latter => Bool.and_eq_true_iff.mpr ⟨former, latter⟩) tame

/-- Parts that need no choices do not need them one after the other. -/
theorem plain_sequences {parts : List Expr}
    (plain : ∀ part ∈ parts, part.needsChoices [] = false) :
    (Expr.sequences parts).needsChoices [] = false :=
  Expr.sequences_of_parts (fun part => part.needsChoices [] = false) rfl
    (fun _ _ former latter => Bool.or_eq_false_iff.mpr ⟨former, latter⟩) plain

/-- The ways through parts of fixed length all end at one place. -/
theorem through_alike_head {parts : List Expr} (tame : ∀ part ∈ parts, part.tame)
    (fixed : ∀ part ∈ parts, part.fixedLength) (place : Cursor text) :
    Alike (Expr.through parts place) (Expr.through parts place).head?.toList := by
  have fixedAll : (Expr.sequences parts).fixedLength :=
    Expr.sequences_of_parts (fun part => part.fixedLength) rfl
      (fun _ _ former latter => Bool.and_eq_true_iff.mpr ⟨former, latter⟩) fixed
  have alike := Expr.ends_alike_head (tame_sequences tame) fixedAll place
  rwa [Expr.ends_sequences] at alike

/-- Codes without choices go through the parts they are made from. -/
theorem through_of_choiceless {parts : List Expr} (single : ∀ part ∈ parts, part.choiceless)
    (spot : Spot text) :
    (∀ code ∈ parts.map Code.ofChoiceless, code.markless) ∧
      Code.through (parts.map Code.ofChoiceless) spot =
        marked spot.marks (Expr.through parts spot.here) := by
  induction parts generalizing spot with
  | nil => exact ⟨by simp, rfl⟩
  | cons part others induction =>
    have first := Code.ends_of_choiceless (single part List.mem_cons_self) spot
    have behind (other : Spot text) := induction
      (fun part listed => single part (List.mem_cons_of_mem _ listed)) other
    constructor
    · simpa using ⟨first.1, by simpa using (behind spot).1⟩
    · rw [List.map_cons, Code.through, first.2, Expr.through]
      exact flat_map_marked _ _ fun place => (behind ⟨spot.marks, place⟩).2

/-- What is spelled out has no choices. -/
theorem choiceless_of_spelled_out {expression : Expr} (spelled : expression.spelledOut) :
    expression.choiceless := by
  induction expression with
  | one set => rfl
  | sequence first second former latter =>
    obtain ⟨begun, ended⟩ := Bool.and_eq_true_iff.mp spelled
    exact Bool.and_eq_true_iff.mpr ⟨former begun, latter ended⟩
  | group body induction => exact induction spelled
  | _ => cases spelled

/-- What is settled has no choices and is gone through part by part, or it is one automaton. -/
theorem settled_cases {parts : List Expr} {codes : List Code}
    (compiled : settled parts = .ok codes) :
    ((∀ part ∈ parts, part.choiceless) ∧ codes = parts.map Code.ofChoiceless) ∨
      codes = [.part (Automaton.ofExpr (.sequences parts))] := by
  unfold settled at compiled
  split at compiled
  · rename_i spelled
    refine .inl ⟨fun part listed => ?_, (Except.ok.inj compiled).symm⟩
    exact choiceless_of_spelled_out (List.all_eq_true.mp spelled part listed)
  · obtain ⟨_, _, made⟩ := Attempt.bind_eq_ok_iff.mp compiled
    have same := Except.ok.inj made
    split at same
    · rename_i single
      exact .inl ⟨List.all_eq_true.mp single, same.symm⟩
    · exact .inr same.symm

/-- What is settled has all the ways of its parts, or keeps the first of them. It sets no
marks. -/
theorem through_settled {parts : List Expr} {codes : List Code}
    (compiled : settled parts = .ok codes) (tame : ∀ part ∈ parts, part.tame)
    (plain : ∀ part ∈ parts, part.needsChoices [] = false) :
    (∀ code ∈ codes, code.markless) ∧ ∀ {text : List Char} (spot : Spot text),
      (Code.through codes spot = marked spot.marks (Expr.through parts spot.here) ∨
        Code.through codes spot =
          marked spot.marks (Expr.through parts spot.here).head?.toList) := by
  rcases settled_cases compiled with ⟨single, rfl⟩ | rfl
  · exact ⟨(through_of_choiceless single (Machine.beginning (Cursor.start []))).1,
      fun spot => .inl (through_of_choiceless single spot).2⟩
  · refine ⟨by simp [Code.markless], fun spot => .inr ?_⟩
    have same := Automaton.ends_of_expr (tame_sequences tame) (plain_sequences plain) spot.here
    simp only [Code.through, Code.ends, List.flatMap_singleton', Automaton.match_preferred,
      Automaton.preferred, same, Expr.ends_sequences]
    rfl

/-- What is plain needs no choices. -/
theorem needs_choices_of_plain {referred : List Nat} {expression : Expr}
    (plain : expression.plain referred) : expression.needsChoices referred = false := by
  simp only [Expr.plain, Bool.and_eq_true, Bool.not_eq_true'] at plain
  exact plain.1

/-- Dividing the parts of a sequence keeps their order and loses none. -/
theorem divide_append (referred : List Nat) (choicesFollow : Bool) (parts : List Expr) :
    let divided := divide referred choicesFollow parts
    divided.1 ++ (divided.2.1 ++ divided.2.2) = parts := by
  simp only [divide]
  generalize begun : parts.takeWhile _ = leading
  have first : leading <+: parts := begun ▸ List.takeWhile_prefix _
  generalize ended : (parts.drop leading.length).reverse.takeWhile _ = trailing
  have last : trailing <+: (parts.drop leading.length).reverse := ended ▸ List.takeWhile_prefix _
  have suffixed : trailing.reverse <:+ parts.drop leading.length := by
    simpa using List.reverse_suffix.mpr last
  have rest := List.suffix_iff_eq_append.mp suffixed
  rw [List.length_reverse] at rest
  rw [rest, List.prefix_iff_eq_append.mp first]

/-- The parts settled at the begin of a sequence are plain and have fixed length. -/
theorem divide_leading {referred : List Nat} {choicesFollow : Bool} {parts : List Expr}
    {part : Expr} (member : part ∈ (divide referred choicesFollow parts).1) :
    part.fixedLength ∧ part.needsChoices referred = false := by
  have settles := List.all_eq_true.mp List.all_takeWhile part member
  obtain ⟨fixed, plain⟩ := Bool.and_eq_true_iff.mp settles
  exact ⟨fixed, needs_choices_of_plain plain⟩

/-- The parts settled at the end of a sequence are plain, and have fixed length if choices
follow. -/
theorem divide_trailing {referred : List Nat} {choicesFollow : Bool} {parts : List Expr}
    {part : Expr} (member : part ∈ (divide referred choicesFollow parts).2.2) :
    (choicesFollow → part.fixedLength) ∧ part.needsChoices referred = false := by
  have settles := List.all_eq_true.mp List.all_takeWhile part (List.mem_reverse.mp member)
  simp only [Bool.and_eq_true, Bool.or_eq_true, Bool.not_eq_true'] at settles
  refine ⟨fun follows => ?_, needs_choices_of_plain settles.2⟩
  rcases settles.1 with fixed | free
  · exact fixed
  · rw [follows] at free
    cases free

/-- The codes have the ways of the parts one after the other, all of them or at least the
first, and set no marks. -/
def Goes (all : Bool) (codes : List Code) (parts : List Expr) : Prop :=
  (∀ code ∈ codes, code.markless) ∧ ∀ {text : List Char} (spot : Spot text),
    Fits all (Code.through codes spot) (marked spot.marks (Expr.through parts spot.here))

/-- What goes through all the parts of an expression means the expression. -/
theorem Goes.means {all : Bool} {codes : List Code} {parts : List Expr} {expression : Expr}
    (goes : Goes all codes parts)
    (whole : ∀ {text : List Char} (place : Cursor text),
      expression.ends place = Expr.through parts place) :
    Means all (Code.sequences codes) expression := by
  have markless : ∀ {codes : List Code}, (∀ code ∈ codes, code.markless) →
      (Code.sequences codes).markless := by
    intro codes every
    induction codes with
    | nil => rfl
    | cons code others induction =>
      have behind := induction fun other listed => every other (List.mem_cons_of_mem _ listed)
      cases others with
      | nil => exact every code List.mem_cons_self
      | cons second rest =>
        exact Bool.and_eq_true_iff.mpr ⟨every code List.mem_cons_self, behind⟩
  refine ⟨markless goes.1, fun spot => ?_⟩
  rw [Code.ends_sequences, whole]
  exact goes.2 spot

/-- What has all ways may stand before anything. -/
theorem Goes.append {all : Bool} {before behind : List Code} {former latter : List Expr}
    (begun : Goes true before former) (ended : Goes all behind latter) :
    Goes all (before ++ behind) (former ++ latter) := by
  constructor
  · intro code member
    rcases List.mem_append.mp member with first | second
    · exact begun.1 code first
    · exact ended.1 code second
  · intro text spot
    have onward : marked spot.marks (Expr.through (former ++ latter) spot.here) =
        (marked spot.marks (Expr.through former spot.here)).flatMap
          fun reached => marked reached.marks (Expr.through latter reached.here) := by
      rw [Expr.through_append, flat_map_marked]
      exact fun place => rfl
    rw [Code.through_append, onward]
    cases all with
    | true => exact Alike.flat_map (begun.2 spot) ended.2
    | false =>
      -- The first way of the whole is the first that some way of the former part has behind it.
      have firsts := funext fun reached : Spot text => (ended.2 reached).head
      simp only [Fits, Bool.false_eq_true, ↓reduceIte, List.head?_flatMap, firsts]
      exact begun.2 spot _

/-- What is settled has the first way of its parts. -/
theorem settled_goes_first {parts : List Expr} {codes : List Code}
    (compiled : settled parts = .ok codes) (tame : ∀ part ∈ parts, part.tame)
    (plain : ∀ part ∈ parts, part.needsChoices [] = false) : Goes false codes parts := by
  obtain ⟨markless, ways⟩ := through_settled compiled tame plain
  refine ⟨markless, fun {text} spot => ?_⟩
  rcases ways spot with all | first
  · rw [all]
    rfl
  · rw [first]
    cases found : Expr.through parts spot.here <;> rfl

/-- What is settled is as good as all ways of parts of fixed length. -/
theorem settled_goes {parts : List Expr} {codes : List Code}
    (compiled : settled parts = .ok codes) (tame : ∀ part ∈ parts, part.tame)
    (plain : ∀ part ∈ parts, part.needsChoices [] = false)
    (fixed : ∀ part ∈ parts, part.fixedLength) : Goes true codes parts := by
  obtain ⟨markless, ways⟩ := through_settled compiled tame plain
  refine ⟨markless, fun {text} spot => ?_⟩
  have once : Alike (marked spot.marks (Expr.through parts spot.here))
      (marked spot.marks (Expr.through parts spot.here).head?.toList) :=
    Alike.map (through_alike_head tame fixed spot.here) _
  rcases ways spot with all | first
  · rw [all]
    exact Alike.refl _
  · rw [first]
    exact once.symm

/-- Codes that have all ways of their parts go through them. -/
theorem tried_goes {parts : List Expr} {codes : List Code}
    (means : List.Forall₂ (fun part code => Means true code part) parts codes) :
    Goes true codes parts := by
  induction means with
  | nil => exact ⟨by simp, fun spot => Alike.refl _⟩
  | @cons part code parts codes first others induction =>
    refine ⟨by simpa using ⟨first.1, induction.1⟩, fun {text} spot => ?_⟩
    have onward : (marked spot.marks (part.ends spot.here)).flatMap
        (fun reached => marked reached.marks (Expr.through parts reached.here)) =
        marked spot.marks (Expr.through (part :: parts) spot.here) :=
      flat_map_marked spot.marks _ fun place => rfl
    rw [← onward]
    exact Alike.flat_map (first.2 spot) induction.2

/-- The parts of a tame expression are tame. -/
theorem tame_parts {expression part : Expr} (tame : expression.tame)
    (member : part ∈ expression.parts) : part.tame := by
  induction expression with
  | sequence first second former latter =>
    obtain ⟨tameFirst, tameSecond⟩ := Bool.and_eq_true_iff.mp tame
    rcases List.mem_append.mp member with inFirst | inSecond
    · exact former tameFirst inFirst
    · exact latter tameSecond inSecond
  | _ =>
    simp only [Expr.parts, List.mem_singleton] at member
    exact member ▸ tame

/-- Settling an expression as a whole gives a code with its first way, and with all of them if
it has fixed length. -/
theorem settled_whole_means {expression : Expr} {compiled : Code} {follow : Bool}
    (succeeded : (settled [expression]).map Code.sequences = .ok compiled)
    (tame : expression.tame) (plain : expression.needsChoices [] = false)
    (fixed : follow → expression.fixedLength) : Means follow compiled expression := by
  cases made : settled [expression] with
  | error obstacle =>
    rw [made] at succeeded
    cases succeeded
  | ok codes =>
    rw [made] at succeeded
    obtain rfl : Code.sequences codes = compiled := Except.ok.inj succeeded
    have whole {text : List Char} (place : Cursor text) :
        expression.ends place = Expr.through [expression] place :=
      (List.flatMap_singleton' _).symm
    have tameAll : ∀ part ∈ [expression], part.tame := by simpa using tame
    have plainAll : ∀ part ∈ [expression], part.needsChoices [] = false := by simpa using plain
    cases follow with
    | true => exact (settled_goes made tameAll plainAll (by simpa using fixed)).means whole
    | false => exact (settled_goes_first made tameAll plainAll).means whole

/-- The program of a sequence has the ways of its parts: the leading parts have theirs at one
place, those that are tried have all of theirs, and the trailing ones have theirs at one place
too if choices follow, and otherwise at least the first. -/
theorem sequence_means {first second : Expr} {follow : Bool} {before middle behind : List Code}
    (leading : settled (divide [] follow (first.parts ++ second.parts)).1 = .ok before)
    (trailing : settled (divide [] follow (first.parts ++ second.parts)).2.2 = .ok behind)
    (tried : List.Forall₂ (fun part code => Means true code part)
      (divide [] follow (first.parts ++ second.parts)).2.1 middle)
    (tame : ∀ part ∈ first.parts ++ second.parts, part.tame) :
    Means follow (Code.sequences (before ++ middle ++ behind)) (.sequence first second) := by
  have whole := divide_append [] follow (first.parts ++ second.parts)
  have begun : Goes true before (divide [] follow (first.parts ++ second.parts)).1 :=
    settled_goes leading (fun part member => tame part (by
        rw [← whole]
        exact List.mem_append_left _ member))
      (fun part member => (divide_leading member).2) fun part member => (divide_leading member).1
  have tameTrailing (part : Expr)
      (member : part ∈ (divide [] follow (first.parts ++ second.parts)).2.2) : part.tame :=
    tame part (by
      rw [← whole]
      exact List.mem_append_right _ (List.mem_append_right _ member))
  have ended : Goes follow behind (divide [] follow (first.parts ++ second.parts)).2.2 := by
    cases follow with
    | true =>
      exact settled_goes trailing tameTrailing (fun part member => (divide_trailing member).2)
        fun part member => (divide_trailing member).1 rfl
    | false =>
      exact settled_goes_first trailing tameTrailing
        fun part member => (divide_trailing member).2
  have goes := begun.append ((tried_goes tried).append ended)
  rw [whole, ← List.append_assoc] at goes
  exact goes.means fun place => Expr.ends_parts (.sequence first second) place

/-- Alternatives have the ways of one and then of the other. -/
theorem either_means {first second : Expr} {former latter : Code} {all : Bool}
    (begun : Means all former first) (ended : Means all latter second) :
    Means all (.either former latter) (.either first second) := by
  refine ⟨Bool.and_eq_true_iff.mpr ⟨begun.1, ended.1⟩, fun spot => ?_⟩
  rw [Code.ends, Expr.ends, marked, List.map_append]
  cases all with
  | true => exact Alike.append (begun.2 spot) (ended.2 spot)
  | false =>
    simp only [Fits, Bool.false_eq_true, ↓reduceIte, List.head?_append]
    rw [(begun.2 spot).head, (ended.2 spot).head]
    rfl

/-- A code with the ways of the body, repeated, has the ways of the repetition. -/
theorem repetition_means {body : Expr} {compiled : Code} (means : Means true compiled body)
    (least : Nat) (most : Option Nat) (greedy : Bool) (all : Bool) :
    Means all (.repetition compiled least most greedy) (.repetition body least most greedy) := by
  refine ⟨means.1, fun spot => Alike.fits ?_ all⟩
  rw [Expr.ends, ← repeated_marked]
  exact Alike.repeated means.2 least most greedy spot

/-- For the first way of an optional part, the first way of the part is enough. -/
theorem optional_means {body : Expr} {compiled : Code} (means : Means false compiled body)
    (greedy : Bool) :
    Means false (.repetition compiled 0 (some 1) greedy) (.repetition body 0 (some 1) greedy) := by
  refine ⟨means.1, fun spot => ?_⟩
  have once {Place : Type} (ways : Place → List Place) (place : Place) :
      upTo greedy ways 1 place = prefer greedy (ways place) [place] := by
    rw [upTo]
    exact congrArg (prefer greedy · [place]) (List.flatMap_singleton' _)
  have first := (means.2 spot).head
  simp only [Fits, Bool.false_eq_true, ↓reduceIte, Code.ends, Expr.ends, repeated, Nat.zero_min,
    times, List.flatMap_singleton, Nat.sub_zero, once, ← prefer_marked]
  cases greedy with
  | true =>
    simp only [prefer, ↓reduceIte, List.head?_append, first]
    rfl
  | false => rfl

/-- A lookahead only asks whether there is a way ahead. -/
theorem look_means {body : Expr} {compiled : Code} (means : Means false compiled body)
    (negated : Bool) (all : Bool) :
    Means all (.look 0 negated compiled) (.look .ahead negated body) := by
  refine ⟨means.1, fun {text} spot => Alike.fits ?_ all⟩
  have back : spot.here.back? 0 = some spot.here := rfl
  have none : (compiled.ends spot).isEmpty = (body.ends spot.here).isEmpty := by
    have first := (means.2 spot).head
    cases left : compiled.ends spot <;> cases right : body.ends spot.here <;>
      simp_all [marked]
  cases negated with
  | true =>
    rw [Code.ends, back, Expr.ends]
    simp only [none]
    split <;> exact Alike.refl _
  | false =>
    have all : ∀ other ∈ (compiled.ends spot).map fun reached => Spot.mk reached.marks spot.here,
        other = spot := by
      intro other member
      obtain ⟨reached, ahead, rfl⟩ := List.mem_map.mp member
      rw [Code.marks_of_mem_ends means.1 ahead]
    have once := Alike.of_same spot all
    rw [Code.ends, back, Expr.ends, ← none]
    change Alike ((compiled.ends spot).map _) _
    cases ways : compiled.ends spot with
    | nil => exact Alike.refl _
    | cons reached others =>
      rw [ways] at once all
      have first := all _ (List.mem_map_of_mem List.mem_cons_self)
      simpa [marked, ways, first] using once

/-- The program of a tame expression has its ways, all of them if choices follow, and at
least the first otherwise.

Proof: induction over the size of the expression. -/
theorem code_means {expression : Expr} (tame : expression.tame) {follow : Bool} {compiled : Code}
    (succeeded : code [] follow expression = .ok compiled) : Means follow compiled expression := by
  generalize size : sizeOf expression = count
  induction count using Nat.strongRecOn generalizing expression follow compiled with
  | ind count induction =>
    by_cases settles : !follow && expression.plain []
    · rw [code.eq_def, if_pos settles] at succeeded
      simp only [Bool.and_eq_true, Bool.not_eq_true'] at settles
      exact settled_whole_means succeeded tame (needs_choices_of_plain settles.2)
        (by simp [settles.1])
    · rw [code.eq_def, if_neg settles] at succeeded
      cases expression with
      | empty => exact settled_whole_means succeeded tame rfl fun _ => rfl
      | one set => exact settled_whole_means succeeded tame rfl fun _ => rfl
      | assertion condition => exact settled_whole_means succeeded tame rfl fun _ => rfl
      | sequence first second =>
        simp only at succeeded
        obtain ⟨before, leading, succeeded⟩ := Attempt.bind_eq_ok_iff.mp succeeded
        obtain ⟨middle, tried, succeeded⟩ := Attempt.bind_eq_ok_iff.mp succeeded
        obtain ⟨behind, trailing, succeeded⟩ := Attempt.bind_eq_ok_iff.mp succeeded
        obtain rfl := Except.ok.inj succeeded
        have smaller {part : Expr} (member : part ∈ first.parts ++ second.parts) :
            part.tame ∧ sizeOf part < count := by
          refine ⟨tame_parts tame member, ?_⟩
          simp only [Expr.sequence.sizeOf_spec] at size
          rcases List.mem_append.mp member with inFirst | inSecond
          · have bounded := Expr.sizeOf_of_mem_parts inFirst
            omega
          · have bounded := Expr.sizeOf_of_mem_parts inSecond
            omega
        refine sequence_means leading trailing ?_ fun part member => (smaller member).1
        have attached := (Attempt.results_of_map tried).imp fun part code made =>
          have inside := smaller (mem_of_mem_divide part.2)
          induction _ inside.2 inside.1 made rfl
        rw [← List.forall₂_map_left_iff (f := Subtype.val) (R := fun part code => Means true code part),
          List.attach_map_subtype_val] at attached
        exact attached
      | either first second =>
        obtain ⟨tameFirst, tameSecond⟩ := Bool.and_eq_true_iff.mp tame
        simp only [Expr.either.sizeOf_spec] at succeeded size
        obtain ⟨former, begun, succeeded⟩ := Attempt.bind_eq_ok_iff.mp succeeded
        obtain ⟨latter, ended, succeeded⟩ := Attempt.bind_eq_ok_iff.mp succeeded
        obtain rfl := Except.ok.inj succeeded
        exact either_means (induction _ (by omega) tameFirst begun rfl)
          (induction _ (by omega) tameSecond ended rfl)
      | repetition body least most greedy =>
        simp only [Expr.tame, Bool.and_eq_true] at tame
        simp only [Expr.repetition.sizeOf_spec] at succeeded size
        obtain ⟨inner, made, succeeded⟩ := Attempt.bind_eq_ok_iff.mp succeeded
        obtain rfl := Except.ok.inj succeeded
        have means := induction _ (by omega) tame.1.1 made rfl
        by_cases tried : follow || ((least, most) != (0, some 1) && !body.plain [])
        · rw [tried] at means
          exact repetition_means means least most greedy follow
        · -- Only an optional part may be tried once.
          rw [Bool.not_eq_true] at tried
          rw [tried] at means
          obtain ⟨rfl, single⟩ := Bool.or_eq_false_iff.mp tried
          have needed : body.plain [] = false := by
            simpa [Expr.plain, Expr.needsChoices, Expr.asksForWords] using settles
          obtain ⟨rfl, rfl⟩ : least = 0 ∧ most = some 1 := by simpa [needed] using single
          exact optional_means means greedy
      | capture group body =>
        simp only [Expr.capture.sizeOf_spec] at succeeded size
        obtain ⟨inner, made, succeeded⟩ := Attempt.bind_eq_ok_iff.mp succeeded
        obtain rfl : inner = compiled := by simpa using Except.ok.inj succeeded
        have tameBody : body.tame := tame
        exact induction _ (by omega) tameBody made rfl
      | group body =>
        simp only [Expr.group.sizeOf_spec] at succeeded size
        have tameBody : body.tame := tame
        exact induction _ (by omega) tameBody succeeded rfl
      | look direction negated body =>
        cases direction with
        | ahead =>
          simp only [Expr.look.sizeOf_spec] at succeeded size
          obtain ⟨inner, made, succeeded⟩ := Attempt.bind_eq_ok_iff.mp succeeded
          obtain rfl := Except.ok.inj succeeded
          have tameBody : body.tame := tame
          exact look_means (induction _ (by omega) tameBody made rfl) negated follow
        | behind => cases tame
      | atomic body => cases tame
      | reference group => cases tame

end Compile

end Highlighter.Regex
