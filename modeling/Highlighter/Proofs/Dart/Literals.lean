import Highlighter.Proofs.Dart.Matches
import Highlighter.Proofs.Dart.Scanning

/-!
# Where literals end

The pattern of literals repeats an ambiguous round: a backslash may take the quote behind it
along, or stand alone and leave the quote to end the literal. Which end is preferred does not
show in the pattern. It is the first quote without a backslash before it, if the literal may
end there; if not, it is the last quote before that one, each of which has a backslash before
it. `literalEnd?` says so of the text alone, and the scan with the pattern finds exactly what
a scanner with it finds.

The proof follows the text behind the first quote. At each place it says which end is found
from there on; a quote that no backslash precedes stops it.
-/

namespace Highlighter.Dart

open Text (Cursor)
open Regex (Expr CharClass)

/-- The positions from the given one on that hold the quote. -/
def quotesFrom (text : List Char) (quote : Char) (position : Nat) : List Nat :=
  (List.range' position (text.length - position)).filter fun other => text[other]? = some quote

/-- The character before the position is a backslash. -/
def isEscaped (text : List Char) (position : Nat) : Bool := text[position - 1]? = some '\\'

/-- The character behind the position is not the one that follows the quotes of an attribute. -/
def isFree (text : List Char) (position : Nat) : Bool := text[position + 1]? ≠ some '>'

/-- The quote that ends a literal, of those that follow its first one: the first that is not
escaped, if it is free; otherwise the last one before it that is free. -/
def closing? (text : List Char) (quotes : List Nat) : Option Nat :=
  ((quotes.dropWhile (isEscaped text)).head?.filter (isFree text)).or
    ((quotes.takeWhile (isEscaped text)).filter (isFree text)).getLast?

/-- Where the literal ends that begins at the position, if one does. -/
def literalEnd? (text : List Char) (position : Nat) : Option Nat :=
  match text[position]? with
  | none => none
  | some quote =>
    if (quote = '\'' ∨ quote = '"') ∧ isFree text position then
      (closing? text (quotesFrom text quote (position + 1))).map (· + 1)
    else none

variable {text : List Char} {quote : Char} {position : Nat}

/-- No quote is left behind the end of the text. -/
theorem quotes_at_end (passed : text[position]? = none) : quotesFrom text quote position = [] := by
  have bounded := List.getElem?_eq_none_iff.mp passed
  rw [quotesFrom, Nat.sub_eq_zero_of_le bounded]
  rfl

/-- The position itself comes first if it holds the quote. -/
theorem quotes_from_succ {character : Char} (held : text[position]? = some character) :
    quotesFrom text quote position =
      if character = quote then position :: quotesFrom text quote (position + 1)
      else quotesFrom text quote (position + 1) := by
  obtain ⟨inside, _⟩ := List.getElem?_eq_some_iff.mp held
  have left : text.length - position = text.length - (position + 1) + 1 := by omega
  rw [quotesFrom, left, List.range'_succ, List.filter_cons, held]
  simp only [Option.some.injEq, decide_eq_true_eq]
  rfl

/-- A quote that is not escaped ends the literal or lets it end nowhere. -/
theorem closing_of_plain {quotes : List Nat} (plain : isEscaped text position = false) :
    closing? text (position :: quotes) = (some position).filter (isFree text) := by
  simp [closing?, plain]

/-- A quote that is escaped ends the literal if no later one does. -/
theorem closing_of_escaped {quotes : List Nat} (escaped : isEscaped text position) :
    closing? text (position :: quotes) =
      (closing? text quotes).or ((some position).filter (isFree text)) := by
  have last : (((position :: quotes).takeWhile (isEscaped text)).filter (isFree text)).getLast? =
      (((quotes.takeWhile (isEscaped text)).filter (isFree text)).getLast?).or
        ((some position).filter (isFree text)) := by
    rw [List.takeWhile_cons_of_pos escaped, List.filter_cons]
    cases free : isFree text position with
    | true => simp [List.getLast?_cons, free, Option.filter, Option.getD]
    | false => simp [free, Option.filter]
  rw [closing?, last, List.dropWhile_cons_of_pos escaped, closing?, Option.or_assoc]

/-! ### What the pattern prefers -/

/-- The last quote of a literal, with a look at what follows it. -/
def closer (quote : Char) : Expr := .sequences [sign quote, .look .ahead true (sign '>')]

/-- A look at what follows a quote of a literal. -/
theorem look_free {place : Cursor text} {before : Nat} (behind : place.index = before + 1) :
    (Expr.look .ahead true (sign '>')).ends place = if isFree text before then [place] else [] := by
  rw [isFree, ← behind]
  cases held : text[place.index]? with
  | none => simp [Expr.ends, sign_ends_at_end held]
  | some character =>
    obtain ⟨further, _, taken⟩ := sign_ends_at held
    by_cases same : character = '>' <;> simp [Expr.ends, taken, same]

/-- A literal ends behind a quote that is free. -/
theorem closer_at_quote {place : Cursor text} (held : text[place.index]? = some quote) :
    ((closer quote).ends place).head?.map Cursor.index =
      ((some place.index).filter (isFree text)).map (· + 1) := by
  obtain ⟨further, moved, taken⟩ := sign_ends_at held
  change (((sign quote).ends place).flatMap (Expr.look .ahead true (sign '>')).ends).head?.map _ = _
  rw [taken, if_pos rfl, List.flatMap_singleton, look_free moved]
  cases free : isFree text place.index <;> simp [Option.filter, free, moved]

/-- A literal does not end where no quote is. -/
theorem closer_elsewhere {place : Cursor text} (other : text[place.index]? ≠ some quote) :
    (closer quote).ends place = [] := by
  change ((sign quote).ends place).flatMap _ = []
  rw [sign_ends_elsewhere other, List.flatMap_nil]

variable {group : Nat}

/-- No round takes a quote that stands alone, or goes on behind the end of the text. -/
theorem round_stops (apart : quote ≠ '\\') {place : Cursor text}
    (stops : ∀ character, text[place.index]? = some character → character = quote) :
    (quotedRound quote group).ends place = [] := by
  change ((sign '\\').ends place).flatMap (sign quote).ends ++
    (CharClass.complement (union [.single quote])).ends place = []
  cases held : text[place.index]? with
  | none =>
    rw [sign_ends_at_end held, CharClass.ends_at_end _ held]
    rfl
  | some character =>
    obtain rfl := stops character held
    obtain ⟨_, _, sets⟩ := CharClass.ends_at held
    obtain ⟨_, _, signs⟩ := sign_ends_at held
    rw [sets, signs, if_neg apart]
    simp [union, CharClass.contains, CharClass.single]

/-- A round takes a character that is not the quote, and before it, if it can, an escaped
quote. -/
theorem round_goes_on (group : Nat) {place : Cursor text} {character : Char}
    (held : text[place.index]? = some character) (other : character ≠ quote) :
    ∃ further : Cursor text, further.index = place.index + 1 ∧
      (quotedRound quote group).ends place =
        (if character = '\\' then (sign quote).ends further else []) ++ [further] := by
  obtain ⟨further, moved, sets⟩ := CharClass.ends_at held
  obtain ⟨another, again, signs⟩ := sign_ends_at held
  obtain rfl : another = further := Cursor.eq_of_index (again.trans moved.symm)
  refine ⟨another, moved, ?_⟩
  change ((sign '\\').ends place).flatMap (sign quote).ends ++
    (CharClass.complement (union [.single quote])).ends place = _
  have contained : (CharClass.complement (union [.single quote])).contains character := by
    simp [union, CharClass.contains, CharClass.single, other]
  rw [sets, signs, if_pos contained]
  split <;> simp

/-- As many rounds as there are. -/
def rounds (quote : Char) (group : Nat) (place : Cursor text) : List (Cursor text) :=
  Regex.star (fun cursor => cursor) true (quotedRound quote group).ends place

/-- Without a further round the literal ends here or not at all. -/
theorem rounds_of_stop {place : Cursor text} (stops : (quotedRound quote group).ends place = []) :
    rounds quote group place = [place] := by
  rw [rounds, Regex.star, stops]
  rfl

/-- The way of each further round comes before the end of the rounds. -/
theorem rounds_of_go (place : Cursor text) :
    rounds quote group place =
      ((quotedRound quote group).ends place).flatMap (rounds quote group) ++ [place] := by
  refine Regex.star_of_consuming (fun place reached member => ?_) true place
  have taken := Expr.minimal_length_le (by rfl) member
  have one : (quotedRound quote group).minimalLength = 1 := rfl
  omega

/-- From a place on at which no quote is escaped, the end of the literal that is preferred is the
one behind the closing quote.

Proof: induction over what is left of the text. A backslash with a quote behind it makes two
ways; the one that takes both leads past the quote, and the other one ends there. -/
theorem rounds_close (apart : quote ≠ '\\') {place : Cursor text}
    (plain : text[place.index]? = some quote → isEscaped text place.index = false) :
    ((rounds quote group place).flatMap (closer quote).ends).head?.map Cursor.index =
      (closing? text (quotesFrom text quote place.index)).map (· + 1) := by
  induction left : text.length - place.index using Nat.strong_induction_on generalizing place with
  | _ left induction =>
    subst left
    cases held : text[place.index]? with
    | none =>
      have stops : (quotedRound quote group).ends place = [] :=
        round_stops apart fun character same => by rw [held] at same; cases same
      rw [rounds_of_stop stops, quotes_at_end held, List.flatMap_singleton,
        closer_elsewhere (by rw [held]; exact nofun)]
      rfl
    | some character =>
      obtain ⟨inside, _⟩ := List.getElem?_eq_some_iff.mp held
      by_cases same : character = quote
      · subst same
        have stops : (quotedRound character group).ends place = [] :=
          round_stops apart fun other again => Option.some.inj (again.symm.trans held)
        rw [rounds_of_stop stops, List.flatMap_singleton, closer_at_quote held,
          quotes_from_succ held, if_pos rfl, closing_of_plain (plain held)]
      · obtain ⟨further, moved, round⟩ := round_goes_on group held same
        have here : (closer quote).ends place = [] := by
          refine closer_elsewhere ?_
          rw [held]
          exact fun equal => same (Option.some.inj equal)
        have before : isEscaped text further.index = decide (character = '\\') := by
          rw [isEscaped, moved, Nat.add_sub_cancel, held, decide_eq_decide, Option.some.injEq]
        rw [rounds_of_go, round, quotes_from_succ held, if_neg same, ← moved]
        by_cases pair : character = '\\' ∧ text[further.index]? = some quote
        · obtain ⟨rfl, quoted⟩ := pair
          obtain ⟨behind, onward, signs⟩ := sign_ends_at quoted
          have stops : (quotedRound quote group).ends further = [] :=
            round_stops apart fun other again => Option.some.inj (again.symm.trans quoted)
          have unescaped : text[behind.index]? = some quote → isEscaped text behind.index = false := by
            intro _
            rw [isEscaped, onward, Nat.add_sub_cancel, quoted, decide_eq_false_iff_not, Option.some.injEq]
            exact apart
          have later := induction _ (by omega) unescaped rfl
          rw [if_pos rfl, signs, if_pos rfl, quotes_from_succ quoted, if_pos rfl,
            closing_of_escaped (by rw [before]; rfl), ← onward, Option.map_or, ← later,
            ← closer_at_quote quoted, ← Option.map_or, ← List.head?_append, ← rounds_of_stop stops]
          simp [here, rounds_of_stop stops]
        · have alone : (if character = '\\' then (sign quote).ends further else []) = [] := by
            split
            · rename_i backslash
              exact sign_ends_elsewhere fun quoted => pair ⟨backslash, quoted⟩
            · rfl
          have unescaped : text[further.index]? = some quote → isEscaped text further.index = false := by
            intro quoted
            rw [before, decide_eq_false_iff_not]
            exact fun backslash => pair ⟨backslash, quoted⟩
          rw [alone, ← induction _ (by omega) unescaped rfl]
          simp [here]

/-- A quoted text ends behind its closing quote. -/
theorem quoted_close (apart : quote ≠ '\\') (place : Cursor text) :
    ((quoted quote group).ends place).head?.map Cursor.index =
      if text[place.index]? = some quote ∧ isFree text place.index then
        (closing? text (quotesFrom text quote (place.index + 1))).map (· + 1)
      else none := by
  have parts : (quoted quote group).ends place =
      ((sign quote).ends place).flatMap fun begun =>
        ((Expr.look .ahead true (sign '>')).ends begun).flatMap fun opened =>
          (rounds quote group opened).flatMap (closer quote).ends := by
    have alone (opened : Cursor text) :
        (atLeast 0 (quotedRound quote group)).ends opened = rounds quote group opened :=
      List.flatMap_singleton ..
    simp only [← alone]
    rfl
  by_cases held : text[place.index]? = some quote
  · obtain ⟨begun, moved, signs⟩ := sign_ends_at held
    rw [parts, signs, if_pos rfl, List.flatMap_singleton, look_free moved]
    cases free : isFree text place.index with
    | false => simp
    | true =>
      have unescaped : isEscaped text begun.index = false := by
        rw [isEscaped, moved, Nat.add_sub_cancel, held, decide_eq_false_iff_not, Option.some.injEq]
        exact apart
      rw [if_pos rfl, List.flatMap_singleton, rounds_close apart fun _ => unescaped, moved,
        if_pos ⟨held, rfl⟩]
  · rw [parts, sign_ends_elsewhere held, if_neg fun both => held both.1]
    rfl

/-- The preferred literal that begins at a place is the one that the text tells. -/
theorem literal_end_agrees (place : Cursor text) :
    literalEnd? text place.index = (literals.ends place).head?.map Cursor.index := by
  have either : literals.ends place = (quoted '\'' 1).ends place ++ (quoted '"' 3).ends place := rfl
  rw [either, List.head?_append, Option.map_or, quoted_close (by decide), quoted_close (by decide),
    literalEnd?]
  cases held : text[place.index]? with
  | none => simp
  | some character =>
    by_cases single : character = '\''
    · subst single
      simp
    · by_cases double : character = '"'
      · subst double
        simp
      · simp [single, double]

example : literalEnd? "'it\\'s' 'x'>".toList 0 = some 7 := by decide
example : literalEnd? "'a\\'b'>".toList 0 = some 4 := by decide

/-- The literals of Dart are those that a scanner finds which looks at the quotes alone, unless a
search fills the stack. The pattern compiles, and the limit of the text is never reached. A search
can fill the stack only behind a quote that is not closed in time. -/
theorem literal_spans (content : String) :
    ∃ pattern, Grammar.dart.literals = some pattern ∧
      ∃ regex, pattern.compile (Pattern.searchLimit content) = .ok regex ∧
        ((regex.scan content.toList).problem = none ∧
            (regex.scan content.toList).spans = Regex.byteSpans content.toList
              (Regex.leftToRight content.toList.length (literalEnd? content.toList) 0) ∨
          (regex.scan content.toList).problem = some (.exceeded .stack) ∧
            ¬ QuotesClose content.toList) := by
  have planned : (.literal, Grammar.dart.literals) ∈ Grammar.dart.plan := by simp [Grammar.plan]
  have listed : (.literal, literals) ∈ plan := by simp [plan]
  obtain ⟨pattern, present, reports⟩ :=
    spans_of_category planned listed content literal_end_agrees
  exact ⟨pattern, present, reports _ (Nat.le_refl _)⟩

/-- The search behind a quote that more than a million letters follow is given up, although the
scanner goes on there. -/
theorem open_quote_not_scanned :
    let content := openQuote 1200000
    ¬ ∃ pattern, Grammar.dart.literals = some pattern ∧
      ∃ regex, pattern.compile (Pattern.searchLimit content) = .ok regex ∧
        (regex.scan content.toList).problem = none ∧
        (regex.scan content.toList).spans = Regex.byteSpans content.toList
          (Regex.leftToRight content.toList.length (literalEnd? content.toList) 0) := by
  rintro content ⟨pattern, present, regex, compiled, ended, _⟩
  rw [open_quote_given_up (by decide) present compiled] at ended
  cases ended

end Highlighter.Dart
