import Highlighter.Page
import Highlighter.Proofs.Markup.Entities

/-!
# A page keeps its parts apart

The title of a page stands between the first `<title>` and the first `</title>`, the language
between the first `data-language="` behind it and the next quote, and the markup behind the next
`>` up to the ending of all pages. No title and no language can forge a mark that ends it, because
neither holds angle brackets or quotes once it is written; the markup is not searched for a mark at
all. So each part can be read from the page, and pages with different parts are different texts.
-/

namespace Highlighter.Page

/-- The first occurrence of a mark in a text, with what comes before it and behind it. -/
structure FirstAt (mark text before behind : List Char) : Prop where
  parted : text = before ++ mark ++ behind
  first : ∀ earlier later, text = earlier ++ mark ++ later → before.length ≤ earlier.length

namespace FirstAt

variable {mark text before behind : List Char}

/-- A text has one first occurrence of a mark at most. -/
theorem unique {before' behind' : List Char} (one : FirstAt mark text before behind)
    (other : FirstAt mark text before' behind') : before = before' ∧ behind = behind' := by
  have lengths : before.length = before'.length :=
    Nat.le_antisymm (one.first _ _ other.parted) (other.first _ _ one.parted)
  have same : before ++ (mark ++ behind) = before' ++ (mark ++ behind') := by
    rw [← List.append_assoc, ← one.parted, other.parted, List.append_assoc]
  obtain ⟨begins, rest⟩ := List.append_inj same lengths
  exact ⟨begins, List.append_cancel_left rest⟩

/-- What begins with the mark has it first there. -/
theorem here (mark behind : List Char) : FirstAt mark (mark ++ behind) [] behind where
  parted := rfl
  first _ _ _ := Nat.zero_le _

/-- A text behind a character in front of which the mark does not begin. -/
theorem later {character : Char} (found : FirstAt mark text before behind)
    (missing : ¬ mark <+: character :: text) :
    FirstAt mark (character :: text) (character :: before) behind where
  parted := by rw [found.parted, List.cons_append, List.cons_append]
  first earlier later same := by
    cases earlier with
    | nil => exact absurd ⟨later, same.symm⟩ missing
    | cons head earlier =>
      have shorter := found.first earlier later (List.cons.inj same).2
      exact Nat.succ_le_succ shorter

end FirstAt

/-- Nowhere in the stretch the mark begins, whatever follows the stretch. -/
def apart (mark : List Char) : List Char → Bool
  | [] => true
  | character :: rest =>
    !mark.isPrefixOf (character :: rest) && !(character :: rest).isPrefixOf mark && apart mark rest

/-- The mark begins nowhere in a stretch if it does not begin at its first place, or behind it. -/
theorem apart_cons {mark stretch : List Char} {character : Char} :
    apart mark (character :: stretch) ↔
      ¬ mark <+: character :: stretch ∧ ¬ character :: stretch <+: mark ∧ apart mark stretch := by
  rw [apart, Bool.and_eq_true, Bool.and_eq_true, Bool.not_eq_true', Bool.not_eq_true',
    ← Bool.not_eq_true, ← Bool.not_eq_true, List.isPrefixOf_iff_prefix, List.isPrefixOf_iff_prefix,
    and_assoc]

/-- A stretch without the first character of a mark is apart from it. -/
theorem apart_of_not_mem {first : Char} {mark stretch : List Char} (leads : mark.head? = some first)
    (absent : first ∉ stretch) : apart mark stretch := by
  obtain ⟨rest, rfl⟩ := List.head?_eq_some_iff.mp leads
  induction stretch with
  | nil => rfl
  | cons character others induction =>
    rw [List.mem_cons, not_or] at absent
    rw [apart_cons]
    refine ⟨fun begins => ?_, fun begins => ?_, induction absent.2⟩
    · exact absent.1 (List.cons_prefix_cons.mp begins).1
    · exact absent.1 (List.cons_prefix_cons.mp begins).1.symm

/-- What is first behind a stretch that is apart from the mark is first from its begin on. -/
theorem FirstAt.behind {mark stretch text before behind : List Char}
    (found : FirstAt mark text before behind) (free : apart mark stretch) :
    FirstAt mark (stretch ++ text) (stretch ++ before) behind := by
  induction stretch with
  | nil => exact found
  | cons character others induction =>
    obtain ⟨missing, undone, further⟩ := apart_cons.mp free
    refine (induction further).later fun begins => ?_
    rcases List.prefix_or_prefix_of_prefix begins (List.prefix_append (character :: others) text)
      with whole | part
    · exact missing whole
    · exact undone part

/-- A stretch of two that are apart from the mark is apart from it. -/
theorem apart_append {mark former latter : List Char} (first : apart mark former)
    (second : apart mark latter) : apart mark (former ++ latter) := by
  induction former with
  | nil => exact second
  | cons character others induction =>
    obtain ⟨missing, undone, further⟩ := apart_cons.mp first
    rw [List.cons_append, apart_cons]
    refine ⟨fun begins => ?_, fun begins => ?_, induction further⟩
    · rcases List.prefix_or_prefix_of_prefix begins
        (List.prefix_append (character :: others) latter) with whole | part
      · exact missing whole
      · exact undone part
    · exact undone ((List.prefix_append (character :: others) latter).trans begins)

/-- Behind a stretch that is apart from the mark the mark is first. -/
theorem FirstAt.of_apart {mark stretch : List Char} (free : apart mark stretch)
    (behind : List Char) : FirstAt mark (stretch ++ (mark ++ behind)) stretch behind := by
  have found := (FirstAt.here mark behind).behind free
  rwa [List.append_nil] at found

/-- How a text holds the parts of a page as they are written. -/
inductive Holds : (text title language markup : List Char) → Prop where
  | parts {text title language markup head titled body style quoted tail gap : List Char}
      (opened : FirstAt "<title>".toList text head titled)
      (closed : FirstAt "</title>".toList text (head ++ "<title>".toList ++ title) body)
      (named : FirstAt "data-language=\"".toList body style quoted)
      (unquoted : FirstAt "\"".toList quoted language tail)
      (bracketed : FirstAt ">".toList tail gap (markup ++ ending.toList)) :
      Holds text title language markup

/-- A text holds one title, one language and one markup at most. -/
theorem Holds.unique {text title language markup title' language' markup' : List Char}
    (one : Holds text title language markup) (other : Holds text title' language' markup') :
    title = title' ∧ language = language' ∧ markup = markup' := by
  obtain ⟨opened, closed, named, unquoted, bracketed⟩ := one
  obtain ⟨opened', closed', named', unquoted', bracketed'⟩ := other
  obtain ⟨rfl, rfl⟩ := opened.unique opened'
  obtain ⟨title, rfl⟩ := closed.unique closed'
  obtain ⟨rfl, rfl⟩ := named.unique named'
  obtain ⟨rfl, rfl⟩ := unquoted.unique unquoted'
  obtain ⟨_, markup⟩ := bracketed.unique bracketed'
  exact ⟨List.append_cancel_left title, rfl, List.append_cancel_right markup⟩

/-- What stands before the title holds the title's mark at its end only. -/
theorem exists_head : ∃ head, beforeTitle.toList = head ++ "<title>".toList ∧
    apart "<title>".toList head ∧ apart "</title>".toList (head ++ "<title>".toList) :=
  ⟨"<!DOCTYPE html>\n<html>\n<head>\n<meta charset=\"utf-8\">\n".toList, by decide +kernel⟩

/-- No rule of the stylesheet holds the mark of the language. -/
theorem rule_apart {style : Style} (listed : style ∈ Style.all) :
    apart "data-language=\"".toList style.rule.toList := by
  have named : ∀ category : Category,
      apart "data-language=\"".toList (category.className ++ " \x7b color: ").toList := by
    rintro ⟨⟩ <;> decide +kernel
  have coloured : ∀ style ∈ Style.all, apart "data-language=\"".toList style.colour.toList := by
    decide +kernel
  have rule : style.rule.toList =
      ".".toList ++ ((style.category.className ++ " \x7b color: ").toList ++
        (style.colour.toList ++ (";".toList ++
          ((if style.bold then " font-weight: bold;" else "").toList ++
            ((if style.italic then " font-style: italic;" else "").toList ++
              " \x7d\n".toList))))) := by
    simp only [Style.rule, String.toList_append, List.append_assoc]
  rw [rule]
  refine apart_append (by decide) (apart_append (named _) (apart_append (coloured style listed)
    (apart_append (by decide) (apart_append ?_ (apart_append ?_ (by decide))))))
  · split <;> decide +kernel
  · split <;> decide +kernel

/-- Nor does the stylesheet. -/
theorem stylesheet_apart : apart "data-language=\"".toList stylesheet.toList := by
  have rules (styles : List Style) (known : ∀ style ∈ styles, style ∈ Style.all) :
      apart "data-language=\"".toList (styles.flatMap fun style => style.rule.toList) := by
    induction styles with
    | nil => rfl
    | cons style others induction =>
      rw [List.flatMap_cons]
      exact apart_append (rule_apart (known style List.mem_cons_self))
        (induction fun other listed => known other (List.mem_cons_of_mem _ listed))
  rw [stylesheet, String.toList_append, String.toList_join, List.flatMap_map]
  exact apart_append (rules Style.all fun _ listed => listed) (by decide +kernel)

/-- What stands between the end of the title and the stylesheet. -/
def beforeStyles : List Char :=
  "\n<style>\npre.code \x7b font-family: \"Inconsolata\", monospace; \x7d\n".toList

/-- What stands between the stylesheet and the mark of the language. -/
def behindStyles : List Char := "</style>\n</head>\n<body>\n<pre class=\"code\" ".toList

/-- What stands between title and language ends the title and holds the stylesheet. -/
theorem beforeLanguage_eq : beforeLanguage.toList = "</title>".toList ++
    (beforeStyles ++ (stylesheet.toList ++ (behindStyles ++ "data-language=\"".toList))) := by
  have begins :
      "</title>\n<style>\npre.code \x7b font-family: \"Inconsolata\", monospace; \x7d\n".toList =
        "</title>".toList ++ beforeStyles := by
    decide +kernel
  have ends : "</style>\n</head>\n<body>\n<pre class=\"code\" data-language=\"".toList =
      behindStyles ++ "data-language=\"".toList := by
    decide +kernel
  unfold beforeLanguage
  generalize stylesheet = sheet
  simp only [String.toList_append, begins, ends, List.append_assoc]

/-- Up to its end it does not hold the mark of the language. -/
theorem styles_apart :
    apart "data-language=\"".toList (beforeStyles ++ (stylesheet.toList ++ behindStyles)) :=
  apart_append (by decide +kernel) (apart_append stylesheet_apart (by decide +kernel))

/-- A page holds its parts: the title and the language as they are written, and the markup itself.

Proof: each stretch between the marks is apart from the mark behind it. The fixed stretches are
compared with the mark place by place; a written title holds no angle bracket, with which its mark
begins, and a written language no quote. -/
theorem holds_render (page : Page) :
    Holds page.render.toList (Entity.escapeAttribute page.title.toList)
      (Entity.escapeAttribute page.language.toList) page.markup.toList := by
  obtain ⟨head, begins, untitled, unclosed⟩ := exists_head
  generalize written : Entity.escapeAttribute page.title.toList = title
  generalize spelled : Entity.escapeAttribute page.language.toList = language
  have bare : '<' ∉ title := written ▸ Entity.not_mem_escape_attribute (by simp) _
  have unquoted : '"' ∉ language := spelled ▸ Entity.not_mem_escape_attribute (by simp) _
  have unforged : apart "</title>".toList title := apart_of_not_mem (by decide) bare
  have unended : apart "\"".toList language := apart_of_not_mem (by decide) unquoted
  have quote : beforeMarkup.toList = "\"".toList ++ ">".toList := by decide
  let tail := ">".toList ++ (page.markup.toList ++ ending.toList)
  let quoted := language ++ ("\"".toList ++ tail)
  let body := (beforeStyles ++ (stylesheet.toList ++ behindStyles)) ++
    ("data-language=\"".toList ++ quoted)
  have text : page.render.toList =
      head ++ ("<title>".toList ++ (title ++ ("</title>".toList ++ body))) := by
    simp only [render, String.toList_append, String.toList_ofList, begins, beforeLanguage_eq, quote,
      written, spelled, List.append_assoc, body, quoted, tail]
  have closed : FirstAt "</title>".toList page.render.toList (head ++ "<title>".toList ++ title)
      body := by
    have found := (FirstAt.of_apart unforged body).behind unclosed
    rwa [List.append_assoc head, ← text] at found
  rw [text] at closed ⊢
  exact .parts (.of_apart untitled _) closed (.of_apart styles_apart quoted)
    (.of_apart unended tail) (.here _ _)

/-- Every page holds its title and its language, written with entities, and its markup as it is. So
pages with different parts are different texts. -/
theorem page_keeps_parts :
    (∀ page : Page, ∃ title language,
      Holds page.render.toList title language page.markup.toList ∧
        Entity.decode Entity.attributeEntities title = page.title.toList ∧
        Entity.decode Entity.attributeEntities language = page.language.toList) ∧
      Function.Injective render := by
  have kept (page : Page) : ∃ title language,
      Holds page.render.toList title language page.markup.toList ∧
        Entity.decode Entity.attributeEntities title = page.title.toList ∧
        Entity.decode Entity.attributeEntities language = page.language.toList :=
    ⟨_, _, holds_render page, Entity.decode_escape_attribute _, Entity.decode_escape_attribute _⟩
  refine ⟨kept, fun one other same => ?_⟩
  obtain ⟨title, language, holds, titled, named⟩ := kept one
  obtain ⟨title', language', holds', titled', named'⟩ := kept other
  rw [← same] at holds'
  obtain ⟨rfl, rfl, markup⟩ := holds.unique holds'
  have titles : one.title = other.title := String.toList_inj.mp (titled.symm.trans titled')
  have languages : one.language = other.language := String.toList_inj.mp (named.symm.trans named')
  cases one
  cases other
  simp only [Page.mk.injEq]
  exact ⟨titles, languages, String.toList_inj.mp markup⟩

end Highlighter.Page
