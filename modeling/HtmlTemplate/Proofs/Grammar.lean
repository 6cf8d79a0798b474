import HtmlTemplate.Markup.Reading
import HtmlTemplate.Proofs.Directives
import HtmlTemplate.Proofs.Text

/-!
# The grammar of markup

Which names, tokens and forests are well formed, said without the reader: a well-formed token
is one that a source can hold, and a well-formed forest is one whose written form says where
each of its nodes begins and ends.
-/
namespace HtmlTemplate

open Token (isNameChar isAttributeNameChar isBlank)

/-- `[a-z0-9_:.-]` -/
def isTagNameChar (c : Char) : Bool := c.isLower || c.isDigit || "_:.-".toList.contains c

/-- `[a-z][a-z0-9_:.-]*` -/
def isTagName : Text → Bool
  | [] => false
  | c :: run => c.isLower && run.all isTagNameChar

/-- Not empty, without upper case letters and without what separates attributes. -/
def isAttributeName (name : Text) : Bool :=
  !name.isEmpty && name.all fun c => !c.isUpper && !" \t\r\n\x0c\"'>/=".toList.contains c

/-- `<![A-Za-z][^>]*>` or `<\?[^>]*>` -/
def isDeclaration : Text → Bool
  | '<' :: '!' :: c :: t => c.isAlpha && t.dropWhile (· != '>') == ['>']
  | '<' :: '?' :: t => t.dropWhile (· != '>') == ['>']
  | _ => false

/-- The end of a comment. -/
def commentEnd : Text := ['-', '-', '>']

/-- Every `<` is the last character, or the one after it opens nothing. -/
def Text.opensNoMarkup : Text → Bool
  | '<' :: c :: t =>
    !(c.isAlpha || c == '/' || c == '!' || c == '?') && opensNoMarkup (c :: t)
  | _ :: t => opensNoMarkup t
  | [] => true

namespace Tag

structure IsWellFormed (tag : Tag) : Prop where
  name_ok : isTagName tag.name
  attributes_ok : ∀ a ∈ tag.attributes, isAttributeName a.name
  hasDistinctNames : tag.HasDistinctNames

theorem isWellFormed_iff {tag : Tag} : tag.IsWellFormed ↔
    isTagName tag.name ∧ (∀ a ∈ tag.attributes, isAttributeName a.name) ∧ tag.HasDistinctNames :=
  ⟨fun h => ⟨h.name_ok, h.attributes_ok, h.hasDistinctNames⟩, fun ⟨h1, h2, h3⟩ => ⟨h1, h2, h3⟩⟩

instance (tag : Tag) : Decidable tag.IsWellFormed := decidable_of_iff' _ isWellFormed_iff

/-- Script and style elements. -/
def holdsRawText (tag : Tag) : Bool := Token.rawTextNames.any (·.toList == tag.name)

/-- How the end tag begins. -/
def endMark (tag : Tag) : Text := '<' :: '/' :: tag.name

theorem isVoid_eq_false_of_holdsRawText {tag : Tag} (h : tag.holdsRawText) :
    tag.isVoid = false := by
  obtain ⟨name, hm, he⟩ := List.any_eq_true.mp h
  rw [isVoid, ← eq_of_beq he]
  simp only [Token.rawTextNames, List.mem_cons, List.not_mem_nil, or_false] at hm
  rcases hm with rfl | rfl <;> decide

end Tag

/-- A text token may hold any text. -/
def Token.IsWellFormed : Token → Prop
  | startTag tag _ => tag.IsWellFormed
  | endTag name => isTagName name
  | text _ => True
  | comment body => ¬commentEnd <:+: body
  | declaration raw => isDeclaration raw

namespace Forest

/-- At most one text, which is not empty. -/
def ofText (content : Text) : Forest := if content = [] then nil else text content nil

def startsWithText : Forest → Bool
  | text _ _ => true
  | _ => false

/-- No element is sealed, void elements are empty, raw text ends where its element does, and
all other texts are not empty, stand apart and open no markup. -/
inductive WellFormed : Forest → Prop
  | nil : WellFormed nil
  | void {tag : Tag} {rest : Forest} : tag.IsWellFormed → tag.isVoid → WellFormed rest →
      WellFormed (element tag false nil rest)
  | raw {tag : Tag} {content : Text} {rest : Forest} : tag.IsWellFormed → tag.holdsRawText →
      ¬tag.endMark <:+: content.lowercase → WellFormed rest →
      WellFormed (element tag false (ofText content) rest)
  | element {tag : Tag} {children rest : Forest} : tag.IsWellFormed → ¬tag.isVoid →
      ¬tag.holdsRawText → WellFormed children → WellFormed rest →
      WellFormed (element tag false children rest)
  | text {content : Text} {rest : Forest} : content ≠ [] → content.opensNoMarkup →
      rest.startsWithText = false → WellFormed rest → WellFormed (text content rest)
  | comment {body : Text} {rest : Forest} : ¬commentEnd <:+: body → WellFormed rest →
      WellFormed (comment body rest)
  | declaration {raw : Text} {rest : Forest} : isDeclaration raw → WellFormed rest →
      WellFormed (declaration raw rest)

end Forest

theorem isTagNameChar_iff {c : Char} : isTagNameChar c ↔ isNameChar c ∧ c.isUpper = false := by
  have punctuation : "_:.-".toList.contains c ↔ c = '_' ∨ c = ':' ∨ c = '.' ∨ c = '-' := by
    simp
  simp only [isTagNameChar, isNameChar, Char.isAlphanum, Char.isAlpha, Bool.or_eq_true,
    punctuation, beq_iff_eq]
  constructor
  · rintro ((h | h) | rfl | rfl | rfl | rfl)
    · simp [h, Char.not_isUpper_of_isLower h]
    · simp [h, Text.not_isUpper_of_isDigit h]
    all_goals decide
  · rintro ⟨h, lower⟩
    simpa [lower, or_assoc] using h

/-- A tag name starts with a letter and is one run of name characters in lower case. -/
theorem exists_of_isTagName {name : Text} (h : isTagName name) :
    ∃ c run, name = c :: run ∧ c.isAlpha ∧ (∀ d ∈ name, isNameChar d) ∧
      name.lowercase = name := by
  cases name with
  | nil => exact absurd h (by decide)
  | cons c run =>
    simp only [isTagName, Bool.and_eq_true, List.all_eq_true] at h
    have all : ∀ d ∈ c :: run, isTagNameChar d := by
      intro d hd
      rcases List.mem_cons.mp hd with rfl | hd
      · simp [isTagNameChar, h.1]
      · exact h.2 d hd
    refine ⟨c, run, rfl, by simp [Char.isAlpha, h.1], ?_, ?_⟩
    · intro d hd
      exact (isTagNameChar_iff.mp (all d hd)).1
    · apply Text.lowercase_eq_self
      intro d hd
      exact (isTagNameChar_iff.mp (all d hd)).2

theorem Text.opensNoMarkup_append {t : Text} (h : '<' ∉ t) (s : Text) :
    opensNoMarkup (t ++ s) = opensNoMarkup s := by
  induction t with
  | nil => rfl
  | cons c t ih =>
    obtain ⟨hc, ht⟩ : '<' ≠ c ∧ '<' ∉ t := by simpa using h
    rw [List.cons_append, opensNoMarkup, ih ht]
    rintro d r rfl
    exact absurd rfl hc

theorem isAttributeNameChar_iff {c : Char} :
    isAttributeNameChar c ↔ " \t\r\n\x0c\"'>/=".toList.contains c = false := by
  simp [isAttributeNameChar, isBlank, and_assoc]

theorem isAttributeName_iff {name : Text} : isAttributeName name ↔
    name ≠ [] ∧ ∀ c ∈ name, isAttributeNameChar c ∧ c.isUpper = false := by
  simp only [isAttributeName, Bool.and_eq_true, List.all_eq_true, Bool.not_eq_true',
    List.isEmpty_eq_false_iff, isAttributeNameChar_iff, and_comm]

end HtmlTemplate
