import HtmlTemplate.Proofs.Rereading

/-!
# Raw text

The raw text of a script or style element ends where `</` and the name of the element stand,
whatever comes after the name, and from there on the source is markup again. Main result: a
body is read as one text exactly if nothing in it opens markup from there on. Then it holds no
end tag of that name, but a body that holds none may still be read as markup.
-/
namespace HtmlTemplate

namespace Token

/-- The text begins with an end tag of that name. -/
def beginsEndTag (name t : Text) : Bool :=
  marksEnd name t && ((t.drop (name.length + 2)).dropWhile isBlank).head? == some '>'

/-- An end tag of that name stands somewhere in the text. -/
def holdsEndTag (name t : Text) : Bool := t.tails.any (beginsEndTag name)

end Token

namespace Tag

/-- Wherever the body has `</` and the name of the element, no `<` from there on opens markup
before what is left of the body and the end tag of the element. -/
def KeepsBody (tag : Tag) (body : Text) : Prop := tag.KeepsText body tag.printEnd

instance (tag : Tag) (body : Text) : Decidable (tag.KeepsBody body) :=
  inferInstanceAs (Decidable (tag.KeepsText body tag.printEnd))

/-- The element, written with that body, is read as itself and holds the body as its text. -/
def ReadsVerbatim (tag : Tag) (body : Text) : Prop :=
  Forest.read (tag.print ++ (body ++ tag.printEnd))
    = Forest.element tag false (Forest.ofText body) .nil

instance (tag : Tag) (body : Text) : Decidable (tag.ReadsVerbatim body) :=
  inferInstanceAs (Decidable (_ = _))

end Tag

namespace Token

/-! ### End tags within a body -/

theorem keepsBody_of_not_infix {tag : Tag} {body : Text}
    (h : ¬tag.endMark <:+: body.lowercase) : tag.KeepsBody body := by
  intro t ht marks
  have begins : tag.endMark <+: Text.lowercase t := by
    rw [Tag.endMark, ← eq_of_beq marks]
    exact (List.take_prefix _ _).map _
  have later : Text.lowercase t <:+ body.lowercase := ((List.mem_tails _ _).mp ht).map _
  exact absurd (begins.isInfix.trans later.isInfix) h

theorem isNameChar_of_toLower {c : Char} (h : isNameChar c.toLower) : isNameChar c := by
  by_cases upper : c.isUpper
  · simp [isNameChar, Char.isAlphanum, Char.isAlpha, upper]
  · rwa [Char.toLower_eq_of_not_isUpper upper] at h

theorem exists_of_beginsEndTag {name t : Text} (h : beginsEndTag name ('<' :: t)) :
    ∃ word blanks rest, t = '/' :: (word ++ (blanks ++ '>' :: rest)) ∧
      Text.lowercase word = name ∧ ∀ c ∈ blanks, isBlank c := by
  obtain ⟨mark, close⟩ := Bool.and_eq_true_iff.mp h
  have lowered : Text.lowercase (t.take (name.length + 1)) = '/' :: name :=
    (List.cons.inj (eq_of_beq mark)).2
  cases t with
  | nil => simp [Text.lowercase] at lowered
  | cons c t =>
    obtain rfl := Text.eq_of_toLower (by decide) (List.cons.inj lowered).1
    obtain ⟨rest, close⟩ := List.head?_eq_some_iff.mp (eq_of_beq close)
    have blanks := List.takeWhile_append_dropWhile (p := isBlank) (l := t.drop name.length)
    rw [show (t.drop name.length).dropWhile isBlank = '>' :: rest from close] at blanks
    refine ⟨t.take name.length, (t.drop name.length).takeWhile isBlank, rest, ?_,
      (List.cons.inj lowered).2, fun _ => Text.of_mem_takeWhile⟩
    rw [blanks, List.take_append_drop]

/-- An end tag is markup, whatever follows it. -/
theorem markup?_of_beginsEndTag {name t : Text} (hn : isTagName name)
    (h : beginsEndTag name ('<' :: t)) (rest : Text) : markup? (t ++ rest) ≠ none := by
  obtain ⟨word, blanks, after, rfl, rfl, blank⟩ := exists_of_beginsEndTag h
  obtain ⟨first, run, named, letter, chars, -⟩ := exists_of_isTagName hn
  have word_ok : ∀ c ∈ word, isNameChar c :=
    fun c hc => isNameChar_of_toLower (chars _ (List.mem_map_of_mem hc))
  have opens : (word ++ (blanks ++ '>' :: (after ++ rest))).head?.any Char.isAlpha := by
    cases word with
    | nil => simp [Text.lowercase] at named
    | cons c word =>
      obtain rfl := (List.cons.inj named).1
      simpa using letter
  have word_stops : ∀ c ∈ (blanks ++ '>' :: (after ++ rest)).head?, isNameChar c = false := by
    cases blanks with
    | nil => simp; decide
    | cons d blanks =>
      intro c hc
      obtain rfl : d = c := by simpa using hc
      rcases isBlank_iff.mp (blank d List.mem_cons_self) with rfl | rfl | rfl | rfl | rfl <;> decide
  have blanks_stop : ∀ c ∈ ('>' :: (after ++ rest)).head?, isBlank c = false := by simp; decide
  have written : '/' :: (word ++ (blanks ++ '>' :: after)) ++ rest
      = '/' :: (word ++ (blanks ++ '>' :: (after ++ rest))) := by simp
  rw [written]
  show endTag? (word ++ (blanks ++ '>' :: (after ++ rest))) ≠ none
  rw [Ne, endTag?_eq_none_iff, opens, Text.dropWhile_run word_ok word_stops,
    Text.dropWhile_run blank blanks_stop]
  simp

/-- The texts that the body of an element is written with, before its end tag. -/
theorem leadingText_ofText (body name : Text) :
    leadingText ((Forest.ofText body).tokens ++ [endTag name]) = body ∧
      ((Forest.ofText body).tokens ++ [endTag name]).dropWhile isText = [endTag name] := by
  cases body with
  | nil => exact ⟨rfl, rfl⟩
  | cons c body => exact ⟨List.append_nil _, rfl⟩

end Token

namespace Forest

theorem joined_ofText (body : Text) : (ofText body).joined = ofText body := by
  cases body <;> rfl

theorem isWellFormed_tokens_ofText (body : Text) :
    ∀ t ∈ (ofText body).tokens, t.IsWellFormed := by
  cases body with
  | nil => simp [ofText, tokens]
  | cons c body => exact List.forall_mem_singleton.mpr trivial

end Forest

namespace Tag

open Forest (ofText)

section Element

variable {tag : Tag} (h : tag.IsWellFormed) (raw : tag.holdsRawText) (body : Text)

include h

/-- The end tag of the element ends its raw text, if nothing before does. -/
theorem keepsRaw_iff : tag.KeepsRaw body tag.printEnd ↔ tag.KeepsBody body := by
  have mark : Token.marksEnd tag.name tag.printEnd := by
    have first := Token.take_printEnd h.name_ok []
    rw [List.append_nil] at first
    exact beq_iff_eq.mpr first
  exact and_iff_right (Token.length_cutAtEndTag_le mark body)

include raw

theorem isLegible_rawElement :
    Token.isLegible (Forest.element tag false (ofText body) .nil).tokens
      ↔ tag.KeepsBody body := by
  obtain ⟨texts, rest⟩ := Token.leadingText_ofText body tag.name
  have solid := isVoid_eq_false_of_holdsRawText raw
  have last : Token.printAll [.endTag tag.name] = tag.printEnd := List.append_nil _
  rw [Forest.tokens, if_neg (by simp [solid]), Forest.tokens, Token.isLegible, if_pos raw, texts,
    rest, last, Bool.and_eq_true, decide_eq_true_eq, keepsRaw_iff h]
  simp [Token.isLegible]

/-- The element with that body is a forest of its own, so it is read again if it is legible. -/
theorem readsVerbatim_iff_keepsBody : tag.ReadsVerbatim body ↔ tag.KeepsBody body := by
  have solid := isVoid_eq_false_of_holdsRawText raw
  have built : (Forest.element tag false (ofText body) .nil).IsBuilt :=
    ⟨rfl, fun void => by simp [solid] at void, Forest.isBuilt_ofText body, trivial⟩
  have tokens_ok : ∀ t ∈ (Forest.element tag false (ofText body) .nil).tokens, t.IsWellFormed := by
    rw [Forest.tokens, if_neg (by simp [solid]), List.forall_mem_cons, List.forall_mem_append]
    exact ⟨h, Forest.isWellFormed_tokens_ofText body, List.forall_mem_singleton.mpr h.name_ok⟩
  have printed := Forest.print_raw raw body .nil []
  rw [List.append_nil, Forest.print, List.nil_append, List.append_nil] at printed
  have joined : (Forest.element tag false (ofText body) .nil).joined
      = .element tag false (ofText body) .nil := by
    rw [Forest.joined, Forest.joined_ofText]
    rfl
  obtain ⟨exact_iff, again⟩ := Forest.read_print_iff built tokens_ok
  rw [printed, joined, isLegible_rawElement h raw] at exact_iff again
  exact ⟨fun verbatim => exact_iff.mp (verbatim ▸ joined), again⟩

end Element

theorem not_keepsBody_of_holdsEndTag {tag : Tag} {body : Text} (hn : isTagName tag.name)
    (h : Token.holdsEndTag tag.name body) : ¬tag.KeepsBody body := by
  intro keeps
  obtain ⟨t, ht, begins⟩ := List.any_eq_true.mp h
  obtain ⟨mark, -⟩ := Bool.and_eq_true_iff.mp begins
  obtain ⟨tail, rfl⟩ := Token.exists_of_endMark (eq_of_beq mark)
  exact Token.markup?_of_beginsEndTag hn begins _ (keeps _ ht mark tail (List.suffix_refl _))

/-- The body of a script or style element is read as one text exactly if no `<` in it opens
markup from the first `</` with the name of the element on. So it is where there is no such
mark, and it is not where the body holds an end tag of that name. -/
theorem readsVerbatim_iff {tag : Tag} (h : tag.IsWellFormed) (raw : tag.holdsRawText)
    (body : Text) : (tag.ReadsVerbatim body ↔ tag.KeepsBody body) ∧
      (¬tag.endMark <:+: body.lowercase → tag.ReadsVerbatim body) ∧
      (Token.holdsEndTag tag.name body → ¬tag.ReadsVerbatim body) := by
  have same := readsVerbatim_iff_keepsBody h raw body
  refine ⟨same, ?_, ?_⟩
  · intro apart
    exact same.mpr (Token.keepsBody_of_not_infix apart)
  · intro holds
    exact mt same.mp (not_keepsBody_of_holdsEndTag h.name_ok holds)

/-- A body with markup, comments, other end tags and end tags of its own name that do not end,
and a body that ends where its end tag is closed. -/
theorem script_reads_verbatim :
    let script : Tag := ⟨"script".toList, []⟩
    let plain := "if (a<b) x='<!-- </i>' /* </scrip> */".toList
    let near := "'</SCRIPT' + x < 3 </script ".toList
    let ended := "a</Script\n>b".toList
    script.ReadsVerbatim plain ∧ script.ReadsVerbatim near ∧ ¬script.ReadsVerbatim ended := by
  intro script plain near ended
  have reads := @readsVerbatim_iff script (by decide) (by decide)
  exact ⟨(reads plain).2.1 (by decide), (reads near).1.mpr (by decide +kernel),
    (reads ended).2.2 (by decide)⟩

/-- The name of a longer end tag begins with that of the element, and the end tag is none of the
element, but the raw text ends there and what follows is markup. -/
theorem longer_name_ends_raw_text :
    let script : Tag := ⟨"script".toList, []⟩
    let body := "a</scripts><b>c</b>".toList
    Token.holdsEndTag script.name body = false ∧ ¬script.ReadsVerbatim body ∧
      Forest.read (script.print ++ (body ++ script.printEnd))
        = .element script false (.text "a".toList (.element ⟨"b".toList, []⟩ false
            (.text "c".toList .nil) .nil)) .nil := by
  decide +kernel

end Tag

end HtmlTemplate
