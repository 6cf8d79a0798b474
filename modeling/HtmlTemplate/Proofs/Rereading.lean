import HtmlTemplate.Proofs.Legible

/-!
# Reading what was read and written

What a source is read as, written out, brings pieces next to each other that were apart in the
source, and adds end tags. Main result: reading it once more gives the same forest, up to the
bounds between texts, exactly if the tokens that it is written with are legible.
-/
namespace HtmlTemplate

namespace Token

/-- What nodes are made from, in document order: no end tags, the texts between two other nodes
as one, and no element closed at once. -/
def gist : List Token → List Token
  | [] => []
  | startTag tag _ :: tokens => startTag tag false :: gist tokens
  | endTag _ :: tokens => gist tokens
  | text content :: tokens => prependText content (gist tokens)
  | token :: tokens => token :: gist tokens

/-- The text that stands before all other nodes. -/
def firstText : List Token → Text
  | text content :: tokens => content ++ firstText tokens
  | endTag _ :: tokens => firstText tokens
  | _ => []

/-- Written out, the tokens are read as the same nodes, up to the bounds between texts. -/
def ReadsBack (tokens : List Token) : Prop := gist (scan (printAll tokens)) = gist tokens

theorem gist_prependText (a : Text) (tokens : List Token) :
    gist (prependText a tokens) = prependText a (gist tokens) := by
  cases a with
  | nil => rfl
  | cons c a =>
    cases tokens with
    | nil => rfl
    | cons token tokens =>
      cases token with
      | text d => exact prependText_append (c :: a) d _
      | _ => rfl

theorem gist_joinTexts (tokens : List Token) : gist (joinTexts tokens) = gist tokens := by
  induction tokens with
  | nil => rfl
  | cons token tokens ih =>
    cases token with
    | text content =>
      show gist (prependText content (joinTexts tokens)) = prependText content (gist tokens)
      rw [gist_prependText, ih]
    | endTag name => exact ih
    | startTag tag isClosed | comment body | declaration raw => exact congrArg (List.cons _) ih

theorem gist_endTags_append (names : List Text) (tokens : List Token) :
    gist (names.map .endTag ++ tokens) = gist tokens := by
  induction names with
  | nil => rfl
  | cons name names ih => exact ih

/-- End tags that end nothing, and those that are missing, make no difference to the nodes. -/
theorem gist_settle (opened : List Text) (tokens : List Token) :
    gist (settle opened tokens) = gist tokens := by
  induction tokens generalizing opened with
  | nil =>
    have ends := gist_endTags_append opened []
    rwa [List.append_nil] at ends
  | cons token tokens ih =>
    rw [settle]
    cases token with
    | startTag tag isClosed =>
      rw [settled, List.cons_append]
      split
      · exact congrArg (List.cons _) (ih _)
      · exact congrArg (List.cons _) (ih _)
    | endTag name =>
      rw [settled, gist_endTags_append, ih]
      rfl
    | text content => exact congrArg (prependText content) (ih _)
    | comment body | declaration raw => exact congrArg (List.cons _) (ih _)

theorem firstText_prependText (a : Text) (tokens : List Token) :
    firstText (prependText a tokens) = a ++ firstText tokens := by
  cases a with
  | nil => rfl
  | cons c a =>
    cases tokens with
    | nil => rfl
    | cons token tokens =>
      cases token with
      | text d => exact List.append_assoc (c :: a) d _
      | _ => rfl

theorem firstText_gist (tokens : List Token) : firstText (gist tokens) = firstText tokens := by
  induction tokens with
  | nil => rfl
  | cons token tokens ih =>
    cases token with
    | text content =>
      show firstText (prependText content (gist tokens)) = content ++ firstText tokens
      rw [firstText_prependText, ih]
    | endTag name => exact ih
    | _ => rfl

theorem gist_ne_empty_text (tokens more : List Token) : gist tokens ≠ .text [] :: more := by
  induction tokens with
  | nil => exact (List.cons_ne_nil _ _).symm
  | cons token tokens ih =>
    cases token with
    | text content =>
      show prependText content (gist tokens) ≠ _
      intro h
      by_cases empty : content = []
      · rw [empty] at h
        exact ih h
      · rcases prependText_eq_cons empty h with ⟨-, he⟩ | ⟨b, -, he⟩
        · exact empty (Token.text.inj he).symm
        · exact empty (List.append_eq_nil_iff.mp (Token.text.inj he).symm).1
    | endTag name => exact ih
    | startTag tag isClosed | comment body | declaration raw =>
      exact fun h => absurd (List.cons.inj h).1 (by simp)

/-- A text in front can be taken away again. -/
theorem gist_eq_of_prependText {a : Text} {tokens others : List Token}
    (h : prependText a (gist tokens) = prependText a (gist others)) :
    gist tokens = gist others := by
  by_cases empty : a = []
  · rwa [empty] at h
  rcases he : prependText a (gist others) with _ | ⟨token, more⟩
  · have none_left := firstText_prependText a (gist others)
    rw [he] at none_left
    exact absurd (List.append_eq_nil_iff.mp none_left.symm).1 empty
  · rw [he] at h
    rcases prependText_eq_cons empty h with ⟨first, rfl⟩ | ⟨b, first, rfl⟩ <;>
      rcases prependText_eq_cons empty he with ⟨second, same⟩ | ⟨d, second, same⟩
    · rw [first, second]
    · have none_left : d = [] := by simpa using same
      exact absurd (none_left ▸ second) (gist_ne_empty_text others more)
    · have none_left : b = [] := by simpa using same
      exact absurd (none_left ▸ first) (gist_ne_empty_text tokens more)
    · obtain rfl : b = d := by simpa using same
      rw [first, second]

/-! ### Texts that are read as texts -/

theorem firstText_cons {token : Token} (other : token.isText = false)
    (notEnd : token.isEndTag = false) (tokens : List Token) :
    firstText (token :: tokens) = [] := by
  cases token with
  | text content => exact absurd other (by simp [isText])
  | endTag name => exact absurd notEnd (by simp [isEndTag])
  | _ => rfl

theorem exists_of_isEndTag {token : Token} (h : token.isEndTag) : ∃ name, token = .endTag name := by
  cases token with
  | endTag name => exact ⟨name, rfl⟩
  | _ => exact absurd h (by simp [isEndTag])

theorem opensRaw_of_isEndTag {token : Token} (h : token.isEndTag) : token.opensRaw = false := by
  obtain ⟨name, rfl⟩ := exists_of_isEndTag h
  rfl

theorem isEndTag_startTag? {t : Text} {l : Lexeme} (h : startTag? t = some l) :
    l.token.isEndTag = false := by
  unfold startTag? at h
  split at h
  · simp at h
  · dsimp only at h
    split at h
    · split at h <;>
      · obtain rfl := by simpa using h
        rfl
    · simp at h

theorem isEndTag_commentOf (t : Text) : (commentOf t).token.isEndTag = false := by
  unfold commentOf
  split <;> rfl

theorem endTag?_of_isEndTag {t : Text} {l : Lexeme} (h : markup? t = some l)
    (ends : l.token.isEndTag) : ∃ r, t = '/' :: r ∧ endTag? r = some l := by
  unfold markup? at h
  split at h
  · obtain rfl := by simpa using h
    exact absurd ends (by simp [isEndTag_commentOf])
  · split at h
    · exact absurd ends (by simp [token_declaration? h, isEndTag])
    · simp at h
  · exact absurd ends (by simp [token_declaration? h, isEndTag])
  · exact ⟨_, rfl, h⟩
  · exact absurd ends (by simp [isEndTag_startTag? h])

section Fit

variable {content rest : Text} (next : ∀ c ∈ rest.head?, c = '<')

include next

theorem rest_endTag?_append {l : Lexeme} (h : endTag? (content ++ rest) = some l) :
    ∃ left, l.rest = left ++ rest ∧ left.length < content.length := by
  have stops {p : Char → Bool} (hp : p '<' = false) : ∀ c ∈ rest.head?, p c = false := by
    intro c hc
    rw [next c hc, hp]
  have shorter : ((content.dropWhile isNameChar).dropWhile isBlank).length ≤ content.length :=
    (Text.length_dropWhile_le isBlank _).trans (Text.length_dropWhile_le isNameChar content)
  unfold endTag? at h
  rw [Text.dropWhile_append_stop (stops (by decide)),
    Text.dropWhile_append_stop (stops (by decide))] at h
  split at h
  · rename_i c run after _ closed
    split at h
    · obtain rfl := by simpa using h
      rcases List.append_eq_cons_iff.mp closed with ⟨-, wrong⟩ | ⟨left, tail, rfl⟩
      · exact absurd (next '>' (by rw [wrong]; rfl)) (by decide)
      · refine ⟨left, rfl, ?_⟩
        rw [tail, List.length_cons] at shorter
        exact shorter
    · simp at h
  · simp at h

/-- An end tag has no `<` inside, so it ends before the next one. -/
theorem exists_scan_of_isEndTag {l : Lexeme} (found : markup? (content ++ rest) = some l)
    (ends : l.token.isEndTag) :
    ∃ left, scan ('<' :: (content ++ rest)) = l.token :: scan (left ++ rest) ∧
      left.length < content.length := by
  have cut := scan_of_markup? found
  rw [(isCut_markup? found).raw_eq_nil (opensRaw_of_isEndTag ends)] at cut
  obtain ⟨r, slash, endTag⟩ := endTag?_of_isEndTag found ends
  cases content with
  | nil => exact absurd (next '/' (by rw [← List.nil_append rest, slash]; rfl)) (by decide)
  | cons c content =>
    obtain ⟨rfl, rfl⟩ := List.cons.inj slash
    obtain ⟨left, he, short⟩ := rest_endTag?_append next endTag
    rw [he] at cut
    exact ⟨left, cut, Nat.lt_succ_of_lt short⟩

end Fit

/-- The texts that are read first are no longer than the content in front of those that are read
after it, and as long only if no `<` of the content opens markup. -/
def TextsFit (content rest : Text) : Prop :=
  (firstText (scan (content ++ rest))).length
      ≤ content.length + (firstText (scan rest)).length ∧
    ((firstText (scan (content ++ rest))).length
        = content.length + (firstText (scan rest)).length → StaysText content rest)

section TextsFit

variable {content rest : Text}

theorem TextsFit.cons {c : Char} (h : TextsFit content rest)
    (hc : c = '<' → markup? (content ++ rest) = none) : TextsFit (c :: content) rest := by
  obtain ⟨bound, stays⟩ := h
  have size : (firstText (scan (c :: content ++ rest))).length
      = (firstText (scan (content ++ rest))).length + 1 := by
    rw [List.cons_append, scan_char hc, firstText_prependText, List.length_append,
      List.length_singleton, Nat.add_comm]
  rw [TextsFit, size, List.length_cons]
  exact ⟨by omega, fun all => (stays (by omega)).cons hc⟩

theorem TextsFit.endTag {left : Text} {token : Token} (h : TextsFit left rest)
    (ends : token.isEndTag) (cut : scan (content ++ rest) = token :: scan (left ++ rest))
    (short : left.length < content.length) : TextsFit content rest := by
  obtain ⟨bound, -⟩ := h
  obtain ⟨name, rfl⟩ := exists_of_isEndTag ends
  rw [TextsFit, cut, firstText]
  exact ⟨by omega, fun all => by omega⟩

/-- Each end tag takes its own characters away from the texts, and any other markup all that
follow. -/
theorem textsFit (content : Text) (next : ∀ c ∈ rest.head?, c = '<') :
    TextsFit content rest := by
  -- An end tag takes more than one character, so the induction is on the length.
  induction size : content.length using Nat.strong_induction_on generalizing content with
  | h n ih =>
    cases content with
    | nil => exact ⟨by simp, fun _ => staysText_nil _⟩
    | cons c content =>
      rw [List.length_cons] at size
      have plain (hc : c = '<' → markup? (content ++ rest) = none) :
          TextsFit (c :: content) rest :=
        (ih content.length (by omega) content rfl).cons hc
      by_cases hc : c = '<'
      · subst hc
        cases found : markup? (content ++ rest) with
        | none => exact plain fun _ => found
        | some l =>
          by_cases ends : l.token.isEndTag
          · obtain ⟨left, cut, short⟩ := exists_scan_of_isEndTag next found ends
            exact (ih left.length (by omega) left rfl).endTag ends cut (Nat.lt_succ_of_lt short)
          · have none_first : firstText (scan ('<' :: content ++ rest)) = [] := by
              rw [List.cons_append, scan_of_markup? found]
              exact firstText_cons (isCut_markup? found).1 (by simpa using ends) _
            rw [TextsFit, none_first, List.length_nil, List.length_cons]
            exact ⟨by omega, fun all => by omega⟩
      · exact plain fun he => absurd he hc

end TextsFit

section Texts

variable {tokens : List Token} (ht : ∀ t ∈ tokens, t.IsWritten)

theorem gist_eq_leadingText (tokens : List Token) : gist tokens
    = prependText (leadingText tokens) (gist (tokens.dropWhile isText)) := by
  rw [← gist_joinTexts, joinTexts_eq_leadingText, gist_prependText, gist_joinTexts]

theorem firstText_eq_leadingText (tokens : List Token) : firstText tokens
    = leadingText tokens ++ firstText (tokens.dropWhile isText) := by
  rw [← firstText_gist, gist_eq_leadingText, firstText_prependText, firstText_gist]

include ht

/-- The texts that are read first are no longer than those that are written. -/
theorem length_firstText_scan_le :
    (firstText (scan (printAll (tokens.dropWhile isText)))).length
      ≤ (firstText (tokens.dropWhile isText)).length := by
  induction tokens with
  | nil => exact Nat.le_of_eq (congrArg (List.length ∘ firstText) scan_nil)
  | cons token tokens ih =>
    obtain ⟨written, later⟩ := List.forall_mem_cons.mp ht
    by_cases other : token.isText = false
    · rw [List.dropWhile_cons_of_neg (by simp [other])]
      by_cases ends : token.isEndTag
      · obtain ⟨name, rfl⟩ := exists_of_isEndTag ends
        obtain ⟨bound, -⟩ := textsFit (leadingText tokens) (isBoundary_printAll later).head_eq
        have texts := firstText_eq_leadingText tokens
        have fits := ih later
        rw [printAll_cons, scan_print written rfl rfl, printAll_eq_leadingText, firstText,
          firstText, texts, List.length_append]
        omega
      · have alone := (begins_print written other (printAll tokens)).scan_eq
        rw [printAll_cons, alone, firstText_cons other (by simpa using ends)]
        exact Nat.zero_le _
    · rw [List.dropWhile_cons_of_pos (by simpa using other)]
      exact ih later

/-- A text that is read as it is written stays text, and what follows it is read back. -/
theorem staysText_and_readsBack {held left : Text}
    (h : prependText held (gist (scan (left ++ printAll (tokens.dropWhile isText))))
      = prependText (held ++ left) (gist (tokens.dropWhile isText))) :
    StaysText left (printAll (tokens.dropWhile isText)) ∧
      ReadsBack (tokens.dropWhile isText) := by
  obtain ⟨bound, fits⟩ := textsFit left (isBoundary_printAll ht).head_eq
  have fewer := length_firstText_scan_le ht
  have same := congrArg (List.length ∘ firstText) h
  simp only [Function.comp_apply, firstText_prependText, firstText_gist, List.length_append] at same
  have stays := fits (by omega)
  rw [stays.scan_append, gist_prependText, ← prependText_append] at h
  exact ⟨stays, gist_eq_of_prependText h⟩

theorem readsBack_iff : ReadsBack tokens ↔
    StaysText (leadingText tokens) (printAll (tokens.dropWhile isText)) ∧
      ReadsBack (tokens.dropWhile isText) := by
  rw [ReadsBack, printAll_eq_leadingText, gist_eq_leadingText tokens]
  constructor
  · exact @staysText_and_readsBack _ ht [] _
  · rintro ⟨stays, back⟩
    rw [stays.scan_append, gist_prependText, back]

end Texts

theorem StaysText.left {a b rest : Text} (h : StaysText (a ++ b) rest) :
    StaysText a (b ++ rest) := by
  intro tail found
  rw [← List.append_assoc]
  exact h (tail ++ b) (List.suffix_append_self_iff.mpr found)

theorem ReadsBack.text {content : Text} {tokens : List Token}
    (h : ReadsBack (.text content :: tokens)) (ht : ∀ t ∈ tokens, t.IsWritten) :
    StaysText content (printAll tokens) ∧ ReadsBack tokens := by
  have written : (Token.text content).IsWritten := ⟨trivial, by simp⟩
  obtain ⟨stays, back⟩ := (readsBack_iff (List.forall_mem_cons.mpr ⟨written, ht⟩)).mp h
  have whole : leadingText (.text content :: tokens) = content ++ leadingText tokens := rfl
  rw [whole] at stays
  refine ⟨?_, (readsBack_iff ht).mpr ⟨stays.of_suffix (List.suffix_append _ _), back⟩⟩
  rw [printAll_eq_leadingText]
  exact stays.left

theorem ReadsBack.of_cons {token : Token} {tokens : List Token} (h : ReadsBack (token :: tokens))
    (written : token.IsWritten) (other : token.isText = false) (notRaw : token.opensRaw = false) :
    ReadsBack tokens := by
  rw [ReadsBack, printAll_cons, scan_print written other notRaw] at h
  cases token with
  | text content => exact absurd other (by simp [isText])
  | endTag name => exact h
  | _ => exact (List.cons.inj h).2

/-! ### Elements that hold raw text -/

/-- The first tag after the texts of a script or style element is no end tag of another name. -/
def ClosesRaw (tokens : List Token) : Prop :=
  ∀ tag isClosed after, startTag tag isClosed :: after <:+ tokens → tag.holdsRawText →
    ∀ name, (after.dropWhile isText).head? = some (.endTag name) → name = tag.name

theorem ClosesRaw.of_suffix {tokens after : List Token} (h : ClosesRaw tokens)
    (ht : after <:+ tokens) : ClosesRaw after :=
  fun tag isClosed inside found => h tag isClosed inside (found.trans ht)

theorem closesRaw_nil : ClosesRaw [] := by
  intro tag isClosed after found
  simp at found

theorem ClosesRaw.cons {token : Token} {tokens : List Token} (h : ClosesRaw tokens)
    (here : ∀ tag isClosed, token = .startTag tag isClosed → tag.holdsRawText →
      ∀ name, (tokens.dropWhile isText).head? = some (.endTag name) → name = tag.name) :
    ClosesRaw (token :: tokens) := by
  intro tag isClosed after found
  rcases List.suffix_cons_iff.mp found with first | later
  · obtain ⟨rfl, rfl⟩ := List.cons.inj first
    exact here tag isClosed rfl
  · exact h tag isClosed after later

section Raw

variable {tokens : List Token}

/-- Raw text that is read as the texts that an element holds first ends no later than they do. -/
theorem length_le_of_closesRaw {tag : Tag} {held after : Text}
    (closes : ClosesRaw (.startTag tag false :: tokens)) (tag_ok : tag.IsWellFormed)
    (raw : tag.holdsRawText)
    (cut : cutAtEndTag tag.name (leadingText tokens ++ printAll (tokens.dropWhile isText))
      = (held, after))
    (nodes : prependText held (gist (scan after))
      = prependText (leadingText tokens) (gist (tokens.dropWhile isText))) :
    held.length ≤ (leadingText tokens).length := by
  have first := closes tag false tokens (List.suffix_refl _) raw
  cases others : tokens.dropWhile isText with
  | nil =>
    have whole := congrArg List.length (cutAtEndTag_eq cut).1
    rw [others, List.length_append, List.length_append] at whole
    simp only [printAll, List.flatMap_nil, List.length_nil] at whole
    omega
  | cons token rest =>
    rw [others] at first cut nodes
    by_cases ends : token.isEndTag
    · obtain ⟨name, rfl⟩ := exists_of_isEndTag ends
      obtain rfl := first name rfl
      have mark : marksEnd tag.name (printAll (.endTag tag.name :: rest)) :=
        beq_iff_eq.mpr (take_printEnd tag_ok.name_ok _)
      have short := length_cutAtEndTag_le mark (leadingText tokens)
      rwa [cut] at short
    · have alone := firstText_cons (isText_of_dropWhile others) (by simpa using ends) rest
      have same := congrArg (List.length ∘ firstText) nodes
      simp only [Function.comp_apply, firstText_prependText, firstText_gist, alone,
        List.append_nil, List.length_append] at same
      omega

theorem ReadsBack.rawElement {tag : Tag} (h : ReadsBack (.startTag tag false :: tokens))
    (ht : ∀ t ∈ tokens, t.IsWritten) (closes : ClosesRaw (.startTag tag false :: tokens))
    (tag_ok : tag.IsWellFormed) (raw : tag.holdsRawText) :
    tag.KeepsRaw (leadingText tokens) (printAll (tokens.dropWhile isText)) ∧
      ReadsBack (tokens.dropWhile isText) := by
  rcases cut : cutAtEndTag tag.name (leadingText tokens ++ printAll (tokens.dropWhile isText))
    with ⟨held, after⟩
  have nodes : prependText held (gist (scan after))
      = prependText (leadingText tokens) (gist (tokens.dropWhile isText)) := by
    have read := scan_rawElement tag_ok raw cut
    rw [ReadsBack, printAll_cons, printAll_eq_leadingText, print, read] at h
    rw [← gist_prependText, ← gist_eq_leadingText]
    exact (List.cons.inj h).2
  have short := length_le_of_closesRaw closes tag_ok raw cut nodes
  obtain ⟨left, split, rfl⟩ := exists_left_of_length_le (cutAtEndTag_eq cut).1 short
  rw [split] at nodes
  obtain ⟨stays, back⟩ := staysText_and_readsBack ht nodes
  have next := (isBoundary_printAll ht).head_eq
  refine ⟨⟨?_, (keepsText_iff tag_ok.name_ok next split cut).mpr stays⟩, back⟩
  rw [cut]
  exact short

theorem isLegible_of_readsBack (ht : ∀ t ∈ tokens, t.IsWritten) (closes : ClosesRaw tokens)
    (h : ReadsBack tokens) : isLegible tokens := by
  fun_induction isLegible tokens with
  | case1 => rfl
  | case2 content tokens ih =>
    obtain ⟨-, later⟩ := List.forall_mem_cons.mp ht
    obtain ⟨stays, back⟩ := h.text later
    rw [Bool.and_eq_true, decide_eq_true_eq]
    exact ⟨stays, ih later (closes.of_suffix (List.suffix_cons _ _)) back⟩
  | case3 tag isClosed tokens raw ih =>
    obtain ⟨written, later⟩ := List.forall_mem_cons.mp ht
    obtain rfl := written.eq_false
    obtain ⟨keeps, back⟩ := h.rawElement later closes written.isWellFormed raw
    have rest_suffix := List.dropWhile_suffix (l := tokens) isText
    have rest_ok : ∀ t ∈ tokens.dropWhile isText, t.IsWritten :=
      fun t hm => later t (rest_suffix.subset hm)
    rw [Bool.and_eq_true, decide_eq_true_eq]
    exact ⟨keeps, ih rest_ok (closes.of_suffix (rest_suffix.trans (List.suffix_cons _ _))) back⟩
  | case4 tag isClosed tokens notRaw ih =>
    obtain ⟨written, later⟩ := List.forall_mem_cons.mp ht
    exact ih later (closes.of_suffix (List.suffix_cons _ _))
      (h.of_cons written rfl (by simp [opensRaw, notRaw]))
  | case5 token tokens notText notStart ih =>
    obtain ⟨written, later⟩ := List.forall_mem_cons.mp ht
    have after := closes.of_suffix (List.suffix_cons _ _)
    cases token with
    | text content => exact absurd rfl (notText content)
    | startTag tag isClosed => exact absurd rfl (notStart tag isClosed)
    | _ => exact ih later after (h.of_cons written rfl rfl)

end Raw

end Token

namespace Forest

open Token (isLegible gist joinTexts)

/-! ### Forests -/

theorem not_closed_of_mem_tokens {f : Forest} {t : Token} (h : t ∈ f.tokens) (tag : Tag) :
    t ≠ .startTag tag true := by
  induction f with
  | nil => simp [tokens] at h
  | element own s children rest ihc ihr =>
    by_cases void : own.isVoid
    · rw [tokens, if_pos void, List.mem_cons] at h
      rcases h with rfl | later
      · simp
      · exact ihr later
    · rw [tokens, if_neg void, List.mem_cons, List.mem_append, List.mem_cons] at h
      rcases h with rfl | inside | rfl | later
      · simp
      · exact ihc inside
      · simp
      · exact ihr later
  | text content rest ih | comment body rest ih | declaration raw rest ih =>
    rcases List.mem_cons.mp h with rfl | later
    · simp
    · exact ih later

/-- The first end tag that the written children of an element leave is its own. -/
theorem eq_of_head?_dropWhile {f : Forest} {name other : Text} {more : List Token}
    (h : ((f.tokens ++ .endTag name :: more).dropWhile Token.isText).head? = some (.endTag other)) :
    other = name := by
  induction f with
  | nil => simpa [tokens, Token.isText, eq_comm] using h
  | element own s children rest _ _ =>
    by_cases void : own.isVoid <;> simp [tokens, void, Token.isText] at h
  | text content rest ih => exact ih h
  | comment body rest _ | declaration raw rest _ => simp [tokens, Token.isText] at h

theorem closesRaw_tokens_append (f : Forest) {more : List Token} (h : Token.ClosesRaw more) :
    Token.ClosesRaw (f.tokens ++ more) := by
  induction f generalizing more with
  | nil => exact h
  | element own s children rest ihc ihr =>
    by_cases void : own.isVoid
    · rw [tokens, if_pos void, List.cons_append]
      refine (ihr h).cons ?_
      rintro tag - ⟨⟩ raw
      rw [Tag.isVoid_eq_false_of_holdsRawText raw] at void
      exact absurd void (by decide)
    · rw [tokens, if_neg void, List.cons_append, List.append_assoc, List.cons_append]
      have later : Token.ClosesRaw (.endTag own.name :: (rest.tokens ++ more)) :=
        (ihr h).cons (by simp)
      refine (ihc later).cons ?_
      rintro tag - ⟨⟩ - name first
      exact eq_of_head?_dropWhile first
  | text content rest ih | comment body rest ih | declaration raw rest ih =>
    exact (ih h).cons (by simp)

theorem prependText_append (a b : Text) (f : Forest) :
    prependText (a ++ b) f = prependText a (prependText b f) := by
  cases a with
  | nil => rfl
  | cons c a =>
    cases b with
    | nil =>
      rw [List.append_nil]
      rfl
    | cons d b => cases f <;> simp [prependText]

theorem joined_prependText (t : Text) (f : Forest) :
    (prependText t f).joined = prependText t f.joined := by
  cases t with
  | nil => rfl
  | cons c t =>
    cases f with
    | text content rest => exact prependText_append (c :: t) content rest.joined
    | _ => rfl

theorem joined_joined (f : Forest) : f.joined.joined = f.joined := by
  induction f with
  | nil => rfl
  | element tag s children rest ihc ihr => rw [joined, joined, ihc, ihr]
  | text content rest ih => rw [joined, joined_prependText, ih]
  | comment body rest ih | declaration raw rest ih => rw [joined, joined, ih]

/-- A forest is what its written form is read as, up to the bounds between texts, exactly if its
tokens are legible. -/
theorem read_print_iff {f : Forest} (built : f.IsBuilt) (ht : ∀ t ∈ f.tokens, t.IsWellFormed) :
    ((read f.print).joined = f.joined ↔ isLegible f.tokens) ∧
      (isLegible f.tokens → read f.print = f.joined) := by
  have written : ∀ t ∈ f.tokens, t.IsWritten :=
    fun t hm => ⟨ht t hm, not_closed_of_mem_tokens hm⟩
  have again (legible : isLegible f.tokens) : read f.print = f.joined := by
    have cut := Token.cutsBack_of_isLegible written legible
    rw [Token.CutsBack, printAll_tokens] at cut
    rw [read, cut, ← tokens_joined, ofTokens_tokens built.joined]
  refine ⟨⟨?_, ?_⟩, again⟩
  · intro h
    have back : Token.ReadsBack f.tokens := by
      have same := congrArg (gist ∘ tokens) h
      simp only [Function.comp_apply, tokens_joined, Token.gist_joinTexts] at same
      rw [tokens_read, Token.gist_settle] at same
      rw [Token.ReadsBack, printAll_tokens, same]
    have closes := closesRaw_tokens_append f Token.closesRaw_nil
    rw [List.append_nil] at closes
    exact Token.isLegible_of_readsBack written closes back
  · intro legible
    rw [again legible, joined_joined]

/-- What a source is read as is read again from its written form, up to the bounds between texts,
exactly if the tokens that it is written with are legible. Then only bounds within the first
forest are gone, and writing it once more changes nothing. -/
theorem read_print_read (source : Text) :
    ((read (read source).print).joined = (read source).joined
        ↔ isLegible (read source).tokens) ∧
      (isLegible (read source).tokens → read (read source).print = (read source).joined ∧
        (read (read source).print).print = (read source).print) := by
  have tokens_ok : ∀ t ∈ (read source).tokens, t.IsWellFormed := by
    rw [tokens_read]
    exact Token.isWellFormed_settle (Token.isWellFormed_scan source) (by simp)
  obtain ⟨exact_iff, again⟩ := read_print_iff (isLexed_read source).isBuilt tokens_ok
  refine ⟨exact_iff, fun legible => ⟨again legible, ?_⟩⟩
  rw [again legible, print_joined]

/-- End tags that are stray, misnested and missing, an end tag with attributes, raw text that
does not end where an end tag begins, raw text behind a dropped end tag that holds a mark of its
end, and raw text that does not end at all. -/
theorem tag_soup_is_read_again :
    let source := "<!DOCTYPE html><p>1 < 2</i> and </3 <b><i>x</b>y</i><br></p><li/>".toList
      ++ "<style>a</style x></STYLE ><script>s='</scripts>'</script>".toList
      ++ "<ul><li>a<li b=>c</ul></li><!-- d -->< /p> &lt; ".toList
      ++ "<script>a</scripts>b</script x>c</script>".toList
      ++ "<script>if (a<b) '</i>' </scrip".toList
    let written := "<!DOCTYPE html><p>1 < 2 and </3 <b><i>x</i></b>y<br></p><li></li>".toList
      ++ "<style>a</style x></style><script>s=''</script>".toList
      ++ "<ul><li>a<li b>c</li></li></ul><!-- d -->< /p> &lt; ".toList
      ++ "<script>ab</script x>c</script>".toList
      ++ "<script>if (a<b) '</i>' </scrip</script>".toList
    isLegible (read source).tokens ∧ (read source).print = written ∧
      (read (read source).print).joined = (read source).joined ∧
      read (read source).print = (read source).joined ∧
      (read (read source).print).print = (read source).print := by
  intro source written
  have legible : isLegible (read source).tokens := by decide +kernel
  obtain ⟨again, twice⟩ := read_print_read source
  exact ⟨legible, by decide +kernel, again.mpr legible, twice legible⟩

/-- Two texts that a dropped end tag kept apart, a declaration that the end tag of an element
closes, an element that is raw text once the end tag before it is gone, and raw text that such
an end tag kept from holding an end tag of its own element. -/
theorem written_form_reads_otherwise :
    let apart := "<</a>b".toList
    let unclosed := "<p><!b".toList
    let raw := "<script>a</scripts><b>c</b></script>".toList
    let ended := "<script>a<</scripts>/scriptb>c</script>".toList
    (read apart).print = "<b".toList ∧
      (read (read apart).print).print = "<b></b>".toList ∧
      (read (read apart).print).joined ≠ (read apart).joined ∧
      (read (read unclosed).print).joined ≠ (read unclosed).joined ∧
      (read (read raw).print).joined ≠ (read raw).joined ∧
      (read (read ended).print).joined ≠ (read ended).joined := by
  decide +kernel

end Forest

end HtmlTemplate
