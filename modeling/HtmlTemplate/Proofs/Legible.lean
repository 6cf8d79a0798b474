import HtmlTemplate.Proofs.Openings
import HtmlTemplate.Proofs.Settling

/-!
# Legible tokens

Tokens written one after the other may open markup that none of them is. They are legible if no
`<` of a text does, but for the raw text of script and style elements, which ends where the name
of the element stands after `</`. Main result: legible tokens are cut again out of what they are
written as, less the bounds between texts.
-/
namespace HtmlTemplate

namespace Token

/-- The texts that come first, as one. -/
def leadingText : List Token → Text
  | text content :: tokens => content ++ leadingText tokens
  | _ => []

/-- The text begins with `</` and the name, in letters of any case. -/
def marksEnd (name t : Text) : Bool :=
  Text.lowercase (t.take (name.length + 2)) == '<' :: '/' :: name

instance (content rest : Text) : Decidable (StaysText content rest) :=
  decidable_of_iff (∀ t ∈ content.tails, t.head? = some '<' → markup? (t.tail ++ rest) = none) <| by
    constructor
    · intro h tail found
      exact h ('<' :: tail) ((List.mem_tails _ _).mpr found) rfl
    · intro h t ht first
      obtain ⟨tail, rfl⟩ := List.head?_eq_some_iff.mp first
      exact h tail ((List.mem_tails _ _).mp ht)

end Token

namespace Tag

open Token (marksEnd StaysText)

/-- Wherever the content has `</` and the name of the element, no `<` from there on opens markup
before what is left of the content and the rest. -/
def KeepsText (tag : Tag) (content rest : Text) : Prop :=
  ∀ t ∈ content.tails, marksEnd tag.name t → StaysText t rest

instance (tag : Tag) (content rest : Text) : Decidable (tag.KeepsText content rest) :=
  inferInstanceAs (Decidable (∀ t ∈ content.tails, marksEnd tag.name t → StaysText t rest))

/-- The raw text that is read there ends within the content or right behind it, and from there
on no `<` of the content opens markup. -/
def KeepsRaw (tag : Tag) (content rest : Text) : Prop :=
  (Token.cutAtEndTag tag.name (content ++ rest)).1.length ≤ content.length ∧
    tag.KeepsText content rest

instance (tag : Tag) (content rest : Text) : Decidable (tag.KeepsRaw content rest) :=
  inferInstanceAs (Decidable (_ ∧ _))

end Tag

namespace Token

/-- No `<` of a text opens markup before what is written after it. The texts that a script or
style element holds first are one raw text, of which only what stands after its end counts. -/
def isLegible : List Token → Bool
  | [] => true
  | text content :: tokens => decide (StaysText content (printAll tokens)) && isLegible tokens
  | startTag tag _ :: tokens =>
    if tag.holdsRawText then
      decide (tag.KeepsRaw (leadingText tokens) (printAll (tokens.dropWhile isText))) &&
        isLegible (tokens.dropWhile isText)
    else isLegible tokens
  | _ :: tokens => isLegible tokens
termination_by tokens => tokens.length
decreasing_by
  · exact Nat.lt_succ_self _
  · exact Nat.lt_succ_of_le (List.dropWhile_sublist _).length_le
  · exact Nat.lt_succ_self _
  · exact Nat.lt_succ_self _

/-- A well-formed token as forests are written with: no element is closed at once. -/
structure IsWritten (token : Token) : Prop where
  isWellFormed : token.IsWellFormed
  not_closed : ∀ tag, token ≠ .startTag tag true

theorem IsWritten.eq_false {tag : Tag} {isClosed : Bool} (h : (startTag tag isClosed).IsWritten) :
    isClosed = false := by
  cases isClosed with
  | false => rfl
  | true => exact absurd rfl (h.not_closed tag)

/-- Written out, the tokens are cut into the same tokens, less the bounds between texts. -/
def CutsBack (tokens : List Token) : Prop := scan (printAll tokens) = joinTexts tokens

/-! ### The texts that come first -/

theorem printAll_eq_leadingText (tokens : List Token) :
    printAll tokens = leadingText tokens ++ printAll (tokens.dropWhile isText) := by
  induction tokens with
  | nil => rfl
  | cons token tokens ih =>
    cases token with
    | text content =>
      rw [printAll_cons, ih, List.dropWhile_cons_of_pos rfl, ← List.append_assoc]
      rfl
    | _ => rfl

theorem joinTexts_eq_leadingText (tokens : List Token) : joinTexts tokens
    = prependText (leadingText tokens) (joinTexts (tokens.dropWhile isText)) := by
  induction tokens with
  | nil => rfl
  | cons token tokens ih =>
    cases token with
    | text content =>
      show prependText content (joinTexts tokens) = _
      rw [ih, ← prependText_append]
      rfl
    | _ => rfl

theorem begins_print {token : Token} (h : token.IsWritten) (other : token.isText = false)
    (rest : Text) :
    Begins (token.print ++ rest) token (token.cutAfter rest).1 (token.cutAfter rest).2 := by
  cases token with
  | startTag tag isClosed =>
    obtain rfl := h.eq_false
    exact begins_startTag h.isWellFormed rest
  | endTag name => exact @begins_endTag ⟨name, []⟩ h.isWellFormed rest
  | text content => exact absurd other (by simp [isText])
  | comment body => exact begins_comment h.isWellFormed rest
  | declaration raw => exact begins_declaration h.isWellFormed rest

theorem isText_of_dropWhile {tokens rest : List Token} {token : Token}
    (h : tokens.dropWhile isText = token :: rest) : token.isText = false := by
  have first := List.head?_dropWhile_not isText tokens
  rw [h] at first
  simpa using first

/-- What is written after the texts that come first is nothing or markup. -/
theorem isBoundary_printAll {tokens : List Token} (ht : ∀ t ∈ tokens, t.IsWritten) :
    IsBoundary (printAll (tokens.dropWhile isText)) := by
  cases h : tokens.dropWhile isText with
  | nil => exact .inl rfl
  | cons token rest =>
    have other := isText_of_dropWhile h
    have written : token.IsWritten :=
      ht token ((List.dropWhile_sublist _).subset (h ▸ List.mem_cons_self))
    exact (begins_print written other _).isBoundary other

theorem IsBoundary.head_eq {s : Text} (h : IsBoundary s) : ∀ c ∈ s.head?, c = '<' := by
  obtain rfl | ⟨-, -, -, ⟨t, rfl, -⟩, -⟩ := h <;> simp

/-! ### Where raw text ends -/

section RawText

variable {tag : Tag} {content rest : Text}

theorem marksEnd_append {name t : Text} (h : marksEnd name t) (rest : Text) :
    marksEnd name (t ++ rest) := by
  have mark : Text.lowercase (t.take (name.length + 2)) = '<' :: '/' :: name := eq_of_beq h
  have long : name.length + 2 ≤ t.length := by
    have size := congrArg List.length mark
    simp only [Text.lowercase, List.length_map, List.length_take, List.length_cons] at size
    omega
  rw [marksEnd, List.take_append_of_le_length long]
  exact h

/-- Raw text ends at the first such mark, so no mark stands before its end. -/
theorem suffix_cutAtEndTag {name t body : Text} (marks : marksEnd name t) (ht : t <:+ body) :
    t <:+ (cutAtEndTag name body).2 := by
  induction body with
  | nil => exact ht
  | cons c body ih =>
    rw [cutAtEndTag]
    dsimp only [List.length_cons]
    split
    · exact ht
    · rename_i other
      rcases List.suffix_cons_iff.mp ht with rfl | later
      · exact absurd (eq_of_beq marks) other
      · exact ih later

/-- A mark that begins before a `<` ends before it. -/
theorem marksEnd_of_append {name left : Text} (hn : isTagName name)
    (next : ∀ c ∈ rest.head?, c = '<') (ne_nil : left ≠ []) (h : marksEnd name (left ++ rest)) :
    marksEnd name left := by
  obtain ⟨c, run, rfl⟩ := List.exists_cons_of_ne_nil ne_nil
  cases rest with
  | nil => rwa [List.append_nil] at h
  | cons d rest =>
    obtain rfl := next d rfl
    by_cases short : run.length ≤ name.length
    · exact absurd (eq_of_beq h) (ne_endMark_of_short hn short)
    · have long : name.length + 2 ≤ (c :: run).length := by
        rw [List.length_cons]
        omega
      rw [marksEnd, List.take_append_of_le_length long] at h
      exact h

theorem keepsText_iff {held left : Text} (hn : isTagName tag.name)
    (next : ∀ c ∈ rest.head?, c = '<') (whole : content = held ++ left)
    (cut : cutAtEndTag tag.name (content ++ rest) = (held, left ++ rest)) :
    tag.KeepsText content rest ↔ StaysText left rest := by
  obtain ⟨-, -, ends⟩ := cutAtEndTag_eq cut
  constructor
  · intro keeps
    by_cases empty : left = []
    · rw [empty]
      exact staysText_nil _
    · have mark : marksEnd tag.name (left ++ rest) := by
        rcases ends with nothing | mark
        · exact absurd (List.append_eq_nil_iff.mp nothing).1 empty
        · exact beq_iff_eq.mpr mark
      exact keeps left ((List.mem_tails _ _).mpr ⟨held, whole.symm⟩)
        (marksEnd_of_append hn next empty mark)
  · intro stays t ht marks
    have within : t ++ rest <:+ content ++ rest :=
      List.suffix_append_self_iff.mpr ((List.mem_tails _ _).mp ht)
    have later := suffix_cutAtEndTag (marksEnd_append marks rest) within
    rw [cut] at later
    exact stays.of_suffix (List.suffix_append_self_iff.mp later)

/-- A cut that is no longer than the content leaves the end of the content before the rest. -/
theorem exists_left_of_length_le {held after : Text} (whole : content ++ rest = held ++ after)
    (short : held.length ≤ content.length) :
    ∃ left, content = held ++ left ∧ after = left ++ rest := by
  rcases List.append_eq_append_iff.mp whole with ⟨more, longer, he⟩ | ⟨left, split, he⟩
  · obtain rfl : more = [] := by
      rw [longer, List.length_append] at short
      exact List.eq_nil_of_length_eq_zero (by omega)
    exact ⟨[], by rw [longer, List.append_nil, List.append_nil], he.symm⟩
  · exact ⟨left, split, he⟩

/-- The raw text ends within the content, and what it leaves of the content stays text. -/
theorem exists_cut_of_keepsRaw (hn : isTagName tag.name) (next : ∀ c ∈ rest.head?, c = '<')
    (h : tag.KeepsRaw content rest) :
    ∃ held left, content = held ++ left ∧
      cutAtEndTag tag.name (content ++ rest) = (held, left ++ rest) ∧ StaysText left rest := by
  obtain ⟨short, keeps⟩ := h
  rcases cut : cutAtEndTag tag.name (content ++ rest) with ⟨held, after⟩
  rw [cut] at short
  obtain ⟨left, rfl, rfl⟩ := exists_left_of_length_le (cutAtEndTag_eq cut).1 short
  exact ⟨held, left, rfl, rfl, (keepsText_iff hn next rfl cut).mp keeps⟩

/-- A mark right behind the content ends the raw text there, if nothing before does. -/
theorem length_cutAtEndTag_le {name : Text} (mark : marksEnd name rest) (content : Text) :
    (cutAtEndTag name (content ++ rest)).1.length ≤ content.length := by
  induction content with
  | nil =>
    obtain ⟨after, rfl⟩ := exists_of_endMark (eq_of_beq mark)
    rw [List.nil_append, cutAtEndTag]
    dsimp only [List.length_cons]
    rw [if_pos (eq_of_beq mark)]
  | cons c content ih =>
    rw [List.cons_append, cutAtEndTag]
    dsimp only
    split
    · exact Nat.zero_le _
    · exact Nat.succ_le_succ ih

end RawText

/-! ### Legible tokens are cut back -/

theorem scan_char {c : Char} {t : Text} (h : c = '<' → markup? t = none) :
    scan (c :: t) = prependText [c] (scan t) := by
  by_cases hc : c = '<'
  · rw [hc, scan_of_markup?_eq_none (h hc)]
  · exact scan_cons hc t

/-- A token is cut out of what is written, unless its element holds raw text. -/
theorem scan_print {token : Token} (h : token.IsWritten) (other : token.isText = false)
    (notRaw : token.opensRaw = false) (rest : Text) :
    scan (token.print ++ rest) = token :: scan rest := by
  rw [(begins_print h other rest).scan_eq, cutAfter_of_not notRaw]
  rfl

/-- The element that a raw start tag opens holds the text up to the cut, and what the cut leaves
is read as it would be anywhere. -/
theorem scan_rawElement {tag : Tag} (h : tag.IsWellFormed) (raw : tag.holdsRawText)
    {source held left : Text} (cut : cutAtEndTag tag.name source = (held, left)) :
    scan (tag.print ++ source) = .startTag tag false :: prependText held (scan left) := by
  have same : cutRaw tag source = (held, left) := by rw [cutRaw, if_pos raw, cut]
  rw [(begins_startTag h source).scan_eq, same]

theorem scan_of_keepsRaw {tag : Tag} (h : tag.IsWellFormed) (raw : tag.holdsRawText)
    {content rest : Text} (next : ∀ c ∈ rest.head?, c = '<') (keeps : tag.KeepsRaw content rest) :
    scan (tag.print ++ (content ++ rest))
      = .startTag tag false :: prependText content (scan rest) := by
  obtain ⟨held, left, whole, cut, stays⟩ := exists_cut_of_keepsRaw h.name_ok next keeps
  rw [scan_rawElement h raw cut, stays.scan_append, ← prependText_append, ← whole]

section Legible

variable {tokens : List Token}

theorem CutsBack.text {content : Text} (h : CutsBack tokens)
    (stays : StaysText content (printAll tokens)) : CutsBack (.text content :: tokens) := by
  rw [CutsBack, printAll_cons]
  show scan (content ++ printAll tokens) = prependText content (joinTexts tokens)
  rw [stays.scan_append, h]

theorem CutsBack.cons {token : Token} (h : CutsBack tokens) (written : token.IsWritten)
    (other : token.isText = false) (notRaw : token.opensRaw = false) :
    CutsBack (token :: tokens) := by
  rw [CutsBack, printAll_cons, scan_print written other notRaw, h, joinTexts_cons other]

theorem CutsBack.rawElement {tag : Tag} (h : CutsBack (tokens.dropWhile isText))
    (ht : ∀ t ∈ tokens, t.IsWritten) (tag_ok : tag.IsWellFormed) (raw : tag.holdsRawText)
    (keeps : tag.KeepsRaw (leadingText tokens) (printAll (tokens.dropWhile isText))) :
    CutsBack (.startTag tag false :: tokens) := by
  rw [CutsBack, printAll_cons, printAll_eq_leadingText]
  show scan (tag.print ++ _) = _
  rw [scan_of_keepsRaw tag_ok raw (isBoundary_printAll ht).head_eq keeps, h, joinTexts_cons rfl,
    ← joinTexts_eq_leadingText]

theorem cutsBack_of_isLegible (ht : ∀ t ∈ tokens, t.IsWritten) (h : isLegible tokens) :
    CutsBack tokens := by
  fun_induction isLegible tokens with
  | case1 => exact scan_nil
  | case2 content tokens ih =>
    obtain ⟨stays, legible⟩ := Bool.and_eq_true_iff.mp h
    exact (ih (List.forall_mem_cons.mp ht).2 legible).text (of_decide_eq_true stays)
  | case3 tag isClosed tokens raw ih =>
    obtain ⟨keeps, legible⟩ := Bool.and_eq_true_iff.mp h
    obtain ⟨written, later⟩ := List.forall_mem_cons.mp ht
    obtain rfl := written.eq_false
    have rest_ok : ∀ t ∈ tokens.dropWhile isText, t.IsWritten :=
      fun t hm => later t ((List.dropWhile_sublist _).subset hm)
    exact (ih rest_ok legible).rawElement later written.isWellFormed raw (of_decide_eq_true keeps)
  | case4 tag isClosed tokens notRaw ih =>
    obtain ⟨written, later⟩ := List.forall_mem_cons.mp ht
    exact (ih later h).cons written rfl (by simp [opensRaw, notRaw])
  | case5 token tokens notText notStart ih =>
    obtain ⟨written, later⟩ := List.forall_mem_cons.mp ht
    cases token with
    | text content => exact absurd rfl (notText content)
    | startTag tag isClosed => exact absurd rfl (notStart tag isClosed)
    | _ => exact (ih later h).cons written rfl rfl

end Legible

end Token

end HtmlTemplate
