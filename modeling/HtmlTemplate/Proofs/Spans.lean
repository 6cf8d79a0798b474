import HtmlTemplate.Proofs.Openings

/-!
# Spans of tokens

Cutting a source into tokens loses nothing and keeps the order. Main result: every source is
a sequence of spans, one per token, each written as its token says, and its texts are as long
as they can be.
-/
namespace HtmlTemplate.Token

/-- The end of a start tag. -/
def tagEnd : (isClosed : Bool) → Text
  | true => ['/', '>']
  | false => ['>']

/-- The spans that a token is cut from. Only the last token of a source may lack its end. -/
inductive HasSpan (isLast : Prop) : Token → Text → Prop
  | text (content : Text) : HasSpan isLast (.text content) content
  | declaration (raw : Text) : HasSpan isLast (.declaration raw) raw
  | comment (body : Text) :
      HasSpan isLast (.comment body) (['<', '!', '-', '-'] ++ body ++ commentEnd)
  | openComment (body : Text) (last : isLast) :
      HasSpan isLast (.comment body) (['<', '!', '-', '-'] ++ body)
  | endTag (name blanks : Text) (blank : ∀ c ∈ blanks, isBlank c) :
      HasSpan isLast (.endTag name.lowercase) (['<', '/'] ++ name ++ blanks ++ ['>'])
  | startTag (name inside : Text) (attributes : List Attribute) (isClosed : Bool) :
      HasSpan isLast (.startTag ⟨name.lowercase, attributes⟩ isClosed)
        (['<'] ++ name ++ inside ++ tagEnd isClosed)
  | openTag (name inside : Text) (attributes : List Attribute) (last : isLast) :
      HasSpan isLast (.startTag ⟨name.lowercase, attributes⟩ false) (['<'] ++ name ++ inside)

/-- Spans for the tokens of a source, in order and none of them empty. -/
inductive Covers : List Text → List Token → Prop
  | nil : Covers [] []
  | cons {span : Text} {spans : List Text} {token : Token} {tokens : List Token}
      (some_left : span ≠ []) (first : token.HasSpan (tokens = []) span)
      (others : Covers spans tokens) : Covers (span :: spans) (token :: tokens)

theorem HasSpan.mono {isLast isLast' : Prop} {token : Token} {span : Text}
    (h : token.HasSpan isLast span) (hl : isLast → isLast') : token.HasSpan isLast' span := by
  cases h with
  | text => exact .text _
  | declaration => exact .declaration _
  | comment body => exact .comment body
  | openComment body last => exact .openComment body (hl last)
  | endTag name blanks blank => exact .endTag name blanks blank
  | startTag name inside attributes isClosed => exact .startTag name inside attributes isClosed
  | openTag name inside attributes last => exact .openTag name inside attributes (hl last)

/-! ### Where a start tag ends -/

theorem splitQuoted_suffix (quote : Char) (t : Text) : (splitQuoted quote t).2 <:+ t :=
  (List.drop_suffix 1 _).trans (List.dropWhile_suffix _)

theorem splitValue_suffix (t : Text) : (splitValue t).2 <:+ t := by
  have opened := List.dropWhile_suffix isBlank (l := t)
  unfold splitValue
  split
  · rename_i r quote
    rw [quote] at opened
    exact (splitQuoted_suffix '"' r).trans ((List.suffix_cons _ r).trans opened)
  · rename_i r quote
    rw [quote] at opened
    exact (splitQuoted_suffix '\'' r).trans ((List.suffix_cons _ r).trans opened)
  · generalize t.dropWhile isBlank = r at opened
    have whole := List.takeWhile_append_dropWhile (p := isBareChar) (l := r)
    dsimp only
    split
    · rename_i slash
      -- The slash at the end of the run goes back to the tag.
      have run := List.dropLast_append_getLast? '/' slash.1
      refine List.IsSuffix.trans ⟨(r.takeWhile isBareChar).dropLast, ?_⟩ opened
      rw [List.append_cons, run, whole]
    · exact (List.dropWhile_suffix _).trans opened

/-- What is read up to the end of a tag ends with the mark for it, or with the source. -/
def TagBody.Ends (b : TagBody) (t : Text) : Prop :=
  tagEnd b.isClosed ++ b.rest <:+ t ∨ b.rest = [] ∧ b.isClosed = false

theorem TagBody.Ends.of_suffix {b : TagBody} {t source : Text} (h : b.Ends t)
    (ht : t <:+ source) : b.Ends source :=
  h.imp_left (·.trans ht)

theorem readAttributes_ends (t : Text) : (readAttributes t).Ends t := by
  fun_induction readAttributes t with
  | case1 => exact .inr ⟨rfl, rfl⟩
  | case2 t => exact .inl (List.suffix_refl _)
  | case3 t => exact .inl (List.suffix_refl _)
  | case4 t _ ih => exact ih.of_suffix (List.suffix_cons _ t)
  | case5 t ih => exact ih.of_suffix ((splitValue_suffix t).trans (List.suffix_cons _ t))
  | case6 t ih => exact ih.of_suffix ((splitQuoted_suffix _ t).trans (List.suffix_cons _ t))
  | case7 t ih => exact ih.of_suffix ((splitQuoted_suffix _ t).trans (List.suffix_cons _ t))
  | case8 c t _ _ _ _ _ _ _ _ r equals ih =>
    have sign : '=' :: r <:+ t :=
      equals ▸ (List.dropWhile_suffix _).trans (List.dropWhile_suffix _)
    have value : (splitValue r).2 <:+ c :: t :=
      (splitValue_suffix r).trans
        ((List.suffix_cons _ r).trans (sign.trans (List.suffix_cons c t)))
    exact ih.of_suffix value
  | case9 c t _ _ _ _ _ _ _ name _ ih =>
    exact ih.of_suffix ((List.dropWhile_suffix _).trans (List.suffix_cons c t))
  | case10 c t _ _ _ _ _ _ _ ih => exact ih.of_suffix (List.suffix_cons c t)

/-! ### Lexemes -/

/-- The lexeme is cut from the beginning of a source: the span of its token comes first, then
the raw text of the element, then what is left. -/
def Lexeme.CutFrom (l : Lexeme) (source : Text) : Prop :=
  ∃ span, source = span ++ (l.raw ++ l.rest) ∧ span ≠ [] ∧
    l.token.HasSpan (l.raw ++ l.rest = []) span

theorem startTag_cutFrom {name t raw rest : Text} {body : TagBody} (attributes : List Attribute)
    (h : body.Ends t) (held : body.rest = raw ++ rest) :
    Lexeme.CutFrom ⟨.startTag ⟨name.lowercase, attributes⟩ body.isClosed, raw, rest⟩
      ('<' :: (name ++ t)) := by
  rcases h with ⟨inside, rfl⟩ | ⟨nothing, isOpen⟩
  · refine ⟨['<'] ++ name ++ inside ++ tagEnd body.isClosed, ?_, by simp,
      .startTag name inside attributes _⟩
    simp [held]
  · have last : raw ++ rest = [] := held.symm.trans nothing
    refine ⟨['<'] ++ name ++ t, ?_, by simp, ?_⟩
    · simp [last]
    · rw [isOpen]
      exact .openTag name t attributes last

theorem cutFrom_startTag? {t : Text} {l : Lexeme} (h : startTag? t = some l) :
    l.CutFrom ('<' :: t) := by
  have whole := List.takeWhile_append_dropWhile (p := isNameChar) (l := t)
  have ends := readAttributes_ends (t.dropWhile isNameChar)
  unfold startTag? at h
  split at h
  · simp at h
  · rename_i c run name
    rw [name] at whole
    dsimp only at h
    split at h
    · rw [← whole]
      split at h
      · obtain rfl := by simpa using h
        obtain ⟨held, -, -⟩ := @cutAtEndTag_eq (Text.lowercase (c :: run)) _ _ _ rfl
        exact startTag_cutFrom _ ends held
      · obtain rfl := by simpa using h
        exact startTag_cutFrom _ ends rfl
    · simp at h

theorem cutFrom_endTag? {t : Text} {l : Lexeme} (h : endTag? t = some l) :
    l.CutFrom ('<' :: '/' :: t) := by
  have whole := List.takeWhile_append_dropWhile (p := isNameChar) (l := t)
  have blanks := List.takeWhile_append_dropWhile (p := isBlank) (l := t.dropWhile isNameChar)
  unfold endTag? at h
  split at h
  · rename_i c run rest name closed
    split at h
    · obtain rfl := by simpa using h
      have cut : t = (c :: run) ++ ((t.dropWhile isNameChar).takeWhile isBlank ++ '>' :: rest) := by
        rw [← closed, blanks, ← name, whole]
      refine ⟨['<', '/'] ++ (c :: run) ++ (t.dropWhile isNameChar).takeWhile isBlank ++ ['>'],
        ?_, by simp, .endTag (c :: run) _ fun _ => Text.of_mem_takeWhile⟩
      nth_rewrite 1 [cut]
      simp
    · simp at h
  · simp at h

theorem cutFrom_declaration? {c : Char} {opening t : Text} {l : Lexeme}
    (h : declaration? (c :: opening) t = some l) : l.CutFrom (c :: opening ++ t) := by
  have whole := List.takeWhile_append_dropWhile (p := (· != '>')) (l := t)
  rcases Text.dropWhile_ne_cases '>' t with ⟨-, -, all⟩ | ⟨rest, close, cut⟩
  · simp [declaration?, all] at h
  · simp only [declaration?, close, Option.some.injEq] at h
    subst h
    refine ⟨_, ?_, by simp, .declaration _⟩
    nth_rewrite 1 [cut]
    simp

theorem cutFrom_commentOf (t : Text) : (commentOf t).CutFrom ('<' :: '!' :: '-' :: '-' :: t) := by
  unfold commentOf
  split
  · rename_i body rest cut
    refine ⟨['<', '!', '-', '-'] ++ body ++ commentEnd, ?_, by simp, .comment body⟩
    simp [Text.eq_append_of_cutAt? cut, commentEnd]
  · exact ⟨['<', '!', '-', '-'] ++ t, by simp, by simp, .openComment t rfl⟩

theorem cutFrom_markup? {t : Text} {l : Lexeme} (h : markup? t = some l) :
    l.CutFrom ('<' :: t) := by
  unfold markup? at h
  split at h
  · obtain rfl := by simpa using h
    exact cutFrom_commentOf _
  · split at h
    · exact cutFrom_declaration? h
    · simp at h
  · exact cutFrom_declaration? h
  · exact cutFrom_endTag? h
  · exact cutFrom_startTag? h

/-! ### Texts joined to what they stand before -/

theorem Covers.prependText {spans : List Text} {tokens : List Token} (h : Covers spans tokens)
    (a : Text) : ∃ spans', Covers spans' (prependText a tokens) ∧
      spans'.flatten = a ++ spans.flatten := by
  cases a with
  | nil => exact ⟨spans, h, rfl⟩
  | cons c a =>
    have apart : Covers ((c :: a) :: spans) (.text (c :: a) :: tokens) :=
      .cons (List.cons_ne_nil _ _) (.text _) h
    cases h with
    | nil => exact ⟨_, apart, rfl⟩
    | @cons span spans token tokens _ first others =>
      cases token with
      | text content =>
        cases first
        exact ⟨(c :: a ++ span) :: spans, .cons (List.cons_ne_nil _ _) (.text _) others, by simp⟩
      | startTag | endTag | comment | declaration => exact ⟨_, apart, rfl⟩

/-- No text stands before another. -/
def TextsApart (tokens : List Token) : Prop :=
  tokens.IsChain fun a b => ¬(a.isText ∧ b.isText)

theorem TextsApart.cons {token : Token} {tokens : List Token} (h : TextsApart tokens)
    (other : token.isText = false) : TextsApart (token :: tokens) := by
  cases tokens with
  | nil => exact .singleton _
  | cons next tokens => exact .cons_cons (by simp [other]) h

theorem TextsApart.prependText {tokens : List Token} (h : TextsApart tokens) (a : Text) :
    TextsApart (prependText a tokens) := by
  cases a with
  | nil => exact h
  | cons c a =>
    cases tokens with
    | nil => exact .singleton _
    | cons token tokens =>
      cases token with
      | text content =>
        cases tokens with
        | nil => exact .singleton _
        | cons next tokens => exact .cons_cons (List.isChain_cons_cons.mp h).1 h.tail
      | startTag | endTag | comment | declaration => exact .cons_cons (by simp [isText]) h

/-! ### Sources -/

theorem exists_covers_scan (source : Text) :
    ∃ spans, Covers spans (scan source) ∧ spans.flatten = source := by
  have plain {c : Char} {t : Text} (ih : ∃ spans, Covers spans (scan t) ∧ spans.flatten = t) :
      ∃ spans, Covers spans (prependText [c] (scan t)) ∧ spans.flatten = c :: t := by
    obtain ⟨spans, covers, whole⟩ := ih
    obtain ⟨spans', covers', whole'⟩ := covers.prependText [c]
    exact ⟨spans', covers', by rw [whole', whole, List.singleton_append]⟩
  fun_induction scan source with
  | case1 => exact ⟨[], .nil, rfl⟩
  | case2 t l found ih =>
    obtain ⟨span, cut, some_left, first⟩ := cutFrom_markup? found
    obtain ⟨spans, covers, whole⟩ := ih
    obtain ⟨spans', covers', whole'⟩ := covers.prependText l.raw
    -- Markup that takes the rest of the source has no token after it.
    have last : l.raw ++ l.rest = [] → prependText l.raw (scan l.rest) = [] := by
      intro nothing
      obtain ⟨raw, rest⟩ := List.append_eq_nil_iff.mp nothing
      rw [raw, rest, scan_nil]
      rfl
    refine ⟨span :: spans', .cons some_left (first.mono last) covers', ?_⟩
    rw [List.flatten_cons, whole', whole, cut]
  | case3 t found ih => exact plain ih
  | case4 c t hc ih => exact plain ih

theorem textsApart_scan (source : Text) : TextsApart (scan source) := by
  fun_induction scan source with
  | case1 => exact .nil
  | case2 t l found ih => exact (ih.prependText l.raw).cons (isCut_markup? found).1
  | case3 t found ih | case4 c t hc ih => exact ih.prependText _

theorem Covers.text_ne_nil {spans : List Text} {tokens : List Token} (h : Covers spans tokens) :
    .text [] ∉ tokens := by
  induction h with
  | nil => simp
  | cons some_left first others ih =>
    rw [List.mem_cons, not_or]
    refine ⟨?_, ih⟩
    rintro rfl
    cases first
    exact some_left rfl

/-- Every source is the sequence of the spans of its tokens. Its texts stand apart and are not
empty. -/
theorem tokens_span_source (source : Text) :
    (∃ spans, Covers spans (scan source) ∧ spans.flatten = source) ∧
      TextsApart (scan source) ∧ .text [] ∉ scan source := by
  obtain ⟨spans, covers, whole⟩ := exists_covers_scan source
  exact ⟨⟨spans, covers, whole⟩, textsApart_scan source, covers.text_ne_nil⟩

end HtmlTemplate.Token
