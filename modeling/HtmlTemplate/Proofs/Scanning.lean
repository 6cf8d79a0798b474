import HtmlTemplate.Markup.Printing
import HtmlTemplate.Proofs.Grammar
import HtmlTemplate.Proofs.References

/-!
# Written markup is cut where it was joined

Each piece of markup, written before any rest, is read as that piece and leaves exactly that
rest. Texts are the exception: they end where markup begins, so they need to know what
follows them.
-/
namespace HtmlTemplate.Token

theorem splitQuoted_append {quote : Char} {value : Text} (h : quote ∉ value) (rest : Text) :
    splitQuoted quote (value ++ quote :: rest) = (value, rest) := by
  rw [splitQuoted, Text.takeWhile_ne_append h, Text.dropWhile_ne_append h, List.drop_one,
    List.tail_cons]

theorem splitValue_quoted {quote : Char} {value : Text} (hq : quote = '"' ∨ quote = '\'')
    (h : quote ∉ value) (rest : Text) :
    splitValue (quote :: (value ++ quote :: rest)) = (value, rest) := by
  have solid : isBlank quote = false := by rcases hq with rfl | rfl <;> decide
  have opened : (quote :: (value ++ quote :: rest)).dropWhile isBlank
      = quote :: (value ++ quote :: rest) := List.dropWhile_cons_of_neg (by simp [solid])
  unfold splitValue
  rw [opened]
  rcases hq with rfl | rfl <;> exact splitQuoted_append h rest

theorem isBlank_iff {c : Char} :
    isBlank c ↔ c = ' ' ∨ c = '\t' ∨ c = '\r' ∨ c = '\n' ∨ c = '\x0c' := by
  simp [isBlank, or_assoc]

theorem readAttributes_blank {c : Char} (h : isBlank c) (t : Text) :
    readAttributes (c :: t) = readAttributes t := by
  rcases isBlank_iff.mp h with rfl | rfl | rfl | rfl | rfl
  all_goals
    rw [readAttributes.eq_def]
    exact if_neg (by decide)

theorem readAttributes_close (t : Text) : readAttributes ('>' :: t) = ⟨[], false, t⟩ := by
  rw [readAttributes.eq_def]
  rfl

theorem isAttributeNameChar_ne {c : Char} (h : isAttributeNameChar c) :
    c ≠ '>' ∧ c ≠ '/' ∧ c ≠ '=' ∧ c ≠ '"' ∧ c ≠ '\'' := by
  refine ⟨?_, ?_, ?_, ?_, ?_⟩ <;> rintro rfl <;> exact absurd h (by decide)

theorem isBlank_of_isAttributeNameChar {c : Char} (h : isAttributeNameChar c) :
    isBlank c = false := by
  simp only [isAttributeNameChar, Bool.not_eq_true', Bool.or_eq_false_iff] at h
  exact h.1.1.1.1.1

section Attributes

variable {name rest : Text}

/-- A character of a name begins an attribute, with a value if an equals sign follows. -/
theorem readAttributes_char {c : Char} (h : isAttributeNameChar c) (t : Text) :
    readAttributes (c :: t) =
      let name := Text.lowercase (c :: t.takeWhile isAttributeNameChar)
      match (t.dropWhile isAttributeNameChar).dropWhile isBlank with
      | '=' :: r =>
        (readAttributes (splitValue r).2).push ⟨name, Text.Entity.decode (splitValue r).1⟩
      | _ => (readAttributes (t.dropWhile isAttributeNameChar)).push ⟨name, []⟩ := by
  obtain ⟨_, _, _, _, _⟩ := isAttributeNameChar_ne h
  rw [readAttributes.eq_def]
  split
  case h_8 he =>
    obtain ⟨rfl, rfl⟩ := List.cons.inj he
    rw [if_pos h]
    dsimp only
    split
    · rename_i found
      rw [found]
      rfl
    · rename_i missing
      split
      · rename_i found
        exact (missing _ found).elim
      · rfl
  all_goals simp_all

/-- A name that an equals sign follows, after any blanks. -/
theorem readAttributes_equals (hn : name ≠ []) (hc : ∀ c ∈ name, isAttributeNameChar c)
    {blanks : Text} (hb : ∀ c ∈ blanks, isBlank c) :
    readAttributes (name ++ (blanks ++ '=' :: rest)) = (readAttributes (splitValue rest).2).push
      ⟨name.lowercase, Text.Entity.decode (splitValue rest).1⟩ := by
  obtain ⟨c, name, rfl⟩ := List.exists_cons_of_ne_nil hn
  obtain ⟨first, others⟩ := List.forall_mem_cons.mp hc
  have sign : (blanks ++ '=' :: rest).dropWhile isBlank = '=' :: rest :=
    Text.dropWhile_run hb (by simp [isBlank])
  have stop : ∀ d ∈ (blanks ++ '=' :: rest).head?, isAttributeNameChar d = false := by
    cases blanks with
    | nil =>
      rintro d ⟨⟩
      decide
    | cons b blanks =>
      rintro d ⟨⟩
      simp [isAttributeNameChar, hb b (by simp)]
  rw [List.cons_append, readAttributes_char first, Text.takeWhile_run others stop,
    Text.dropWhile_run others stop, sign]
  rfl

/-- What may stand after an attribute: blanks that no equals sign follows, or the end of the
tag. -/
inductive EndsAttribute : Text → Prop
  | blank {c : Char} {t : Text} (blank : isBlank c)
      (bare : ∀ d ∈ (t.dropWhile isBlank).head?, d ≠ '=') : EndsAttribute (c :: t)
  | close (t : Text) : EndsAttribute ('>' :: t)
  | slash (t : Text) : EndsAttribute ('/' :: '>' :: t)

/-- No name goes on there, neither of an attribute nor of a tag. -/
theorem EndsAttribute.apart (h : EndsAttribute rest) :
    ∀ c ∈ rest.head?, isAttributeNameChar c = false ∧ isNameChar c = false := by
  cases h with
  | blank blank =>
    rintro c ⟨⟩
    rcases isBlank_iff.mp blank with rfl | rfl | rfl | rfl | rfl <;> decide
  | close | slash =>
    rintro c ⟨⟩
    decide

theorem EndsAttribute.bare (h : EndsAttribute rest) :
    ∀ c ∈ (rest.dropWhile isBlank).head?, c ≠ '=' := by
  cases h with
  | blank blank bare => rwa [List.dropWhile_cons_of_pos blank]
  | close | slash =>
    rw [List.dropWhile_cons_of_neg (by decide)]
    rintro c ⟨⟩
    decide

/-- Blanks before a name are not followed by an equals sign. -/
theorem head_ne_equals {c : Char} (h : isAttributeNameChar c) {t : Text} :
    ∀ d ∈ ((c :: t).dropWhile isBlank).head?, d ≠ '=' := by
  rw [List.dropWhile_cons_of_neg (by simp [isBlank_of_isAttributeNameChar h])]
  rintro d ⟨⟩
  exact (isAttributeNameChar_ne h).2.2.1

/-- A name without a value. -/
theorem readAttributes_bare (hn : name ≠ []) (hc : ∀ c ∈ name, isAttributeNameChar c)
    (hr : EndsAttribute rest) :
    readAttributes (name ++ rest) = (readAttributes rest).push ⟨name.lowercase, []⟩ := by
  obtain ⟨c, name, rfl⟩ := List.exists_cons_of_ne_nil hn
  obtain ⟨first, others⟩ := List.forall_mem_cons.mp hc
  have stop : ∀ c ∈ rest.head?, isAttributeNameChar c = false := fun c hm => (hr.apart c hm).1
  rw [List.cons_append, readAttributes_char first, Text.takeWhile_run others stop,
    Text.dropWhile_run others stop]
  dsimp only
  split
  · rename_i value sign
    exact absurd rfl (hr.bare '=' (by rw [sign]; rfl))
  · rfl

theorem readAttributes_print {a : Attribute} (h : isAttributeName a.name)
    (hr : EndsAttribute rest) : readAttributes (a.print ++ rest) = (readAttributes rest).push a := by
  obtain ⟨name, value⟩ := a
  obtain ⟨hn, chars⟩ := isAttributeName_iff.mp h
  have hc : ∀ c ∈ name, isAttributeNameChar c := fun c hm => (chars c hm).1
  have lower : name.lowercase = name := Text.lowercase_eq_self fun c hm => (chars c hm).2
  cases value with
  | nil =>
    show readAttributes (' ' :: (name ++ rest)) = _
    rw [@readAttributes_blank ' ' (by decide), readAttributes_bare hn hc hr, lower]
  | cons v value =>
    have written : (⟨name, v :: value⟩ : Attribute).print ++ rest
        = ' ' :: (name ++ ([] ++
          '=' :: '"' :: (Text.Entity.encodeAttribute (v :: value) ++ '"' :: rest))) := by
      simp [Attribute.print]
    rw [written, @readAttributes_blank ' ' (by decide), readAttributes_equals hn hc (by simp),
      lower, splitValue_quoted (.inl rfl) (Text.Entity.quote_not_mem_encodeAttribute _),
      Text.Entity.decode_encodeAttribute]

theorem endsAttribute_print {attributes : List Attribute}
    (h : ∀ a ∈ attributes, isAttributeName a.name) (rest : Text) :
    EndsAttribute (attributes.flatMap (·.print) ++ '>' :: rest) := by
  cases attributes with
  | nil => exact .close rest
  | cons a attributes =>
    obtain ⟨hn, chars⟩ := isAttributeName_iff.mp (h a (by simp))
    obtain ⟨c, run, he⟩ := List.exists_cons_of_ne_nil hn
    have first : isAttributeNameChar c := (chars c (by simp [he])).1
    have written (t : Text) : EndsAttribute (' ' :: c :: t) :=
      .blank (by decide) (head_ne_equals first)
    unfold Attribute.print
    rw [List.flatMap_cons, he]
    split <;> exact written _

theorem readAttributes_flatMap_print {attributes : List Attribute}
    (h : ∀ a ∈ attributes, isAttributeName a.name) (rest : Text) :
    readAttributes (attributes.flatMap (·.print) ++ '>' :: rest) = ⟨attributes, false, rest⟩ := by
  induction attributes with
  | nil => exact readAttributes_close rest
  | cons a attributes ih =>
    have others : ∀ b ∈ attributes, isAttributeName b.name := fun b hb => h b (by simp [hb])
    rw [List.flatMap_cons, List.append_assoc,
      readAttributes_print (h a (by simp)) (endsAttribute_print others rest), ih others]
    rfl

theorem keepFirst_eq_self {attributes : List Attribute} (h : (attributes.map (·.name)).Nodup) :
    keepFirst attributes = attributes := by
  induction attributes with
  | nil => rfl
  | cons a attributes ih =>
    obtain ⟨fresh, distinct⟩ := List.nodup_cons.mp (List.map_cons ▸ h)
    have kept : ∀ b ∈ attributes, (b.name != a.name) = true := by
      intro b hb
      rw [bne_iff_ne]
      intro he
      exact fresh (he ▸ List.mem_map_of_mem hb)
    rw [keepFirst, ih distinct, List.filter_eq_self.mpr kept]

end Attributes

/-! ### Raw text -/

/-- The mark has its `<` at its start only, so it does not begin within a run that is shorter
than itself and ends right before a `<`. -/
theorem ne_endMark_of_short {name run rest : Text} {c : Char} (hn : isTagName name)
    (short : run.length ≤ name.length) :
    Text.lowercase ((c :: (run ++ '<' :: rest)).take (name.length + 2)) ≠ '<' :: '/' :: name := by
  intro he
  obtain ⟨k, hk⟩ : ∃ k, name.length + 1 - run.length = k + 1 :=
    ⟨name.length - run.length, by omega⟩
  have inside : '<' ∈ Text.lowercase ((run ++ '<' :: rest).take (name.length + 1)) := by
    rw [List.take_append, hk, List.take_succ_cons]
    exact List.mem_map.mpr ⟨'<', by simp, rfl⟩
  have tails : Text.lowercase ((run ++ '<' :: rest).take (name.length + 1)) = '/' :: name :=
    (List.cons.inj he).2
  rw [tails] at inside
  have hm : '<' ∈ name := by simpa using inside
  obtain ⟨-, -, -, -, chars, -⟩ := exists_of_isTagName hn
  exact absurd (chars '<' hm) (by decide)

theorem exists_of_endMark {name rest : Text}
    (h : Text.lowercase (rest.take (name.length + 2)) = '<' :: '/' :: name) :
    ∃ after, rest = '<' :: after := by
  cases rest with
  | nil => simp [Text.lowercase] at h
  | cons c rest =>
    obtain rfl := Text.eq_of_toLower (by decide) (List.cons.inj h).1
    exact ⟨rest, rfl⟩

/-- Raw text goes on up to an end tag of its name or to the end of the source. -/
theorem cutAtEndTag_eq {name t raw rest : Text} (h : cutAtEndTag name t = (raw, rest)) :
    t = raw ++ rest ∧ ¬('<' :: '/' :: name) <:+: raw.lowercase ∧
      (rest = [] ∨ Text.lowercase (rest.take (name.length + 2)) = '<' :: '/' :: name) := by
  induction t generalizing raw with
  | nil =>
    obtain ⟨rfl, rfl⟩ := by simpa [cutAtEndTag] using h
    exact ⟨rfl, by simp [Text.lowercase], .inl rfl⟩
  | cons c t ih =>
    rw [cutAtEndTag] at h
    dsimp only [List.length_cons] at h
    split at h
    · rename_i mark
      obtain ⟨rfl, rfl⟩ := by simpa using h
      exact ⟨rfl, by simp [Text.lowercase], .inr mark⟩
    · rename_i other
      rcases inner : cutAtEndTag name t with ⟨run, left⟩
      rw [inner] at h
      obtain ⟨rfl, rfl⟩ := by simpa using h
      obtain ⟨whole, apart, ends⟩ := ih inner
      refine ⟨by rw [List.cons_append, ← whole], ?_, ends⟩
      intro found
      rcases List.infix_cons_iff.mp found with first | later
      · obtain ⟨after, begins⟩ := first
        have lowered : Text.lowercase (c :: t)
            = '<' :: '/' :: name ++ (after ++ Text.lowercase left) := by
          rw [← List.append_assoc, begins, whole]
          exact congrArg (List.cons _) List.map_append
        apply other
        show ((c :: t).take _).map Char.toLower = _
        rw [List.map_take]
        show (Text.lowercase (c :: t)).take _ = _
        rw [lowered]
        exact List.take_left' rfl
      · exact apart later

/-- Raw text ends where an end tag of its name begins, in letters of any case. -/
theorem cutAtEndTag_append {name content rest : Text} (hn : isTagName name)
    (h : ¬('<' :: '/' :: name) <:+: content.lowercase)
    (hr : Text.lowercase (rest.take (name.length + 2)) = '<' :: '/' :: name) :
    cutAtEndTag name (content ++ rest) = (content, rest) := by
  induction content with
  | nil =>
    cases rest with
    | nil => simp [Text.lowercase] at hr
    | cons c rest =>
      rw [List.nil_append, cutAtEndTag]
      exact if_pos hr
  | cons c content ih =>
    have later : ¬('<' :: '/' :: name) <:+: Text.lowercase content :=
      fun found => h (found.trans (List.suffix_cons _ _).isInfix)
    have here : Text.lowercase ((c :: (content ++ rest)).take (name.length + 2))
        ≠ '<' :: '/' :: name := by
      by_cases short : content.length ≤ name.length
      · obtain ⟨after, rfl⟩ := exists_of_endMark hr
        exact ne_endMark_of_short hn short
      · intro he
        have fits : name.length + 2 ≤ (c :: content).length := by
          rw [List.length_cons]
          omega
        rw [← List.cons_append, List.take_append_of_le_length fits] at he
        apply h
        rw [← he]
        exact ((List.take_prefix _ _).map _).isInfix
    rw [List.cons_append, cutAtEndTag]
    dsimp only [List.length_cons]
    rw [if_neg here, ih later]

/-- The raw text that the element of a start tag holds, and what follows it. -/
def cutRaw (tag : Tag) (t : Text) : Text × Text :=
  if tag.holdsRawText then cutAtEndTag tag.name t else ([], t)

theorem cutRaw_of_not {tag : Tag} (h : ¬tag.holdsRawText) (t : Text) : cutRaw tag t = ([], t) :=
  if_neg h

theorem take_printEnd {tag : Tag} (hn : isTagName tag.name) (rest : Text) :
    Text.lowercase ((tag.printEnd ++ rest).take (tag.name.length + 2)) = tag.endMark := by
  obtain ⟨-, -, -, -, -, lower⟩ := exists_of_isTagName hn
  have written : tag.printEnd ++ rest = '<' :: '/' :: (tag.name ++ '>' :: rest) := by
    simp [Tag.printEnd]
  rw [written, List.take_succ_cons, List.take_succ_cons, List.take_left]
  show '<' :: '/' :: tag.name.lowercase = _
  rw [lower, Tag.endMark]

theorem cutRaw_append {tag : Tag} {content : Text} (hn : isTagName tag.name)
    (hr : tag.holdsRawText) (h : ¬tag.endMark <:+: content.lowercase) (rest : Text) :
    cutRaw tag (content ++ (tag.printEnd ++ rest)) = (content, tag.printEnd ++ rest) := by
  rw [cutRaw, if_pos hr]
  exact cutAtEndTag_append hn h (take_printEnd hn rest)

/-! ### Lexemes -/

theorem markup?_name {c : Char} (bang : c ≠ '!') (question : c ≠ '?') (slash : c ≠ '/')
    (t : Text) : markup? (c :: t) = startTag? (c :: t) := by
  unfold markup?
  split <;> simp_all

theorem markup?_letter {c : Char} (h : c.isAlpha) (t : Text) :
    markup? (c :: t) = startTag? (c :: t) := by
  apply markup?_name
  all_goals
    rintro rfl
    exact absurd h (by decide)

theorem markup?_startTag {tag : Tag} (h : tag.IsWellFormed) (rest : Text) :
    markup? (tag.name ++ (tag.attributes.flatMap (·.print) ++ '>' :: rest))
      = some ⟨.startTag tag false, (cutRaw tag rest).1, (cutRaw tag rest).2⟩ := by
  obtain ⟨name, attributes⟩ := tag
  obtain ⟨name_ok, attributes_ok, distinct⟩ := h
  dsimp only at name_ok attributes_ok ⊢
  have ended := endsAttribute_print attributes_ok rest
  have stop : ∀ c ∈ (attributes.flatMap (·.print) ++ '>' :: rest).head?, isNameChar c = false := by
    intro c hc
    exact (ended.apart c hc).2
  obtain ⟨c, run, rfl, first, chars, lower⟩ := exists_of_isTagName name_ok
  rw [List.cons_append, markup?_letter first, ← List.cons_append]
  unfold startTag?
  rw [Text.takeWhile_run chars stop, Text.dropWhile_run chars stop]
  dsimp only
  rw [if_pos first, lower, readAttributes_flatMap_print attributes_ok, keepFirst_eq_self distinct]
  cases hr : rawTextNames.any (·.toList == c :: run) <;> simp [cutRaw, Tag.holdsRawText, hr]

theorem markup?_endTag {name : Text} (h : isTagName name) (rest : Text) :
    markup? ('/' :: (name ++ '>' :: rest)) = some ⟨.endTag name, [], rest⟩ := by
  have stop : ∀ c ∈ ('>' :: rest).head?, isNameChar c = false := by
    rintro c ⟨⟩
    decide
  obtain ⟨c, run, rfl, first, chars, lower⟩ := exists_of_isTagName h
  show endTag? (c :: run ++ '>' :: rest) = _
  unfold endTag?
  rw [Text.takeWhile_run chars stop, Text.dropWhile_run chars stop,
    List.dropWhile_cons_of_neg (by decide)]
  simp only [first, lower, if_true]

/-- The end of a comment does not overlap with itself, so none begins within the body. -/
theorem cutAt?_commentEnd {body : Text} (h : ¬commentEnd <:+: body) (rest : Text) :
    Text.cutAt? commentEnd (body ++ (commentEnd ++ rest)) = some (body, rest) := by
  induction body with
  | nil => rfl
  | cons c body ih =>
    have later : ¬commentEnd <:+: body :=
      fun found => h (found.trans (List.suffix_cons c body).isInfix)
    have here : Text.stripStart? commentEnd (c :: (body ++ (commentEnd ++ rest))) = none := by
      rw [Option.eq_none_iff_forall_ne_some]
      intro after found
      have he := Text.stripStart?_eq_some.mp found
      match body with
      | [] => simp [commentEnd] at he
      | [d] => simp [commentEnd] at he
      | d :: e :: body =>
        obtain ⟨rfl, rfl, rfl, -⟩ := by simpa [commentEnd] using he
        exact h ⟨[], body, rfl⟩
    rw [List.cons_append, Text.cutAt?, here, ih later]
    rfl

theorem markup?_comment {body : Text} (h : ¬commentEnd <:+: body) (rest : Text) :
    markup? ('!' :: '-' :: '-' :: (body ++ (commentEnd ++ rest)))
      = some ⟨.comment body, [], rest⟩ := by
  have cut := cutAt?_commentEnd h rest
  rw [commentEnd] at cut
  rw [markup?, commentOf, commentEnd, cut]

theorem declaration?_append {t : Text} (h : t.dropWhile (· != '>') = ['>']) (opening rest : Text) :
    declaration? opening (t ++ rest) = some ⟨.declaration (opening ++ t), [], rest⟩ := by
  have whole := List.takeWhile_append_dropWhile (p := (· != '>')) (l := t)
  rw [h] at whole
  have inside : ∀ c ∈ t.takeWhile (· != '>'), (c != '>') = true :=
    List.all_eq_true.mp List.all_takeWhile
  have stop : ∀ c ∈ ('>' :: rest).head?, (c != '>') = false := by simp
  have cut : t ++ rest = t.takeWhile (· != '>') ++ '>' :: rest := by
    rw [← List.singleton_append, ← List.append_assoc, whole]
  rw [declaration?, cut, Text.takeWhile_run inside stop, Text.dropWhile_run inside stop,
    List.append_assoc, whole]

theorem markup?_declaration {raw : Text} (h : isDeclaration raw) (rest : Text) :
    ∃ t, raw = '<' :: t ∧ markup? (t ++ rest) = some ⟨.declaration raw, [], rest⟩ := by
  unfold isDeclaration at h
  split at h
  · rename_i c t
    obtain ⟨letter, ends⟩ := by simpa only [Bool.and_eq_true, beq_iff_eq] using h
    refine ⟨'!' :: c :: t, rfl, ?_⟩
    have hc : c ≠ '-' ∧ c ≠ '>' := by
      constructor <;> rintro rfl <;> exact absurd letter (by decide)
    have ends' : (c :: t).dropWhile (· != '>') = ['>'] := by
      rw [List.dropWhile_cons_of_pos, ends]
      exact bne_iff_ne.mpr hc.2
    show markup? ('!' :: c :: (t ++ rest)) = _
    rw [markup?, if_pos letter]
    · exact declaration?_append ends' ['<', '!'] rest
    · rintro r rfl
      exact absurd rfl hc.1
  · rename_i t
    exact ⟨'?' :: t, rfl, declaration?_append (by simpa using h) ['<', '?'] rest⟩
  · exact absurd h (by decide)

/-- A name that a letter begins stands at the front, or there is none. -/
theorem isAlpha_takeWhile {t : Text} : (t.takeWhile isNameChar).head?.any Char.isAlpha
    = t.head?.any Char.isAlpha := by
  have name (c : Char) (h : c.isAlpha) : isNameChar c := by
    simp [isNameChar, Char.isAlphanum, h]
  cases t with
  | nil => rfl
  | cons c t =>
    rw [List.head?_takeWhile, List.head?_cons, Option.filter_some]
    split
    · rfl
    · rename_i other
      have letter : c.isAlpha = false := by
        by_contra h
        exact other (name c (by simpa using h))
      simp [letter]

theorem startTag?_eq_none_iff {t : Text} :
    startTag? t = none ↔ t.head?.any Char.isAlpha = false := by
  rw [← isAlpha_takeWhile]
  unfold startTag?
  split
  · rename_i none_left
    simp [none_left]
  · rename_i c run name
    rw [name]
    by_cases letter : c.isAlpha
    · dsimp only
      rw [if_pos letter]
      split <;> simp [letter]
    · simp [letter]

/-- Where the character after a `<` opens nothing, the `<` is text. -/
theorem markup?_eq_none {t : Text}
    (h : ∀ c ∈ t.head?, ¬(c.isAlpha || c == '/' || c == '!' || c == '?')) : markup? t = none := by
  unfold markup?
  split
  · exact absurd (h '!' rfl) (by decide)
  · exact absurd (h '!' rfl) (by decide)
  · exact absurd (h '?' rfl) (by decide)
  · exact absurd (h '/' rfl) (by decide)
  · rw [startTag?_eq_none_iff, Option.any_eq_false]
    intro c hc
    have opens := h c hc
    simp only [Bool.or_eq_true, not_or] at opens
    simpa using opens.1.1.1

/-! ### Sources -/

theorem prependText_append (a b : Text) (ts : List Token) :
    prependText (a ++ b) ts = prependText a (prependText b ts) := by
  cases a with
  | nil => rfl
  | cons c a =>
    cases b with
    | nil =>
      rw [List.append_nil]
      rfl
    | cons d b =>
      cases ts with
      | nil => simp [prependText]
      | cons token ts => cases token <;> simp [prependText]

theorem scan_nil : scan [] = [] := by rw [scan]

theorem scan_of_markup? {t : Text} {l : Lexeme} (h : markup? t = some l) :
    scan ('<' :: t) = l.token :: prependText l.raw (scan l.rest) := by
  rw [scan]
  split <;> simp_all

theorem scan_of_markup?_eq_none {t : Text} (h : markup? t = none) :
    scan ('<' :: t) = prependText ['<'] (scan t) := by
  rw [scan]
  split <;> simp_all

theorem scan_cons {c : Char} (h : c ≠ '<') (t : Text) :
    scan (c :: t) = prependText [c] (scan t) := by
  rw [scan]
  exact h

/-! ### Texts that stay texts -/

/-- No `<` of a text opens anything, where the rest follows it. -/
def StaysText (content rest : Text) : Prop :=
  ∀ tail, '<' :: tail <:+ content → markup? (tail ++ rest) = none

theorem staysText_nil (rest : Text) : StaysText [] rest := by
  intro tail found
  simp at found

theorem StaysText.cons {c : Char} {content rest : Text} (h : StaysText content rest)
    (hc : c = '<' → markup? (content ++ rest) = none) : StaysText (c :: content) rest := by
  intro tail found
  rcases List.suffix_cons_iff.mp found with he | later
  · obtain ⟨rfl, rfl⟩ := List.cons.inj he
    exact hc rfl
  · exact h tail later

theorem StaysText.append {a content rest : Text} (ha : '<' ∉ a) (h : StaysText content rest) :
    StaysText (a ++ content) rest := by
  induction a with
  | nil => exact h
  | cons c a ih =>
    obtain ⟨hc, later⟩ : '<' ≠ c ∧ '<' ∉ a := by simpa using ha
    exact (ih later).cons fun he => absurd he.symm hc

theorem StaysText.of_suffix {content t rest : Text} (h : StaysText content rest)
    (ht : t <:+ content) : StaysText t rest :=
  fun tail found => h tail (found.trans ht)

theorem StaysText.scan_append {content rest : Text} (h : StaysText content rest) :
    scan (content ++ rest) = prependText content (scan rest) := by
  induction content with
  | nil => rfl
  | cons c content ih =>
    have later := ih (h.of_suffix (List.suffix_cons c content))
    have split : prependText (c :: content) (scan rest)
        = prependText [c] (prependText content (scan rest)) :=
      prependText_append [c] content (scan rest)
    by_cases hc : c = '<'
    · subst hc
      rw [List.cons_append, scan_of_markup?_eq_none (h content (List.suffix_refl _)), later, split]
    · rw [List.cons_append, scan_cons hc, later, split]

/-! ### What stands after a text -/

/-- The source begins with markup: a token, the raw text that its element holds, and the
source after both. -/
def Begins (source : Text) (token : Token) (raw rest : Text) : Prop :=
  ∃ t, source = '<' :: t ∧ markup? t = some ⟨token, raw, rest⟩

theorem Begins.scan_eq {source raw rest : Text} {token : Token}
    (h : Begins source token raw rest) : scan source = token :: prependText raw (scan rest) := by
  obtain ⟨t, rfl, found⟩ := h
  exact scan_of_markup? found

def isText : Token → Bool
  | text _ => true
  | _ => false

/-- What may stand after a text: nothing, or markup. -/
def IsBoundary (s : Text) : Prop :=
  s = [] ∨ ∃ token raw rest, Begins s token raw rest ∧ token.isText = false

theorem Begins.isBoundary {source raw rest : Text} {token : Token}
    (h : Begins source token raw rest) (ht : token.isText = false) : IsBoundary source :=
  .inr ⟨token, raw, rest, h, ht⟩

theorem begins_startTag {tag : Tag} (h : tag.IsWellFormed) (rest : Text) :
    Begins (tag.print ++ rest) (.startTag tag false) (cutRaw tag rest).1 (cutRaw tag rest).2 := by
  refine ⟨tag.name ++ (tag.attributes.flatMap (·.print) ++ '>' :: rest), ?_,
    markup?_startTag h rest⟩
  simp [Tag.print]

theorem begins_endTag {tag : Tag} (h : isTagName tag.name) (rest : Text) :
    Begins (tag.printEnd ++ rest) (.endTag tag.name) [] rest := by
  refine ⟨'/' :: (tag.name ++ '>' :: rest), ?_, markup?_endTag h rest⟩
  simp [Tag.printEnd]

theorem begins_comment {body : Text} (h : ¬commentEnd <:+: body) (rest : Text) :
    Begins (['<', '!', '-', '-'] ++ body ++ commentEnd ++ rest) (.comment body) [] rest := by
  refine ⟨'!' :: '-' :: '-' :: (body ++ (commentEnd ++ rest)), ?_, markup?_comment h rest⟩
  simp

theorem begins_declaration {raw : Text} (h : isDeclaration raw) (rest : Text) :
    Begins (raw ++ rest) (.declaration raw) [] rest := by
  obtain ⟨t, rfl, found⟩ := markup?_declaration h rest
  exact ⟨t ++ rest, rfl, found⟩

theorem staysText_of_opensNoMarkup {content s : Text} (h : content.opensNoMarkup)
    (hs : IsBoundary s) : StaysText content s := by
  have next : ∀ c ∈ s.head?, c = '<' := by
    obtain rfl | ⟨-, -, -, ⟨t, rfl, -⟩, -⟩ := hs <;> simp
  induction content with
  | nil => exact staysText_nil s
  | cons c content ih =>
    by_cases hc : c = '<'
    · subst hc
      -- What follows a `<` is the next character of the text, or the `<` of the markup after it.
      have plain : markup? (content ++ s) = none := by
        apply markup?_eq_none
        intro d hd
        cases content with
        | nil =>
          obtain rfl := next d hd
          decide
        | cons e content =>
          obtain rfl : e = d := by simpa using hd
          simp only [Text.opensNoMarkup, Bool.and_eq_true, Bool.not_eq_true'] at h
          simp [h.1]
      have later : Text.opensNoMarkup content := by
        cases content with
        | nil => rfl
        | cons e content =>
          simp only [Text.opensNoMarkup, Bool.and_eq_true] at h
          exact h.2
      exact (ih later).cons fun _ => plain
    · have later : Text.opensNoMarkup content := by
        simpa [Text.opensNoMarkup, hc] using h
      exact (ih later).cons fun he => absurd he hc

theorem scan_text {content s : Text} (h : content.opensNoMarkup) (hs : IsBoundary s) :
    scan (content ++ s) = prependText content (scan s) :=
  (staysText_of_opensNoMarkup h hs).scan_append

theorem prependText_scan {content s : Text} (hn : content ≠ []) (hs : IsBoundary s) :
    prependText content (scan s) = .text content :: scan s := by
  obtain ⟨c, content, rfl⟩ := List.exists_cons_of_ne_nil hn
  obtain rfl | ⟨token, raw, rest, begins, ht⟩ := hs
  · rw [scan_nil]
    rfl
  · rw [begins.scan_eq]
    cases token with
    | text d => simp [isText] at ht
    | _ => rfl

end HtmlTemplate.Token
