import HtmlTemplate.Directive
import HtmlTemplate.Proofs.Text

/-!
# Spellings of a loop header

The words of a text are its runs between blanks. Main result: a loop header is read from a text
exactly where the text spells it, and a text spells a header in at most one way.
-/
namespace HtmlTemplate

namespace Text

/-- Blanks and nothing else. -/
def IsGap (t : Text) : Prop := ∀ c ∈ t, isBlank c

instance (t : Text) : Decidable t.IsGap := List.decidableBAll _ t

/-- Some characters, none of them blank. -/
structure IsWord (t : Text) : Prop where
  ne_nil : t ≠ []
  solid : ∀ c ∈ t, isBlank c = false

/-- The text is at its end, or goes on with a blank. -/
def EndsWord (t : Text) : Prop := ∀ c ∈ t.head?, isBlank c

/-! ### Words -/

@[simp] theorem words_nil : words [] = [] := rfl

/-- A blank separates the words before it from those after it. -/
theorem words_append_cons {c : Char} (hc : isBlank c) (t u : Text) :
    words (t ++ c :: u) = words t ++ words u := by
  rw [words, List.splitOnP_append_cons t u hc, List.filter_append]
  rfl

theorem words_cons_of_isBlank {c : Char} (hc : isBlank c) (t : Text) : words (c :: t) = words t :=
  words_append_cons hc [] t

theorem IsGap.words_append {gap : Text} (h : IsGap gap) (t : Text) :
    words (gap ++ t) = words t := by
  induction gap with
  | nil => rfl
  | cons c gap ih =>
    obtain ⟨hc, hgap⟩ := List.forall_mem_cons.mp h
    rw [List.cons_append, words_cons_of_isBlank hc, ih hgap]

theorem IsWord.words_eq {word : Text} (h : IsWord word) : words word = [word] := by
  have one := List.splitOnP_eq_singleton h.solid
  simp [words, one, h.ne_nil]

theorem IsWord.words_append {word rest : Text} (h : IsWord word) (he : EndsWord rest) :
    words (word ++ rest) = word :: words rest := by
  cases rest with
  | nil => rw [List.append_nil, h.words_eq, words_nil]
  | cons c rest =>
    have hc : isBlank c := he c rfl
    rw [words_append_cons hc, h.words_eq, words_cons_of_isBlank hc, List.singleton_append]

theorem IsGap.endsWord_append {gap : Text} (h : IsGap gap) (some_left : gap ≠ []) (t : Text) :
    EndsWord (gap ++ t) := by
  cases gap with
  | nil => exact absurd rfl some_left
  | cons c gap =>
    intro d hd
    obtain rfl : c = d := by simpa using hd
    exact h c List.mem_cons_self

/-- A text is a gap, or it has a first word after one. -/
theorem isGap_or_exists_word (t : Text) :
    IsGap t ∨ ∃ gap word rest, t = gap ++ (word ++ rest) ∧ IsGap gap ∧ IsWord word ∧
      EndsWord rest := by
  have whole := List.takeWhile_append_dropWhile (p := isBlank) (l := t)
  have gap_ok : IsGap (t.takeWhile isBlank) := fun c hc => of_mem_takeWhile hc
  cases hd : t.dropWhile isBlank with
  | nil =>
    rw [hd, List.append_nil] at whole
    exact .inl (whole ▸ gap_ok)
  | cons c later =>
    right
    have first : isBlank c = false := by
      have stop := List.head?_dropWhile_not isBlank t
      rw [hd] at stop
      exact stop
    have cut := List.takeWhile_append_dropWhile (p := (!isBlank ·)) (l := c :: later)
    refine ⟨t.takeWhile isBlank, (c :: later).takeWhile (!isBlank ·),
      (c :: later).dropWhile (!isBlank ·), ?_, gap_ok, ⟨?_, ?_⟩, ?_⟩
    · rw [cut, ← hd, whole]
    · rw [List.takeWhile_cons_of_pos (by simp [first])]
      exact List.cons_ne_nil _ _
    · intro d hm
      simpa using of_mem_takeWhile hm
    · intro d hm
      have stop := List.head?_dropWhile_not (!isBlank ·) (c :: later)
      rw [Option.mem_def.mp hm] at stop
      simpa using stop

theorem isGap_of_words_eq_nil {t : Text} (h : words t = []) : IsGap t := by
  rcases isGap_or_exists_word t with gap | ⟨gap, word, rest, rfl, hgap, hword, hrest⟩
  · exact gap
  · rw [hgap.words_append, hword.words_append hrest] at h
    exact absurd h (List.cons_ne_nil _ _)

theorem exists_of_words_eq_cons {t word : Text} {others : List Text}
    (h : words t = word :: others) :
    ∃ gap rest, t = gap ++ (word ++ rest) ∧ IsGap gap ∧ IsWord word ∧ EndsWord rest ∧
      words rest = others := by
  rcases isGap_or_exists_word t with gap | ⟨gap, first, rest, rfl, hgap, hfirst, hrest⟩
  · have none_left := gap.words_append []
    rw [List.append_nil, h] at none_left
    exact absurd none_left (List.cons_ne_nil _ _)
  · rw [hgap.words_append, hfirst.words_append hrest] at h
    obtain ⟨rfl, rfl⟩ := List.cons.inj h
    exact ⟨gap, rest, rfl, hgap, hfirst, hrest, rfl⟩

/-- What follows a word begins with a gap that is not empty, if there is a word after it. -/
theorem EndsWord.gap_ne_nil {gap word rest : Text} (h : EndsWord (gap ++ (word ++ rest)))
    (hw : IsWord word) : gap ≠ [] := by
  rintro rfl
  obtain ⟨c, word', rfl⟩ := List.exists_cons_of_ne_nil hw.ne_nil
  have blank : isBlank c := h c rfl
  rw [hw.solid c List.mem_cons_self] at blank
  exact absurd blank (by decide)

/-! ### Where runs of two kinds meet -/

/-- A gap ends where it ends, whatever it is compared with. -/
theorem IsGap.append_inj {gap gap' t t' : Text} (h : IsGap gap) (h' : IsGap gap')
    (ht : ∀ c ∈ t.head?, isBlank c = false) (ht' : ∀ c ∈ t'.head?, isBlank c = false)
    (same : gap ++ t = gap' ++ t') : gap = gap' ∧ t = t' := by
  constructor
  · rw [← takeWhile_run h ht, same, takeWhile_run h' ht']
  · rw [← dropWhile_run h ht, same, dropWhile_run h' ht']

theorem IsWord.append_inj {word word' t t' : Text} (h : IsWord word) (h' : IsWord word')
    (ht : EndsWord t) (ht' : EndsWord t') (same : word ++ t = word' ++ t') :
    word = word' ∧ t = t' := by
  have solid {w : Text} (hw : IsWord w) : ∀ c ∈ w, (!isBlank c) = true := fun c hc => by
    simp [hw.solid c hc]
  have stop {u : Text} (hu : EndsWord u) : ∀ c ∈ u.head?, (!isBlank c) = false := fun c hc => by
    simp [hu c hc]
  constructor
  · rw [← takeWhile_run (solid h) (stop ht), same, takeWhile_run (solid h') (stop ht')]
  · rw [← dropWhile_run (solid h) (stop ht), same, dropWhile_run (solid h') (stop ht')]

theorem IsWord.head?_append {word : Text} (h : IsWord word) (t : Text) :
    ∀ c ∈ (word ++ t).head?, isBlank c = false := by
  obtain ⟨c, word', rfl⟩ := List.exists_cons_of_ne_nil h.ne_nil
  intro d hd
  obtain rfl : c = d := by simpa using hd
  exact h.solid c List.mem_cons_self

/-- A gap with a word behind it: both end in the same places in every spelling of the text. -/
theorem IsGap.append_word_inj {gap gap' word word' t t' : Text} (h : IsGap gap) (h' : IsGap gap')
    (hw : IsWord word) (hw' : IsWord word') (ht : EndsWord t) (ht' : EndsWord t')
    (same : gap ++ (word ++ t) = gap' ++ (word' ++ t')) : gap = gap' ∧ word = word' ∧ t = t' := by
  obtain ⟨gaps, rest⟩ := h.append_inj h' (hw.head?_append t) (hw'.head?_append t') same
  exact ⟨gaps, hw.append_inj hw' ht ht' rest⟩

/-! ### Letters and blanks -/

/-- The ranges of the blanks. -/
def blankRanges : List (Nat × Nat) := [(0x9, 0xD), (0x20, 0x20), (0x85, 0x85), (0xA0, 0xA0),
  (0x1680, 0x1680), (0x2000, 0x200A), (0x2028, 0x2029), (0x202F, 0x202F), (0x205F, 0x205F),
  (0x3000, 0x3000)]

/-- The ranges of the letters and numbers. -/
def alphanumericRanges : List (Nat × Nat) :=
  lowBlocks ++ middleBlocks ++ highBlocks ++ ancientScripts ++ otherPlanes

theorem exists_range_of_isBlank {c : Char} (h : isBlank c) :
    ∃ r ∈ blankRanges, r.1 ≤ c.toNat ∧ c.toNat ≤ r.2 := by
  have inside : blankRanges.any (fun r => r.1 ≤ c.toNat && c.toNat ≤ r.2) := by
    simp only [isBlank, Bool.or_eq_true, Bool.and_eq_true, decide_eq_true_eq, beq_iff_eq] at h
    simp only [blankRanges, List.any_cons, List.any_nil, Bool.or_eq_true, Bool.and_eq_true,
      decide_eq_true_eq]
    omega
  simpa using inside

theorem exists_range_of_isAlphanumeric {c : Char} (h : isAlphanumeric c) :
    ∃ r ∈ alphanumericRanges, r.1 ≤ c.toNat ∧ c.toNat ≤ r.2 := by
  have inside : alphanumericRanges.any (fun r => r.1 ≤ c.toNat && c.toNat ≤ r.2) := by
    simp only [alphanumericRanges, List.any_append]
    exact h
  simpa using inside

theorem ranges_apart : ∀ r ∈ blankRanges, ∀ r' ∈ alphanumericRanges, r.2 < r'.1 ∨ r'.2 < r.1 := by
  decide +kernel

/-- No letter and no number of any script is a blank. -/
theorem isAlphanumeric_of_isBlank {c : Char} (h : isBlank c) : isAlphanumeric c = false := by
  rw [Bool.eq_false_iff]
  intro letter
  obtain ⟨r, hr, from_r, to_r⟩ := exists_range_of_isBlank h
  obtain ⟨r', hr', from_r', to_r'⟩ := exists_range_of_isAlphanumeric letter
  have := ranges_apart r hr r' hr'
  omega

end Text

namespace LoopHeader

/-- The characters of a name. -/
def IsNameChar (c : Char) : Prop := Text.isAlphanumeric c ∨ c = '_'

instance : DecidablePred IsNameChar := fun _ => inferInstanceAs (Decidable (_ ∨ _))

def IsName (t : Text) : Prop := t ≠ [] ∧ ∀ c ∈ t, IsNameChar c

/-- Names with points among their characters, in any number and place. -/
def IsPath (t : Text) : Prop := t ≠ [] ∧ ∀ c ∈ t, IsNameChar c ∨ c = '.'

instance (t : Text) : Decidable (IsName t) :=
  have := List.decidableBAll IsNameChar t
  inferInstanceAs (Decidable (_ ∧ _))

instance (t : Text) : Decidable (IsPath t) :=
  have := List.decidableBAll (fun c => IsNameChar c ∨ c = '.') t
  inferInstanceAs (Decidable (_ ∧ _))

theorem isWordChar_iff {c : Char} : isWordChar c ↔ IsNameChar c := by
  simp [isWordChar, IsNameChar]

theorem isPathChar_iff {c : Char} : isPathChar c ↔ IsNameChar c ∨ c = '.' := by
  simp [isPathChar, isWordChar_iff]

theorem isBlank_of_isNameChar {c : Char} (h : IsNameChar c) : Text.isBlank c = false := by
  rcases h with letter | rfl
  · by_contra blank
    rw [Bool.not_eq_false] at blank
    rw [Text.isAlphanumeric_of_isBlank blank] at letter
    exact absurd letter (by decide)
  · decide

theorem IsPath.isWord {t : Text} (h : IsPath t) : t.IsWord := by
  refine ⟨h.1, ?_⟩
  intro c hc
  rcases h.2 c hc with name | rfl
  · exact isBlank_of_isNameChar name
  · decide

theorem IsName.isWord {t : Text} (h : IsName t) : t.IsWord :=
  IsPath.isWord ⟨h.1, fun c hc => .inl (h.2 c hc)⟩

/-- The parts of a text that spells a loop header: a name, the word `in` and a path, with blanks
between them and perhaps around them. -/
@[ext] structure Spelling where
  before : Text
  name : Text
  afterName : Text
  beforeSource : Text
  source : Text
  after : Text
  before_isGap : before.IsGap
  name_isName : IsName name
  afterName_ne_nil : afterName ≠ []
  afterName_isGap : afterName.IsGap
  beforeSource_ne_nil : beforeSource ≠ []
  beforeSource_isGap : beforeSource.IsGap
  source_isPath : IsPath source
  after_isGap : after.IsGap

namespace Spelling

/-- The text that is spelled. -/
def text (s : Spelling) : Text :=
  s.before ++ (s.name ++ (s.afterName ++ ("in".toList ++ (s.beforeSource ++ (s.source ++ s.after)))))

/-- The header that the text spells. -/
def header (s : Spelling) : LoopHeader := ⟨s.name, s.source⟩

theorem name_isWord (s : Spelling) : s.name.IsWord := s.name_isName.isWord

theorem source_isWord (s : Spelling) : s.source.IsWord := s.source_isPath.isWord

theorem isWord_keyword : Text.IsWord "in".toList :=
  IsName.isWord (by decide +kernel)

theorem after_endsWord (s : Spelling) : s.after.EndsWord := fun c hc =>
  s.after_isGap c (List.mem_of_mem_head? hc)

/-- A spelled header has three words. -/
theorem words_text (s : Spelling) : s.text.words = [s.name, "in".toList, s.source] := by
  have none_after : s.after.words = [] := by
    simpa using s.after_isGap.words_append []
  rw [text, s.before_isGap.words_append,
    s.name_isWord.words_append (s.afterName_isGap.endsWord_append s.afterName_ne_nil _),
    s.afterName_isGap.words_append,
    isWord_keyword.words_append (s.beforeSource_isGap.endsWord_append s.beforeSource_ne_nil _),
    s.beforeSource_isGap.words_append, s.source_isWord.words_append s.after_endsWord, none_after]

theorem read?_text (s : Spelling) : read? s.text = some s.header := by
  have name_ok : s.name.all isWordChar :=
    List.all_eq_true.mpr fun c hc => isWordChar_iff.mpr (s.name_isName.2 c hc)
  have source_ok : s.source.all isPathChar :=
    List.all_eq_true.mpr fun c hc => isPathChar_iff.mpr (s.source_isPath.2 c hc)
  rw [read?, s.words_text]
  exact if_pos ⟨rfl, name_ok, source_ok⟩

/-- Each part ends where the next one begins, so the parts are those of the text. -/
theorem eq_of_text_eq {s s' : Spelling} (same : s.text = s'.text) : s = s' := by
  have after_name (s : Spelling) :=
    s.afterName_isGap.endsWord_append s.afterName_ne_nil
      ("in".toList ++ (s.beforeSource ++ (s.source ++ s.after)))
  have after_keyword (s : Spelling) :=
    s.beforeSource_isGap.endsWord_append s.beforeSource_ne_nil (s.source ++ s.after)
  obtain ⟨before, name, same⟩ := s.before_isGap.append_word_inj s'.before_isGap s.name_isWord
    s'.name_isWord (after_name s) (after_name s') same
  obtain ⟨afterName, -, same⟩ := s.afterName_isGap.append_word_inj s'.afterName_isGap
    isWord_keyword isWord_keyword (after_keyword s) (after_keyword s') same
  obtain ⟨beforeSource, source, after⟩ := s.beforeSource_isGap.append_word_inj
    s'.beforeSource_isGap s.source_isWord s'.source_isWord s.after_endsWord s'.after_endsWord same
  exact Spelling.ext before name afterName beforeSource source after

end Spelling

/-- What is read as a header has the three parts of one, in the places of its words. -/
theorem exists_spelling_of_read? {expression : Text} {header : LoopHeader}
    (h : read? expression = some header) :
    ∃ s : Spelling, s.header = header ∧ s.text = expression := by
  unfold read? at h
  split at h
  · rename_i name keyword source words
    split at h
    · rename_i checked
      obtain rfl := Option.some.inj h
      obtain ⟨rfl, name_ok, source_ok⟩ := checked
      obtain ⟨before, rest, rfl, hbefore, hname, hrest, words⟩ := Text.exists_of_words_eq_cons words
      obtain ⟨afterName, rest, rfl, hafterName, hkeyword, hrest', words⟩ :=
        Text.exists_of_words_eq_cons words
      obtain ⟨beforeSource, after, rfl, hbeforeSource, hsource, -, words⟩ :=
        Text.exists_of_words_eq_cons words
      exact ⟨{
        before, name, afterName, beforeSource, source, after
        before_isGap := hbefore
        name_isName :=
          ⟨hname.ne_nil, fun c hc => isWordChar_iff.mp (List.all_eq_true.mp name_ok c hc)⟩
        afterName_ne_nil := hrest.gap_ne_nil hkeyword
        afterName_isGap := hafterName
        beforeSource_ne_nil := hrest'.gap_ne_nil hsource
        beforeSource_isGap := hbeforeSource
        source_isPath :=
          ⟨hsource.ne_nil, fun c hc => isPathChar_iff.mp (List.all_eq_true.mp source_ok c hc)⟩
        after_isGap := Text.isGap_of_words_eq_nil words }, rfl, rfl⟩
    · simp at h
  · simp at h

/-- A loop header is read from an expression exactly where the expression spells it: blanks or
none, a name of letters, numbers and underscores, blanks, the word `in`, blanks, a path that may
have points too, and blanks or none. An expression spells a header in at most one way. -/
theorem headers_are_read_as_spelled (expression : Text) :
    (∀ header, read? expression = some header ↔
      ∃ s : Spelling, s.header = header ∧ s.text = expression) ∧
    ∀ s s' : Spelling, s.text = expression → s'.text = expression → s = s' := by
  constructor
  · intro header
    constructor
    · exact exists_spelling_of_read?
    · rintro ⟨s, rfl, rfl⟩
      exact s.read?_text
  · intro s s' hs hs'
    exact Spelling.eq_of_text_eq (hs.trans hs'.symm)

/-- Three times the word `in`, between blanks of several kinds: the one in the middle is the
keyword in every spelling. -/
theorem keyword_as_name_and_path_is_read :
    let expression : Text := "in\u2003in\u00a0\u2028in\n".toList
    ∃ s : Spelling, s.text = expression ∧ s.after = ['\n'] ∧
      read? expression = some ⟨"in".toList, "in".toList⟩ ∧
      ∀ s' : Spelling, s'.text = expression → s' = s := by
  intro expression
  let s : Spelling := {
    before := [], name := "in".toList, afterName := "\u2003".toList
    beforeSource := "\u00a0\u2028".toList, source := "in".toList, after := ['\n']
    before_isGap := by decide
    name_isName := by decide +kernel
    afterName_ne_nil := by decide
    afterName_isGap := by decide +kernel
    beforeSource_ne_nil := by decide
    beforeSource_isGap := by decide +kernel
    source_isPath := by decide +kernel
    after_isGap := by decide }
  obtain ⟨reads, unique⟩ := headers_are_read_as_spelled expression
  exact ⟨s, rfl, rfl, (reads _).mpr ⟨s, rfl, rfl⟩, fun s' hs' => unique s' s hs' rfl⟩

end LoopHeader

end HtmlTemplate
