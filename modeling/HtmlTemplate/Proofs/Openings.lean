import HtmlTemplate.Proofs.Scanning

/-!
# Openings

Whether a `<` is markup or text depends on what stands after it. Main results: what follows
the part after a `<` matters only where that part is unfinished or begins a declaration, and
the first token of a source, where it is a text, ends where that source may be cut.
-/
namespace HtmlTemplate.Token

/-- The beginning of a declaration, less its `<`. -/
def opensDeclaration : Text → Bool
  | '!' :: c :: _ => c.isAlpha
  | '?' :: _ => true
  | _ => false

/-- What may stand after a `<` without opening anything, and open something once more follows:
nothing, the beginning of `!--`, or an end tag that is not closed yet. -/
def isUnfinished : Text → Bool
  | [] | ['!'] | ['!', '-'] => true
  | '/' :: t => t.head?.all Char.isAlpha && (t.dropWhile isNameChar).all isBlank
  | _ => false

/-! ### What opens nothing -/

theorem endTag?_eq_none_iff {t : Text} : endTag? t = none ↔
    (t.head?.any Char.isAlpha = false ∨
      ((t.dropWhile isNameChar).dropWhile isBlank).head? ≠ some '>') := by
  rw [← isAlpha_takeWhile]
  unfold endTag?
  split
  · rename_i c run rest name closed
    simp [name, closed]
  · rename_i unclosed
    cases name : t.takeWhile isNameChar with
    | nil => simp
    | cons c run =>
      refine iff_of_true rfl (.inr ?_)
      intro closed
      obtain ⟨rest, he⟩ := List.head?_eq_some_iff.mp closed
      exact unclosed c run rest name he

theorem declaration?_eq_none_iff {opening t : Text} : declaration? opening t = none ↔ '>' ∉ t := by
  have all : t.dropWhile (· != '>') = [] ↔ '>' ∉ t := by
    rw [List.dropWhile_eq_nil_iff]
    simp only [bne_iff_ne, ne_eq]
    exact ⟨fun h hm => h '>' hm rfl, fun h c hc he => h (he ▸ hc)⟩
  rw [← all]
  unfold declaration?
  split <;> simp_all

theorem markup?_declaration_eq_none_iff {t : Text} (h : opensDeclaration t) :
    markup? t = none ↔ '>' ∉ t := by
  unfold opensDeclaration at h
  split at h
  · rename_i c t
    have hc : c ≠ '-' := by
      rintro rfl
      exact absurd h (by decide)
    rw [markup?, if_pos h, declaration?_eq_none_iff]
    · simp
    · rintro r rfl
      exact absurd rfl hc
  · rw [markup?, declaration?_eq_none_iff]
    simp
  · exact absurd h (by decide)

theorem opensDeclaration_append {u : Text} (h : opensDeclaration u) (v : Text) :
    opensDeclaration (u ++ v) := by
  unfold opensDeclaration at h
  split at h
  · exact h
  · rfl
  · exact absurd h (by decide)

/-- Nothing more, or the `<` of what comes next, does not finish anything. -/
theorem markup?_unfinished {u v : Text} (h : isUnfinished u) (hv : ∀ c ∈ v.head?, c = '<') :
    markup? (u ++ v) = none := by
  have stop {p : Char → Bool} (hp : p '<' = false) : ∀ c ∈ v.head?, p c = false := by
    intro c hc
    rw [hv c hc, hp]
  unfold isUnfinished at h
  split at h
  · apply markup?_eq_none
    intro c hc
    rw [hv c hc]
    decide
  · cases v with
    | nil => rfl
    | cons c v =>
      obtain rfl := hv c rfl
      rfl
  · cases v with
    | nil => rfl
    | cons c v =>
      obtain rfl := hv c rfl
      rfl
  · rename_i t
    have blank := List.all_eq_true.mp (Bool.and_eq_true_iff.mp h).2
    have all : (t.dropWhile isNameChar).dropWhile isBlank = [] :=
      List.dropWhile_eq_nil_iff.mpr blank
    show endTag? (t ++ v) = none
    rw [endTag?_eq_none_iff, Text.dropWhile_append_stop (stop (by decide)),
      Text.dropWhile_append_stop (stop (by decide)), all, List.nil_append]
    right
    intro close
    exact absurd (hv '>' close) (by decide)
  · exact absurd h (by decide)

theorem markup?_bang {t : Text} (h : opensDeclaration ('!' :: t) = false) :
    markup? ('!' :: t) = none ↔ ¬['-', '-'] <+: t := by
  by_cases comment : ['-', '-'] <+: t
  · obtain ⟨body, rfl⟩ := comment
    exact iff_of_false (by simp [markup?]) (by simp)
  · refine iff_of_true ?_ comment
    cases t with
    | nil => rfl
    | cons c t =>
      have letter : c.isAlpha = false := h
      rw [markup?, if_neg (by simp [letter])]
      rintro body rfl rfl
      exact comment ⟨body, rfl⟩

/-- Once it is neither unfinished nor the beginning of a declaration, what stands after a `<`
opens something or not whatever follows. -/
theorem markup?_finished {u s : Text} (h : markup? (u ++ s) = none)
    (hu : isUnfinished u = false) (hd : opensDeclaration u = false) (v : Text) :
    markup? (u ++ v) = none := by
  cases u with
  | nil => exact absurd hu (by decide)
  | cons c t =>
    by_cases bang : c = '!'
    · subst bang
      cases t with
      | nil => exact absurd hu (by decide)
      | cons d t =>
        have other (x : Text) : opensDeclaration ('!' :: (d :: t ++ x)) = false := hd
        rw [List.cons_append, markup?_bang (other _)] at h ⊢
        by_cases dash : d = '-'
        · subst dash
          cases t with
          | nil => exact absurd hu (by decide)
          | cons e t => simpa using h
        · intro found
          exact dash (List.cons_prefix_cons.mp found).1.symm
    by_cases question : c = '?'
    · subst question
      exact absurd hd (by simp [opensDeclaration])
    by_cases slash : c = '/'
    · subst slash
      have opened : endTag? (t ++ s) = none := h
      show endTag? (t ++ v) = none
      rw [endTag?_eq_none_iff] at opened ⊢
      cases t with
      | nil => exact absurd hu (by decide)
      | cons d t =>
        by_cases letter : d.isAlpha
        · have solid : ((d :: t).dropWhile isNameChar).dropWhile isBlank ≠ [] := by
            simpa [isUnfinished, letter, ← List.all_eq_true] using hu
          have named : (d :: t).dropWhile isNameChar ≠ [] := by
            intro none_left
            exact solid (by rw [none_left]; rfl)
          rw [Text.dropWhile_append_ne_nil named, Text.dropWhile_append_ne_nil solid,
            List.head?_append_of_ne_nil _ solid] at opened ⊢
          simpa [letter] using opened
        · exact .inl (by simpa using letter)
    · rw [List.cons_append, markup?_name bang question slash, startTag?_eq_none_iff] at h ⊢
      exact h

/-- What follows the part after a `<` matters only where that part is unfinished or begins a
declaration. -/
theorem markup?_append_eq_none {u s v : Text} (h : markup? (u ++ s) = none)
    (unfinished : isUnfinished u → ∀ c ∈ v.head?, c = '<')
    (declares : opensDeclaration u → '>' ∉ v) : markup? (u ++ v) = none := by
  by_cases hd : opensDeclaration u
  · rw [markup?_declaration_eq_none_iff (opensDeclaration_append hd _), List.mem_append,
      not_or] at h ⊢
    exact ⟨h.1, declares hd⟩
  by_cases hu : isUnfinished u
  · exact markup?_unfinished hu (unfinished hu)
  · exact markup?_finished h (by simpa using hu) (by simpa using hd) v

/-! ### Sources cut after a token -/

/-- The start tag of a script or style element that is not closed at once. -/
def opensRaw : Token → Bool
  | startTag tag isClosed => !isClosed && tag.holdsRawText
  | _ => false

/-- The raw text that the element of a token holds, and what follows it. -/
def cutAfter : Token → Text → Text × Text
  | startTag tag false, t => cutRaw tag t
  | _, t => ([], t)

theorem cutAfter_of_not {token : Token} (h : token.opensRaw = false) (t : Text) :
    token.cutAfter t = ([], t) := by
  unfold cutAfter
  split
  · rename_i tag
    have other : tag.holdsRawText = false := h
    exact cutRaw_of_not (by simp [other]) t
  · rfl

/-- Markup is a token that is not a text, then the raw text that its element holds. -/
def Lexeme.IsCut (l : Lexeme) : Prop :=
  l.token.isText = false ∧ ∃ r, l.token.cutAfter r = (l.raw, l.rest)

theorem isCut_startTag? {t : Text} {l : Lexeme} (h : startTag? t = some l) : l.IsCut := by
  unfold startTag? at h
  split at h
  · simp at h
  · rename_i c run _
    dsimp only at h
    split at h
    · split at h
      · rename_i raw
        obtain rfl := by simpa using h
        obtain ⟨isOpen, raw⟩ := Bool.and_eq_true_iff.mp raw
        refine ⟨rfl, (readAttributes (t.dropWhile isNameChar)).rest, ?_⟩
        simp only [Bool.not_eq_true'] at isOpen
        rw [isOpen]
        exact if_pos raw
      · rename_i other
        obtain rfl := by simpa using h
        refine ⟨rfl, (readAttributes (t.dropWhile isNameChar)).rest, ?_⟩
        apply cutAfter_of_not
        simpa only [opensRaw, Tag.holdsRawText, Bool.not_eq_true] using other
    · simp at h

theorem isCut_endTag? {t : Text} {l : Lexeme} (h : endTag? t = some l) : l.IsCut := by
  unfold endTag? at h
  split at h
  · rename_i c run rest _ _
    split at h
    · obtain rfl := by simpa using h
      exact ⟨rfl, rest, rfl⟩
    · simp at h
  · simp at h

theorem isCut_declaration? {opening t : Text} {l : Lexeme} (h : declaration? opening t = some l) :
    l.IsCut := by
  unfold declaration? at h
  split at h
  · simp at h
  · rename_i rest _
    obtain rfl := by simpa using h
    exact ⟨rfl, rest, rfl⟩

theorem isCut_commentOf (t : Text) : (commentOf t).IsCut := by
  unfold commentOf
  split
  · rename_i rest _
    exact ⟨rfl, rest, rfl⟩
  · exact ⟨rfl, [], rfl⟩

theorem isCut_markup? {t : Text} {l : Lexeme} (h : markup? t = some l) : l.IsCut := by
  unfold markup? at h
  split at h
  · obtain rfl := by simpa using h
    exact isCut_commentOf _
  · split at h
    · exact isCut_declaration? h
    · simp at h
  · exact isCut_declaration? h
  · exact isCut_endTag? h
  · exact isCut_startTag? h

theorem Lexeme.IsCut.raw_eq_nil {l : Lexeme} (h : l.IsCut) (other : l.token.opensRaw = false) :
    l.raw = [] := by
  obtain ⟨-, r, cut⟩ := h
  rw [cutAfter_of_not other] at cut
  exact (Prod.mk.inj cut).1.symm

/-- Tokens that a text was put in front of begin with a text. -/
theorem prependText_eq_cons {a : Text} {ts us : List Token} {token : Token} (ha : a ≠ [])
    (h : prependText a ts = token :: us) :
    ts = us ∧ token = .text a ∨ ∃ b, ts = .text b :: us ∧ token = .text (a ++ b) := by
  obtain ⟨c, a, rfl⟩ := List.exists_cons_of_ne_nil ha
  cases ts with
  | nil => simp_all [prependText]
  | cons t ts => cases t <;> simp_all [prependText]

/-- A text that a source begins with ends where the source may be cut. -/
theorem exists_rest_of_scan {source content : Text} {after : List Token}
    (h : scan source = .text content :: after) :
    ∃ rest, source = content ++ rest ∧ scan rest = after ∧ StaysText content rest := by
  have step {c : Char} {t content : Text} (hc : c = '<' → markup? t = none)
      (ih : ∀ {content}, scan t = .text content :: after →
        ∃ rest, t = content ++ rest ∧ scan rest = after ∧ StaysText content rest)
      (h : prependText [c] (scan t) = .text content :: after) :
      ∃ rest, c :: t = content ++ rest ∧ scan rest = after ∧ StaysText content rest := by
    rcases prependText_eq_cons (List.cons_ne_nil c []) h with ⟨he, ht⟩ | ⟨b, he, ht⟩
    · obtain rfl := Token.text.inj ht
      exact ⟨t, rfl, he, (staysText_nil t).cons hc⟩
    · obtain rfl := Token.text.inj ht
      obtain ⟨rest, rfl, hr, stays⟩ := ih he
      exact ⟨rest, rfl, hr, stays.cons hc⟩
  fun_induction scan source generalizing content with
  | case1 => simp at h
  | case2 t l found _ =>
    have other := (isCut_markup? found).1
    rw [(List.cons.inj h).1] at other
    exact absurd other (by simp [isText])
  | case3 t found ih => exact step (fun _ => found) ih h
  | case4 c t hc ih => exact step (fun he => absurd he hc) ih h

/-- The last token, if there is one, does not open a script or style element. -/
def endsOutsideRaw (before : List Token) : Bool := !before.getLast?.any opensRaw

theorem endsOutsideRaw_of_cons {b : Token} {before : List Token}
    (h : endsOutsideRaw (b :: before)) : endsOutsideRaw before := by
  cases before with
  | nil => rfl
  | cons d before => rwa [endsOutsideRaw, List.getLast?_cons_cons] at h

theorem endsOutsideRaw_text_cons {before : List Token} (content : Text)
    (h : endsOutsideRaw before) : endsOutsideRaw (.text content :: before) := by
  cases before with
  | nil => rfl
  | cons d before => rwa [endsOutsideRaw, List.getLast?_cons_cons]

theorem exists_before_of_prependText {a : Text} {ts before after : List Token} {b token : Token}
    (ha : a ≠ []) (h : prependText a ts = b :: before ++ token :: after)
    (hb : endsOutsideRaw (b :: before)) :
    ∃ before', ts = before' ++ token :: after ∧ endsOutsideRaw before' := by
  have outside := endsOutsideRaw_of_cons hb
  rcases prependText_eq_cons ha h with ⟨he, -⟩ | ⟨d, he, -⟩
  · exact ⟨before, he, outside⟩
  · exact ⟨.text d :: before, he, endsOutsideRaw_text_cons d outside⟩

/-- The tokens from any token on are those of some source, unless a script or style element
opens right before. -/
theorem exists_scan_of_append {source : Text} {before after : List Token} {token : Token}
    (h : scan source = before ++ token :: after) (hb : endsOutsideRaw before) :
    ∃ rest, scan rest = token :: after := by
  fun_induction scan source generalizing before with
  | case1 => simp at h
  | case2 t l found ih =>
    cases before with
    | nil => exact ⟨'<' :: t, (scan_of_markup? found).trans h⟩
    | cons b before =>
      obtain ⟨rfl, he⟩ := List.cons.inj h
      by_cases raw : l.raw = []
      · rw [raw] at he
        exact ih he (endsOutsideRaw_of_cons hb)
      · cases before with
        | nil =>
          have other : l.token.opensRaw = false := by simpa [endsOutsideRaw] using hb
          exact absurd ((isCut_markup? found).raw_eq_nil other) raw
        | cons d before =>
          obtain ⟨before', he, outside⟩ :=
            exists_before_of_prependText raw he (endsOutsideRaw_of_cons hb)
          exact ih he outside
  | case3 t found ih =>
    cases before with
    | nil => exact ⟨'<' :: t, (scan_of_markup?_eq_none found).trans h⟩
    | cons b before =>
      obtain ⟨before', he, outside⟩ := exists_before_of_prependText (List.cons_ne_nil _ _) h hb
      exact ih he outside
  | case4 c t hc ih =>
    cases before with
    | nil => exact ⟨c :: t, (scan_cons hc t).trans h⟩
    | cons b before =>
      obtain ⟨before', he, outside⟩ := exists_before_of_prependText (List.cons_ne_nil _ _) h hb
      exact ih he outside

end HtmlTemplate.Token
