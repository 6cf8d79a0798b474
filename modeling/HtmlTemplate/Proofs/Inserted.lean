import HtmlTemplate.Proofs.Openings
import HtmlTemplate.Proofs.Plain

/-!
# Values inserted into texts

A value is encoded where it is inserted, but the template around it is not: a `<` that opens
nothing before a placeholder may open something once a value, or what stands after an empty
one, follows it. Main result: where no placeholder completes an opening, a text token with its
placeholders filled is read as that text, whatever the values are. No value holds a `>`, so an
end tag can be completed only where the template itself closes it.
-/
namespace HtmlTemplate

namespace Piece

/-- The characters before the first placeholder. -/
def leading : List Piece → Text
  | char c :: pieces => c :: leading pieces
  | _ => []

def holdsPlaceholder (pieces : List Piece) : Bool := pieces.any (·.placeholder?.isSome)

/-- The characters between the placeholders and around them. -/
def characters : List Piece → Text
  | [] => []
  | char c :: pieces => c :: characters pieces
  | hole _ :: pieces => characters pieces

/-- What stands after a `<` is no end tag, or one that the template closes: after the `/` its
characters are those of a name, then blanks, then a `>`. -/
def canClose : List Piece → Bool
  | char '/' :: pieces =>
    (((characters pieces).dropWhile Token.isNameChar).dropWhile Token.isBlank).head? == some '>'
  | _ => true

/-- A placeholder follows a `<`, and what stands between them leaves it open whether the `<`
opens a tag, a comment or a declaration. An end tag must be one that the template closes. -/
def completesOpening : List Piece → Bool
  | [] => false
  | char c :: pieces =>
    (c == '<' && holdsPlaceholder pieces && Token.isUnfinished (leading pieces) &&
        canClose pieces)
      || completesOpening pieces
  | hole _ :: pieces => completesOpening pieces

end Piece

/-- Some placeholder of the text completes an opening. -/
def Text.completesOpening (t : Text) : Bool := Piece.completesOpening (Piece.scan t)

namespace Scope

open Token (isBlank isNameChar)

variable (scope : Scope)

theorem fillEncoded_of_start? {t rest : Text} {p : Placeholder}
    (h : Placeholder.start? t = some (p, rest)) : scope.fillEncoded t
      = Text.Entity.encodeText (p.resolve scope) ++ scope.fillEncoded rest := by
  rw [fillEncoded, Text.substitute, Piece.scan_of_start? h, List.flatMap_cons]
  rfl

theorem fillEncoded_cons {c : Char} {t : Text} (h : Placeholder.start? (c :: t) = none) :
    scope.fillEncoded (c :: t) = c :: scope.fillEncoded t := by
  rw [fillEncoded, Text.substitute, Piece.scan_cons h, List.flatMap_cons]
  rfl

theorem fillEncoded_nil : scope.fillEncoded [] = [] := by
  rw [fillEncoded, Text.substitute, Piece.scan]
  rfl

/-- Filling leaves the characters before the first placeholder as they are. -/
theorem exists_rest_of_leading (t : Text) :
    ∃ rest, t = Piece.leading (Piece.scan t) ++ rest ∧
      scope.fillEncoded t = Piece.leading (Piece.scan t) ++ scope.fillEncoded rest ∧
      (Piece.holdsPlaceholder (Piece.scan t) = false → rest = []) := by
  fun_induction Piece.scan t with
  | case1 t p rest found _ =>
    refine ⟨t, rfl, rfl, ?_⟩
    intro absent
    simp [Piece.holdsPlaceholder, Piece.placeholder?] at absent
  | case2 => exact ⟨[], rfl, rfl, fun _ => rfl⟩
  | case3 c t plain ih =>
    obtain ⟨rest, whole, filled, last⟩ := ih
    refine ⟨rest, ?_, ?_, ?_⟩
    · show c :: t = c :: (Piece.leading (Piece.scan t) ++ rest)
      rw [← whole]
    · rw [scope.fillEncoded_cons plain, filled]
      rfl
    · intro absent
      apply last
      simpa [Piece.holdsPlaceholder, Piece.placeholder?] using absent

/-! ### End tags that no value closes -/

theorem head?_dropWhile_of_append {value t : Text} (hv : '>' ∉ value)
    (h : ((value ++ t).dropWhile isBlank).head? = some '>') :
    (t.dropWhile isBlank).head? = some '>' := by
  rw [List.dropWhile_append] at h
  split at h
  · exact h
  · rename_i solid
    have ne_nil : value.dropWhile isBlank ≠ [] := by simpa using solid
    rw [List.head?_append_of_ne_nil _ ne_nil] at h
    exact absurd ((List.dropWhile_sublist _).subset (List.mem_of_mem_head? h)) hv

/-- A `>` after blanks is one of the template, with nothing but blanks before it. -/
theorem head?_characters_of_blanks {t : Text}
    (h : ((scope.fillEncoded t).dropWhile isBlank).head? = some '>') :
    ((Piece.characters (Piece.scan t)).dropWhile isBlank).head? = some '>' := by
  fun_induction Piece.scan t with
  | case1 t p rest found ih =>
    rw [scope.fillEncoded_of_start? found] at h
    exact ih (head?_dropWhile_of_append (Text.Entity.greaterThan_not_mem_encodeText _) h)
  | case2 => simp [fillEncoded_nil] at h
  | case3 c t plain ih =>
    rw [scope.fillEncoded_cons plain] at h
    rw [Piece.characters]
    by_cases blank : isBlank c
    · rw [List.dropWhile_cons_of_pos blank] at h ⊢
      exact ih h
    · rw [List.dropWhile_cons_of_neg blank] at h ⊢
      exact h

theorem dropWhile_isNameChar_of_blanks {t : Text} (h : (t.dropWhile isBlank).head? = some '>') :
    t.dropWhile isNameChar = t := by
  cases t with
  | nil => rfl
  | cons c t =>
    refine List.dropWhile_cons_of_neg ?_
    by_cases blank : isBlank c
    · rcases Token.isBlank_iff.mp blank with rfl | rfl | rfl | rfl | rfl <;> decide
    · rw [List.dropWhile_cons_of_neg blank] at h
      obtain rfl := Option.some.inj h
      decide

/-- A `>` after a name and blanks is one of the template, with nothing else before it. -/
theorem head?_characters_of_name {t : Text}
    (h : (((scope.fillEncoded t).dropWhile isNameChar).dropWhile isBlank).head? = some '>') :
    (((Piece.characters (Piece.scan t)).dropWhile isNameChar).dropWhile isBlank).head?
      = some '>' := by
  fun_induction Piece.scan t with
  | case1 t p rest found ih =>
    rw [scope.fillEncoded_of_start? found, List.dropWhile_append] at h
    split at h
    · exact ih h
    · -- The value ends the name, so no character of a name may follow it.
      have outside : '>' ∉ (Text.Entity.encodeText (p.resolve scope)).dropWhile isNameChar := by
        intro close
        apply Text.Entity.greaterThan_not_mem_encodeText (p.resolve scope)
        exact (List.dropWhile_sublist _).subset close
      have blanks := scope.head?_characters_of_blanks (head?_dropWhile_of_append outside h)
      rw [Piece.characters, dropWhile_isNameChar_of_blanks blanks]
      exact blanks
  | case2 => simp [fillEncoded_nil] at h
  | case3 c t plain ih =>
    rw [Piece.characters]
    by_cases name : isNameChar c
    · rw [scope.fillEncoded_cons plain, List.dropWhile_cons_of_pos name] at h
      rw [List.dropWhile_cons_of_pos name]
      exact ih h
    · have blanks := scope.head?_characters_of_blanks (t := c :: t)
      rw [Piece.scan_cons plain, Piece.characters, scope.fillEncoded_cons plain] at blanks
      rw [scope.fillEncoded_cons plain, List.dropWhile_cons_of_neg name] at h
      rw [List.dropWhile_cons_of_neg name]
      exact blanks h

theorem markup?_fillEncoded_of_not_canClose {t : Text}
    (h : Piece.canClose (Piece.scan t) = false) :
    Token.markup? (scope.fillEncoded t) = none := by
  fun_induction Piece.scan t with
  | case1 | case2 => exact absurd h (by simp [Piece.canClose])
  | case3 c t plain _ =>
    by_cases slash : c = '/'
    · subst slash
      rw [scope.fillEncoded_cons plain]
      show Token.endTag? (scope.fillEncoded t) = none
      rw [Token.endTag?_eq_none_iff]
      right
      intro close
      simp [Piece.canClose, scope.head?_characters_of_name close] at h
    · simp [Piece.canClose, slash] at h

/-- Where no placeholder completes an opening, no `<` of a filled text opens anything. -/
theorem staysText_fillEncoded {t rest : Text} (h : Token.StaysText t rest)
    (apart : t.completesOpening = false) : Token.StaysText (scope.fillEncoded t) [] := by
  unfold Text.completesOpening at apart
  fun_induction Piece.scan t with
  | case1 t p after found ih =>
    rw [scope.fillEncoded_of_start? found]
    apply Token.StaysText.append (Text.Entity.lessThan_not_mem_encodeText _)
    exact ih (h.of_suffix (Placeholder.start?_suffix found)) apart
  | case2 =>
    rw [fillEncoded_nil]
    exact Token.staysText_nil []
  | case3 c t plain ih =>
    obtain ⟨here, later⟩ := Bool.or_eq_false_iff.mp apart
    rw [scope.fillEncoded_cons plain]
    apply (ih (h.of_suffix (List.suffix_cons c t)) later).cons
    rintro rfl
    rw [List.append_nil]
    by_cases unclosed : Piece.canClose (Piece.scan t) = false
    · exact scope.markup?_fillEncoded_of_not_canClose unclosed
    obtain ⟨after, whole, filled, last⟩ := scope.exists_rest_of_leading t
    have opens_nothing :
        Token.markup? (Piece.leading (Piece.scan t) ++ (after ++ rest)) = none := by
      rw [← List.append_assoc, ← whole]
      exact h t (List.suffix_refl _)
    rw [filled]
    apply Token.markup?_append_eq_none opens_nothing
    · intro unfinished
      have absent : Piece.holdsPlaceholder (Piece.scan t) = false := by
        simpa [unfinished, unclosed] using here
      rw [last absent, fillEncoded_nil]
      simp
    · intro declares
      have begun := Token.opensDeclaration_append declares (after ++ rest)
      rw [Token.markup?_declaration_eq_none_iff begun] at opens_nothing
      apply scope.not_mem_fillEncoded Text.Entity.greaterThan_not_mem_encodeText
      intro close
      exact opens_nothing (by simp [close])

/-- A text of a source outside of script and style elements is, once it is filled, cut into
itself alone, unless a placeholder in it completes an opening. -/
theorem fillEncoded_stays_text {source content : Text} {before after : List Token}
    (h : Token.scan source = before ++ .text content :: after)
    (outside : Token.endsOutsideRaw before) (apart : content.completesOpening = false) :
    Token.scan (scope.fillEncoded content)
      = if scope.fillEncoded content = [] then [] else [.text (scope.fillEncoded content)] := by
  obtain ⟨_, cut⟩ := Token.exists_scan_of_append h outside
  obtain ⟨rest, -, -, stays⟩ := Token.exists_rest_of_scan cut
  have filled := (scope.staysText_fillEncoded stays apart).scan_append
  rw [List.append_nil, Token.scan_nil] at filled
  rw [filled]
  cases scope.fillEncoded content <;> rfl

/-- Signs that look like openings, end tags that the template does not close, and values that
would be markup if they were not encoded. -/
theorem signs_stay_text :
    let scope := Scope.top
      [("x".toList, .text "b><script>".toList), ("y".toList, .text "!--".toList)]
    let content : Text := "1 < {{x}}, <3{{y}} </9{{x}}> <!1{{y}} </p{{y}} = {{z|a>b}}<".toList
    let source := "<p>".toList ++ content ++ "</p>".toList
    let before : List Token := [.startTag ⟨"p".toList, []⟩ false]
    let filled := scope.fillEncoded content
    filled = ("1 < b&gt;&lt;script&gt;, <3!-- </9b&gt;&lt;script&gt;> <!1!-- </p!-- = ".toList
        ++ "a&gt;b<".toList) ∧
      Token.scan source = before ++ .text content :: [.endTag "p".toList] ∧
      Token.endsOutsideRaw before ∧ content.completesOpening = false ∧
      Token.scan filled = if filled = [] then [] else [.text filled] := by
  intro scope content source before filled
  have cut : Token.scan source = before ++ .text content :: [.endTag "p".toList] := by
    decide +kernel
  have apart : content.completesOpening = false := by decide +kernel
  exact ⟨by decide +kernel, cut, rfl, apart, scope.fillEncoded_stays_text cut rfl apart⟩

/-- A `<` before a placeholder is text, and the beginning of a tag once a letter is put in. -/
theorem letter_completes_startTag :
    let content := "<{{x}}".toList
    let filled := (Scope.top [("x".toList, .text "b".toList)]).fillEncoded content
    Token.scan content = [.text content] ∧ filled = "<b".toList ∧
      Token.scan filled = [.startTag ⟨"b".toList, []⟩ false] ∧
      Token.scan filled ≠ [.text filled] := by
  decide +kernel

end Scope

end HtmlTemplate
