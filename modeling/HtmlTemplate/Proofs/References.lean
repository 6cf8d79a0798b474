import HtmlTemplate.Proofs.Text
import HtmlTemplate.Text.Entity

/-!
# Character references read back

An encoded character is one reference, read as that character and nothing more. Main
statement: decoding undoes the encoding of attribute values and of running text.
-/
namespace HtmlTemplate.Text.Entity

theorem closedRun?_append {p : Char → Bool} {meaning : Text → Option Char} {run : Text}
    (hn : run ≠ []) (hp : ∀ c ∈ run, p c) (hs : p ';' = false) (rest : Text) :
    closedRun? p meaning (run ++ ';' :: rest) = (meaning run).map (·, rest) := by
  have stop : ∀ c ∈ (';' :: rest).head?, p c = false := by simp [hs]
  unfold closedRun?
  rw [takeWhile_run hp stop, dropWhile_run hp stop]
  cases run with
  | nil => exact absurd rfl hn
  | cons c run => rfl

/-- A name with its semicolon is read as the character it stands for. -/
theorem reference?_name {name : Text} {c : Char} (hn : name ≠ []) (ha : ∀ d ∈ name, d.isAlphanum)
    (h : named? name = some c) (rest : Text) :
    reference? (name ++ ';' :: rest) = some (c, rest) := by
  have by_name : reference? (name ++ ';' :: rest)
      = closedRun? Char.isAlphanum named? (name ++ ';' :: rest) := by
    obtain ⟨d, name, rfl⟩ := List.exists_cons_of_ne_nil hn
    have : d ≠ '#' := by
      rintro rfl
      exact absurd (ha '#' (by simp)) (by decide)
    unfold reference?
    split <;> simp_all
  rw [by_name, closedRun?_append hn ha (by decide), h, Option.map_some]

theorem decode_reference {t rest : Text} {c : Char} (h : reference? t = some (c, rest)) :
    decode ('&' :: t) = c :: decode rest := by
  rw [decode]
  split <;> simp_all

theorem decode_cons {c : Char} (h : c ≠ '&') (t : Text) : decode (c :: t) = c :: decode t := by
  rw [decode]
  exact h

theorem decode_name {name : String} {c : Char} (hn : name.toList ≠ [])
    (ha : name.toList.all Char.isAlphanum) (h : named? name.toList = some c) (t : Text) :
    decode ('&' :: (name.toList ++ ';' :: t)) = c :: decode t :=
  decode_reference (reference?_name hn (List.all_eq_true.mp ha) h t)

theorem decode_attributeForm (c : Char) (t : Text) :
    decode (attributeForm c ++ t) = c :: decode t := by
  unfold attributeForm
  split
  · exact @decode_name "amp" '&' (by decide) (by decide) (by decide) t
  · exact @decode_name "lt" '<' (by decide) (by decide) (by decide) t
  · exact @decode_name "gt" '>' (by decide) (by decide) (by decide) t
  · exact @decode_name "quot" '"' (by decide) (by decide) (by decide) t
  · rename_i plain _ _ _
    exact decode_cons plain t

theorem decode_encodeAttribute (t : Text) : decode (encodeAttribute t) = t := by
  induction t with
  | nil => rw [encodeAttribute, List.flatMap_nil, decode]
  | cons c t ih =>
    rw [encodeAttribute, List.flatMap_cons, decode_attributeForm, ← encodeAttribute, ih]

theorem decode_textForm (c : Char) (t : Text) : decode (textForm c ++ t) = c :: decode t := by
  unfold textForm
  split
  · refine decode_reference ?_
    have digits : reference? ('#' :: 'x' :: (['2', '7'] ++ ';' :: t))
        = closedRun? isHexDigit (referable? ∘ ofDigits 16) (['2', '7'] ++ ';' :: t) := by
      rw [reference?]
    have hexadecimal : ∀ d ∈ ['2', '7'], isHexDigit d := by simp [isHexDigit, Char.isDigit]
    exact digits.trans (closedRun?_append (by decide) hexadecimal (by decide) t)
  · exact decode_attributeForm c t

theorem decode_encodeText (t : Text) : decode (encodeText t) = t := by
  induction t with
  | nil => rw [encodeText, List.flatMap_nil, decode]
  | cons c t ih => rw [encodeText, List.flatMap_cons, decode_textForm, ← encodeText, ih]

theorem of_mem_attributeForm {c d : Char} (h : d ∈ attributeForm c) :
    d ≠ '<' ∧ d ≠ '>' ∧ d ≠ '"' := by
  have inert (form : String) (hf : form.toList.all fun d => d ≠ '<' ∧ d ≠ '>' ∧ d ≠ '"')
      (hd : d ∈ form.toList) : d ≠ '<' ∧ d ≠ '>' ∧ d ≠ '"' :=
    of_decide_eq_true (List.all_eq_true.mp hf d hd)
  unfold attributeForm at h
  split at h
  · exact inert "&amp;" (by decide) h
  · exact inert "&lt;" (by decide) h
  · exact inert "&gt;" (by decide) h
  · exact inert "&quot;" (by decide) h
  · rename_i less greater quote
    obtain rfl := List.mem_singleton.mp h
    exact ⟨less, greater, quote⟩

theorem quote_not_mem_encodeAttribute (t : Text) : '"' ∉ encodeAttribute t := by
  intro h
  obtain ⟨c, -, hc⟩ := List.mem_flatMap.mp h
  exact (of_mem_attributeForm hc).2.2 rfl

theorem ne_of_mem_encodeText {t : Text} {d : Char} (h : d ∈ encodeText t) : d ≠ '<' ∧ d ≠ '>' := by
  obtain ⟨c, -, hc⟩ := List.mem_flatMap.mp h
  unfold textForm at hc
  split at hc
  · constructor
    all_goals
      rintro rfl
      exact absurd hc (by decide)
  · exact ⟨(of_mem_attributeForm hc).1, (of_mem_attributeForm hc).2.1⟩

theorem lessThan_not_mem_encodeText (t : Text) : '<' ∉ encodeText t :=
  fun h => (ne_of_mem_encodeText h).1 rfl

theorem greaterThan_not_mem_encodeText (t : Text) : '>' ∉ encodeText t :=
  fun h => (ne_of_mem_encodeText h).2 rfl

end HtmlTemplate.Text.Entity
