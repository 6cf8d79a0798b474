import HtmlTemplate.Markup.Token
import HtmlTemplate.Text.Entity

/-!
# The inside of a start tag

What follows the name of a start tag: attributes in three spellings, up to the closing
bracket. Every step leaves less source, so reading ends.
-/
namespace HtmlTemplate.Token

/-- The text up to the next quote, and what follows that quote. -/
def splitQuoted (quote : Char) (t : Text) : Text × Text :=
  (t.takeWhile (· != quote), (t.dropWhile (· != quote)).drop 1)

/-- The raw value after an equals sign, and what follows it. A slash right before the
end of the tag belongs to the tag. -/
def splitValue (t : Text) : Text × Text :=
  match t.dropWhile isBlank with
  | '"' :: r => splitQuoted '"' r
  | '\'' :: r => splitQuoted '\'' r
  | r =>
    let raw := r.takeWhile isBareChar
    let rest := r.dropWhile isBareChar
    if raw.getLast? = some '/' ∧ rest.head? = some '>' then (raw.dropLast, '/' :: rest)
    else (raw, rest)

theorem splitQuoted_length (quote : Char) (t : Text) :
    (splitQuoted quote t).2.length ≤ t.length := by
  have := Text.length_dropWhile_le (· != quote) t
  simp only [splitQuoted, List.length_drop]
  omega

theorem splitValue_length (t : Text) : (splitValue t).2.length ≤ t.length := by
  have blank := Text.length_dropWhile_le isBlank t
  unfold splitValue
  split
  · rename_i r h
    have := splitQuoted_length '"' r
    simp only [h, List.length_cons] at blank
    omega
  · rename_i r h
    have := splitQuoted_length '\'' r
    simp only [h, List.length_cons] at blank
    omega
  · generalize t.dropWhile isBlank = r at blank
    have cut := congrArg List.length (List.takeWhile_append_dropWhile (p := isBareChar) (l := r))
    simp only [List.length_append] at cut
    dsimp only
    split
    · rename_i h
      have : (r.takeWhile isBareChar) ≠ [] := by
        rintro e
        simp [e] at h
      have := List.length_pos_iff.mpr this
      simp only [List.length_cons]
      omega
    · dsimp only
      omega

/-- What a start tag holds after its name, and the source after the tag. -/
structure TagBody where
  attributes : List Attribute
  isClosed : Bool
  rest : Text
deriving DecidableEq, Repr

/-- The body with one more attribute in front. -/
def TagBody.push (a : Attribute) (b : TagBody) : TagBody :=
  { b with attributes := a :: b.attributes }

/-- Reads attributes up to the end of the start tag. Quotes, slashes and equals signs
without a name are passed over, together with the value that follows the sign. -/
def readAttributes : Text → TagBody
  | [] => ⟨[], false, []⟩
  | '>' :: t => ⟨[], false, t⟩
  | '/' :: '>' :: t => ⟨[], true, t⟩
  | '/' :: t => readAttributes t
  | '=' :: t => readAttributes (splitValue t).2
  | '"' :: t => readAttributes (splitQuoted '"' t).2
  | '\'' :: t => readAttributes (splitQuoted '\'' t).2
  | c :: t =>
    if isAttributeNameChar c then
      let name := Text.lowercase (c :: t.takeWhile isAttributeNameChar)
      match _h : (t.dropWhile isAttributeNameChar).dropWhile isBlank with
      | '=' :: r =>
        (readAttributes (splitValue r).2).push ⟨name, Text.Entity.decode (splitValue r).1⟩
      | _ => (readAttributes (t.dropWhile isAttributeNameChar)).push ⟨name, []⟩
    else readAttributes t
termination_by t => t.length
decreasing_by
  · simp
  · exact Nat.lt_succ_of_le (splitValue_length _)
  · exact Nat.lt_succ_of_le (splitQuoted_length _ _)
  · exact Nat.lt_succ_of_le (splitQuoted_length _ _)
  · have name := Text.length_dropWhile_le isAttributeNameChar t
    have blank := Text.length_dropWhile_le isBlank (t.dropWhile isAttributeNameChar)
    have value := splitValue_length r
    simp only [_h, List.length_cons] at blank ⊢
    omega
  · exact Nat.lt_succ_of_le (Text.length_dropWhile_le _ _)
  · simp

theorem readAttributes_length (t : Text) : (readAttributes t).rest.length ≤ t.length := by
  fun_induction readAttributes t with
  | case1 => simp
  | case2 t => simp
  | case3 t => simp only [List.length_cons]; omega
  | case4 t _ ih => simp only [List.length_cons]; omega
  | case5 t ih => have := splitValue_length t; simp only [List.length_cons]; omega
  | case6 t ih => have := splitQuoted_length '"' t; simp only [List.length_cons]; omega
  | case7 t ih => have := splitQuoted_length '\'' t; simp only [List.length_cons]; omega
  | case8 c t =>
    rename_i h ih
    have name := Text.length_dropWhile_le isAttributeNameChar t
    have blank := Text.length_dropWhile_le isBlank (t.dropWhile isAttributeNameChar)
    have value := splitValue_length ‹Text›
    simp only [TagBody.push, h, List.length_cons] at blank ⊢
    omega
  | case9 c t =>
    rename_i ih
    have name := Text.length_dropWhile_le isAttributeNameChar t
    simp only [TagBody.push, List.length_cons]
    omega
  | case10 c t => simp only [List.length_cons]; omega

/-- The attributes less those whose name stands before them already. -/
def keepFirst : List Attribute → List Attribute
  | [] => []
  | a :: rest => a :: (keepFirst rest).filter (·.name != a.name)

end HtmlTemplate.Token
