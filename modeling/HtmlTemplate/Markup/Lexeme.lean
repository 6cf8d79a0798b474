import HtmlTemplate.Markup.TagBody

/-!
# Cutting source into tokens

A `<` opens a tag, a comment or a declaration where one can be completed; any other
character is text. Script and style elements hold raw text up to their end tag.
-/
namespace HtmlTemplate.Token

/-- A token, the raw text that its element holds, and the source after both. -/
structure Lexeme where
  token : Token
  raw : Text := []
  rest : Text

/-- The raw text before the end tag of that name, whose letters may have any case, and the
source from that end tag on. -/
def cutAtEndTag (name : Text) : Text → Text × Text
  | [] => ([], [])
  | c :: t =>
    let mark := '<' :: '/' :: name
    if Text.lowercase ((c :: t).take mark.length) = mark then ([], c :: t)
    else
      let cut := cutAtEndTag name t
      (c :: cut.1, cut.2)

/-- The start tag whose name begins the text. -/
def startTag? (t : Text) : Option Lexeme :=
  match t.takeWhile isNameChar with
  | [] => none
  | c :: run =>
    if c.isAlpha then
      let name := Text.lowercase (c :: run)
      let body := readAttributes (t.dropWhile isNameChar)
      let token := Token.startTag ⟨name, keepFirst body.attributes⟩ body.isClosed
      if !body.isClosed && rawTextNames.any (·.toList == name) then
        let cut := cutAtEndTag name body.rest
        some ⟨token, cut.1, cut.2⟩
      else some ⟨token, [], body.rest⟩
    else none

/-- The end tag whose name begins the text. -/
def endTag? (t : Text) : Option Lexeme :=
  match t.takeWhile isNameChar, (t.dropWhile isNameChar).dropWhile isBlank with
  | c :: run, '>' :: rest =>
    if c.isAlpha then some ⟨.endTag (Text.lowercase (c :: run)), [], rest⟩ else none
  | _, _ => none

/-- The declaration whose opening is given and whose end is the next `>`. -/
def declaration? (opening t : Text) : Option Lexeme :=
  match t.dropWhile (· != '>') with
  | [] => none
  | _ :: rest => some ⟨.declaration (opening ++ t.takeWhile (· != '>') ++ ['>']), [], rest⟩

/-- The comment whose body begins the text. -/
def commentOf (t : Text) : Lexeme :=
  match Text.cutAt? ['-', '-', '>'] t with
  | some (body, rest) => ⟨.comment body, [], rest⟩
  | none => ⟨.comment t, [], []⟩

/-- The tag, comment or declaration whose `<` stands before the text. -/
def markup? : Text → Option Lexeme
  | '!' :: '-' :: '-' :: t => some (commentOf t)
  | '!' :: c :: t => if c.isAlpha then declaration? ['<', '!'] (c :: t) else none
  | '?' :: t => declaration? ['<', '?'] t
  | '/' :: t => endTag? t
  | t => startTag? t

theorem cutAtEndTag_length (name t : Text) : (cutAtEndTag name t).2.length ≤ t.length := by
  induction t with
  | nil => simp [cutAtEndTag]
  | cons c t ih =>
    simp only [cutAtEndTag]
    split <;> simp only [List.length_cons] <;> omega

theorem startTag?_length {t : Text} {l : Lexeme} (h : startTag? t = some l) :
    l.rest.length ≤ t.length := by
  have name := Text.length_dropWhile_le isNameChar t
  have body := readAttributes_length (t.dropWhile isNameChar)
  unfold startTag? at h
  split at h
  · simp at h
  · dsimp only at h
    split at h
    · split at h
      · obtain rfl := by simpa using h
        exact Nat.le_trans (Nat.le_trans (cutAtEndTag_length _ _) body) name
      · obtain rfl := by simpa using h
        exact Nat.le_trans body name
    · simp at h

theorem endTag?_length {t : Text} {l : Lexeme} (h : endTag? t = some l) :
    l.rest.length ≤ t.length := by
  have name := Text.length_dropWhile_le isNameChar t
  have blank := Text.length_dropWhile_le isBlank (t.dropWhile isNameChar)
  unfold endTag? at h
  split at h
  · rename_i hrest
    split at h
    · obtain rfl := by simpa using h
      rw [hrest, List.length_cons] at blank
      dsimp only
      omega
    · simp at h
  · simp at h

theorem declaration?_length {opening t : Text} {l : Lexeme} (h : declaration? opening t = some l) :
    l.rest.length ≤ t.length := by
  have body := Text.length_dropWhile_le (· != '>') t
  unfold declaration? at h
  split at h
  · simp at h
  · rename_i hrest
    obtain rfl := by simpa using h
    rw [hrest, List.length_cons] at body
    dsimp only
    omega

theorem commentOf_length (t : Text) : (commentOf t).rest.length ≤ t.length := by
  unfold commentOf
  split
  · exact Text.length_of_cutAt? ‹_›
  · simp

theorem markup?_length {t : Text} {l : Lexeme} (h : markup? t = some l) :
    l.rest.length ≤ t.length := by
  unfold markup? at h
  split at h
  · rename_i t
    obtain rfl := by simpa using h
    have := commentOf_length t
    simp only [List.length_cons]
    omega
  · split at h
    · have := declaration?_length h
      simp only [List.length_cons] at this ⊢
      omega
    · simp at h
  · have := declaration?_length h
    simp only [List.length_cons]
    omega
  · have := endTag?_length h
    simp only [List.length_cons]
    omega
  · exact startTag?_length h

/-- The tokens of a source. -/
def scan : Text → List Token
  | [] => []
  | '<' :: t =>
    match _h : markup? t with
    | some l => l.token :: prependText l.raw (scan l.rest)
    | none => prependText ['<'] (scan t)
  | c :: t => prependText [c] (scan t)
termination_by t => t.length
decreasing_by
  · exact Nat.lt_succ_of_le (markup?_length ‹_›)
  · exact Nat.lt_succ_self _
  · exact Nat.lt_succ_self _

end HtmlTemplate.Token
