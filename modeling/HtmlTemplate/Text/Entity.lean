import HtmlTemplate.Text
import HtmlTemplate.Text.EntityNames

/-!
# Character references

Attribute values are stored decoded and written encoded. A reference counts only
when it is complete: a known name or a code point in digits, closed by a semicolon.
-/
namespace HtmlTemplate.Text.Entity

/-- The code points that a reference in digits may stand for: no surrogate, and no control
character below the blank except tab, line feed, form feed and carriage return. -/
def isReferable (n : Nat) : Bool :=
  n.isValidChar && (0x20 ≤ n || n == 9 || n == 10 || n == 12 || n == 13)

/-- The character with that code point, when a reference may stand for it. -/
def referable? (n : Nat) : Option Char :=
  if isReferable n then some (Char.ofNat n) else none

/-- The value of a hexadecimal digit. -/
def hexValue (c : Char) : Nat :=
  if c.isDigit then c.toNat - 48 else if c.isLower then c.toNat - 87 else c.toNat - 55

/-- Whether the character is a hexadecimal digit. -/
def isHexDigit (c : Char) : Bool :=
  c.isDigit || ('a' ≤ c && c ≤ 'f') || ('A' ≤ c && c ≤ 'F')

/-- The number that digits of a base spell, the first digit weighing most. -/
def ofDigits (base : Nat) (digits : Text) : Nat :=
  digits.foldl (fun n c => base * n + hexValue c) 0

/-- Reads a non-empty run of characters of a class and the semicolon after it. The result is
the character that the run stands for and the rest. -/
def closedRun? (p : Char → Bool) (meaning : Text → Option Char) (t : Text) :
    Option (Char × Text) :=
  match t.takeWhile p, t.dropWhile p with
  | c :: run, ';' :: rest => (meaning (c :: run)).map (·, rest)
  | _, _ => none

/-- The character of the reference whose ampersand stands before the text, and the rest. -/
def reference? : Text → Option (Char × Text)
  | '#' :: 'x' :: t => closedRun? isHexDigit (referable? ∘ ofDigits 16) t
  | '#' :: 'X' :: t => closedRun? isHexDigit (referable? ∘ ofDigits 16) t
  | '#' :: t => closedRun? Char.isDigit (referable? ∘ ofDigits 10) t
  | t => closedRun? Char.isAlphanum named? t

theorem closedRun?_length {p : Char → Bool} {meaning : Text → Option Char} {t rest : Text}
    {c : Char} (h : closedRun? p meaning t = some (c, rest)) : rest.length < t.length := by
  have split := congrArg List.length (List.takeWhile_append_dropWhile (p := p) (l := t))
  unfold closedRun? at h
  split at h
  · rename_i run rest' htake hdrop
    obtain ⟨_, -, _, rfl⟩ := by simpa [Option.map_eq_some_iff] using h
    rw [htake, hdrop] at split
    simp at split
    omega
  · simp at h

theorem reference?_length {t rest : Text} {c : Char} (h : reference? t = some (c, rest)) :
    rest.length < t.length := by
  unfold reference? at h
  split at h <;> have := closedRun?_length h <;> simp_all <;> omega

/-- The text with its references replaced by the characters they stand for. An ampersand
that begins no reference is kept. -/
def decode : Text → Text
  | [] => []
  | '&' :: t =>
    match _h : reference? t with
    | some (c, rest) => c :: decode rest
    | none => '&' :: decode t
  | c :: t => c :: decode t
termination_by t => t.length
decreasing_by
  · exact Nat.lt_succ_of_lt (reference?_length ‹_›)
  · exact Nat.lt_succ_self _
  · exact Nat.lt_succ_self _

/-- How a character stands between double quotes. -/
def attributeForm (c : Char) : Text :=
  match c with
  | '&' => "&amp;".toList
  | '<' => "&lt;".toList
  | '>' => "&gt;".toList
  | '"' => "&quot;".toList
  | _ => [c]

/-- How a character stands in running text: as in an attribute, with the apostrophe
encoded too. -/
def textForm (c : Char) : Text :=
  match c with
  | '\'' => "&#x27;".toList
  | _ => attributeForm c

/-- The text as the value of an attribute in double quotes. -/
def encodeAttribute (t : Text) : Text := t.flatMap attributeForm

/-- The text as it is inserted between tags. -/
def encodeText (t : Text) : Text := t.flatMap textForm

end HtmlTemplate.Text.Entity
