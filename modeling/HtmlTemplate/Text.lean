/-!
# Text

Source, names and values are lists of code points. This module holds the blank
characters and the cuts on them: trimming, words, lines, and the first
occurrence of a marker.
-/
namespace HtmlTemplate

/-- A text is the list of its code points. -/
abbrev Text := List Char

namespace Text

/-- The code points with the property White_Space. -/
def isBlank (c : Char) : Bool :=
  let n := c.toNat
  (9 ≤ n && n ≤ 13) || n == 0x20 || n == 0x85 || n == 0xA0 || n == 0x1680
    || (0x2000 ≤ n && n ≤ 0x200A) || n == 0x2028 || n == 0x2029 || n == 0x202F
    || n == 0x205F || n == 0x3000

/-- What is left after the leading blanks. -/
def trimStart (t : Text) : Text := t.dropWhile isBlank

/-- What is left before the trailing blanks. -/
def trimEnd (t : Text) : Text := (t.reverse.dropWhile isBlank).reverse

/-- The text without the blanks at both ends. -/
def trim (t : Text) : Text := trimEnd (trimStart t)

/-- Only blanks, or nothing at all. -/
def isAllBlank (t : Text) : Bool := t.all isBlank

/-- The maximal runs of characters that are not blank. -/
def words (t : Text) : List Text := (t.splitOnP isBlank).filter (!·.isEmpty)

/-- ASCII letters in lower case, all else as it stands. -/
def lowercase (t : Text) : Text := t.map Char.toLower

/-- The text between the ends of its lines. A line ends with a line feed, which takes a
carriage return directly before it along; a last line without an end counts unless empty. -/
def lines (t : Text) : List Text :=
  let pieces := t.splitOn '\n'
  pieces.dropLast.map dropReturn ++ (pieces.getLast?.filter (!·.isEmpty)).toList
where
  /-- A line less its last carriage return. -/
  dropReturn (line : Text) : Text :=
    match line.reverse with
    | '\r' :: r => r.reverse
    | _ => line

/-- What follows `start`, when the text begins with it. -/
def stripStart? : (start : Text) → Text → Option Text
  | [], t => some t
  | _ :: _, [] => none
  | m :: start, c :: t => if m = c then stripStart? start t else none

/-- What stands before the first occurrence of `mark` and what follows it. -/
def cutAt? (mark : Text) : Text → Option (Text × Text)
  | [] => none
  | c :: t =>
    match stripStart? mark (c :: t) with
    | some after => some ([], after)
    | none => (cutAt? mark t).map fun (before, after) => (c :: before, after)

theorem stripStart?_eq_some {start t rest : Text} :
    stripStart? start t = some rest ↔ t = start ++ rest := by
  induction start generalizing t with
  | nil => simp [stripStart?]
  | cons m start ih =>
    cases t with
    | nil => simp [stripStart?]
    | cons c t =>
      by_cases h : m = c
      · simp [stripStart?, h, ih]
      · simp [stripStart?, h, Ne.symm h]

/-- The pieces between the occurrences of a character do not hold it. -/
theorem not_mem_of_mem_splitOn {t segment : Text} {c : Char} (h : segment ∈ t.splitOn c) :
    c ∉ segment := by
  induction t generalizing segment with
  | nil =>
    obtain rfl : segment = [] := by simpa using h
    simp
  | cons d t ih =>
    rw [List.splitOn_cons_eq_if_modifyHead] at h
    split at h
    · rcases List.mem_cons.mp h with rfl | h
      · simp
      · exact ih h
    · rename_i hd
      cases hs : t.splitOn c with
      | nil => simp [hs] at h
      | cons first rest =>
        rw [hs, List.modifyHead_cons] at h
        rcases List.mem_cons.mp h with rfl | h
        · have := @ih first (by simp [hs])
          simp only [List.mem_cons, not_or]
          exact ⟨fun e => hd (by simp [e]), this⟩
        · exact ih (by simp [hs, h])

theorem eq_append_of_cutAt? {mark t before after : Text}
    (h : cutAt? mark t = some (before, after)) : t = before ++ mark ++ after := by
  induction t generalizing before with
  | nil => simp [cutAt?] at h
  | cons c t ih =>
    unfold cutAt? at h
    split at h
    · rename_i rest hrest
      obtain ⟨rfl, rfl⟩ := by simpa using h
      simpa using stripStart?_eq_some.mp hrest
    · obtain ⟨⟨b, a⟩, hcut, hb⟩ := Option.map_eq_some_iff.mp h
      obtain ⟨rfl, rfl⟩ := by simpa using hb
      simpa using ih hcut

theorem length_of_cutAt? {mark t before after : Text}
    (h : cutAt? mark t = some (before, after)) : after.length ≤ t.length := by
  simp only [eq_append_of_cutAt? h, List.length_append]
  omega

theorem length_dropWhile_le (p : Char → Bool) (t : Text) : (t.dropWhile p).length ≤ t.length :=
  (List.dropWhile_suffix p).length_le

/-- The number of bytes of the text in UTF-8. -/
def byteLength : Text → Nat
  | [] => 0
  | c :: t => c.utf8Size + byteLength t

/-- The digits of a number in base ten. -/
def ofNat (n : Nat) : Text := Nat.toDigits 10 n

end Text

end HtmlTemplate
