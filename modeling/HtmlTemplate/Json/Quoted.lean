import HtmlTemplate.Json.Fault
import HtmlTemplate.Text.Entity

/-!
# JSON strings

The characters of a string after its opening quote, each written as itself or as an
escape. Two escapes of surrogates stand for one character.
-/
namespace HtmlTemplate.Json

/-- The number that four hexadecimal digits spell, and the rest. -/
def hexEscape (t : Text) : Except Fault (Nat × Text) :=
  match t with
  | a :: b :: c :: d :: r =>
    if [a, b, c, d].all Text.Entity.isHexDigit then
      .ok (Text.Entity.ofDigits 16 [a, b, c, d], r)
    else .error ⟨.invalidEscape, t, 4⟩
  | _ =>
    if t.byteLength < 4 then .error ⟨.endInString, [], 0⟩ else .error ⟨.invalidEscape, t, 4⟩

/-- The character that begins with the escaped number `n`. A leading surrogate takes the
escape of a trailing one along. -/
def fromEscape (n : Nat) (t : Text) : Except Fault (Char × Text) :=
  if 0xDC00 ≤ n ∧ n ≤ 0xDFFF then .error ⟨.loneSurrogate, t, 0⟩
  else if 0xD800 ≤ n ∧ n ≤ 0xDBFF then
    match t with
    | [] => .error ⟨.endInString, [], 0⟩
    | ['\\'] => .error ⟨.endInString, [], 0⟩
    | '\\' :: 'u' :: r =>
      match hexEscape r with
      | .error f => .error f
      | .ok (m, r) =>
        if 0xDC00 ≤ m ∧ m ≤ 0xDFFF then
          .ok (Char.ofNat ((n - 0xD800) * 0x400 + (m - 0xDC00) + 0x10000), r)
        else .error ⟨.loneSurrogate, r, 0⟩
    | '\\' :: r => .error ⟨.cutSurrogatePair, r, 1⟩
    | r => .error ⟨.cutSurrogatePair, r, 1⟩
  else .ok (Char.ofNat n, t)

/-- The character of the escape after a backslash. -/
def escape (t : Text) : Except Fault (Char × Text) :=
  match t with
  | [] => .error ⟨.endInString, [], 0⟩
  | '"' :: r => .ok ('"', r)
  | '\\' :: r => .ok ('\\', r)
  | '/' :: r => .ok ('/', r)
  | 'b' :: r => .ok ('\x08', r)
  | 'f' :: r => .ok ('\x0c', r)
  | 'n' :: r => .ok ('\n', r)
  | 'r' :: r => .ok ('\r', r)
  | 't' :: r => .ok ('\t', r)
  | 'u' :: r =>
    match hexEscape r with
    | .error f => .error f
    | .ok (n, r) => fromEscape n r
  | r => .error ⟨.invalidEscape, r, 1⟩

/-- The next character of a string, or nothing for the closing quote. -/
def nextChar (t : Text) : Except Fault (Option Char × Text) :=
  match t with
  | [] => .error ⟨.endInString, [], 0⟩
  | '"' :: r => .ok (none, r)
  | '\\' :: r =>
    match escape r with
    | .error f => .error f
    | .ok (c, r) => .ok (some c, r)
  | c :: r => if c.toNat < 0x20 then .error ⟨.controlCharacter, c :: r, 1⟩ else .ok (some c, r)

theorem hexEscape_length {t rest : Text} {n : Nat} (h : hexEscape t = .ok (n, rest)) :
    rest.length ≤ t.length := by
  unfold hexEscape at h
  split at h
  · split at h
    · obtain ⟨-, rfl⟩ := by simpa using h
      simp only [List.length_cons]
      omega
    · simp at h
  · split at h <;> simp at h

theorem fromEscape_length {t rest : Text} {n : Nat} {c : Char}
    (h : fromEscape n t = .ok (c, rest)) : rest.length ≤ t.length := by
  unfold fromEscape at h
  split at h
  · simp at h
  · split at h
    · split at h
      · simp at h
      · simp at h
      · rename_i r
        split at h
        · simp at h
        · rename_i heq
          have := hexEscape_length heq
          split at h
          · obtain ⟨-, rfl⟩ := by simpa using h
            simp only [List.length_cons]
            omega
          · simp at h
      · simp at h
      · simp at h
    · obtain ⟨-, rfl⟩ := by simpa using h
      exact Nat.le_refl _

theorem escape_length {t rest : Text} {c : Char} (h : escape t = .ok (c, rest)) :
    rest.length < t.length := by
  unfold escape at h
  split at h
  case h_10 r =>
    split at h
    · simp at h
    · rename_i heq
      have := hexEscape_length heq
      have := fromEscape_length h
      simp only [List.length_cons]
      omega
  all_goals simp at h
  all_goals simp [h]

theorem nextChar_length {t rest : Text} {c : Option Char} (h : nextChar t = .ok (c, rest)) :
    rest.length < t.length := by
  unfold nextChar at h
  split at h
  · simp at h
  · obtain ⟨-, rfl⟩ := by simpa using h
    simp
  · split at h
    · simp at h
    · rename_i heq
      obtain ⟨-, rfl⟩ := by simpa using h
      exact Nat.lt_succ_of_lt (escape_length heq)
  · split at h
    · simp at h
    · obtain ⟨-, rfl⟩ := by simpa using h
      simp

/-- Reads a string after its opening quote: its text, and what follows its closing quote. -/
def quoted (t : Text) : Except Fault (Text × Text) :=
  match _h : nextChar t with
  | .error f => .error f
  | .ok (none, rest) => .ok ([], rest)
  | .ok (some c, rest) =>
    match quoted rest with
    | .error f => .error f
    | .ok (s, rest) => .ok (c :: s, rest)
termination_by t.length
decreasing_by exact nextChar_length ‹_›

theorem quoted_length {t s rest : Text} (h : quoted t = .ok (s, rest)) :
    rest.length < t.length := by
  fun_induction quoted t generalizing s with
  | case1 => simp at h
  | case2 t rest' hn =>
    obtain ⟨-, rfl⟩ := by simpa using h
    exact nextChar_length hn
  | case3 => simp at h
  | case4 t c rest' hn s' rest'' hq ih =>
    obtain ⟨-, rfl⟩ := by simpa using h
    exact Nat.lt_trans (ih hq) (nextChar_length hn)

end HtmlTemplate.Json
