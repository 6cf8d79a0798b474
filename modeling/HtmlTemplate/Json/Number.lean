import HtmlTemplate.Json.Fault
import HtmlTemplate.Number.Shortest

/-!
# JSON numbers

A number is read and at once written again. An integer that fits into 64 bits keeps its
digits. Any other number becomes a double: as many digits as fit into 64 bits are taken
for the significand, and one multiplication or division by a power of ten scales it.
-/
namespace HtmlTemplate.Json

/-- The greatest unsigned number of 64 bits. -/
def maxSignificand : Nat := Nat.pow 2 64 - 1

/-- The greatest exponent that is counted. -/
def maxExponent : Nat := Nat.pow 2 31 - 1

/-- The greatest power of ten that is a double. -/
def maxPower : Nat := 308

/-- The value of a decimal digit. -/
def digitValue (c : Char) : Nat := c.toNat - 48

/-- Appends digits to a significand while it fits, and gives the source from the first
character that was not taken. -/
def takeDigits : (significand : Nat) → Text → Nat × Text
  | n, [] => (n, [])
  | n, c :: t =>
    if c.isDigit ∧ n * 10 + digitValue c ≤ maxSignificand then
      takeDigits (n * 10 + digitValue c) t
    else (n, c :: t)

/-- The exponent that digits spell, or nothing as soon as it is too large, and the source
after the last digit that was taken. -/
def takeExponent : (exponent : Nat) → Text → Option Nat × Text
  | n, [] => (some n, [])
  | n, c :: t =>
    if c.isDigit then
      if maxExponent < n * 10 + digitValue c then (none, t)
      else takeExponent (n * 10 + digitValue c) t
    else (some n, c :: t)

/-- The power of ten as a double. -/
def power (k : Nat) : Binary64 := (Binary64.ofRatio? (Nat.pow 10 k) 1).getD .zero

/-- The double divided by a power of ten, in steps that are doubles themselves. -/
def scaleDown (x : Binary64) (k : Nat) : Binary64 :=
  if k ≤ maxPower then (x.div? (power k)).getD .zero
  else if x.isZero then x
  else scaleDown ((x.div? (power maxPower)).getD .zero) (k - maxPower)
termination_by k
decreasing_by simp only [maxPower] at *; omega

/-- The double for a significand and a decimal exponent, or nothing when it is too large. -/
def scale? (significand : Nat) (exponent : Int) : Option Binary64 := do
  let x ← Binary64.ofRatio? significand 1
  if exponent < 0 then return scaleDown x exponent.natAbs
  else if exponent.natAbs ≤ maxPower then x.mul? (power exponent.natAbs)
  else if x.isZero then return x
  else none

/-- How a double is written. -/
def printDouble (x : Binary64) : Text :=
  if x.isZero then "0.0".toList else x.shortest.print

/-- The scaled number as text, or a fault when it is too large. -/
def finish (significand : Nat) (exponent : Int) (t : Text) : Except Fault (Text × Text) :=
  match scale? significand exponent with
  | some x => .ok (printDouble x, t)
  | none => .error ⟨.numberOutOfRange, t, 0⟩

/-- Reads the digits of an exponent. -/
def exponentDigits (isNegative : Bool) (significand : Nat) (exponent : Int) (t : Text) :
    Except Fault (Text × Text) :=
  match t with
  | [] => .error ⟨.endInValue, [], 0⟩
  | c :: r =>
    if c.isDigit then
      match takeExponent (digitValue c) r with
      | (some n, r) => finish significand (if isNegative then exponent - n else exponent + n) r
      | (none, r) =>
        if significand ≠ 0 && !isNegative then .error ⟨.numberOutOfRange, r, 0⟩
        else .ok (printDouble .zero, r.dropWhile Char.isDigit)
    else .error ⟨.invalidNumber, c :: r, 1⟩

/-- Reads the exponent after its letter. -/
def exponentPart (significand : Nat) (exponent : Int) (t : Text) : Except Fault (Text × Text) :=
  match t with
  | '+' :: r => exponentDigits false significand exponent r
  | '-' :: r => exponentDigits true significand exponent r
  | r => exponentDigits false significand exponent r

/-- Reads what may follow the digits before and after the point. -/
def afterDigits (significand : Nat) (exponent : Int) (t : Text) : Except Fault (Text × Text) :=
  match t with
  | 'e' :: r => exponentPart significand exponent r
  | 'E' :: r => exponentPart significand exponent r
  | r => finish significand exponent r

/-- Reads the fraction after the point. -/
def fractionPart (significand : Nat) (exponent : Int) (t : Text) : Except Fault (Text × Text) :=
  match t with
  | [] => .error ⟨.endInValue, [], 0⟩
  | c :: r =>
    if c.isDigit then
      let (significand, rest) := takeDigits significand (c :: r)
      let taken := (c :: r).length - rest.length
      afterDigits significand (exponent - taken) (rest.dropWhile Char.isDigit)
    else .error ⟨.invalidNumber, c :: r, 1⟩

/-- Reads on after the digits before the point, some of which were left out. -/
def afterInteger (significand : Nat) (leftOut : Nat) (t : Text) : Except Fault (Text × Text) :=
  match t with
  | '.' :: r => fractionPart significand leftOut r
  | r => afterDigits significand leftOut r

/-- Whether the number with that first character after its digits is an integer. -/
def endsInteger : Text → Bool
  | '.' :: _ => false
  | 'e' :: _ => false
  | 'E' :: _ => false
  | _ => true

/-- Reads a number without its sign: the text that is written for it, and the rest. -/
def unsigned (isNegative : Bool) (t : Text) : Except Fault (Text × Text) :=
  match t with
  | [] => .error ⟨.endInValue, [], 0⟩
  | c :: r =>
    if !c.isDigit then .error ⟨.invalidNumber, c :: r, 1⟩
    else if c = '0' && (r.head?.any Char.isDigit) then .error ⟨.invalidNumber, r, 1⟩
    else
      let (significand, rest) := takeDigits (digitValue c) r
      let leftOut := rest.takeWhile Char.isDigit
      let rest := rest.dropWhile Char.isDigit
      if leftOut.isEmpty && endsInteger rest
          && (!isNegative || 0 < significand && significand ≤ Nat.pow 2 63) then
        .ok (Text.ofNat significand, rest)
      else afterInteger significand leftOut.length rest

/-- Reads a number: the text that is written for it, and the rest. -/
def number (t : Text) : Except Fault (Text × Text) :=
  match t with
  | '-' :: r => (unsigned true r).map fun (numeral, rest) => ('-' :: numeral, rest)
  | _ => unsigned false t

theorem takeDigits_length (n : Nat) (t : Text) : (takeDigits n t).2.length ≤ t.length := by
  induction t generalizing n with
  | nil => simp [takeDigits]
  | cons c t ih =>
    simp only [takeDigits]
    split
    · exact Nat.le_succ_of_le (ih _)
    · simp

theorem takeExponent_length (n : Nat) (t : Text) : (takeExponent n t).2.length ≤ t.length := by
  induction t generalizing n with
  | nil => simp [takeExponent]
  | cons c t ih =>
    simp only [takeExponent]
    split
    · split
      · simp
      · exact Nat.le_succ_of_le (ih _)
    · simp

theorem finish_length {n : Nat} {e : Int} {t numeral rest : Text}
    (h : finish n e t = .ok (numeral, rest)) : rest.length ≤ t.length := by
  unfold finish at h
  split at h <;> simp_all

theorem exponentDigits_length {isNegative : Bool} {n : Nat} {e : Int} {t numeral rest : Text}
    (h : exponentDigits isNegative n e t = .ok (numeral, rest)) : rest.length ≤ t.length := by
  unfold exponentDigits at h
  split at h
  · simp at h
  · rename_i c r
    have cut := takeExponent_length (digitValue c) r
    refine Nat.le_succ_of_le ?_
    split at h
    · split at h
      · rename_i heq
        rw [heq] at cut
        exact Nat.le_trans (finish_length h) cut
      · rename_i heq
        rw [heq] at cut
        split at h
        · simp at h
        · obtain ⟨-, rfl⟩ := by simpa using h
          exact Nat.le_trans (Text.length_dropWhile_le _ _) cut
    · simp at h

theorem exponentPart_length {n : Nat} {e : Int} {t numeral rest : Text}
    (h : exponentPart n e t = .ok (numeral, rest)) : rest.length ≤ t.length := by
  unfold exponentPart at h
  split at h
  · exact Nat.le_succ_of_le (exponentDigits_length h)
  · exact Nat.le_succ_of_le (exponentDigits_length h)
  · exact exponentDigits_length h

theorem afterDigits_length {n : Nat} {e : Int} {t numeral rest : Text}
    (h : afterDigits n e t = .ok (numeral, rest)) : rest.length ≤ t.length := by
  unfold afterDigits at h
  split at h
  · exact Nat.le_succ_of_le (exponentPart_length h)
  · exact Nat.le_succ_of_le (exponentPart_length h)
  · exact finish_length h

theorem fractionPart_length {n : Nat} {e : Int} {t numeral rest : Text}
    (h : fractionPart n e t = .ok (numeral, rest)) : rest.length ≤ t.length := by
  unfold fractionPart at h
  split at h
  · simp at h
  · rename_i c r
    split at h
    · have taken := takeDigits_length n (c :: r)
      have digits := Text.length_dropWhile_le Char.isDigit (takeDigits n (c :: r)).2
      exact Nat.le_trans (afterDigits_length h) (Nat.le_trans digits taken)
    · simp at h

theorem afterInteger_length {n k : Nat} {t numeral rest : Text}
    (h : afterInteger n k t = .ok (numeral, rest)) : rest.length ≤ t.length := by
  unfold afterInteger at h
  split at h
  · exact Nat.le_succ_of_le (fractionPart_length h)
  · exact afterDigits_length h

theorem unsigned_length {isNegative : Bool} {t numeral rest : Text}
    (h : unsigned isNegative t = .ok (numeral, rest)) : rest.length < t.length := by
  unfold unsigned at h
  split at h
  · simp at h
  · rename_i c r
    split at h
    · simp at h
    · split at h
      · simp at h
      · have taken := takeDigits_length (digitValue c) r
        have digits := Text.length_dropWhile_le Char.isDigit (takeDigits (digitValue c) r).2
        refine Nat.lt_succ_of_le (Nat.le_trans ?_ (Nat.le_trans digits taken))
        dsimp only at h
        split at h
        · obtain ⟨-, rfl⟩ := by simpa using h
          exact Nat.le_refl _
        · exact afterInteger_length h

theorem number_length {t numeral rest : Text} (h : number t = .ok (numeral, rest)) :
    rest.length < t.length := by
  unfold number at h
  split at h
  · rename_i r
    cases hr : unsigned true r with
    | error f => simp [hr, Except.map] at h
    | ok a =>
      obtain ⟨u, v⟩ := a
      obtain ⟨-, rfl⟩ := by simpa [hr, Except.map] using h
      exact Nat.lt_succ_of_lt (unsigned_length hr)
  · exact unsigned_length h

end HtmlTemplate.Json
