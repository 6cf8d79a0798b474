import HtmlTemplate.Json.Number
import HtmlTemplate.Json.Quoted
import HtmlTemplate.Value

/-!
# Reading JSON

A JSON text becomes a value. Containers may be nested at most 127 deep; the first fault
in reading order is reported; of two entries with one key the later one stays.
-/
namespace HtmlTemplate.Json

/-- The blanks between the tokens of JSON. -/
def isBlank (c : Char) : Bool := c == ' ' || c == '\n' || c == '\t' || c == '\r'

/-- The source after the blanks it begins with. -/
def skipBlanks (t : Text) : Text := t.dropWhile isBlank

theorem skipBlanks_length (t : Text) : (skipBlanks t).length ≤ t.length :=
  Text.length_dropWhile_le _ _

/-- How many containers may be open at once. -/
def maxDepth : Nat := 127

/-- Reads something and leaves less source than it was given. -/
structure Reader (α : Type) where
  run : Text → Except Fault (α × Text)
  shorter {t : Text} {a : α} {rest : Text} : run t = .ok (a, rest) → rest.length < t.length

/-- Reads the remaining letters of a word. -/
def word (letters : Text) (value : Value) : Text → Except Fault (Value × Text) :=
  go letters
where
  /-- Reads the letters that are still missing. -/
  go : Text → Text → Except Fault (Value × Text)
    | [], t => .ok (value, t)
    | _ :: _, [] => .error ⟨.endInValue, [], 0⟩
    | l :: ls, c :: t => if c = l then go ls t else .error ⟨.expectedWord, c :: t, 1⟩

theorem word_length {letters t rest : Text} {value v : Value}
    (h : word letters value t = .ok (v, rest)) : rest.length ≤ t.length := by
  unfold word at h
  induction letters generalizing t with
  | nil =>
    obtain ⟨-, rfl⟩ := by simpa [word.go] using h
    exact Nat.le_refl _
  | cons l ls ih =>
    cases t with
    | nil => simp [word.go] at h
    | cons c t =>
      unfold word.go at h
      split at h
      · exact Nat.le_succ_of_le (ih h)
      · simp at h

/-- Reads the items of a list from its first item on. -/
def items (one : Reader Value) (t : Text) : Except Fault (List Value × Text) :=
  match _hv : one.run t with
  | .error f => .error f
  | .ok (v, rest) =>
    match _hr : skipBlanks rest with
    | [] => .error ⟨.endInList, [], 0⟩
    | ']' :: after => .ok ([v], after)
    | ',' :: after =>
      match skipBlanks after with
      | [] => .error ⟨.endInValue, [], 0⟩
      | ']' :: _ => .error ⟨.trailingComma, skipBlanks after, 1⟩
      | _ =>
        match items one after with
        | .error f => .error f
        | .ok (vs, after) => .ok (v :: vs, after)
    | after => .error ⟨.expectedListEnd, after, 1⟩
termination_by t.length
decreasing_by
  have value := one.shorter _hv
  have blank := skipBlanks_length rest
  rw [_hr, List.length_cons] at blank
  omega

theorem items_length {one : Reader Value} {t rest : Text} {vs : List Value}
    (h : items one t = .ok (vs, rest)) : rest.length < t.length := by
  fun_induction items one t generalizing vs rest with
  | case3 t v mid hv after hr =>
    have value := one.shorter hv
    have blank := skipBlanks_length mid
    obtain ⟨-, rfl⟩ := by simpa using h
    rw [hr, List.length_cons] at blank
    omega
  | case7 t v mid hv after hr vs' after' heq _ _ ih =>
    have value := one.shorter hv
    have blank := skipBlanks_length mid
    have := ih heq
    obtain ⟨-, rfl⟩ := by simpa using h
    rw [hr, List.length_cons] at blank
    omega
  | _ => simp at h

/-- Reads one entry from its key on, whose opening quote has been seen. -/
def entry (one : Reader Value) (t : Text) : Except Fault ((Text × Value) × Text) :=
  match quoted t with
  | .error f => .error f
  | .ok (key, rest) =>
    match skipBlanks rest with
    | [] => .error ⟨.endInObject, [], 0⟩
    | ':' :: rest =>
      match one.run rest with
      | .error f => .error f
      | .ok (v, rest) => .ok ((key, v), rest)
    | c :: rest => .error ⟨.expectedColon, c :: rest, 1⟩

theorem entry_length {one : Reader Value} {t rest : Text} {e : Text × Value}
    (h : entry one t = .ok (e, rest)) : rest.length < t.length := by
  unfold entry at h
  split at h
  · simp at h
  · rename_i key rest' hq
    have := quoted_length hq
    have blank := skipBlanks_length rest'
    split at h
    · simp at h
    · rename_i heq
      rw [heq, List.length_cons] at blank
      split at h
      · simp at h
      · rename_i hv
        have := one.shorter hv
        obtain ⟨-, rfl⟩ := by simpa using h
        omega
    · simp at h

/-- Reads the entries of a mapping from the first key on, whose opening quote has been
seen. Entries are listed in reading order. -/
def entries (one : Reader Value) (t : Text) : Except Fault (List (Text × Value) × Text) :=
  match _he : entry one t with
  | .error f => .error f
  | .ok (e, rest) =>
    match _hr : skipBlanks rest with
    | [] => .error ⟨.endInObject, [], 0⟩
    | '\x7d' :: after => .ok ([e], after)
    | ',' :: after =>
      match _hk : skipBlanks after with
      | [] => .error ⟨.endInValue, [], 0⟩
      | '"' :: key =>
        match entries one key with
        | .error f => .error f
        | .ok (es, after) => .ok (e :: es, after)
      | '\x7d' :: _ => .error ⟨.trailingComma, skipBlanks after, 1⟩
      | _ => .error ⟨.keyNotString, skipBlanks after, 1⟩
    | after => .error ⟨.expectedObjectEnd, after, 1⟩
termination_by t.length
decreasing_by
  have value := entry_length _he
  have blank := skipBlanks_length rest
  have second := skipBlanks_length after
  rw [_hr, List.length_cons] at blank
  rw [_hk, List.length_cons] at second
  omega

theorem entries_length {one : Reader Value} {t rest : Text} {es : List (Text × Value)}
    (h : entries one t = .ok (es, rest)) : rest.length < t.length := by
  fun_induction entries one t generalizing es rest with
  | case3 t e mid he after hr =>
    have value := entry_length he
    have blank := skipBlanks_length mid
    obtain ⟨-, rfl⟩ := by simpa using h
    rw [hr, List.length_cons] at blank
    omega
  | case6 t e mid he after hr key hk es' after' heq ih =>
    have value := entry_length he
    have blank := skipBlanks_length mid
    have second := skipBlanks_length after
    have := ih heq
    obtain ⟨-, rfl⟩ := by simpa using h
    rw [hr, List.length_cons] at blank
    rw [hk, List.length_cons] at second
    omega
  | _ => simp at h

/-- The mapping of entries in reading order. -/
def mappingOf (es : List (Text × Value)) : Value :=
  .mapping (es.foldl (fun acc (k, v) => Value.insertEntry k v acc) [])

/-- Reads the rest of a list after its opening bracket. -/
def listBody (one : Reader Value) (t : Text) : Except Fault (Value × Text) :=
  match skipBlanks t with
  | [] => .error ⟨.endInList, [], 0⟩
  | ']' :: rest => .ok (.list [], rest)
  | _ => (items one t).map fun (vs, rest) => (.list vs, rest)

/-- Reads the rest of a mapping after its opening brace. -/
def mappingBody (one : Reader Value) (t : Text) : Except Fault (Value × Text) :=
  match skipBlanks t with
  | [] => .error ⟨.endInObject, [], 0⟩
  | '\x7d' :: rest => .ok (.mapping [], rest)
  | '"' :: rest => (entries one rest).map fun (es, rest) => (mappingOf es, rest)
  | rest => .error ⟨.keyNotString, rest, 1⟩

theorem listBody_length {one : Reader Value} {t rest : Text} {v : Value}
    (h : listBody one t = .ok (v, rest)) : rest.length < t.length := by
  have blank := skipBlanks_length t
  unfold listBody at h
  split at h
  · simp at h
  · rename_i heq
    obtain ⟨-, rfl⟩ := by simpa using h
    rw [heq, List.length_cons] at blank
    omega
  · cases hi : items one t with
    | error f => simp [hi, Except.map] at h
    | ok a =>
      obtain ⟨vs, rest'⟩ := a
      obtain ⟨-, rfl⟩ := by simpa [hi, Except.map] using h
      exact items_length hi

theorem mappingBody_length {one : Reader Value} {t rest : Text} {v : Value}
    (h : mappingBody one t = .ok (v, rest)) : rest.length < t.length := by
  have blank := skipBlanks_length t
  unfold mappingBody at h
  split at h
  · simp at h
  · rename_i heq
    obtain ⟨-, rfl⟩ := by simpa using h
    rw [heq, List.length_cons] at blank
    omega
  · rename_i key heq
    rw [heq, List.length_cons] at blank
    cases hi : entries one key with
    | error f => simp [hi, Except.map] at h
    | ok a =>
      obtain ⟨es, rest'⟩ := a
      obtain ⟨-, rfl⟩ := by simpa [hi, Except.map] using h
      have := entries_length hi
      omega
  · simp at h

/-- Reads a value at its first character. Lists and mappings are read by the two readers
that are given. -/
def valueAt (list mapping : Text → Except Fault (Value × Text)) (t : Text) :
    Except Fault (Value × Text) :=
  match t with
  | [] => .error ⟨.endInValue, [], 0⟩
  | 'n' :: rest => word "ull".toList .null rest
  | 't' :: rest => word "rue".toList (.bool true) rest
  | 'f' :: rest => word "alse".toList (.bool false) rest
  | '"' :: rest => (quoted rest).map fun (s, rest) => (.text s, rest)
  | '[' :: rest => list rest
  | '\x7b' :: rest => mapping rest
  | c :: rest =>
    if c == '-' || c.isDigit then
      (number (c :: rest)).map fun (numeral, rest) => (.text numeral, rest)
    else .error ⟨.expectedValue, c :: rest, 1⟩

/-- A reader that leaves less source whenever the readers of lists and mappings do. -/
theorem valueAt_length {list mapping : Text → Except Fault (Value × Text)}
    (hl : ∀ {t rest : Text} {v : Value}, list t = .ok (v, rest) → rest.length ≤ t.length)
    (hm : ∀ {t rest : Text} {v : Value}, mapping t = .ok (v, rest) → rest.length ≤ t.length)
    {t rest : Text} {v : Value} (h : valueAt list mapping t = .ok (v, rest)) :
    rest.length < t.length := by
  unfold valueAt at h
  split at h
  · simp at h
  · exact Nat.lt_succ_of_le (word_length h)
  · exact Nat.lt_succ_of_le (word_length h)
  · exact Nat.lt_succ_of_le (word_length h)
  · rename_i t
    cases hq : quoted t with
    | error f => simp [hq, Except.map] at h
    | ok a =>
      obtain ⟨s, rest'⟩ := a
      obtain ⟨-, rfl⟩ := by simpa [hq, Except.map] using h
      exact Nat.lt_succ_of_lt (quoted_length hq)
  · exact Nat.lt_succ_of_le (hl h)
  · exact Nat.lt_succ_of_le (hm h)
  · rename_i c t _ _ _ _ _ _
    split at h
    · cases hn : number (c :: t) with
      | error f => simp [hn, Except.map] at h
      | ok a =>
        obtain ⟨s, rest'⟩ := a
        obtain ⟨-, rfl⟩ := by simpa [hn, Except.map] using h
        exact number_length hn
    · simp at h

/-- Refuses a container that is nested too deep. -/
def tooDeep (opening : Char) (t : Text) : Except Fault (Value × Text) :=
  .error ⟨.tooDeep, opening :: t, 1⟩

/-- Reads a value below which so many containers may still be opened. -/
def value : (depth : Nat) → Reader Value
  | 0 =>
    { run := fun t => valueAt (tooDeep '[') (tooDeep '\x7b') (skipBlanks t)
      shorter := fun h => Nat.lt_of_lt_of_le (valueAt_length (by simp [tooDeep])
        (by simp [tooDeep]) h) (skipBlanks_length _) }
  | depth + 1 =>
    { run := fun t =>
        valueAt (listBody (value depth)) (mappingBody (value depth)) (skipBlanks t)
      shorter := fun h => Nat.lt_of_lt_of_le (valueAt_length
        (fun h => Nat.le_of_lt (listBody_length h))
        (fun h => Nat.le_of_lt (mappingBody_length h)) h) (skipBlanks_length _) }

/-- The value that a whole text spells. -/
def read (t : Text) : Except Fault Value :=
  match (value maxDepth).run t with
  | .error f => .error f
  | .ok (v, rest) =>
    match skipBlanks rest with
    | [] => .ok v
    | rest => .error ⟨.trailingCharacters, rest, 1⟩

end HtmlTemplate.Json
