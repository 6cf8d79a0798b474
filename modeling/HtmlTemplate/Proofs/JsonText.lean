import HtmlTemplate.Json.Reading
import Mathlib.Data.List.Basic

/-!
# JSON text read back

A value is written as JSON text and read from it. Main result: a value that is not nested
deeper than the reader goes is read back as it was.
-/
namespace HtmlTemplate

namespace Value

/-- In every mapping of the value, the entries are in the order of their keys, each key once. -/
inductive IsOrdered : Value → Prop
  | null : IsOrdered null
  | bool (b : Bool) : IsOrdered (bool b)
  | text (content : Text) : IsOrdered (text content)
  | list {items : List Value} : (∀ v ∈ items, IsOrdered v) → IsOrdered (list items)
  | mapping {entries : List (Text × Value)} : (entries.map (·.1)).Pairwise (· < ·) →
      (∀ e ∈ entries, IsOrdered e.2) → IsOrdered (mapping entries)

mutual

/-- How many containers stand in each other at the deepest place of the value. -/
def depth : Value → Nat
  | list items => itemsDepth items + 1
  | mapping entries => entriesDepth entries + 1
  | _ => 0
termination_by structural v => v

/-- The greatest depth of an item. -/
def itemsDepth : List Value → Nat
  | [] => 0
  | v :: vs => max v.depth (itemsDepth vs)
termination_by structural vs => vs

/-- The greatest depth of the value of an entry. -/
def entriesDepth : List (Text × Value) → Nat
  | [] => 0
  | (_, v) :: es => max v.depth (entriesDepth es)
termination_by structural es => es

end

theorem depth_le_itemsDepth {items : List Value} {v : Value} (h : v ∈ items) :
    v.depth ≤ itemsDepth items := by
  induction items with
  | nil => simp at h
  | cons first items ih =>
    rw [itemsDepth]
    rcases List.mem_cons.mp h with rfl | h
    · omega
    · have := ih h
      omega

theorem depth_le_entriesDepth {entries : List (Text × Value)} {e : Text × Value}
    (h : e ∈ entries) : e.2.depth ≤ entriesDepth entries := by
  induction entries with
  | nil => simp at h
  | cons first entries ih =>
    rw [entriesDepth]
    rcases List.mem_cons.mp h with rfl | h
    · omega
    · have := ih h
      omega

/-- An entry whose key comes after all others stays the last one. -/
theorem insertEntry_of_lt {key : Text} {value : Value} {entries : List (Text × Value)}
    (h : ∀ e ∈ entries, e.1 < key) : insertEntry key value entries = entries ++ [(key, value)] := by
  induction entries with
  | nil => rfl
  | cons e entries ih =>
    obtain ⟨before, later⟩ := List.forall_mem_cons.mp h
    have not_before : ¬key < e.1 := List.lt_asymm before
    have other : key ≠ e.1 := by
      rintro rfl
      exact not_before before
    rw [insertEntry, if_neg other, if_neg not_before, ih later, List.cons_append]

end Value

namespace Json

open Value (jsonForm jsonString jsonItems jsonEntries)

/-! ### Strings -/

theorem hexDigits_of_lt : ∀ n < 0x20,
    let digits := ['0', '0', Value.hexDigit (n / 16), Value.hexDigit (n % 16)]
    digits.all Text.Entity.isHexDigit ∧ Text.Entity.ofDigits 16 digits = n := by
  decide

/-- A control character is read back from its code point. -/
theorem escape_codePoint {c : Char} (h : c.toNat < 0x20) (rest : Text) :
    escape ('u' :: '0' :: '0' :: Value.hexDigit (c.toNat / 16) :: Value.hexDigit (c.toNat % 16)
      :: rest) = .ok (c, rest) := by
  obtain ⟨hex, spelled⟩ := hexDigits_of_lt c.toNat h
  have digits : hexEscape ('0' :: '0' :: Value.hexDigit (c.toNat / 16)
      :: Value.hexDigit (c.toNat % 16) :: rest) = .ok (c.toNat, rest) := by
    rw [hexEscape, if_pos hex, spelled]
  have trailing : ¬(0xDC00 ≤ c.toNat ∧ c.toNat ≤ 0xDFFF) := by omega
  have leading : ¬(0xD800 ≤ c.toNat ∧ c.toNat ≤ 0xDBFF) := by omega
  have plain : fromEscape c.toNat rest = .ok (c, rest) := by
    unfold fromEscape
    rw [if_neg trailing, if_neg leading, Char.ofNat_toNat]
  simp only [escape, digits, plain]

theorem nextChar_jsonForm (c : Char) (rest : Text) :
    nextChar (jsonForm c ++ rest) = .ok (some c, rest) := by
  unfold jsonForm
  split
  · rfl
  · rfl
  · rfl
  · rfl
  · rfl
  · rfl
  · rfl
  · split
    · rename_i control
      simp only [List.cons_append, List.nil_append, nextChar, escape_codePoint control]
    · rename_i quote backslash _ _ _ _ _ printed
      rw [List.singleton_append, nextChar]
      · rw [if_neg printed]
      · exact quote
      · exact backslash

theorem quoted_of_nextChar {t rest s after : Text} {c : Char}
    (hc : nextChar t = .ok (some c, rest)) (hs : quoted rest = .ok (s, after)) :
    quoted t = .ok (c :: s, after) := by
  unfold quoted
  split
  · simp_all
  · simp_all
  · simp_all

theorem quoted_quote (rest : Text) : quoted ('"' :: rest) = .ok ([], rest) := by
  unfold quoted
  split <;> simp_all [nextChar]

theorem quoted_flatMap (t rest : Text) :
    quoted (t.flatMap jsonForm ++ '"' :: rest) = .ok (t, rest) := by
  induction t with
  | nil => exact quoted_quote rest
  | cons c t ih =>
    rw [List.flatMap_cons, List.append_assoc]
    exact quoted_of_nextChar (nextChar_jsonForm c _) ih

/-! ### Blanks -/

theorem skipBlanks_cons {c : Char} (h : isBlank c = false) (t : Text) :
    skipBlanks (c :: t) = c :: t := by
  rw [skipBlanks, List.dropWhile_cons_of_neg (by simp [h])]

/-- No value begins with a blank or with the end of a list. -/
theorem exists_json_eq_cons (v : Value) :
    ∃ c t, v.json = c :: t ∧ isBlank c = false ∧ c ≠ ']' := by
  cases v with
  | null => exact ⟨_, _, rfl, by decide, by decide⟩
  | bool b => cases b <;> exact ⟨_, _, rfl, by decide, by decide⟩
  | text content => exact ⟨_, _, rfl, by decide, by decide⟩
  | list items => cases items <;> exact ⟨_, _, rfl, by decide, by decide⟩
  | mapping entries => cases entries <;> exact ⟨_, _, rfl, by decide, by decide⟩

theorem skipBlanks_json (v : Value) (rest : Text) :
    skipBlanks (v.json ++ rest) = v.json ++ rest := by
  obtain ⟨c, t, hv, hc, -⟩ := exists_json_eq_cons v
  rw [hv, List.cons_append, skipBlanks_cons hc]

/-! ### Lists and mappings -/

/-- The reader gives the value back whatever follows its text. -/
def ReadsBack (one : Reader Value) (v : Value) : Prop :=
  ∀ rest, one.run (v.json ++ rest) = .ok (v, rest)

variable {one : Reader Value}

theorem items_of_end {t rest : Text} {v : Value} (hv : one.run t = .ok (v, ']' :: rest)) :
    items one t = .ok ([v], rest) := by
  have close : skipBlanks (']' :: rest) = ']' :: rest := skipBlanks_cons (by decide) rest
  fun_cases items one t <;> simp_all

theorem items_of_comma {t after rest : Text} {v : Value} {vs : List Value}
    (hv : one.run t = .ok (v, ',' :: after))
    (begins : ∃ c more, skipBlanks after = c :: more ∧ c ≠ ']')
    (hs : items one after = .ok (vs, rest)) : items one t = .ok (v :: vs, rest) := by
  have comma : skipBlanks (',' :: after) = ',' :: after := skipBlanks_cons (by decide) after
  fun_cases items one t <;> simp_all

theorem items_json {v : Value} {vs : List Value} (h : ∀ w ∈ v :: vs, ReadsBack one w)
    (rest : Text) : items one (v.json ++ (jsonItems vs ++ rest)) = .ok (v :: vs, rest) := by
  induction vs generalizing v with
  | nil => exact items_of_end (h v List.mem_cons_self _)
  | cons w vs ih =>
    obtain ⟨first, others⟩ := List.forall_mem_cons.mp h
    have here := first (jsonItems (w :: vs) ++ rest)
    rw [jsonItems, List.append_assoc, List.cons_append] at here ⊢
    refine items_of_comma here ?_ (ih others)
    obtain ⟨c, t, hw, hc, hne⟩ := exists_json_eq_cons w
    rw [hw, List.cons_append, skipBlanks_cons hc]
    exact ⟨c, _, rfl, hne⟩

theorem entry_json {v : Value} (h : ReadsBack one v) (key rest : Text) :
    entry one (key.flatMap jsonForm ++ '"' :: ':' :: (v.json ++ rest))
      = .ok ((key, v), rest) := by
  have colon : skipBlanks (':' :: (v.json ++ rest)) = ':' :: (v.json ++ rest) :=
    skipBlanks_cons (by decide) _
  unfold entry
  simp only [quoted_flatMap, colon, h rest]

theorem entries_of_end {t rest : Text} {e : Text × Value}
    (he : entry one t = .ok (e, '\x7d' :: rest)) : entries one t = .ok ([e], rest) := by
  have close : skipBlanks ('\x7d' :: rest) = '\x7d' :: rest := skipBlanks_cons (by decide) rest
  fun_cases entries one t <;> simp_all

theorem entries_of_comma {t after key rest : Text} {e : Text × Value} {es : List (Text × Value)}
    (he : entry one t = .ok (e, ',' :: after)) (hk : skipBlanks after = '"' :: key)
    (hs : entries one key = .ok (es, rest)) : entries one t = .ok (e :: es, rest) := by
  have comma : skipBlanks (',' :: after) = ',' :: after := skipBlanks_cons (by decide) after
  fun_cases entries one t <;> simp_all

theorem entries_json {key : Text} {v : Value} {es : List (Text × Value)}
    (h : ∀ e ∈ (key, v) :: es, ReadsBack one e.2) (rest : Text) :
    entries one (key.flatMap jsonForm ++ '"' :: ':' :: (v.json ++ (jsonEntries es ++ rest)))
      = .ok ((key, v) :: es, rest) := by
  induction es generalizing key v with
  | nil => exact entries_of_end (entry_json (h _ List.mem_cons_self) key _)
  | cons e es ih =>
    obtain ⟨next, w⟩ := e
    obtain ⟨first, others⟩ := List.forall_mem_cons.mp h
    have written : jsonEntries ((next, w) :: es) ++ rest = ',' :: '"' ::
        (next.flatMap jsonForm ++ '"' :: ':' :: (w.json ++ (jsonEntries es ++ rest))) := by
      simp [jsonEntries, jsonString]
    rw [written]
    exact entries_of_comma (entry_json first key _) (skipBlanks_cons (by decide) _) (ih others)

/-- Entries in the order of their keys are put together as they are. -/
theorem foldl_insertEntry {before after : List (Text × Value)}
    (h : ((before ++ after).map (·.1)).Pairwise (· < ·)) :
    after.foldl (fun acc (k, v) => Value.insertEntry k v acc) before = before ++ after := by
  induction after generalizing before with
  | nil => rw [List.foldl_nil, List.append_nil]
  | cons e after ih =>
    obtain ⟨key, v⟩ := e
    have earlier : ∀ d ∈ before, d.1 < key := by
      rw [List.map_append, List.pairwise_append] at h
      intro d hd
      exact h.2.2 d.1 (List.mem_map_of_mem hd) key (by simp)
    rw [List.append_cons] at h ⊢
    rw [← ih h, ← Value.insertEntry_of_lt earlier]
    rfl

/-! ### Values -/

variable {list mapping : Text → Except Fault (Value × Text)}

theorem valueAt_scalar {v : Value} (h : v.depth = 0) (rest : Text) :
    valueAt list mapping (v.json ++ rest) = .ok (v, rest) := by
  cases v with
  | null => rfl
  | bool b => cases b <;> rfl
  | text content =>
    have written : (Value.text content).json ++ rest
        = '"' :: (content.flatMap jsonForm ++ '"' :: rest) := by
      simp [Value.json, jsonString]
    rw [written, valueAt, quoted_flatMap]
    rfl
  | list items => simp [Value.depth] at h
  | mapping entries => simp [Value.depth] at h

theorem valueAt_list {vs : List Value} (h : ∀ v ∈ vs, ReadsBack one v) (rest : Text) :
    valueAt (listBody one) mapping ((Value.list vs).json ++ rest) = .ok (.list vs, rest) := by
  cases vs with
  | nil => rfl
  | cons v vs =>
    have read := items_json h rest
    obtain ⟨c, t, hv, hc, hne⟩ := exists_json_eq_cons v
    rw [Value.json, List.append_assoc, List.cons_append, valueAt, listBody, skipBlanks_json, read]
    rw [hv, List.cons_append]
    split <;> simp_all [Except.map]

theorem valueAt_mapping {es : List (Text × Value)} (h : ∀ e ∈ es, ReadsBack one e.2)
    (keys : (es.map (·.1)).Pairwise (· < ·)) (rest : Text) :
    valueAt list (mappingBody one) ((Value.mapping es).json ++ rest)
      = .ok (.mapping es, rest) := by
  cases es with
  | nil => rfl
  | cons e es =>
    obtain ⟨key, v⟩ := e
    have written : (Value.mapping ((key, v) :: es)).json ++ rest = '\x7b' :: '"' ::
        (key.flatMap jsonForm ++ '"' :: ':' :: (v.json ++ (jsonEntries es ++ rest))) := by
      simp [Value.json, jsonString]
    rw [written, valueAt, mappingBody, skipBlanks_cons (by decide)]
    simp only [entries_json h rest, Except.map, mappingOf]
    rw [foldl_insertEntry keys, List.nil_append]

/-- A value that is not nested deeper than the reader goes is read back, whatever follows. -/
theorem readsBack {v : Value} (ordered : v.IsOrdered) {depth : Nat} (h : v.depth ≤ depth) :
    ReadsBack (value depth) v := by
  -- A container takes one level, and its parts are read with the levels that are left.
  induction depth generalizing v with
  | zero =>
    intro rest
    show valueAt _ _ (skipBlanks (v.json ++ rest)) = .ok (v, rest)
    rw [skipBlanks_json]
    exact valueAt_scalar (Nat.le_zero.mp h) rest
  | succ depth ih =>
    intro rest
    show valueAt _ _ (skipBlanks (v.json ++ rest)) = .ok (v, rest)
    rw [skipBlanks_json]
    cases ordered with
    | list each =>
      rw [Value.depth] at h
      refine valueAt_list ?_ rest
      intro w hw
      have := Value.depth_le_itemsDepth hw
      exact ih (each w hw) (by omega)
    | mapping keys each =>
      rw [Value.depth] at h
      refine valueAt_mapping ?_ keys rest
      intro e he
      have := Value.depth_le_entriesDepth he
      exact ih (each e he) (by omega)
    | null | bool | text => exact valueAt_scalar rfl rest

/-- The text of a value is read as that value. -/
theorem read_json {v : Value} (ordered : v.IsOrdered) (h : v.depth ≤ maxDepth) :
    read v.json = .ok v := by
  have whole := readsBack ordered h []
  rw [List.append_nil] at whole
  unfold read
  rw [whole]
  rfl

end Json

end HtmlTemplate
