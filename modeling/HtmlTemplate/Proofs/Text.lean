import HtmlTemplate.Text
import Mathlib

/-!
# Runs, letter case and first occurrences

Where a run of characters of one class ends, which texts lower case leaves alone, and what
a cut at a mark says about the part before it.
-/
namespace HtmlTemplate.Text

section Runs

variable {p : Char → Bool} {run rest : Text}

theorem takeWhile_run (hp : ∀ c ∈ run, p c) (stop : ∀ c ∈ rest.head?, p c = false) :
    (run ++ rest).takeWhile p = run := by
  rw [List.takeWhile_append_of_pos hp]
  cases rest with
  | nil => rw [List.takeWhile_nil, List.append_nil]
  | cons c rest =>
    have hc : p c = false := stop c (by simp)
    rw [List.takeWhile_cons_of_neg (by simp [hc]), List.append_nil]

theorem dropWhile_run (hp : ∀ c ∈ run, p c) (stop : ∀ c ∈ rest.head?, p c = false) :
    (run ++ rest).dropWhile p = rest := by
  rw [List.dropWhile_append_of_pos hp]
  cases rest with
  | nil => rfl
  | cons c rest =>
    have hc : p c = false := stop c (by simp)
    rw [List.dropWhile_cons_of_neg (by simp [hc])]

theorem dropWhile_append_stop (stop : ∀ c ∈ rest.head?, p c = false) (t : Text) :
    (t ++ rest).dropWhile p = t.dropWhile p ++ rest := by
  rw [List.dropWhile_append]
  split
  · rename_i all
    rw [List.isEmpty_iff.mp all, List.nil_append]
    exact @dropWhile_run p [] rest (by simp) stop
  · rfl

theorem dropWhile_append_ne_nil {t : Text} (h : t.dropWhile p ≠ []) (rest : Text) :
    (t ++ rest).dropWhile p = t.dropWhile p ++ rest := by
  rw [List.dropWhile_append, if_neg (by simpa using h)]

theorem of_mem_takeWhile {t : Text} {c : Char} (h : c ∈ t.takeWhile p) : p c :=
  List.all_eq_true.mp List.all_takeWhile c h

theorem not_mem_takeWhile_ne (c : Char) (t : Text) : c ∉ t.takeWhile (· != c) := by
  intro h
  simpa using of_mem_takeWhile h

/-- A text is cut at the first place of a character, unless it does not hold that character. -/
theorem dropWhile_ne_cases (c : Char) (t : Text) :
    (c ∉ t ∧ t.takeWhile (· != c) = t ∧ t.dropWhile (· != c) = []) ∨
      ∃ rest, t.dropWhile (· != c) = c :: rest ∧ t = t.takeWhile (· != c) ++ c :: rest := by
  have whole := List.takeWhile_append_dropWhile (p := (· != c)) (l := t)
  cases hd : t.dropWhile (· != c) with
  | nil =>
    rw [hd, List.append_nil] at whole
    exact .inl ⟨whole ▸ not_mem_takeWhile_ne c t, whole, rfl⟩
  | cons d rest =>
    have stop := List.head?_dropWhile_not (· != c) t
    rw [hd] at stop whole
    obtain rfl : d = c := by simpa using stop
    exact .inr ⟨rest, rfl, whole.symm⟩

theorem takeWhile_ne_append {c : Char} {t : Text} (h : c ∉ t) (rest : Text) :
    (t ++ c :: rest).takeWhile (· != c) = t := by
  apply takeWhile_run
  · intro d hd
    rw [bne_iff_ne]
    rintro rfl
    exact h hd
  · simp

theorem dropWhile_ne_append {c : Char} {t : Text} (h : c ∉ t) (rest : Text) :
    (t ++ c :: rest).dropWhile (· != c) = c :: rest := by
  apply dropWhile_run
  · intro d hd
    rw [bne_iff_ne]
    rintro rfl
    exact h hd
  · simp

end Runs

theorem not_isUpper_of_isDigit {c : Char} (h : c.isDigit) : c.isUpper = false := by
  simp only [Char.isDigit, Char.isUpper, Bool.and_eq_true, decide_eq_true_eq,
    decide_eq_false_iff_not] at *
  grind

theorem lowercase_eq_self {t : Text} (h : ∀ c ∈ t, c.isUpper = false) : t.lowercase = t := by
  have fixed : ∀ c ∈ t, c.toLower = id c := fun c hc =>
    Char.toLower_eq_of_not_isUpper (by simp [h c hc])
  rw [lowercase, List.map_congr_left fixed, List.map_id]

theorem eq_of_toLower {c d : Char} (hd : d.isLower = false) (h : c.toLower = d) : c = d := by
  by_cases hu : c.isUpper
  · have lower : c.toLower.isLower := by simp [Char.isAlpha, hu]
    rw [h, hd] at lower
    exact absurd lower (by decide)
  · rwa [Char.toLower_eq_of_not_isUpper hu] at h

theorem stripStart?_isSome {start t : Text} : (stripStart? start t).isSome ↔ start <+: t := by
  constructor
  · intro h
    obtain ⟨rest, hr⟩ := Option.isSome_iff_exists.mp h
    exact ⟨rest, (stripStart?_eq_some.mp hr).symm⟩
  · rintro ⟨rest, rfl⟩
    rw [stripStart?_eq_some.mpr rfl]
    rfl

theorem not_infix_of_cutAt? {mark t before after : Text} (hm : mark ≠ [])
    (h : cutAt? mark t = some (before, after)) : ¬mark <:+: before := by
  induction t generalizing before with
  | nil => simp [cutAt?] at h
  | cons c t ih =>
    have whole := eq_append_of_cutAt? h
    unfold cutAt? at h
    split at h
    · obtain ⟨rfl, -⟩ := by simpa using h
      simpa using hm
    · rename_i here
      obtain ⟨⟨b, a⟩, hcut, hb⟩ := Option.map_eq_some_iff.mp h
      obtain ⟨rfl, rfl⟩ := by simpa using hb
      intro found
      rcases List.infix_cons_iff.mp found with first | later
      · have : (stripStart? mark (c :: t)).isSome := by
          rw [stripStart?_isSome, whole, List.append_assoc]
          exact first.trans (List.prefix_append _ _)
        simp [here] at this
      · exact ih hcut later

theorem not_infix_of_cutAt?_none {mark t : Text} (hm : mark ≠ [])
    (h : cutAt? mark t = none) : ¬mark <:+: t := by
  induction t with
  | nil => simpa using hm
  | cons c t ih =>
    unfold cutAt? at h
    split at h
    · simp at h
    · rename_i here
      have rest := ih (by simpa using h)
      intro found
      rcases List.infix_cons_iff.mp found with first | later
      · have := stripStart?_isSome.mpr first
        simp [here] at this
      · exact rest later
end HtmlTemplate.Text
