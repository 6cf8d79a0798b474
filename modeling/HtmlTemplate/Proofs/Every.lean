import HtmlTemplate.Proofs.Rules

/-!
# What holds at every depth

Conditions on the tags and the comments of a forest at every depth, and the forest with no
mark of a seal left. Every operation of the expansion that moves subtrees keeps the former
and can be followed without the latter.
-/
namespace HtmlTemplate.Forest

/-- The forest with no element sealed, at any depth. -/
def unsealed : Forest → Forest
  | nil => nil
  | element tag _ children rest => element tag false children.unsealed rest.unsealed
  | text content rest => text content rest.unsealed
  | comment body rest => comment body rest.unsealed
  | declaration raw rest => declaration raw rest.unsealed

/-- Every tag satisfies the first condition and every comment the second one, sealed or
not. -/
def Every (p : Tag → Prop) (q : Text → Prop) : Forest → Prop
  | nil => True
  | element tag _ children rest => p tag ∧ children.Every p q ∧ rest.Every p q
  | text _ rest => rest.Every p q
  | comment body rest => q body ∧ rest.Every p q
  | declaration _ rest => rest.Every p q

attribute [local simp] unsealed

variable {p : Tag → Prop} {q : Text → Prop}

theorem every_iff_obeys {f : Forest} :
    f.Every p q ↔ f.Obeys ⟨fun tag _ => p tag, fun _ => True, q, fun _ => True⟩ := by
  induction f with
  | nil => rfl
  | element tag s children rest ihc ihr => simp only [Every, Obeys, ihc, ihr]
  | comment body rest ih => simp only [Every, Obeys, ih]
  | text content rest ih | declaration raw rest ih => simp only [Every, Obeys, ih, true_and]

@[simp] theorem every_append {f g : Forest} : (f ++ g).Every p q ↔ f.Every p q ∧ g.Every p q := by
  simp only [every_iff_obeys, obeys_append]

@[simp] theorem every_unsealed {f : Forest} : f.unsealed.Every p q ↔ f.Every p q := by
  induction f with
  | nil => rfl
  | element tag s children rest ihc ihr => simp only [unsealed, Every, ihc, ihr]
  | comment body rest ih => simp only [unsealed, Every, ih]
  | text content rest ih | declaration raw rest ih => simpa only [unsealed, Every] using ih

theorem Every.trim {f : Forest} (h : f.Every p q) : f.trim.Every p q :=
  every_iff_obeys.mpr (every_iff_obeys.mp h).trim

theorem Every.fillSlot {slot body : Forest} (hs : slot.Every p q) (hb : body.Every p q) :
    (Expansion.fillSlot slot body).Every p q := by
  rw [every_iff_obeys] at hs hb ⊢
  exact hs.fillSlot hb fun _ _ _ ht _ => ht

@[simp] theorem unsealed_append (f g : Forest) : (f ++ g).unsealed = f.unsealed ++ g.unsealed := by
  induction f with
  | nil => rfl
  | element tag s children rest _ ih => simp [ih]
  | text content rest ih | comment body rest ih | declaration raw rest ih => simp [ih]

@[simp] theorem unsealed_unsealed (f : Forest) : f.unsealed.unsealed = f.unsealed := by
  induction f with
  | nil => rfl
  | element tag s children rest ihc ihr => simp only [unsealed, ihc, ihr]
  | text content rest ih | comment body rest ih | declaration raw rest ih =>
    simp only [unsealed, ih]

@[simp] theorem unsealed_sealTop (f : Forest) : f.sealTop.unsealed = f.unsealed := by
  induction f with
  | nil => rfl
  | element tag s children rest _ ih => simp [sealTop, ih]
  | text content rest ih | comment body rest ih | declaration raw rest ih =>
    simp [sealTop, ih]

@[simp] theorem unsealed_eq_nil_iff {f : Forest} : f.unsealed = nil ↔ f = nil := by
  cases f <;> simp

theorem unsealed_trimStart (f : Forest) : f.trimStart.unsealed = f.unsealed.trimStart := by
  induction f with
  | text content rest ih =>
    simp only [unsealed, trimStart]
    split
    · exact ih
    · rfl
  | _ => rfl

theorem unsealed_trimEnd (f : Forest) : f.trimEnd.unsealed = f.unsealed.trimEnd := by
  induction f with
  | nil => rfl
  | element tag s children rest _ ih => simp only [unsealed, trimEnd, ih]
  | comment body rest ih | declaration raw rest ih => simp only [unsealed, trimEnd, ih]
  | text content rest ih =>
    simp only [unsealed, trimEnd, ← ih, unsealed_eq_nil_iff]
    split
    · rfl
    · rfl

theorem unsealed_trim (f : Forest) : f.trim.unsealed = f.unsealed.trim := by
  rw [trim, trim, unsealed_trimStart, unsealed_trimEnd]

/-- Where the choice looks at tags only, seals do not matter to it. -/
theorem unsealed_replaceFirst? (choice : Tag → Bool) (new f : Forest) :
    (f.replaceFirst? (fun e => choice e.tag) fun _ => new).map unsealed
      = f.unsealed.replaceFirst? (fun e => choice e.tag) fun _ => new.unsealed := by
  induction f with
  | nil => rfl
  | element tag s children rest ihc ihr =>
    simp only [unsealed, replaceFirst?, ← ihc, ← ihr]
    split
    · simp
    · cases children.replaceFirst? (fun e => choice e.tag) fun _ => new with
      | some inner => rfl
      | none => simp [Function.comp_def]
  | text content rest ih | comment body rest ih | declaration raw rest ih =>
    simp [replaceFirst?, ← ih, Function.comp_def]

theorem unsealed_fillSlot (slot body : Forest) :
    (Expansion.fillSlot slot body).unsealed = Expansion.fillSlot slot.unsealed body.unsealed := by
  have h := unsealed_replaceFirst? (·.name == slotTag) slot body
  unfold Expansion.fillSlot
  rw [← h]
  cases body.replaceFirst? (·.tag.name == slotTag) fun _ => slot <;> rfl

/-- Seals are not written. -/
theorem print_unsealed (f : Forest) : f.unsealed.print = f.print := by
  induction f with
  | nil => rfl
  | element tag s children rest ihc ihr => simp only [unsealed, print, ihc, ihr]
  | text content rest ih | comment body rest ih | declaration raw rest ih =>
    simp only [unsealed, print, ih]

theorem unsealed_children_find? {choice : Element → Bool} {f : Forest} {e : Element}
    (h : f.unsealed = f) (he : f.find? choice = some e) :
    e.children.unsealed = e.children := by
  induction f with
  | nil => simp [Forest.find?] at he
  | element tag s children rest ihc ihr =>
    obtain ⟨-, hc, hr⟩ := by simpa using h
    simp only [Forest.find?] at he
    split at he
    · obtain rfl := by simpa using he
      exact hc
    · rcases Option.or_eq_some_iff.mp he with he | ⟨-, he⟩
      · exact ihc hc he
      · exact ihr hr he
  | text content rest ih | comment body rest ih | declaration raw rest ih =>
    exact ih (by simpa using h) he

end HtmlTemplate.Forest
