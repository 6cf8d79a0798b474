import HtmlTemplate.Expansion

/-!
# Rules for nodes

A rule looks at one node, at whatever depth it stands and sealed or not. The operations that
move subtrees keep every rule that says nothing of an element's children; any other rule must
allow for the change of the children that the operation makes.
-/
namespace HtmlTemplate.Forest

/-- What is asked of an element, by its tag and its children, and of every other node. -/
structure Rules where
  element : Tag → (children : Forest) → Prop
  text : Text → Prop
  comment : Text → Prop
  declaration : Text → Prop

/-- Both rules at every node. -/
def Rules.and (r r' : Rules) : Rules where
  element tag children := r.element tag children ∧ r'.element tag children
  text content := r.text content ∧ r'.text content
  comment body := r.comment body ∧ r'.comment body
  declaration raw := r.declaration raw ∧ r'.declaration raw

def Obeys (r : Rules) : Forest → Prop
  | nil => True
  | element tag _ children rest => r.element tag children ∧ children.Obeys r ∧ rest.Obeys r
  | text content rest => r.text content ∧ rest.Obeys r
  | comment body rest => r.comment body ∧ rest.Obeys r
  | declaration raw rest => r.declaration raw ∧ rest.Obeys r

/-- Rules that can be checked at one node can be checked at all of them. -/
def Obeys.decide {r : Rules} (he : ∀ tag children, Decidable (r.element tag children))
    (ht : DecidablePred r.text) (hc : DecidablePred r.comment)
    (hd : DecidablePred r.declaration) : (f : Forest) → Decidable (f.Obeys r)
  | nil => .isTrue trivial
  | element _ _ children rest =>
    have := decide he ht hc hd children
    have := decide he ht hc hd rest
    inferInstanceAs (Decidable (_ ∧ _ ∧ _))
  | text _ rest | comment _ rest | declaration _ rest =>
    have := decide he ht hc hd rest
    inferInstanceAs (Decidable (_ ∧ _))

variable {r r' : Rules}

theorem Obeys.and {f : Forest} (h : f.Obeys r) (h' : f.Obeys r') : f.Obeys (r.and r') := by
  induction f with
  | nil => trivial
  | element tag s children rest ihc ihr =>
    exact ⟨⟨h.1, h'.1⟩, ihc h.2.1 h'.2.1, ihr h.2.2 h'.2.2⟩
  | text content rest ih | comment body rest ih | declaration raw rest ih =>
    exact ⟨⟨h.1, h'.1⟩, ih h.2 h'.2⟩

theorem Obeys.mono {f : Forest} (h : f.Obeys r)
    (he : ∀ tag children, r.element tag children → r'.element tag children)
    (ht : ∀ content, r.text content → r'.text content)
    (hc : ∀ body, r.comment body → r'.comment body)
    (hd : ∀ raw, r.declaration raw → r'.declaration raw) : f.Obeys r' := by
  induction f with
  | nil => trivial
  | element tag s children rest ihc ihr => exact ⟨he _ _ h.1, ihc h.2.1, ihr h.2.2⟩
  | text content rest ih => exact ⟨ht _ h.1, ih h.2⟩
  | comment body rest ih => exact ⟨hc _ h.1, ih h.2⟩
  | declaration raw rest ih => exact ⟨hd _ h.1, ih h.2⟩

@[simp] theorem obeys_append {f g : Forest} : (f ++ g).Obeys r ↔ f.Obeys r ∧ g.Obeys r := by
  induction f with
  | nil => simp [Obeys]
  | element tag s children rest _ ih => simp [Obeys, ih, and_assoc]
  | text content rest ih | comment body rest ih | declaration raw rest ih =>
    simp [Obeys, ih, and_assoc]

theorem Obeys.trimEnd {f : Forest} (h : f.Obeys r) : f.trimEnd.Obeys r := by
  induction f with
  | nil => trivial
  | element tag s children rest _ ih => exact ⟨h.1, h.2.1, ih h.2.2⟩
  | comment body rest ih | declaration raw rest ih => exact ⟨h.1, ih h.2⟩
  | text content rest ih =>
    simp only [Forest.trimEnd]
    split
    · trivial
    · exact ⟨h.1, ih h.2⟩

theorem Obeys.trimStart {f : Forest} (h : f.Obeys r) : f.trimStart.Obeys r := by
  induction f with
  | text content rest ih =>
    simp only [Forest.trimStart]
    split
    · exact ih h.2
    · exact h
  | _ => exact h

theorem Obeys.trim {f : Forest} (h : f.Obeys r) : f.trim.Obeys r := h.trimEnd.trimStart

section Replacement

variable {choice : Element → Bool} {new : Element → Forest}

/-- What is put in the place of one element must obey by itself, and the rule for elements
must bear the change below the elements around it. -/
theorem Obeys.replaceFirst? {f g : Forest} (h : f.Obeys r) (hn : ∀ e, (new e).Obeys r)
    (hr : ∀ tag children inner, r.element tag children →
      children.replaceFirst? choice new = some inner → r.element tag inner)
    (hg : f.replaceFirst? choice new = some g) : g.Obeys r := by
  induction f generalizing g with
  | nil => simp [Forest.replaceFirst?] at hg
  | element tag s children rest ihc ihr =>
    obtain ⟨ht, hc, hrest⟩ := h
    simp only [Forest.replaceFirst?] at hg
    split at hg
    · obtain rfl := by simpa using hg
      exact obeys_append.mpr ⟨hn _, hrest⟩
    · split at hg
      · rename_i inner hi
        obtain rfl := by simpa using hg
        exact ⟨hr _ _ _ ht hi, ihc hc hi, hrest⟩
      · obtain ⟨rest', found, rfl⟩ := Option.map_eq_some_iff.mp hg
        exact ⟨ht, hc, ihr hrest found⟩
  | text content rest ih | comment body rest ih | declaration raw rest ih =>
    obtain ⟨rest', found, rfl⟩ := Option.map_eq_some_iff.mp hg
    exact ⟨h.1, ih h.2 found⟩

theorem Obeys.fillSlot {slot body : Forest} (hs : slot.Obeys r) (hb : body.Obeys r)
    (hr : ∀ tag children inner, r.element tag children →
      children.replaceFirst? (·.tag.name == slotTag) (fun _ => slot) = some inner →
      r.element tag inner) :
    (Expansion.fillSlot slot body).Obeys r := by
  unfold Expansion.fillSlot
  cases h : body.replaceFirst? (·.tag.name == slotTag) fun _ => slot with
  | none => exact hb
  | some filled => exact hb.replaceFirst? (fun _ => hs) hr h

theorem Obeys.children_find? {f : Forest} {e : Element} (h : f.Obeys r)
    (he : f.find? choice = some e) : e.children.Obeys r := by
  induction f with
  | nil => simp [Forest.find?] at he
  | element tag s children rest ihc ihr =>
    obtain ⟨-, hc, hr⟩ := h
    simp only [Forest.find?] at he
    split at he
    · obtain rfl := by simpa using he
      exact hc
    · rcases Option.or_eq_some_iff.mp he with he | ⟨-, he⟩
      · exact ihc hc he
      · exact ihr hr he
  | text content rest ih | comment body rest ih | declaration raw rest ih => exact ih h.2 he

end Replacement

end HtmlTemplate.Forest
