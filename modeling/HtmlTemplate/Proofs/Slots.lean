import HtmlTemplate.Proofs.Agreement
import HtmlTemplate.Proofs.PlainFiles
import HtmlTemplate.Proofs.Stack

/-!
# Slots are used up

An inclusion takes the slot of its fragment away and puts slot content in its place, so it
holds no more slots than its slot content does. Main result: where no fragment has a second
slot or repeats the one it has, a document without slots is expanded to one without slots.
-/
namespace HtmlTemplate

namespace Forest

/-- The number of slots at every depth, sealed or not. -/
def slotCount (f : Forest) : Nat := (f.findAll (·.tag.name == slotTag)).length

@[simp] theorem slotCount_nil : nil.slotCount = 0 := rfl

@[simp] theorem slotCount_element (tag : Tag) (s : Bool) (children rest : Forest) :
    (element tag s children rest).slotCount
      = (if tag.name = slotTag then 1 else 0) + children.slotCount + rest.slotCount := by
  unfold slotCount
  rw [findAll, List.length_append, List.length_append]
  by_cases h : tag.name = slotTag <;> simp [h]

@[simp] theorem slotCount_text (content : Text) (rest : Forest) :
    (text content rest).slotCount = rest.slotCount := rfl

@[simp] theorem slotCount_comment (body : Text) (rest : Forest) :
    (comment body rest).slotCount = rest.slotCount := rfl

@[simp] theorem slotCount_declaration (raw : Text) (rest : Forest) :
    (declaration raw rest).slotCount = rest.slotCount := rfl

@[simp] theorem slotCount_append (f g : Forest) :
    (f ++ g).slotCount = f.slotCount + g.slotCount := by
  induction f with
  | nil => simp
  | element tag s children rest _ ih =>
    rw [element_append, slotCount_element, slotCount_element, ih]
    omega
  | text content rest ih | comment body rest ih | declaration raw rest ih => simpa using ih

@[simp] theorem slotCount_unsealed (f : Forest) : f.unsealed.slotCount = f.slotCount := by
  induction f with
  | nil => rfl
  | element tag s children rest ihc ihr => simp [unsealed, ihc, ihr]
  | text content rest ih | comment body rest ih | declaration raw rest ih =>
    simpa [unsealed] using ih

theorem slotCount_trimEnd (f : Forest) : f.trimEnd.slotCount = f.slotCount := by
  induction f with
  | nil => rfl
  | element tag s children rest _ ih => simp [trimEnd, ih]
  | comment body rest ih | declaration raw rest ih => simpa [trimEnd] using ih
  | text content rest ih =>
    rw [trimEnd]
    split
    · -- Nothing is left of the rest, so it held no slot.
      rename_i blank
      have gone : rest.trimEnd = nil := by simp_all
      rw [gone] at ih
      simpa using ih
    · simpa using ih

theorem slotCount_trimStart (f : Forest) : f.trimStart.slotCount = f.slotCount := by
  induction f with
  | text content rest ih =>
    rw [trimStart]
    split
    · simpa using ih
    · rfl
  | _ => rfl

@[simp] theorem slotCount_trim (f : Forest) : f.trim.slotCount = f.slotCount := by
  rw [trim, slotCount_trimStart, slotCount_trimEnd]

section Filling

variable {slot body filled : Forest}

/-- Filling takes one slot away, with the slots inside of it, and adds those of the content. -/
theorem slotCount_replaceFirst?
    (h : body.replaceFirst? (·.tag.name == slotTag) (fun _ => slot) = some filled) :
    filled.slotCount + 1 ≤ body.slotCount + slot.slotCount := by
  induction body generalizing filled with
  | nil => simp [replaceFirst?] at h
  | element tag s children rest ihc ihr =>
    rw [replaceFirst?] at h
    split at h
    · rename_i here
      obtain rfl := by simpa using h
      rw [slotCount_append, slotCount_element, if_pos (by simpa using here)]
      omega
    · split at h
      · rename_i inner found
        obtain rfl := by simpa using h
        have := ihc found
        rw [slotCount_element, slotCount_element]
        omega
      · obtain ⟨rest', found, rfl⟩ := Option.map_eq_some_iff.mp h
        have := ihr found
        rw [slotCount_element, slotCount_element]
        omega
  | text content rest ih | comment body rest ih | declaration raw rest ih =>
    obtain ⟨rest', found, rfl⟩ := Option.map_eq_some_iff.mp h
    have := ih found
    simpa using this

theorem slotCount_of_replaceFirst?_eq_none
    (h : body.replaceFirst? (·.tag.name == slotTag) (fun _ => slot) = none) :
    body.slotCount = 0 := by
  induction body with
  | nil => rfl
  | element tag s children rest ihc ihr =>
    rw [replaceFirst?] at h
    split at h
    · simp at h
    · rename_i other
      split at h
      · simp at h
      · rename_i missing
        have hc := ihc missing
        have hr := ihr (by simpa using h)
        rw [slotCount_element, if_neg (by simpa using other), hc, hr]
  | text content rest ih | comment body rest ih | declaration raw rest ih =>
    exact ih (by simpa [replaceFirst?] using h)

/-- A body with one slot at most has the slots of the content once that is filled in, and
with no slot it has none. -/
theorem slotCount_fillSlot_le (h : body.slotCount ≤ 1) :
    (Expansion.fillSlot slot body).slotCount ≤ slot.slotCount := by
  unfold Expansion.fillSlot
  cases hf : body.replaceFirst? (·.tag.name == slotTag) fun _ => slot with
  | none =>
    have := slotCount_of_replaceFirst?_eq_none hf
    show body.slotCount ≤ slot.slotCount
    omega
  | some filled =>
    have := slotCount_replaceFirst? hf
    show filled.slotCount ≤ slot.slotCount
    omega

end Filling

/-- No slot carries a loop, and none stands inside an element that carries one. -/
def Rules.slotsOutsideLoops : Rules where
  element tag children := tag.Lacks .iterate ∨ (tag.name ≠ slotTag ∧ children.slotCount = 0)
  text _ := True
  comment _ := True
  declaration _ := True

theorem obeys_slotsOutsideLoops {f : Forest} (h : f.slotCount = 0) :
    f.Obeys .slotsOutsideLoops := by
  induction f with
  | nil => trivial
  | element tag s children rest ihc ihr =>
    rw [slotCount_element] at h
    have other : tag.name ≠ slotTag := by
      intro same
      rw [if_pos same] at h
      omega
    have hc : children.slotCount = 0 := by omega
    exact ⟨.inr ⟨other, hc⟩, ihc hc, ihr (by omega)⟩
  | text content rest ih | comment body rest ih | declaration raw rest ih => exact ⟨trivial, ih h⟩

/-- At most one slot, which no loop repeats. -/
structure HasSingleSlot (f : Forest) : Prop where
  slotCount_le : f.slotCount ≤ 1
  outside_loops : f.Obeys .slotsOutsideLoops

instance (f : Forest) : Decidable (f.Obeys .slotsOutsideLoops) :=
  Obeys.decide (fun tag children =>
      inferInstanceAs
        (Decidable (tag.Lacks .iterate ∨ (tag.name ≠ slotTag ∧ children.slotCount = 0))))
    (fun _ => .isTrue trivial) (fun _ => .isTrue trivial) (fun _ => .isTrue trivial) f

end Forest

/-- The bodies of all fragments that a name leads to have at most one slot, which no loop
repeats. -/
def Store.HasSingleSlots (store : Store) : Prop :=
  ∀ name path body, store.resolve name = .ok path → store.load path = .ok body →
    body.HasSingleSlot

namespace OnePass

variable {onInclusion : Include} {children : Scope → Option Forest} {tag : Tag} {scope : Scope}
  {f g : Forest}

/-- An inclusion comes to no more slots than its slot content has. -/
def UsesSlots (onInclusion : Include) : Prop :=
  ∀ tag slot scope r, onInclusion tag slot scope = some r → r.slotCount ≤ slot.slotCount

theorem slotCount_plain {bound : Nat} (hi : UsesSlots onInclusion)
    (hc : ∀ scope r, children scope = some r → r.slotCount ≤ bound)
    (h : plain onInclusion children tag scope = some g) :
    g.slotCount ≤ (if tag.name = slotTag then 1 else 0) + bound := by
  simp only [plain, Option.bind_eq_bind, Option.bind_eq_some_iff] at h
  obtain ⟨inner, hin, h⟩ := h
  have inner_le := hc scope inner hin
  split at h
  · have := hi _ _ _ _ h
    omega
  · obtain rfl := by simpa using h
    rw [Forest.slotCount_element, Forest.slotCount_nil]
    show (if tag.name = slotTag then 1 else 0) + inner.slotCount + 0 ≤ _
    omega

/-- An element comes to no more slots than it has: its copies have none, and without a loop it
stays one element. -/
theorem slotCount_repeated {bound : Nat} (hi : UsesSlots onInclusion)
    (outside : tag.Lacks .iterate ∨ (tag.name ≠ slotTag ∧ bound = 0))
    (hc : ∀ scope r, children scope = some r → r.slotCount ≤ bound)
    (h : repeated onInclusion children tag scope = some g) :
    g.slotCount ≤ (if tag.name = slotTag then 1 else 0) + bound := by
  rcases outside with lacks | ⟨other, rfl⟩
  · rw [repeated_of_lacks lacks] at h
    refine of_conditional (P := fun r => r.slotCount ≤ _) (Nat.zero_le _) ?_ h
    intro h
    have := slotCount_plain hi hc h
    rwa [Tag.name_withoutDirective] at this
  · rw [if_neg other]
    refine of_repeated (P := fun r => r.slotCount ≤ 0 + 0) (Nat.le_refl 0) ?_ ?_ h
    · intro f g hf hg
      rw [Forest.slotCount_append]
      omega
    · intro scope g h
      have := slotCount_plain hi hc h
      rwa [Tag.name_undirected, if_neg other] at this

theorem slotCount_evaluateWith (hi : UsesSlots onInclusion) (hf : f.Obeys .slotsOutsideLoops)
    (h : evaluateWith onInclusion f scope = some g) : g.slotCount ≤ f.slotCount := by
  induction f generalizing scope g with
  | nil =>
    obtain rfl := by simpa [evaluateWith] using h
    exact Nat.le_refl _
  | element tag s children rest ihc ihr =>
    obtain ⟨outside, hc, hr⟩ := hf
    simp only [evaluateWith, Option.bind_eq_bind, Option.bind_eq_some_iff, Option.pure_def,
      Option.some.injEq] at h
    obtain ⟨here, hh, rest', hrest, rfl⟩ := h
    have here_le := slotCount_repeated hi outside (fun _ _ => ihc hc) hh
    have rest_le := ihr hr hrest
    rw [Forest.slotCount_append, Forest.slotCount_element]
    omega
  | comment body rest ih =>
    simp only [evaluateWith, Option.bind_eq_bind, Option.bind_eq_some_iff] at h
    obtain ⟨rest', hrest, h⟩ := h
    have rest_le := ih hf.2 hrest
    split at h
    · obtain rfl := by simpa using h
      exact rest_le
    · obtain rfl := by simpa using h
      exact rest_le
  | text content rest ih | declaration raw rest ih =>
    simp only [evaluateWith, Option.bind_eq_bind, Option.bind_eq_some_iff, Option.pure_def,
      Option.some.injEq] at h
    obtain ⟨rest', hrest, rfl⟩ := h
    exact ih (g := rest') hf.2 hrest

/-- The slot of a fragment takes in the slots of the content, and there is no second slot that
would stay. -/
theorem usesSlots_includeAt {store : Store} (hs : store.HasSingleSlots) (depth : Nat) :
    UsesSlots (includeAt store depth) := by
  induction depth with
  | zero =>
    intro tag slot scope r h
    simp [includeAt] at h
  | succ depth ih =>
    intro tag slot scope r h
    obtain ⟨name, path, body, body', resolved, loaded, hb, rfl⟩ := inclusion_eq_some h
    have single := hs name path body resolved loaded
    have body_le : body'.slotCount ≤ 1 :=
      Nat.le_trans (slotCount_evaluateWith ih single.outside_loops hb) single.slotCount_le
    have div_ne : "div".toList ≠ slotTag := by decide
    rw [Forest.slotCount_element, if_neg div_ne, Forest.slotCount_trim, Forest.slotCount_nil]
    have filled_le : (Expansion.fillSlot slot body').slotCount ≤ slot.slotCount :=
      Forest.slotCount_fillSlot_le body_le
    omega

end OnePass

namespace Compiler

/-- A document without slots is expanded to one without slots, at whatever depth, where every
fragment has one slot at most and no loop repeats it. -/
theorem compile_leaves_no_slot {c : Compiler} {scope : Scope} {source : Text} {nodes : Forest}
    (main : (Forest.read source).slotCount = 0) (fragments : c.store.HasSingleSlots)
    (h : c.compile scope source = .ok nodes) : nodes.slotCount = 0 := by
  have means := OnePass.evaluate_of_compile (Nat.le_refl _) h
  have le := OnePass.slotCount_evaluateWith (OnePass.usesSlots_includeAt fragments _)
    (Forest.obeys_slotsOutsideLoops main) means
  rw [Forest.slotCount_unsealed, main] at le
  exact Nat.le_zero.mp le

/-- A mark with a slot, a fragment that hands its own slot on to the mark, and one without. -/
def nested : Compiler where
  store :=
    { snapshot := .ofFiles
        [{ names := ["t".toList, "mark.xiv".toList]
           content := "<s><x-slot>none</x-slot></s>".toList },
         { names := ["t".toList, "outer.xiv".toList]
           content := "<x-temp x-name=mark><x-slot x-if=on></x-slot></x-temp>".toList },
         { names := ["t".toList, "plain.xiv".toList], content := "p".toList }]
      root := .ofNames ["t".toList] }
  limit? := none

/-- A slot handed on to another fragment, slot content without a slot to go to, and a slot
without content. -/
theorem nested_leaves_no_slot :
    let scope := Scope.top [("xs".toList, .list [.text "1".toList, .text "2".toList])]
    let source := ("<x-temp x-for='x in xs' x-name=outer t-on=1>"
      ++ "<x-temp x-name=plain><b></b></x-temp></x-temp><x-temp x-name=mark></x-temp>").toList
    let wrapper (name : String) (body rest : Forest) : Forest :=
      .element ⟨"div".toList, [⟨"class".toList, name.toList⟩]⟩ true body rest
    let struck (body : Forest) : Forest := .element ⟨"s".toList, []⟩ false body .nil
    let shown := wrapper "x-outer" (wrapper "x-mark"
      (struck (wrapper "x-plain" (.text "p".toList .nil) .nil)) .nil)
    let nodes := shown (shown (wrapper "x-mark" (struck .nil) .nil))
    (Forest.read source).slotCount = 0 ∧ nested.store.HasSingleSlots ∧
      nested.compile scope source = .ok nodes ∧ nodes.slotCount = 0 := by
  intro scope source wrapper struck shown nodes
  have main : (Forest.read source).slotCount = 0 := by decide +kernel
  have fragments : nested.store.HasSingleSlots := by
    intro name path body _ loaded
    obtain ⟨file, hm, rfl⟩ := Store.exists_of_load_ofFiles loaded
    simp only [List.mem_cons, List.not_mem_nil, or_false] at hm
    rcases hm with rfl | rfl | rfl
    · exact ⟨by decide +kernel, by decide +kernel⟩
    · exact ⟨by decide +kernel, by decide +kernel⟩
    · exact ⟨by decide +kernel, by decide +kernel⟩
  have run : (Session.compile nested 60 scope source).1 = .ok nodes := by decide +kernel
  have compiled := Session.compile_eq_ok run
  exact ⟨main, fragments, compiled, compile_leaves_no_slot main fragments compiled⟩

end Compiler

end HtmlTemplate
