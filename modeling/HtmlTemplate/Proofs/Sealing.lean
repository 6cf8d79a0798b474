import HtmlTemplate.Proofs.Passes

/-!
# Sealed copies

An expansion makes elements of elements only, so the copies of a loop are sealed as a whole
and the passes of the level around them find no work in them.
-/
namespace HtmlTemplate

open Expansion

namespace Forest

/-- Nothing but sealed elements at the top. -/
def IsSealed : Forest → Prop
  | nil => True
  | element _ true _ rest => rest.IsSealed
  | _ => False

/-- Nothing but elements at the top. -/
def IsElements : Forest → Prop
  | nil => True
  | element _ _ _ rest => rest.IsElements
  | _ => False

theorem IsElements.append {f g : Forest} (hf : f.IsElements) (hg : g.IsElements) :
    (f ++ g).IsElements := by
  induction f with
  | nil => exact hg
  | element tag s children rest _ ih => exact ih hf
  | _ => exact hf.elim

theorem IsSealed.append {f g : Forest} (hf : f.IsSealed) (hg : g.IsSealed) :
    (f ++ g).IsSealed := by
  induction f with
  | nil => exact hg
  | element tag s children rest _ ih =>
    cases s with
    | true => exact ih hf
    | false => exact hf.elim
  | _ => exact hf.elim

theorem IsSealed.isElements {f : Forest} (h : f.IsSealed) : f.IsElements := by
  induction f with
  | nil => trivial
  | element tag s children rest _ ih =>
    cases s with
    | true => exact ih h
    | false => exact h.elim
  | _ => exact h.elim

theorem IsElements.isSealed_sealTop {f : Forest} (h : f.IsElements) : f.sealTop.IsSealed := by
  induction f with
  | nil => trivial
  | element tag s children rest _ ih => exact ih h
  | _ => exact h.elim

theorem IsElements.fill {f : Forest} (h : f.IsElements) (scope : Scope) :
    (f.fill scope).IsElements := by
  induction f with
  | nil => trivial
  | element tag s children rest _ ih => cases s <;> exact ih h
  | _ => exact h.elim

theorem IsElements.prune {f : Forest} (h : f.IsElements) (scope : Scope) :
    (prune scope f).IsElements := by
  induction f with
  | nil => trivial
  | element tag s children rest _ ih =>
    cases s with
    | true => exact ih h
    | false =>
      unfold Expansion.prune
      split
      · split
        · exact ih h
        · exact ih h
      · exact ih h
  | _ => exact h.elim

end Forest

namespace Expansion

/-- The second forest is the first one with some of the elements that the passes look at
replaced, each by a forest of a certain kind. -/
inductive Replaced (kind : Forest → Prop) : Forest → Forest → Prop
  | nil : Replaced kind .nil .nil
  | finished {tag : Tag} {children rest rest' : Forest} : Replaced kind rest rest' →
      Replaced kind (.element tag true children rest) (.element tag true children rest')
  | kept {tag : Tag} {children children' rest rest' : Forest} : Replaced kind children children' →
      Replaced kind rest rest' →
      Replaced kind (.element tag false children rest) (.element tag false children' rest')
  | replaced {tag : Tag} {children here rest rest' : Forest} : kind here →
      Replaced kind rest rest' → Replaced kind (.element tag false children rest) (here ++ rest')
  | text {content : Text} {rest rest' : Forest} : Replaced kind rest rest' →
      Replaced kind (.text content rest) (.text content rest')
  | comment {body : Text} {rest rest' : Forest} : Replaced kind rest rest' →
      Replaced kind (.comment body rest) (.comment body rest')
  | declaration {raw : Text} {rest rest' : Forest} : Replaced kind rest rest' →
      Replaced kind (.declaration raw rest) (.declaration raw rest')

variable {kind : Forest → Prop} {f g : Forest}

theorem replaced_eachLoop {onLoop : Text → Tag → Forest → Except Failure Forest}
    (hl : EachLive (fun tag children => ∀ expression rest here,
      tag.takeDirective? .iterate = some (expression, rest) →
      onLoop expression rest children = .ok here → kind here) f)
    (h : eachLoop onLoop f = .ok g) : Replaced kind f g := by
  induction f generalizing g with
  | nil =>
    obtain rfl := Failure.pure_eq_ok.mp h
    exact .nil
  | element tag s children rest ihc ihr =>
    cases s with
    | true =>
      simp only [eachLoop, Failure.bind_eq_ok, Failure.pure_eq_ok] at h
      obtain ⟨rest', hr, rfl⟩ := h
      exact .finished (ihr hl hr)
    | false =>
      obtain ⟨here_ok, children_ok, rest_ok⟩ := hl
      unfold eachLoop at h
      split at h
      · rename_i taken
        simp only [Failure.bind_eq_ok, Failure.pure_eq_ok] at h
        obtain ⟨here, hh, rest', hr, rfl⟩ := h
        exact .replaced (here_ok _ _ here taken hh) (ihr rest_ok hr)
      · simp only [Failure.bind_eq_ok, Failure.pure_eq_ok] at h
        obtain ⟨children', hc, rest', hr, rfl⟩ := h
        exact .kept (ihc children_ok hc) (ihr rest_ok hr)
  | text content rest ih =>
    simp only [eachLoop, Failure.bind_eq_ok, Failure.pure_eq_ok] at h
    obtain ⟨rest', hr, rfl⟩ := h
    exact .text (ih hl hr)
  | comment body rest ih =>
    simp only [eachLoop, Failure.bind_eq_ok, Failure.pure_eq_ok] at h
    obtain ⟨rest', hr, rfl⟩ := h
    exact .comment (ih hl hr)
  | declaration raw rest ih =>
    simp only [eachLoop, Failure.bind_eq_ok, Failure.pure_eq_ok] at h
    obtain ⟨rest', hr, rfl⟩ := h
    exact .declaration (ih hl hr)

theorem replaced_eachInclusion {onInclusion : Tag → Forest → Except Failure Forest}
    (hi : ∀ tag children here, onInclusion tag children = .ok here → kind here)
    (h : eachInclusion onInclusion f = .ok g) : Replaced kind f g := by
  induction f generalizing g with
  | nil =>
    obtain rfl := Failure.pure_eq_ok.mp h
    exact .nil
  | element tag s children rest ihc ihr =>
    cases s with
    | true =>
      simp only [eachInclusion, Failure.bind_eq_ok, Failure.pure_eq_ok] at h
      obtain ⟨rest', hr, rfl⟩ := h
      exact .finished (ihr hr)
    | false =>
      unfold eachInclusion at h
      split at h
      · simp only [Failure.bind_eq_ok, Failure.pure_eq_ok] at h
        obtain ⟨here, hh, rest', hr, rfl⟩ := h
        exact .replaced (hi tag children here hh) (ihr hr)
      · simp only [Failure.bind_eq_ok, Failure.pure_eq_ok] at h
        obtain ⟨children', hc, rest', hr, rfl⟩ := h
        exact .kept (ihc hc) (ihr hr)
  | text content rest ih =>
    simp only [eachInclusion, Failure.bind_eq_ok, Failure.pure_eq_ok] at h
    obtain ⟨rest', hr, rfl⟩ := h
    exact .text (ih hr)
  | comment body rest ih =>
    simp only [eachInclusion, Failure.bind_eq_ok, Failure.pure_eq_ok] at h
    obtain ⟨rest', hr, rfl⟩ := h
    exact .comment (ih hr)
  | declaration raw rest ih =>
    simp only [eachInclusion, Failure.bind_eq_ok, Failure.pure_eq_ok] at h
    obtain ⟨rest', hr, rfl⟩ := h
    exact .declaration (ih hr)

theorem Replaced.isElements (h : Replaced Forest.IsElements f g) (hf : f.IsElements) :
    g.IsElements := by
  induction h with
  | nil => trivial
  | finished _ ih => exact ih hf
  | kept _ _ _ ih => exact ih hf
  | replaced here_ok _ ih => exact here_ok.append (ih hf)
  | text | comment | declaration => exact hf.elim

/-- The copies of a loop are sealed if every copy has elements only. -/
theorem isSealed_eachItem {copy : Value → Except Failure Forest} {items : List Value}
    (hc : ∀ item r, copy item = .ok r → r.IsElements) (h : eachItem copy items = .ok g) :
    g.IsSealed := by
  induction items generalizing g with
  | nil =>
    obtain rfl := Failure.pure_eq_ok.mp h
    trivial
  | cons item items ih =>
    simp only [eachItem, Failure.bind_eq_ok, Failure.pure_eq_ok] at h
    obtain ⟨first, hf, others, ho, rfl⟩ := h
    exact (hc item first hf).isSealed_sealTop.append (ih ho)

variable {c : Compiler} {opened : OpenFragments} {label : Text} {scope : Scope} {tag : Tag}
  {children : Forest}

/-- The wrapper of an inclusion is sealed. -/
theorem isSealed_inclusion {expander : Expander}
    (h : inclusion c expander opened label scope tag children = .ok g) : g.IsSealed := by
  obtain ⟨slot, o, body, -, -, -, rfl⟩ := inclusion_eq_ok.mp h
  trivial

theorem isElements_expand (opened : OpenFragments) (f : Forest) :
    ∀ label scope g, f.IsElements → expand c opened label scope f = .ok g → g.IsElements := by
  induction opened, f using expansion_induction c with
  | step opened f hb _ =>
    intro label scope g hf h
    obtain ⟨looped, included, hl, hi, rfl⟩ := expand_eq_ok.mp h
    have loops : Replaced Forest.IsElements f looped := by
      refine replaced_eachLoop ((eachLive_weight_le (Nat.le_refl f.weight)).mono ?_) hl
      intro tag children light expression rest here taken hh
      obtain ⟨header, items, -, hcopies⟩ := loop_eq_ok.mp hh
      refine (isSealed_eachItem ?_ hcopies).isElements
      intro item copy hcopy
      exact hb _ (Forest.weight_copy taken light) _ _ copy trivial hcopy
    have inclusions := replaced_eachInclusion
      (fun _ _ _ hh => (isSealed_inclusion hh).isElements) hi
    exact (inclusions.isElements ((loops.isElements hf).prune scope)).fill scope

/-- What a loop is replaced by is sealed. -/
theorem isSealed_loop {expression : Text}
    (h : loop (expand c) opened label scope expression tag children = .ok g) : g.IsSealed := by
  obtain ⟨header, items, -, hcopies⟩ := loop_eq_ok.mp h
  refine isSealed_eachItem ?_ hcopies
  intro item copy hcopy
  exact isElements_expand opened (.element tag false children .nil) _ _ copy trivial hcopy

theorem replaced_isSealed_eachLoop
    (h : eachLoop (loop (expand c) opened label scope) f = .ok g) :
    Replaced Forest.IsSealed f g := by
  refine replaced_eachLoop ((eachLive_weight_le (Nat.le_refl f.weight)).mono ?_) h
  intro tag children _ expression rest here _ hh
  exact isSealed_loop hh

end Expansion

end HtmlTemplate
