import HtmlTemplate.Proofs.Session
import Mathlib.Logic.Relation

/-!
# Where an expansion fails

An expansion calls itself for the copies of a loop, for slot content and for the bodies of
fragments. Main statement: an expansion that fails reaches a call that fails in the same
way and raises the failure itself, at one of its loops or inclusions.
-/
namespace HtmlTemplate

open Expansion

namespace Forest

/-- The elements that a pass hands on: those whose tag satisfies the test, in document order.
What is sealed or stands below one of them is not visited. -/
def outermost (test : Tag → Bool) : Forest → List Element
  | nil => []
  | element tag false children rest =>
    if test tag then ⟨tag, false, children⟩ :: rest.outermost test
    else children.outermost test ++ rest.outermost test
  | element _ true _ rest => rest.outermost test
  | text _ rest => rest.outermost test
  | comment _ rest => rest.outermost test
  | declaration _ rest => rest.outermost test

/-- The elements with a loop. -/
def loops (f : Forest) : List Element := f.outermost fun tag => (tag.takeDirective? .iterate).isSome

/-- The inclusions. -/
def inclusions (f : Forest) : List Element := f.outermost (·.name == inclusionTag)

section Members

variable {test : Tag → Bool} {tag : Tag} {children rest : Forest} {e : Element}

theorem mem_outermost_self (h : test tag) :
    ⟨tag, false, children⟩ ∈ (element tag false children rest).outermost test := by
  rw [outermost, if_pos h]
  exact List.mem_cons_self

theorem mem_outermost_children (h : test tag = false) (hm : e ∈ children.outermost test) :
    e ∈ (element tag false children rest).outermost test := by
  rw [outermost, if_neg (by simp [h])]
  exact List.mem_append_left _ hm

theorem mem_outermost_rest {s : Bool} (hm : e ∈ rest.outermost test) :
    e ∈ (element tag s children rest).outermost test := by
  cases s with
  | true => exact hm
  | false =>
    unfold outermost
    split
    · exact List.mem_cons_of_mem _ hm
    · exact List.mem_append_right _ hm

end Members

theorem test_of_mem_outermost {test : Tag → Bool} {f : Forest} {e : Element}
    (h : e ∈ f.outermost test) : test e.tag := by
  induction f with
  | nil => simp [outermost] at h
  | element tag s children rest ihc ihr =>
    cases s with
    | true => exact ihr h
    | false =>
      unfold outermost at h
      split at h
      · rename_i passed
        rcases List.mem_cons.mp h with rfl | h
        · exact passed
        · exact ihr h
      · rcases List.mem_append.mp h with h | h
        · exact ihc h
        · exact ihr h
  | text content rest ih | comment body rest ih | declaration raw rest ih => exact ih h

theorem name_of_mem_inclusions {f : Forest} {e : Element} (h : e ∈ f.inclusions) :
    e.tag.name = inclusionTag := by
  simpa using test_of_mem_outermost h

/-- What a pass hands on is live. -/
theorem eachLive_of_mem_outermost {p : Tag → Forest → Prop} {test : Tag → Bool} {f : Forest}
    {e : Element} (h : EachLive p f) (hm : e ∈ f.outermost test) : p e.tag e.children := by
  induction f with
  | nil => simp [outermost] at hm
  | element tag s children rest ihc ihr =>
    cases s with
    | true => exact ihr h hm
    | false =>
      obtain ⟨here, below, later⟩ := h
      unfold outermost at hm
      split at hm
      · rcases List.mem_cons.mp hm with rfl | hm
        · exact here
        · exact ihr later hm
      · rcases List.mem_append.mp hm with hm | hm
        · exact ihc below hm
        · exact ihr later hm
  | text content rest ih | comment body rest ih | declaration raw rest ih => exact ih h hm

theorem weight_of_mem_outermost {test : Tag → Bool} {f : Forest} {e : Element}
    (h : e ∈ f.outermost test) : (element e.tag false e.children nil).weight ≤ f.weight :=
  eachLive_of_mem_outermost (eachLive_weight_le (Nat.le_refl _)) h

end Forest

namespace Expansion

variable {failure : Failure}

/-! ### What fails when a pass fails -/

/-- A last step that cannot fail has no part in a failure. -/
theorem bind_pure_eq_error {α β : Type} {x : Except Failure α} {f : α → β} :
    (x >>= fun a => pure (f a)) = .error failure ↔ x = .error failure := by
  simp only [Failure.bind_eq_error, Failure.pure_ne_error, and_false, exists_false, or_false]

/-- Of two steps and a last one that cannot fail, one of the two fails. -/
theorem eq_error_of_steps {α β γ : Type} {x : Except Failure α} {y : Except Failure β}
    {f : α → β → γ} (h : (x >>= fun a => y >>= fun b => pure (f a b)) = .error failure) :
    x = .error failure ∨ y = .error failure := by
  rcases Failure.bind_eq_error.mp h with first | ⟨a, -, second⟩
  · exact .inl first
  · exact .inr (bind_pure_eq_error.mp second)

theorem exists_of_eachItem_error {copy : Value → Except Failure Forest} {items : List Value}
    (h : eachItem copy items = .error failure) : ∃ item ∈ items, copy item = .error failure := by
  induction items with
  | nil => exact absurd h Failure.pure_ne_error
  | cons item items ih =>
    rcases eq_error_of_steps h with here | later
    · exact ⟨item, List.mem_cons_self, here⟩
    · obtain ⟨other, hm, fails⟩ := ih later
      exact ⟨other, List.mem_cons_of_mem _ hm, fails⟩

theorem exists_of_eachLoop_error {onLoop : Text → Tag → Forest → Except Failure Forest}
    {f : Forest} (h : eachLoop onLoop f = .error failure) :
    ∃ e ∈ f.loops, ∃ expression rest, e.tag.takeDirective? .iterate = some (expression, rest) ∧
      onLoop expression rest e.children = .error failure := by
  induction f with
  | nil => exact absurd h Failure.pure_ne_error
  | element tag s children rest ihc ihr =>
    have later (h : eachLoop onLoop rest = .error failure) :
        ∃ e ∈ (Forest.element tag s children rest).loops, ∃ expression rest,
          e.tag.takeDirective? .iterate = some (expression, rest) ∧
          onLoop expression rest e.children = .error failure := by
      obtain ⟨e, hm, fails⟩ := ihr h
      exact ⟨e, Forest.mem_outermost_rest hm, fails⟩
    cases s with
    | true => exact later (bind_pure_eq_error.mp h)
    | false =>
      unfold eachLoop at h
      split at h
      · rename_i taken
        rcases eq_error_of_steps h with here | after
        · exact ⟨_, Forest.mem_outermost_self (by simp [taken]), _, _, taken, here⟩
        · exact later after
      · rename_i untaken
        rcases eq_error_of_steps h with below | after
        · obtain ⟨e, hm, fails⟩ := ihc below
          exact ⟨e, Forest.mem_outermost_children (by simp [untaken]) hm, fails⟩
        · exact later after
  | text content rest ih | comment body rest ih | declaration raw rest ih =>
    exact ih (bind_pure_eq_error.mp h)

theorem exists_of_eachInclusion_error {onInclusion : Tag → Forest → Except Failure Forest}
    {f : Forest} (h : eachInclusion onInclusion f = .error failure) :
    ∃ e ∈ f.inclusions, onInclusion e.tag e.children = .error failure := by
  induction f with
  | nil => exact absurd h Failure.pure_ne_error
  | element tag s children rest ihc ihr =>
    have later (h : eachInclusion onInclusion rest = .error failure) :
        ∃ e ∈ (Forest.element tag s children rest).inclusions,
          onInclusion e.tag e.children = .error failure := by
      obtain ⟨e, hm, fails⟩ := ihr h
      exact ⟨e, Forest.mem_outermost_rest hm, fails⟩
    cases s with
    | true => exact later (bind_pure_eq_error.mp h)
    | false =>
      unfold eachInclusion at h
      split at h
      · rename_i named
        rcases eq_error_of_steps h with here | after
        · exact ⟨_, Forest.mem_outermost_self (by simp [named]), here⟩
        · exact later after
      · rename_i other
        rcases eq_error_of_steps h with below | after
        · obtain ⟨e, hm, fails⟩ := ihc below
          exact ⟨e, Forest.mem_outermost_children (by simp [other]) hm, fails⟩
        · exact later after
  | text content rest ih | comment body rest ih | declaration raw rest ih =>
    exact ih (bind_pure_eq_error.mp h)

section Steps

variable {c : Compiler} {expander : Expander} {opened : OpenFragments} {label : Text}
  {scope : Scope} {tag : Tag} {children f : Forest}

theorem loop_eq_error {expression : Text} :
    loop expander opened label scope expression tag children = .error failure ↔
      loopItems label scope expression = .error failure ∨
      ∃ header items, loopItems label scope expression = .ok (header, items) ∧
        eachItem (fun item => expander opened label (scope.derive header.variableName item)
          (.element tag false children .nil)) items = .error failure := by
  simp only [loop, iterate, copies_eq_eachItem, Failure.bind_eq_error, Prod.exists]

/-- An inclusion fails in its slot content, or for want of a fragment that may be opened, or
in the body of that fragment. -/
theorem inclusion_eq_error :
    inclusion c expander opened label scope tag children = .error failure ↔
      expander opened label scope children = .error failure ∨
      ∃ slot, expander opened label scope children = .ok slot ∧
        (openFragment c opened label (Inclusion.ofAttributes tag.attributes) = .error failure ∨
        ∃ o, openFragment c opened label (Inclusion.ofAttributes tag.attributes) = .ok o ∧
          expander (o.path :: opened) o.path.text
            (argumentScope scope (Inclusion.ofAttributes tag.attributes).arguments) o.body
            = .error failure) := by
  simp only [inclusion, Failure.bind_eq_error, Failure.pure_ne_error, and_false, exists_false,
    or_false]

/-- An expansion fails in the pass over its loops or in that over its inclusions. -/
theorem expand_eq_error : expand c opened label scope f = .error failure ↔
    eachLoop (loop (expand c) opened label scope) f = .error failure ∨
    ∃ looped, eachLoop (loop (expand c) opened label scope) f = .ok looped ∧
      eachInclusion (inclusion c (expand c) opened label scope) (prune scope looped)
        = .error failure := by
  rw [expand_eq_passes]
  simp only [passes, Failure.bind_eq_error, Failure.pure_ne_error, and_false, exists_false,
    or_false]

/-- A loop without items has no header, or its source is no list. -/
theorem loopItems_eq_error {expression : Text}
    (h : loopItems label scope expression = .error failure) :
    (LoopHeader.read? expression = none ∧ failure = .invalidLoopExpression expression label) ∨
    ∃ header reason, LoopHeader.read? expression = some header ∧
      (LoopSource.ofValue? (scope.get header.source)).items = .error reason ∧
      failure = .invalidLoopSource header.source reason label := by
  unfold loopItems at h
  split at h
  · rename_i unread
    exact .inl ⟨unread, (Except.error.inj h).symm⟩
  · rename_i header read
    split at h
    · rename_i reason no_items
      exact .inr ⟨header, reason, read, no_items, (Except.error.inj h).symm⟩
    · simp at h

theorem resolve_eq_error {store : Store} {name : Text}
    (h : store.resolve name = .error failure) :
    failure = .invalidPath name ∨ ∃ cause, failure = .file cause := by
  unfold Store.resolve at h
  dsimp only at h
  split at h
  · exact .inl (Except.error.inj h).symm
  · split at h
    · simp at h
    · split at h
      · rename_i cause _
        exact .inr ⟨cause, (Except.error.inj h).symm⟩
      · split at h
        · simp at h
        · exact .inl (Except.error.inj h).symm

theorem load_eq_error {store : Store} {path : Path} (h : store.load path = .error failure) :
    failure = .fragmentNotFound path.text ∨ ∃ cause, failure = .file cause := by
  unfold Store.load at h
  split at h
  · split at h
    · simp at h
    · rename_i cause _
      exact .inr ⟨cause, (Except.error.inj h).symm⟩
  · exact .inl (Except.error.inj h).symm

/-- Why an inclusion has no fragment to open. -/
inductive Refused (c : Compiler) (opened : OpenFragments) (label : Text) (call : Inclusion) :
    Failure → Prop
  | unnamed : call.name? = none → Refused c opened label call (.missingFragmentName label)
  | outside {name : Text} : call.name? = some name →
      Refused c opened label call (.invalidPath name)
  | opened {name : Text} {path : Path} : call.name? = some name →
      c.store.resolve name = .ok path → path ∈ opened →
      Refused c opened label call (.circularReference label path.text)
  | full {name : Text} {limit : Nat} : call.name? = some name → c.limit? = some limit →
      limit ≤ opened.length → Refused c opened label call (.nestingTooDeep limit label)
  | absent {name : Text} {path : Path} : call.name? = some name →
      c.store.resolve name = .ok path →
      Refused c opened label call (.fragmentNotFound path.text)
  | unreadable {cause : FileError} : Refused c opened label call (.file cause)

theorem refused_of_openFragment {call : Inclusion}
    (h : openFragment c opened label call = .error failure) :
    Refused c opened label call failure := by
  rw [openFragment_eq_steps] at h
  cases hn : call.name? with
  | none =>
    rw [hn] at h
    obtain rfl := Except.error.inj h
    exact .unnamed hn
  | some name =>
    rw [hn] at h
    rcases Failure.bind_eq_error.mp h with unresolved | ⟨path, resolved, h⟩
    · rcases resolve_eq_error unresolved with rfl | ⟨cause, rfl⟩
      · exact .outside hn
      · exact .unreadable
    · split at h
      · rename_i open_already
        obtain rfl := Except.error.inj h
        exact .opened hn resolved open_already
      · split at h
        · rename_i limit reached
          obtain ⟨limited, full⟩ := Option.filter_eq_some_iff.mp reached
          obtain rfl := Except.error.inj h
          exact .full hn limited (by simpa using full)
        · rcases load_eq_error (bind_pure_eq_error.mp h) with rfl | ⟨cause, rfl⟩
          · exact .absent hn resolved
          · exact .unreadable

end Steps

end Expansion

/-! ### Calls and failures -/

/-- A forest to expand: the fragments open at that moment, the label of the text it comes
from, and the scope of its place. -/
structure Task where
  opened : OpenFragments
  label : Text
  scope : Scope
  forest : Forest

namespace Task

variable {c : Compiler} {t t' : Task} {failure : Failure}

/-- The expansion of a source. -/
def main (scope : Scope) (source : Text) : Task :=
  ⟨[], Compiler.mainLabel, scope, Forest.read source⟩

def result (c : Compiler) (t : Task) : Except Failure Forest :=
  expand c t.opened t.label t.scope t.forest

/-- The inclusions that the expansion comes to after its loops and its conditions. -/
def MeetsInclusion (c : Compiler) (t : Task) (e : Element) : Prop :=
  ∃ looped, eachLoop (loop (expand c) t.opened t.label t.scope) t.forest = .ok looped ∧
    e ∈ (prune t.scope looped).inclusions

/-- The expansions that an expansion calls for. -/
inductive Calls (c : Compiler) (t : Task) : Task → Prop
  /-- One copy of a loop element for every item. -/
  | copy {e : Element} {expression : Text} {rest : Tag} {header : LoopHeader}
      {items : List Value} {item : Value} : e ∈ t.forest.loops →
      e.tag.takeDirective? .iterate = some (expression, rest) →
      loopItems t.label t.scope expression = .ok (header, items) → item ∈ items →
      Calls c t { t with
        scope := t.scope.derive header.variableName item
        forest := .element rest false e.children .nil }
  /-- Slot content, in the place of its inclusion. -/
  | slot {e : Element} : t.MeetsInclusion c e → Calls c t { t with forest := e.children }
  /-- The body of the fragment that an inclusion opens once its slot content is made. -/
  | body {e : Element} {slot : Forest} {o : Opening} : t.MeetsInclusion c e →
      expand c t.opened t.label t.scope e.children = .ok slot →
      openFragment c t.opened t.label (Inclusion.ofAttributes e.tag.attributes) = .ok o →
      Calls c t ⟨o.path :: t.opened, o.path.text,
        argumentScope t.scope (Inclusion.ofAttributes e.tag.attributes).arguments, o.body⟩

/-- An expansion raises a failure itself, rather than in a call: a loop has no items to go
over, or an inclusion no fragment to open. -/
inductive Raises (c : Compiler) (t : Task) (failure : Failure) : Prop
  | loop {e : Element} {expression : Text} {rest : Tag} : e ∈ t.forest.loops →
      e.tag.takeDirective? .iterate = some (expression, rest) →
      loopItems t.label t.scope expression = .error failure → Raises c t failure
  | inclusion {e : Element} {slot : Forest} : t.MeetsInclusion c e →
      expand c t.opened t.label t.scope e.children = .ok slot →
      openFragment c t.opened t.label (Inclusion.ofAttributes e.tag.attributes) = .error failure →
      Raises c t failure

theorem MeetsInclusion.weight_lt {e : Element} (h : t.MeetsInclusion c e) :
    e.children.weight < t.forest.weight := by
  obtain ⟨looped, hl, hm⟩ := h
  have below := Forest.weight_children (Forest.weight_of_mem_outermost hm)
  have pruned := weight_prune t.scope looped
  have unrolled := weight_eachLoop hl
  omega

/-- A call has less to do below the same open fragments, or fewer files that are not open. -/
theorem Calls.decreases (h : t.Calls c t') :
    Prod.Lex (· < ·) (· < ·) (closedFiles c t'.opened, t'.forest.weight)
      (closedFiles c t.opened, t.forest.weight) := by
  cases h with
  | copy hm taken => exact .right _ (Forest.weight_copy taken (Forest.weight_of_mem_outermost hm))
  | slot met => exact .right _ met.weight_lt
  | body met _ ho => exact .left _ _ (closedFiles_lt ho)

/-- A failure is raised by the expansion itself or comes from one that it calls for. -/
theorem raises_or_calls (h : t.result c = .error failure) :
    t.Raises c failure ∨ ∃ t', t.Calls c t' ∧ t'.result c = .error failure := by
  rcases expand_eq_error.mp h with fails | ⟨looped, hl, fails⟩
  · obtain ⟨e, hm, expression, rest, taken, fails⟩ := exists_of_eachLoop_error fails
    rcases loop_eq_error.mp fails with fails | ⟨header, items, hi, fails⟩
    · exact .inl (.loop hm taken fails)
    · obtain ⟨item, hitem, fails⟩ := exists_of_eachItem_error fails
      exact .inr ⟨_, .copy hm taken hi hitem, fails⟩
  · obtain ⟨e, hm, fails⟩ := exists_of_eachInclusion_error fails
    have met : t.MeetsInclusion c e := ⟨looped, hl, hm⟩
    rcases inclusion_eq_error.mp fails with fails | ⟨slot, hs, fails | ⟨o, ho, fails⟩⟩
    · exact .inr ⟨_, .slot met, fails⟩
    · exact .inl (.inclusion met hs fails)
    · exact .inr ⟨_, .body met hs ho, fails⟩

/-- An expansion is reached from another one by calls. -/
def Reaches (c : Compiler) (t t' : Task) : Prop := Relation.ReflTransGen (Calls c) t t'

/-- Every failure is raised by an expansion that is reached and fails in the same way. -/
theorem exists_raises {t : Task} (h : t.result c = .error failure) :
    ∃ t', t.Reaches c t' ∧ t'.result c = .error failure ∧ t'.Raises c failure := by
  rcases raises_or_calls h with here | ⟨next, called, fails⟩
  · exact ⟨t, .refl, h, here⟩
  · obtain ⟨t', reached, fails', raises⟩ := exists_raises fails
    exact ⟨t', .head called reached, fails', raises⟩
termination_by (closedFiles c t.opened, t.forest.weight)
decreasing_by exact called.decreases

end Task

end HtmlTemplate
