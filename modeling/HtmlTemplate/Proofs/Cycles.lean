import HtmlTemplate.Proofs.Origins

/-!
# Cycles of inclusions

A fragment that is open already is refused as a circular reference. Main result: then the
fragments opened since include each other in a cycle, so that a store without cycles never has
one refused.
-/
namespace HtmlTemplate

open Expansion

namespace Store

variable {store : Store} {p q : Path}

/-- Different fragments, each of which includes the next one, and the last one the first. -/
structure IsCycle (store : Store) (cycle : List Path) : Prop where
  nodup : cycle.Nodup
  isFragment : ∀ p ∈ cycle, store.IsFragment p
  isChain : cycle.IsChain store.Includes
  closes : ∀ last ∈ cycle.getLast?, ∀ first ∈ cycle.head?, store.Includes last first

/-- No fragment includes itself, be it through others. -/
def IsAcyclic (store : Store) : Prop := ∀ p, ¬Relation.TransGen store.Includes p p

theorem IsCycle.transGen {first : Path} {rest : List Path}
    (h : store.IsCycle (first :: rest)) : Relation.TransGen store.Includes first first := by
  have there : Relation.ReflTransGen store.Includes first ((first :: rest).getLast (by simp)) :=
    List.relationReflTransGen_of_exists_isChain_cons rest h.isChain rfl
  have back := h.closes _ (List.getLast?_eq_some_getLast (by simp)) first (by simp)
  exact .tail' there back

theorem IsAcyclic.not_isCycle (h : store.IsAcyclic) {first : Path} {rest : List Path} :
    ¬store.IsCycle (first :: rest) := by
  intro cycle
  exact h first cycle.transGen

/-! ### Looking for cycles -/

/-- The names that an element includes fragments by. -/
def namesOf (tag : Tag) : List Text :=
  if tag.name = inclusionTag then
    (tag.attributes.filter fun a => a.name = "x-name".toList ∧ ¬a.value.isAllBlank).map
      (·.value.trim)
  else []

theorem mem_namesOf {tag : Tag} {name : Text} : name ∈ namesOf tag ↔ tag.Names name := by
  unfold namesOf Tag.Names
  split
  · rename_i is_inclusion
    simp [is_inclusion, and_assoc]
  · rename_i other
    simp [other]

/-- The paths that the inclusions in the text of a fragment lead to. -/
def targets (store : Store) (p : Path) : List Path :=
  match store.load p with
  | .ok body => (body.tags.flatMap namesOf).filterMap fun name => (store.resolve name).toOption
  | .error _ => []

theorem includes_iff : store.Includes p q ↔ store.IsFragment p ∧ q ∈ store.targets p := by
  have resolves (name : Text) : (store.resolve name).toOption = some q ↔
      store.resolve name = .ok q := by
    cases store.resolve name <;> simp [Except.toOption]
  unfold targets
  constructor
  · rintro ⟨fragment, body, hl, tag, ht, name, hn, hr⟩
    have written := List.mem_flatMap.mpr ⟨tag, ht, mem_namesOf.mpr hn⟩
    rw [hl]
    exact ⟨fragment, List.mem_filterMap.mpr ⟨name, written, (resolves name).mpr hr⟩⟩
  · rintro ⟨fragment, hm⟩
    split at hm
    · rename_i body hl
      obtain ⟨name, hn, hr⟩ := List.mem_filterMap.mp hm
      obtain ⟨tag, ht, hn⟩ := List.mem_flatMap.mp hn
      exact ⟨fragment, body, hl, tag, ht, name, mem_namesOf.mp hn, (resolves name).mp hr⟩
    · simp at hm

instance (store : Store) (p q : Path) : Decidable (store.Includes p q) :=
  decidable_of_iff' _ includes_iff

example : Session.cyclic.store.Includes (.ofNames ["t".toList, "a.xiv".toList])
    (.ofNames ["t".toList, "b.xiv".toList]) := by decide +kernel

/-- A store has no cycle where a rank grows along all inclusions. -/
theorem isAcyclic_of_rank (rank : Path → Nat)
    (h : ∀ p ∈ store.fragmentFiles, ∀ q ∈ store.targets p, rank p < rank q) :
    store.IsAcyclic := by
  have grows {p q : Path} (path : Relation.TransGen store.Includes p q) : rank p < rank q := by
    induction path with
    | single edge =>
      obtain ⟨fragment, hm⟩ := includes_iff.mp edge
      exact h _ (mem_fragmentFiles.mpr fragment) _ hm
    | tail _ edge ih =>
      obtain ⟨fragment, hm⟩ := includes_iff.mp edge
      have step := h _ (mem_fragmentFiles.mpr fragment) _ hm
      omega
  intro p path
  exact Nat.lt_irrefl _ (grows path)

end Store

namespace Task

variable {c : Compiler} {source : Text} {t : Task}

/-- The open fragments down to one of them, outermost last, are a cycle once the innermost
one includes it again. -/
theorem StemsFrom.isCycle (h : t.StemsFrom c source) {before after : OpenFragments} {path : Path}
    (ho : t.opened = before ++ path :: after)
    (again : ∀ innermost ∈ t.opened.head?, c.store.Includes innermost path) :
    c.store.IsCycle (before ++ [path]).reverse := by
  -- The stack has the innermost fragment first, so inclusion runs against it.
  have inner : before ++ [path] <+: t.opened := ⟨after, by rw [ho, List.append_assoc]; rfl⟩
  have chain := h.isChain.prefix inner
  constructor
  · exact List.nodup_reverse.mpr (h.inOrder.nodup.sublist inner.sublist)
  · intro p hp
    exact h.inOrder.isFragment p (inner.subset (List.mem_reverse.mp hp))
  · exact List.isChain_reverse.mpr chain
  · intro last hl first hf
    rw [List.getLast?_reverse] at hl
    obtain rfl : path = first := by simpa using hf
    refine again last ?_
    rw [ho]
    simpa using hl

/-- A circular reference closes a cycle. It runs from the fragment that is refused down to the
one that the label names, for that is the innermost one. -/
theorem StemsFrom.exists_isCycle (h : t.StemsFrom c source) {source' target : Text}
    (raised : t.Raises c (.circularReference source' target)) :
    ∃ cycle, c.store.IsCycle cycle ∧ cycle.head?.map (·.text) = some target ∧
      cycle.getLast?.map (·.text) = some source' := by
  cases raised with
  | loop _ _ fails =>
    rcases loopItems_eq_error fails with ⟨-, he⟩ | ⟨header, reason, -, -, he⟩
    · simp at he
    · simp at he
  | inclusion met _ fails =>
    generalize he : Failure.circularReference source' target = failure at fails
    cases refused_of_openFragment fails with
    | @opened name path hn hr hm =>
      obtain ⟨rfl, rfl⟩ := Failure.circularReference.inj he
      obtain ⟨before, after, ho⟩ := List.append_of_mem hm
      refine ⟨_, h.isCycle ho fun _ innermost => h.includes innermost met hn hr, by simp, ?_⟩
      have label_eq : t.label = labelBelow t.opened := h.inOrder.label_eq
      rw [List.getLast?_reverse, label_eq, ho]
      cases before with
      | nil => rfl
      | cons innermost before => rfl
    | _ => simp at he

end Task

namespace Compiler

/-- A circular reference that is reported is a cycle of the store: different regular files
below the root, from the one refused to the one that refers to it, each with an inclusion of
the next one in its body, and the last one with an inclusion of the first. So a store without
cycles never has one reported, however often a fragment is repeated. -/
theorem circular_reference_is_cycle (c : Compiler) (scope : Scope) (source : Text) :
    (∀ fragment target,
      c.compile scope source = .error (.circularReference fragment target) →
      ∃ cycle, c.store.IsCycle cycle ∧ cycle.head?.map (·.text) = some target ∧
        cycle.getLast?.map (·.text) = some fragment) ∧
    (c.store.IsAcyclic → ∀ fragment target,
      c.compile scope source ≠ .error (.circularReference fragment target)) := by
  have found (fragment target : Text)
      (h : c.compile scope source = .error (.circularReference fragment target)) :
      ∃ cycle, c.store.IsCycle cycle ∧ cycle.head?.map (·.text) = some target ∧
        cycle.getLast?.map (·.text) = some fragment := by
    obtain ⟨t, reached, -, raised⟩ := Task.exists_raises (t := Task.main scope source) h
    exact ((Task.stemsFrom_main c scope source).reaches reached).exists_isCycle raised
  refine ⟨found, ?_⟩
  intro acyclic fragment target h
  obtain ⟨cycle, isCycle, first, -⟩ := found fragment target h
  cases cycle with
  | nil => simp at first
  | cons first rest => exact acyclic.not_isCycle isCycle

/-- A tile is a frame with another frame and its slot in it; a frame repeats its slot. -/
def frames : Store where
  snapshot := .ofFiles
    [{ names := ["t".toList, "tile.xiv".toList]
       content := ("<x-temp x-name=frame t-xs='[1, 2]'><x-temp x-name=frame t-xs='[3]'></x-temp>"
         ++ "<x-slot></x-slot></x-temp>").toList },
     { names := ["t".toList, "frame.xiv".toList]
       content := "<p x-for='x in xs'><x-slot></x-slot></p>".toList }]
  root := .ofNames ["t".toList]

/-- Two fragments that include each other are reported from the second one, and are a cycle.
Tiles in tiles and frames in frames are not: the rank of a path is the length of its text. -/
theorem frames_have_no_cycle :
    let cycling := "<x-temp x-name=a t-xs='[1]'></x-temp>".toList
    let repeating := ("<x-temp x-name=tile><x-temp x-name=tile><x-temp x-name=frame t-xs='[4]'>"
      ++ "</x-temp></x-temp></x-temp><x-temp x-name=tile></x-temp>").toList
    Session.cyclic.compile .empty cycling
        = .error (.circularReference "/t/b.xiv".toList "/t/a.xiv".toList) ∧
      (∃ cycle, Session.cyclic.store.IsCycle cycle ∧
        cycle.head?.map (·.text) = some "/t/a.xiv".toList ∧
        cycle.getLast?.map (·.text) = some "/t/b.xiv".toList) ∧
      frames.IsAcyclic ∧
      ∀ fragment target,
        compile ⟨frames, none⟩ .empty repeating ≠ .error (.circularReference fragment target) := by
  intro cycling repeating
  have run : (Session.compile Session.cyclic 60 .empty cycling).1
      = .error (.failed (.circularReference "/t/b.xiv".toList "/t/a.xiv".toList)) := by
    decide +kernel
  have reported : Session.cyclic.compile .empty cycling
      = .error (.circularReference "/t/b.xiv".toList "/t/a.xiv".toList) :=
    Session.compile_eq_of_run run
  have grows : ∀ p ∈ frames.fragmentFiles, ∀ q ∈ frames.targets p,
      p.text.length < q.text.length := by
    decide +kernel
  have acyclic : frames.IsAcyclic := Store.isAcyclic_of_rank (·.text.length) grows
  obtain ⟨found, -⟩ := circular_reference_is_cycle Session.cyclic .empty cycling
  obtain ⟨-, never⟩ := circular_reference_is_cycle ⟨frames, none⟩ .empty repeating
  exact ⟨reported, found _ _ reported, acyclic, never acyclic⟩

end Compiler

end HtmlTemplate
