import HtmlTemplate.Markup.Search
import Mathlib.Data.List.Basic

/-!
# Where elements occur

An element occurs in a forest at a spot, which is all that stands around it. Main result: a
search finds the elements in the order of their spots, and a replacement changes what stands at
the first spot and nothing else.
-/
namespace HtmlTemplate.Forest

/-- A place among the siblings of a forest, at whatever depth, with all that stands around it. -/
inductive Spot where
  | here (before after : Forest)
  | inside (before : Forest) (tag : Tag) (isSealed : Bool) (inner : Spot) (after : Forest)
deriving DecidableEq, Repr

theorem length_append (f g : Forest) : (f ++ g).length = f.length + g.length := by
  induction f with
  | nil => simp [length]
  | element _ _ _ _ _ ih | text _ _ ih | comment _ _ ih | declaration _ _ ih =>
    simp only [element_append, text_append, comment_append, declaration_append, length, ih]
    omega

namespace Spot

/-- The forest with those nodes at the spot. -/
def plug (nodes : Forest) : Spot → Forest
  | here before after => before ++ nodes ++ after
  | inside before tag s inner after => before ++ element tag s (inner.plug nodes) after

/-- The number of siblings before the spot, or before the element that it is inside of. -/
def index : Spot → Nat
  | here before _ => before.length
  | inside before _ _ _ _ => before.length

/-- The index of the spot at every depth. Document order is the lexicographic order of these
lists, in which an element comes before all that it holds. -/
def indices : Spot → List Nat
  | here before _ => [before.length]
  | inside before _ _ inner _ => before.length :: inner.indices

/-- The spot with more siblings before it. -/
def behind (more : Forest) : Spot → Spot
  | here before after => here (more ++ before) after
  | inside before tag s inner after => inside (more ++ before) tag s inner after

variable {a b : Spot}

theorem plug_behind (nodes more : Forest) (spot : Spot) :
    (spot.behind more).plug nodes = more ++ spot.plug nodes := by
  cases spot <;> simp [behind, plug, append_assoc]

theorem behind_nil (spot : Spot) : spot.behind nil = spot := by
  cases spot <;> rfl

theorem behind_behind (first more : Forest) (spot : Spot) :
    (spot.behind more).behind first = spot.behind (first ++ more) := by
  cases spot <;> simp [behind, append_assoc]

theorem index_behind (more : Forest) (spot : Spot) :
    (spot.behind more).index = more.length + spot.index := by
  cases spot <;> exact length_append more _

theorem indices_behind_lt {more : Forest} :
    (a.behind more).indices < (b.behind more).indices ↔ a.indices < b.indices := by
  cases a <;> cases b <;> simp [behind, indices, length_append, List.cons_lt_cons_iff]

theorem nil_lt_indices (spot : Spot) : [] < spot.indices := by
  cases spot <;> exact List.nil_lt_cons _ _

theorem indices_lt_of_index_lt (h : a.index < b.index) : a.indices < b.indices := by
  cases a <;> cases b <;> exact List.cons_lt_cons_iff.mpr (.inl h)

end Spot

/-- An element and the spot it stands at. -/
structure Occurrence where
  spot : Spot
  element : Element
deriving DecidableEq, Repr

namespace Occurrence

/-- The forest that the element occurs in. -/
def forest (o : Occurrence) : Forest := o.spot.plug (ofElement o.element)

/-- The occurrence with more siblings before it. -/
def behind (more : Forest) (o : Occurrence) : Occurrence := ⟨o.spot.behind more, o.element⟩

/-- The occurrence inside of an element with siblings after it. -/
def within (tag : Tag) (isSealed : Bool) (rest : Forest) (o : Occurrence) : Occurrence :=
  ⟨.inside nil tag isSealed o.spot rest, o.element⟩

/-- The first occurrence comes before the second one in document order. -/
def Precedes (o o' : Occurrence) : Prop := o.spot.indices < o'.spot.indices

theorem forest_behind (more : Forest) (o : Occurrence) :
    (o.behind more).forest = more ++ o.forest :=
  Spot.plug_behind _ more o.spot

end Occurrence

/-- The occurrences of the elements that satisfy a test, in document order. -/
def occurrences (p : Element → Bool) : Forest → List Occurrence
  | nil => []
  | element tag s children rest =>
    (if p ⟨tag, s, children⟩ then [⟨.here nil rest, ⟨tag, s, children⟩⟩] else [])
      ++ (children.occurrences p).map (·.within tag s rest)
      ++ (rest.occurrences p).map (·.behind (element tag s children nil))
  | text content rest => (rest.occurrences p).map (·.behind (text content nil))
  | comment body rest => (rest.occurrences p).map (·.behind (comment body nil))
  | declaration raw rest => (rest.occurrences p).map (·.behind (declaration raw nil))

variable {p : Element → Bool} {f g : Forest} {o : Occurrence}

/-! ### All occurrences -/

/-- What occurs in a forest occurs behind more siblings too. -/
theorem sound_behind {node rest : Forest}
    (ih : ∀ o ∈ rest.occurrences p, p o.element ∧ o.forest = rest)
    (h : o ∈ (rest.occurrences p).map (·.behind node)) : p o.element ∧ o.forest = node ++ rest := by
  obtain ⟨inner, hm, rfl⟩ := List.mem_map.mp h
  obtain ⟨found, whole⟩ := ih inner hm
  rw [Occurrence.forest_behind, whole]
  exact ⟨found, rfl⟩

theorem of_mem_occurrences (p : Element → Bool) (f : Forest) :
    ∀ o ∈ f.occurrences p, p o.element ∧ o.forest = f := by
  induction f with
  | nil => simp [occurrences]
  | element tag s children rest ihc ihr =>
    intro o h
    rw [occurrences, List.mem_append, List.mem_append] at h
    rcases h with (first | inner) | later
    · split at first
      · rename_i here
        obtain rfl := List.mem_singleton.mp first
        exact ⟨here, rfl⟩
      · simp at first
    · obtain ⟨o, hm, rfl⟩ := List.mem_map.mp inner
      obtain ⟨found, whole⟩ := ihc o hm
      refine ⟨found, ?_⟩
      show element tag s o.forest rest = _
      rw [whole]
    · exact sound_behind ihr later
  | text content rest ih | comment body rest ih | declaration raw rest ih =>
    exact fun o h => sound_behind ih h

theorem mem_occurrences_append (h : o ∈ g.occurrences p) :
    o.behind f ∈ (f ++ g).occurrences p := by
  have step {node rest : Forest} (ih : o.behind rest ∈ (rest ++ g).occurrences p) :
      o.behind (node ++ rest) ∈ ((rest ++ g).occurrences p).map (·.behind node) := by
    refine List.mem_map.mpr ⟨_, ih, ?_⟩
    rw [Occurrence.behind, Occurrence.behind, Spot.behind_behind, Occurrence.behind]
  induction f with
  | nil =>
    rw [Occurrence.behind, Spot.behind_nil]
    exact h
  | element tag s children rest _ ih => exact List.mem_append_right _ (step ih)
  | text content rest ih | comment body rest ih | declaration raw rest ih => exact step ih

theorem mem_occurrences_plug {e : Element} (h : p e) (spot : Spot) :
    ⟨spot, e⟩ ∈ (spot.plug (ofElement e)).occurrences p := by
  induction spot with
  | here before after =>
    have first : ⟨.here nil after, e⟩ ∈ (ofElement e ++ after).occurrences p := by
      rw [ofElement, element_append, occurrences, if_pos h]
      exact List.mem_append_left _ (List.mem_append_left _ (List.mem_singleton.mpr rfl))
    have moved := mem_occurrences_append (f := before) first
    rwa [Occurrence.behind, Spot.behind, append_nil, ← append_assoc] at moved
  | inside before tag s inner after ih =>
    have first : ⟨.inside nil tag s inner after, e⟩ ∈
        (element tag s (inner.plug (ofElement e)) after).occurrences p := by
      rw [occurrences]
      exact List.mem_append_left _ (List.mem_append_right _ (List.mem_map.mpr ⟨_, ih, rfl⟩))
    have moved := mem_occurrences_append (f := before) first
    rwa [Occurrence.behind, Spot.behind, append_nil] at moved

theorem mem_occurrences_iff : o ∈ f.occurrences p ↔ p o.element ∧ o.forest = f := by
  constructor
  · exact of_mem_occurrences p f o
  · rintro ⟨found, rfl⟩
    exact mem_occurrences_plug found o.spot

/-! ### Document order -/

theorem pairwise_behind {node : Forest} {os : List Occurrence}
    (h : os.Pairwise Occurrence.Precedes) : (os.map (·.behind node)).Pairwise Occurrence.Precedes :=
  List.pairwise_map.mpr (h.imp Spot.indices_behind_lt.mpr)

theorem pairwise_within {tag : Tag} {s : Bool} {rest : Forest} {os : List Occurrence}
    (h : os.Pairwise Occurrence.Precedes) :
    (os.map (·.within tag s rest)).Pairwise Occurrence.Precedes := by
  refine List.pairwise_map.mpr (h.imp ?_)
  intro a b before
  exact List.cons_lt_cons_iff.mpr (.inr ⟨rfl, before⟩)

theorem pairwise_occurrences (p : Element → Bool) (f : Forest) :
    (f.occurrences p).Pairwise Occurrence.Precedes := by
  induction f with
  | nil => exact .nil
  | element tag s children rest ihc ihr =>
    rw [occurrences, List.pairwise_append, List.pairwise_append]
    refine ⟨⟨?_, pairwise_within ihc, ?_⟩, pairwise_behind ihr, ?_⟩
    · split <;> simp
    · -- An element comes before all that it holds.
      intro a ha b hb
      obtain ⟨o, -, rfl⟩ := List.mem_map.mp hb
      split at ha
      · obtain rfl := List.mem_singleton.mp ha
        exact List.cons_lt_cons_iff.mpr (.inr ⟨rfl, o.spot.nil_lt_indices⟩)
      · simp at ha
    · -- All of that has fewer siblings before it than what follows the element.
      intro a ha b hb
      obtain ⟨o, -, rfl⟩ := List.mem_map.mp hb
      have first : a.spot.index = 0 := by
        rcases List.mem_append.mp ha with ha | ha
        · split at ha
          · obtain rfl := List.mem_singleton.mp ha
            rfl
          · simp at ha
        · obtain ⟨o, -, rfl⟩ := List.mem_map.mp ha
          rfl
      apply Spot.indices_lt_of_index_lt
      rw [Occurrence.behind, Spot.index_behind, first, length, length]
      omega
  | text content rest ih | comment body rest ih | declaration raw rest ih =>
    exact pairwise_behind ih

theorem findAll_eq (p : Element → Bool) (f : Forest) :
    f.findAll p = (f.occurrences p).map Occurrence.element := by
  have moved (node : Forest) (os : List Occurrence) :
      (os.map (·.behind node)).map Occurrence.element = os.map Occurrence.element := by
    rw [List.map_map]
    rfl
  have held (tag : Tag) (s : Bool) (rest : Forest) (os : List Occurrence) :
      (os.map (·.within tag s rest)).map Occurrence.element = os.map Occurrence.element := by
    rw [List.map_map]
    rfl
  induction f with
  | nil => rfl
  | element tag s children rest ihc ihr =>
    rw [findAll, occurrences, List.map_append, List.map_append, moved, held, ihc, ihr]
    split <;> rfl
  | text content rest ih | comment body rest ih | declaration raw rest ih =>
    rw [findAll, occurrences, moved, ih]

theorem find?_eq (p : Element → Bool) (f : Forest) : f.find? p = (f.findAll p).head? := by
  induction f with
  | nil => rfl
  | element tag s children rest ihc ihr =>
    rw [find?, findAll, List.append_assoc]
    split
    · rfl
    · rw [List.nil_append, List.head?_append, ihc, ihr]
  | text content rest ih | comment body rest ih | declaration raw rest ih => exact ih

/-! ### Replacing -/

/-- Replaces the first element that satisfies the test, by an action that can be taken once. The
action is handed on from one node to the next, and what is left of it is given back with the
forest: the action itself while it is not taken, nothing afterwards. -/
def replaceOnce {m : Type → Type} [Monad m] (p : Element → Bool) :
    Forest → (Element → m Forest) → m (Forest × Option (Element → m Forest))
  | nil, replace => return (nil, some replace)
  | element tag s children rest, replace =>
    if p ⟨tag, s, children⟩ then do
      let new ← replace ⟨tag, s, children⟩
      return (new ++ rest, none)
    else do
      match ← children.replaceOnce p replace with
      | (children, none) => return (element tag s children rest, none)
      | (children, some replace) =>
        let (rest, left) ← rest.replaceOnce p replace
        return (element tag s children rest, left)
  | text content rest, replace => do
    let (rest, left) ← rest.replaceOnce p replace
    return (text content rest, left)
  | comment body rest, replace => do
    let (rest, left) ← rest.replaceOnce p replace
    return (comment body rest, left)
  | declaration raw rest, replace => do
    let (rest, left) ← rest.replaceOnce p replace
    return (declaration raw rest, left)

/-- The forest with the action taken at the occurrence, or the action itself without one. -/
def replaceAt {m : Type → Type} [Monad m] (f : Forest) (replace : Element → m Forest) :
    Option Occurrence → m (Forest × Option (Element → m Forest))
  | none => return (f, some replace)
  | some o => do
    let new ← replace o.element
    return (o.spot.plug new, none)

theorem replaceOnce_eq {m : Type → Type} [Monad m] [LawfulMonad m] (p : Element → Bool)
    (f : Forest) (replace : Element → m Forest) :
    f.replaceOnce p replace = f.replaceAt replace (f.occurrences p).head? := by
  have step {node rest : Forest} {back : Forest → Forest} (hb : ∀ g, back g = node ++ g)
      (os : Option Occurrence) :
      (do
        let (rest, left) ← rest.replaceAt replace os
        return (back rest, left)) = (back rest).replaceAt replace (os.map (·.behind node)) := by
    cases os with
    | none => simp [replaceAt]
    | some o => simp [replaceAt, Occurrence.behind, Spot.plug_behind, hb]
  induction f with
  | nil => rfl
  | element tag s children rest ihc ihr =>
    rw [replaceOnce, occurrences]
    split
    · rfl
    · rw [ihc, List.nil_append, List.head?_append, List.head?_map, List.head?_map]
      cases (children.occurrences p).head? with
      | none =>
        rw [Option.map_none, Option.none_or, replaceAt, pure_bind]
        dsimp only
        rw [ihr]
        apply step
        exact fun _ => rfl
      | some o => simp [replaceAt, Occurrence.within, Spot.plug]
  | text content rest ih | comment body rest ih | declaration raw rest ih =>
    rw [replaceOnce, occurrences, ih, List.head?_map]
    apply step
    exact fun _ => rfl

theorem replaceFirst?_eq (p : Element → Bool) (new : Element → Forest) (f : Forest) :
    f.replaceFirst? p new = (f.occurrences p).head?.map fun o => o.spot.plug (new o.element) := by
  have step {node rest : Forest} {back : Forest → Forest} (hb : ∀ g, back g = node ++ g)
      (ih : rest.replaceFirst? p new
        = (rest.occurrences p).head?.map fun o => o.spot.plug (new o.element)) :
      (rest.replaceFirst? p new).map back
        = ((rest.occurrences p).map (·.behind node)).head?.map
          fun o => o.spot.plug (new o.element) := by
    rw [ih, List.head?_map]
    cases (rest.occurrences p).head? <;> simp [Occurrence.behind, Spot.plug_behind, hb]
  induction f with
  | nil => rfl
  | element tag s children rest ihc ihr =>
    rw [replaceFirst?, occurrences]
    split
    · rfl
    · rw [ihc, List.nil_append, List.head?_append, List.head?_map]
      cases (children.occurrences p).head? with
      | none => exact step (fun _ => rfl) ihr
      | some o => rfl
  | text content rest ih | comment body rest ih | declaration raw rest ih =>
    exact step (fun _ => rfl) ih

/-- Search and replacement agree on the first occurrence. The occurrences of the elements that
satisfy a test are listed in document order, each once; a search finds all of their elements, or
the first. Where there is one, the replacement is made for the element of the first occurrence,
by one action, and what comes of it takes the place of that element among its siblings; all that
stands around it is kept. Where there is none, so is the forest, and the action is given back. -/
theorem search_and_replacement_agree (p : Element → Bool) (f : Forest) :
    ∃ found : List Occurrence,
      (∀ o, o ∈ found ↔ p o.element ∧ o.forest = f) ∧
      found.Pairwise Occurrence.Precedes ∧
      f.findAll p = found.map Occurrence.element ∧
      f.find? p = (f.findAll p).head? ∧
      ∀ (new : Element → Forest) {m : Type → Type} [Monad m] [LawfulMonad m]
        (replace : Element → m Forest),
        match found with
        | first :: _ =>
          f.find? p = some first.element ∧
          f.replaceFirst? p new = some (first.spot.plug (new first.element)) ∧
          f.replaceOnce p replace = (do
            let nodes ← replace first.element
            return (first.spot.plug nodes, none))
        | [] =>
          f.find? p = none ∧ f.replaceFirst? p new = none ∧
          f.replaceOnce p replace = return (f, some replace) := by
  refine ⟨f.occurrences p, fun o => mem_occurrences_iff, pairwise_occurrences p f,
    findAll_eq p f, find?_eq p f, ?_⟩
  intro new m _ _ replace
  rw [find?_eq, findAll_eq, replaceFirst?_eq, replaceOnce_eq]
  cases f.occurrences p with
  | nil => exact ⟨rfl, rfl, rfl⟩
  | cons first others => exact ⟨rfl, rfl, rfl⟩

/-- The first mark stands inside of a sealed element, holds a second one and has a third one
behind it. A replacement that writes down what it is asked for is asked for the first one only,
and the seal around it stays. -/
theorem first_mark_is_replaced :
    let mark (children rest : Forest) : Forest := .element ⟨"b".toList, []⟩ false children rest
    let page (inner : Forest) : Forest :=
      .text "t".toList (.element ⟨"a".toList, []⟩ true inner (mark .nil .nil))
    let isMark (e : Element) : Bool := e.tag.name == "b".toList
    let first : Element := ⟨⟨"b".toList, []⟩, false, mark .nil .nil⟩
    let new (e : Element) : Forest := .text "n".toList e.children
    let noted (e : Element) : StateM (List Element) Forest := fun log => (new e, e :: log)
    let f := page (mark (mark .nil .nil) .nil)
    (f.replaceOnce isMark noted).run []
      = ((page (.text "n".toList (mark .nil .nil)), none), [first]) := by
  intro mark page isMark first new noted f
  obtain ⟨found, -, -, -, -, replaced⟩ := search_and_replacement_agree isMark f
  have search : f.find? isMark = some first := by decide
  have result : f.replaceFirst? isMark new = some (page (.text "n".toList (mark .nil .nil))) := by
    decide
  have here := replaced new noted
  cases found with
  | nil =>
    rw [search] at here
    simp at here
  | cons o others =>
    obtain ⟨same, plugged, once⟩ := here
    have asked : first = o.element := Option.some.inj (search.symm.trans same)
    have whole := Option.some.inj (result.symm.trans plugged)
    rw [once, whole, asked]
    rfl

end HtmlTemplate.Forest
