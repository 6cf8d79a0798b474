import HtmlTemplate.Proofs.Agreement
import HtmlTemplate.Proofs.References
import HtmlTemplate.Proofs.RoundTrip
import HtmlTemplate.Proofs.Stack

/-!
# Values stay text

Where no text of a template holds a `<` and no raw text element holds anything but text, what
it is expanded to is the same: values are encoded in texts and in attributes. Main result: the
written form of an expansion is read as that expansion, whatever the values are.
-/
namespace HtmlTemplate

/-! ### Values in texts -/

theorem Placeholder.start?_suffix {t rest : Text} {p : Placeholder}
    (h : start? t = some (p, rest)) : rest <:+ t := by
  unfold start? at h
  split at h
  · rename_i t
    split at h
    · rename_i after closed
      obtain ⟨_, -, hp⟩ := Option.map_eq_some_iff.mp h
      obtain ⟨-, rfl⟩ := by simpa using hp
      have later : after <:+ t.dropWhile (· != '\x7d') := by
        rw [closed]
        exact (List.suffix_cons _ _).trans (List.suffix_cons _ _)
      have opened : t <:+ '\x7b' :: '\x7b' :: t :=
        (List.suffix_cons _ _).trans (List.suffix_cons _ _)
      exact (later.trans (List.dropWhile_suffix _)).trans opened
    · simp at h
  · simp at h

/-- What stands outside of placeholders stands in the text. -/
theorem Piece.mem_of_char_mem_scan {c : Char} {t : Text} (h : char c ∈ scan t) : c ∈ t := by
  fun_induction scan t with
  | case1 t p rest found ih =>
    have later : char c ∈ scan rest := by simpa using h
    exact (Placeholder.start?_suffix found).subset (ih later)
  | case2 => simp at h
  | case3 d rest _ ih =>
    rcases List.mem_cons.mp h with he | later
    · simp_all
    · exact List.mem_cons_of_mem _ (ih later)

/-- A character that no encoded value holds is in a text once it is filled only where it was
in that text. -/
theorem Scope.not_mem_fillEncoded (scope : Scope) {c : Char} {t : Text}
    (encoded : ∀ value, c ∉ Text.Entity.encodeText value) (h : c ∉ t) :
    c ∉ scope.fillEncoded t := by
  intro hm
  obtain ⟨piece, hp, hm⟩ := List.mem_flatMap.mp hm
  cases piece with
  | char d =>
    obtain rfl := List.mem_singleton.mp hm
    exact h (Piece.mem_of_char_mem_scan hp)
  | hole p => exact encoded _ hm

theorem Scope.lessThan_not_mem_fillEncoded (scope : Scope) {t : Text} (h : '<' ∉ t) :
    '<' ∉ scope.fillEncoded t :=
  scope.not_mem_fillEncoded Text.Entity.lessThan_not_mem_encodeText h

/-! ### Tags of elements that stay -/

namespace Tag

theorem IsWellFormed.undirected {tag : Tag} (h : tag.IsWellFormed) :
    tag.undirected.IsWellFormed where
  name_ok := by
    rw [name_undirected]
    exact h.name_ok
  attributes_ok a ha := h.attributes_ok a ((undirected_sublist tag).subset ha)
  hasDistinctNames := h.hasDistinctNames.undirected

theorem IsWellFormed.fillTag {tag : Tag} (h : tag.IsWellFormed) (scope : Scope) :
    (scope.fillTag tag).IsWellFormed where
  name_ok := h.name_ok
  attributes_ok a ha := by
    obtain ⟨b, hb, rfl⟩ := List.mem_map.mp ha
    exact h.attributes_ok b hb
  hasDistinctNames := by
    have names : (scope.fillTag tag).attributes.map (·.name) = tag.attributes.map (·.name) := by
      simp [Scope.fillTag]
    unfold HasDistinctNames
    rw [names]
    exact h.hasDistinctNames

theorem isWellFormed_wrapper (value : Text) :
    IsWellFormed ⟨"div".toList, [⟨"class".toList, value⟩]⟩ where
  name_ok := by
    show isTagName "div".toList
    decide
  attributes_ok := by
    rw [List.forall_mem_singleton]
    show isAttributeName "class".toList
    decide
  hasDistinctNames := by
    show ["class".toList].Nodup
    decide

end Tag

namespace Forest

/-! ### Plain forests -/

/-- Nothing but texts. -/
def IsTextual : Forest → Prop
  | nil => True
  | text _ rest => rest.IsTextual
  | _ => False

/-- No text holds a `<`, and script and style elements hold texts only. -/
def Rules.plain : Rules where
  element tag children := tag.holdsRawText → children.IsTextual
  text content := '<' ∉ content
  comment _ := True
  declaration _ := True

def IsPlain (f : Forest) : Prop := f.Obeys .plain

instance IsTextual.decide : (f : Forest) → Decidable f.IsTextual
  | nil => .isTrue trivial
  | text _ rest => decide rest
  | element _ _ _ _ | comment _ _ | declaration _ _ => .isFalse not_false

instance (f : Forest) : Decidable f.IsPlain :=
  Obeys.decide (fun tag _ => inferInstanceAs (Decidable (tag.holdsRawText → _)))
    (fun content => inferInstanceAs (Decidable ('<' ∉ content)))
    (fun _ => .isTrue trivial) (fun _ => .isTrue trivial) f

/-- What holds of plain templates as they are read and of all that they are expanded to. -/
def Rules.writable : Rules := .and .lexed .plain

theorem IsTextual.replaceFirst?_eq_none {choice : Element → Bool} {new : Element → Forest}
    {f : Forest} (h : f.IsTextual) : f.replaceFirst? choice new = none := by
  induction f with
  | nil => rfl
  | text content rest ih => rw [replaceFirst?, ih h, Option.map_none]
  | _ => exact h.elim

theorem IsTextual.unsealed_eq {f : Forest} (h : f.IsTextual) : f.unsealed = f := by
  induction f with
  | nil => rfl
  | text content rest ih => rw [unsealed, ih h]
  | _ => exact h.elim

theorem IsTextual.lessThan_not_mem {f : Forest} (h : f.IsTextual) (hp : f.Obeys .writable) :
    '<' ∉ f.textContent := by
  induction f with
  | nil => simp [textContent]
  | text content rest ih =>
    rw [textContent, List.mem_append, not_or]
    exact ⟨hp.1.2, ih h hp.2⟩
  | _ => exact h.elim

/-- An element that no slot can be in keeps its children when a slot is filled. -/
theorem Rules.writable_replaceFirst? {choice : Element → Bool} {new : Element → Forest}
    {tag : Tag} {children inner : Forest} (h : Rules.writable.element tag children)
    (hi : children.replaceFirst? choice new = some inner) : Rules.writable.element tag inner := by
  obtain ⟨⟨tag_ok, void⟩, raw⟩ := h
  refine ⟨⟨tag_ok, ?_⟩, ?_⟩
  · intro hv
    rw [void hv] at hi
    simp [replaceFirst?] at hi
  · intro hr
    rw [(raw hr).replaceFirst?_eq_none] at hi
    simp at hi

theorem Rules.writable_wrapper (value : Text) (children : Forest) :
    Rules.writable.element ⟨"div".toList, [⟨"class".toList, value⟩]⟩ children := by
  refine ⟨⟨Tag.isWellFormed_wrapper value, ?_⟩, ?_⟩
  · show Tag.isVoidName "div".toList → children = nil
    intro void
    exact absurd void (by decide)
  · show Token.rawTextNames.any (·.toList == "div".toList) → children.IsTextual
    intro raw
    exact absurd raw (by decide)

/-! ### Texts joined -/

/-- The forest with a text in front, as one with the text that it begins with. -/
def prependText : Text → Forest → Forest
  | [], f => f
  | t, text content rest => text (t ++ content) rest
  | t, f => text t f

/-- The forest without empty texts and with neighbouring texts as one, at every depth. -/
def joined : Forest → Forest
  | nil => nil
  | element tag isSealed children rest => element tag isSealed children.joined rest.joined
  | text content rest => prependText content rest.joined
  | comment body rest => comment body rest.joined
  | declaration raw rest => declaration raw rest.joined

theorem print_prependText (t : Text) (f : Forest) : (prependText t f).print = t ++ f.print := by
  cases t with
  | nil => rfl
  | cons c t =>
    cases f with
    | text content rest => simp [prependText, print]
    | _ => rfl

theorem print_joined (f : Forest) : f.joined.print = f.print := by
  induction f with
  | nil => rfl
  | element tag s children rest ihc ihr => rw [joined, print, ihc, ihr, print]
  | text content rest ih => rw [joined, print_prependText, ih, print]
  | comment body rest ih | declaration raw rest ih => rw [joined, print, ih, print]

theorem prependText_ofText (a b : Text) : prependText a (ofText b) = ofText (a ++ b) := by
  cases a with
  | nil => rfl
  | cons c a =>
    cases b with
    | nil => rw [List.append_nil]; rfl
    | cons d b => rfl

theorem IsTextual.joined_eq {f : Forest} (h : f.IsTextual) : f.joined = ofText f.textContent := by
  induction f with
  | nil => rfl
  | text content rest ih => rw [joined, ih h, prependText_ofText, textContent]
  | _ => exact h.elim

theorem prependText_eq_text {t : Text} (hn : t ≠ []) {f : Forest}
    (h : f.startsWithText = false) : prependText t f = text t f := by
  obtain ⟨c, t, rfl⟩ := List.exists_cons_of_ne_nil hn
  cases f with
  | text content rest => exact absurd h (by simp [startsWithText])
  | _ => rfl

theorem WellFormed.prependText {f : Forest} (h : f.WellFormed) {t : Text} (ht : '<' ∉ t) :
    (prependText t f).WellFormed := by
  by_cases hn : t = []
  · rw [hn]
    exact h
  by_cases hs : f.startsWithText
  · cases h with
    | text _ ho hb hr =>
      obtain ⟨c, t, rfl⟩ := List.exists_cons_of_ne_nil hn
      refine .text (by simp) ?_ hb hr
      rwa [Text.opensNoMarkup_append ht]
    | _ => exact absurd hs (by simp [startsWithText])
  · have alone : t.opensNoMarkup := by
      rw [← List.append_nil t, Text.opensNoMarkup_append ht]
      rfl
    rw [prependText_eq_text hn (by simpa using hs)]
    exact .text hn alone (by simpa using hs) h

theorem lessThan_mem_lowercase {t : Text} (h : '<' ∈ t.lowercase) : '<' ∈ t := by
  obtain ⟨c, hc, he⟩ := List.mem_map.mp h
  exact Text.eq_of_toLower (by decide) he ▸ hc

theorem Obeys.wellFormed_joined {f : Forest} (h : f.Obeys .writable) :
    f.unsealed.joined.WellFormed := by
  induction f with
  | nil => exact .nil
  | element tag s children rest ihc ihr =>
    obtain ⟨⟨⟨tag_ok, void⟩, raw⟩, hc, hr⟩ := h
    rw [unsealed, joined]
    by_cases hv : tag.isVoid
    · rw [void hv]
      exact .void tag_ok hv (ihr hr)
    by_cases hraw : tag.holdsRawText
    · have textual := raw hraw
      rw [textual.unsealed_eq, textual.joined_eq]
      refine .raw tag_ok hraw ?_ (ihr hr)
      intro found
      have inside : '<' ∈ tag.endMark := List.mem_cons_self
      exact textual.lessThan_not_mem hc (lessThan_mem_lowercase (found.subset inside))
    · exact .element tag_ok hv hraw (ihc hc) (ihr hr)
  | text content rest ih => exact (ih h.2).prependText h.1.2
  | comment body rest ih => exact .comment h.1.1 (ih h.2)
  | declaration raw rest ih => exact .declaration h.1.1 (ih h.2)

end Forest

/-- The bodies of all fragments that a name leads to are plain. -/
def Store.IsPlain (store : Store) : Prop :=
  ∀ name path body, store.resolve name = .ok path → store.load path = .ok body → body.IsPlain

namespace OnePass

open Forest (Rules)

/-- Where slot content is writable, so is what the inclusion comes to. -/
def KeepsWritable (onInclusion : Include) : Prop :=
  ∀ tag slot scope r, slot.Obeys .writable → onInclusion tag slot scope = some r →
    r.Obeys .writable

variable {onInclusion : Include} {f g : Forest} {scope : Scope}

theorem isTextual_evaluateWith (hf : f.IsTextual)
    (h : evaluateWith onInclusion f scope = some g) : g.IsTextual := by
  induction f generalizing g with
  | nil =>
    obtain rfl := by simpa [evaluateWith] using h
    trivial
  | text content rest ih =>
    simp only [evaluateWith, Option.bind_eq_bind, Option.bind_eq_some_iff, Option.pure_def,
      Option.some.injEq] at h
    obtain ⟨rest', hr, rfl⟩ := h
    exact ih (g := rest') hf hr
  | _ => exact hf.elim

/-- The children of an element are evaluated to children that its tag may have. -/
theorem element_evaluateWith {tag : Tag} (h : Rules.writable.element tag f)
    (hg : evaluateWith onInclusion f scope = some g) : Rules.writable.element tag g := by
  obtain ⟨⟨tag_ok, void⟩, raw⟩ := h
  refine ⟨⟨tag_ok, ?_⟩, ?_⟩
  · intro hv
    rw [void hv] at hg
    exact (Option.some.inj hg).symm
  · intro hr
    exact isTextual_evaluateWith (raw hr) hg

theorem element_undirected {tag : Tag} (h : Rules.writable.element tag f) (scope : Scope) :
    Rules.writable.element (scope.fillTag tag.undirected) f := by
  have name : (scope.fillTag tag.undirected).name = tag.name := Tag.name_undirected tag
  refine ⟨⟨h.1.1.undirected.fillTag scope, ?_⟩, ?_⟩
  · rw [Tag.isVoid, name]
    exact h.1.2
  · show (scope.fillTag tag.undirected).holdsRawText → f.IsTextual
    rw [Tag.holdsRawText, name]
    exact h.2

theorem writable_evaluateWith (hi : KeepsWritable onInclusion) (hf : f.Obeys .writable)
    (h : evaluateWith onInclusion f scope = some g) : g.Obeys .writable := by
  induction f generalizing scope g with
  | nil =>
    obtain rfl := by simpa [evaluateWith] using h
    trivial
  | element tag s children rest ihc ihr =>
    obtain ⟨here_ok, hc, hr⟩ := hf
    simp only [evaluateWith, Option.bind_eq_bind, Option.bind_eq_some_iff, Option.pure_def,
      Option.some.injEq] at h
    obtain ⟨here, hh, rest', hrest, rfl⟩ := h
    rw [Forest.obeys_append]
    refine ⟨?_, ihr hr hrest⟩
    refine of_repeated trivial (fun _ _ hf hg => Forest.obeys_append.mpr ⟨hf, hg⟩) ?_ hh
    intro scope r hr
    simp only [plain, Option.bind_eq_bind, Option.bind_eq_some_iff] at hr
    obtain ⟨inner, hin, hr⟩ := hr
    split at hr
    · exact hi _ _ _ _ (ihc hc hin) hr
    · obtain rfl := by simpa using hr
      exact ⟨element_undirected (element_evaluateWith here_ok hin) scope, ihc hc hin, trivial⟩
  | text content rest ih =>
    simp only [evaluateWith, Option.bind_eq_bind, Option.bind_eq_some_iff, Option.pure_def,
      Option.some.injEq] at h
    obtain ⟨rest', hr, rfl⟩ := h
    exact ⟨⟨trivial, scope.lessThan_not_mem_fillEncoded hf.1.2⟩, ih hf.2 hr⟩
  | comment body rest ih =>
    simp only [evaluateWith, Option.bind_eq_bind, Option.bind_eq_some_iff] at h
    obtain ⟨rest', hr, h⟩ := h
    have rest_ok := ih hf.2 hr
    split at h
    · obtain rfl := by simpa using h
      exact rest_ok
    · obtain rfl := by simpa using h
      exact ⟨hf.1, rest_ok⟩
  | declaration raw rest ih =>
    simp only [evaluateWith, Option.bind_eq_bind, Option.bind_eq_some_iff, Option.pure_def,
      Option.some.injEq] at h
    obtain ⟨rest', hr, rfl⟩ := h
    exact ⟨hf.1, ih hf.2 hr⟩

theorem writable_includeAt {store : Store} (hs : store.IsPlain) (depth : Nat) :
    KeepsWritable (includeAt store depth) := by
  induction depth with
  | zero =>
    intro tag slot scope r _ h
    simp [includeAt] at h
  | succ depth ih =>
    intro tag slot scope r slot_ok h
    obtain ⟨name, path, body, body', resolved, loaded, hb, rfl⟩ := inclusion_eq_some h
    have lexed := (Store.isLexed_load loaded).obeys
    have body_ok := writable_evaluateWith ih (lexed.and (hs _ _ _ resolved loaded)) hb
    have filled := slot_ok.fillSlot body_ok fun _ _ _ => Rules.writable_replaceFirst?
    exact ⟨Rules.writable_wrapper _ _, filled.trim, trivial⟩

end OnePass

namespace Compiler

/-- The written form of a compilation of plain templates is read as that compilation, less the
seals and the bounds between texts. So no value adds, removes or alters markup. -/
theorem read_print_compile {c : Compiler} {scope : Scope} {source : Text}
    {nodes : Forest} (plain : (Forest.read source).IsPlain) (fragments : c.store.IsPlain)
    (h : c.compile scope source = .ok nodes) :
    Forest.read nodes.print = nodes.unsealed.joined := by
  have means := OnePass.evaluate_of_compile (Nat.le_refl _) h
  have lexed := (Forest.isLexed_read source).obeys
  have writable := OnePass.writable_evaluateWith (OnePass.writable_includeAt fragments _)
    (lexed.and plain) means
  have well_formed := writable.wellFormed_joined
  rw [Forest.unsealed_unsealed] at well_formed
  rw [← Forest.print_unsealed, ← Forest.print_joined, Forest.read]
  exact Forest.ofTokens_scan_print well_formed

/-- A list of links, a script, and a box around what the caller gives it. -/
def links : Compiler where
  store :=
    { snapshot := .ofFiles
        [{ names := ["t".toList, "link.xiv".toList]
           content := "<b id='{{t}}'>{{t}}</b><x-slot></x-slot>".toList }]
      root := .ofNames ["t".toList] }
  limit? := none

/-- A value that closes attributes, scripts and comments stays a value. -/
theorem read_print_links :
    let hostile := "'\"><script>--> &lt;".toList
    let scope := Scope.top [("v".toList, .text hostile), ("xs".toList, .list [.text hostile])]
    let source := "<script>s = '{{v}}'</script>".toList ++ "<!-- {{v}} -->".toList
      ++ "<x-temp x-name=link t-t='{{v}}'>".toList ++ "a<!--xiv-comment-->{{v}}".toList
      ++ "<a x-for='x in xs' href='{{x}}'>".toList ++ "</a></x-temp>".toList
    let shown := Text.Entity.encodeText hostile
    let nodes : Forest :=
      .element ⟨"script".toList, []⟩ false
          (.text ("s = '".toList ++ shown ++ "'".toList) .nil)
        (.comment " \x7b\x7bv\x7d\x7d ".toList
          (.element ⟨"div".toList, [⟨"class".toList, "x-link".toList⟩]⟩ true
            (.element ⟨"b".toList, [⟨"id".toList, hostile⟩]⟩ false (.text shown .nil)
              (.text "a".toList (.text shown
                (.element ⟨"a".toList, [⟨"href".toList, hostile⟩]⟩ true .nil .nil)))) .nil))
    (Forest.read source).IsPlain ∧ links.store.IsPlain ∧ links.compile scope source = .ok nodes ∧
      Forest.read nodes.print = nodes.unsealed.joined := by
  intro hostile scope source shown nodes
  have plain : (Forest.read source).IsPlain := by decide +kernel
  have fragments : links.store.IsPlain := by
    intro name path body _ loaded
    obtain ⟨file, hm, rfl⟩ := Store.exists_of_load_ofFiles loaded
    obtain rfl := List.mem_singleton.mp hm
    decide +kernel
  have run : (Session.compile links 60 scope source).1 = .ok nodes := by decide +kernel
  have compiled := Session.compile_eq_ok run
  exact ⟨plain, fragments, compiled, read_print_compile plain fragments compiled⟩

end Compiler

end HtmlTemplate
