import HtmlTemplate.Proofs.Encoded
import HtmlTemplate.Proofs.RoundTrip
import HtmlTemplate.Proofs.Resolution
import HtmlTemplate.Proofs.Slots

/-!
# Forwarded arguments

Fragments that include one another hand an argument on without a change, for it is resolved once
at each call and encoded only where the last fragment puts it into running text. Main result: a
chain of fragments of any length shows the textual form of the value at its start.
-/
namespace HtmlTemplate

open Expansion

/-! ### Names of letters and digits -/

theorem Text.isBlank_of_isAlphanum {c : Char} (h : c.isAlphanum) : isBlank c = false := by
  have ranges : ((65 ≤ c.toNat ∧ c.toNat ≤ 90) ∨ (97 ≤ c.toNat ∧ c.toNat ≤ 122))
      ∨ (48 ≤ c.toNat ∧ c.toNat ≤ 57) := by
    simpa [Char.isAlphanum, Char.isAlpha, Char.isUpper, Char.isLower, Char.isDigit,
      UInt32.le_iff_toNat_le] using h
  simp only [isBlank, Bool.or_eq_false_iff, Bool.and_eq_false_iff, decide_eq_false_iff_not,
    beq_eq_false_iff_ne]
  omega

/-- Letters and digits, at least one. -/
structure Text.IsSimple (name : Text) : Prop where
  ne_nil : name ≠ []
  isAlphanum : ∀ c ∈ name, c.isAlphanum

namespace Text.IsSimple

variable {name : Text}

theorem isBlank_eq (h : name.IsSimple) {c : Char} (hm : c ∈ name) : isBlank c = false :=
  isBlank_of_isAlphanum (h.isAlphanum c hm)

theorem isAllBlank_eq (h : name.IsSimple) : name.isAllBlank = false := by
  obtain ⟨c, run, rfl⟩ := List.exists_cons_of_ne_nil h.ne_nil
  rw [isAllBlank, List.all_cons, h.isBlank_eq List.mem_cons_self, Bool.false_and]

theorem trim_eq (h : name.IsSimple) : name.trim = name := by
  have kept (t : Text) (all : ∀ c ∈ t, isBlank c = false) : t.dropWhile isBlank = t := by
    cases t with
    | nil => rfl
    | cons c t => rw [List.dropWhile_cons_of_neg (by simp [all c List.mem_cons_self])]
  have solid : ∀ c ∈ name.reverse, isBlank c = false := fun c hm =>
    h.isBlank_eq (List.mem_reverse.mp hm)
  rw [trim, trimStart, kept name fun c hm => h.isBlank_eq hm, trimEnd, kept _ solid,
    List.reverse_reverse]

theorem className_eq (h : name.IsSimple) : className name = name :=
  List.filter_eq_self.mpr fun c hm => by rw [h.isAlphanum c hm]; rfl

theorem ne_of_mem (h : name.IsSimple) {c d : Char} (hm : c ∈ name) (hd : d.isAlphanum = false) :
    c ≠ d := by
  rintro rfl
  rw [h.isAlphanum c hm] at hd
  exact absurd hd (by decide)

theorem encodeAttribute_eq (h : name.IsSimple) : Entity.encodeAttribute name = name := by
  have plain : ∀ c ∈ name, Entity.attributeForm c = [c] := by
    intro c hm
    have and := h.ne_of_mem hm (by decide : '&'.isAlphanum = false)
    have less := h.ne_of_mem hm (by decide : '<'.isAlphanum = false)
    have greater := h.ne_of_mem hm (by decide : '>'.isAlphanum = false)
    have quote := h.ne_of_mem hm (by decide : '"'.isAlphanum = false)
    unfold Entity.attributeForm
    split <;> simp_all
  rw [Entity.encodeAttribute, List.flatMap_congr plain, List.flatMap_singleton']

/-- The file of such a name is a name that a path can have. -/
theorem isPlainName (h : name.IsSimple) : Path.IsPlainName (name ++ ".xiv".toList) := by
  obtain ⟨c, run, rfl⟩ := List.exists_cons_of_ne_nil h.ne_nil
  have letter := h.ne_of_mem List.mem_cons_self (by decide : '.'.isAlphanum = false)
  refine ⟨?_, ?_, ?_⟩
  · simp [Path.isSilent, letter]
  · simp [letter]
  · intro found
    rcases List.mem_append.mp found with within | after
    · exact h.ne_of_mem within (by decide) rfl
    · exact absurd after (by decide)

end Text.IsSimple

/-! ### Lone placeholders -/

section Holes

variable {scope : Scope} {t key : Text} {p : Placeholder} {v : Value}

theorem Piece.scan_hole (h : Placeholder.start? t = some (p, [])) : Piece.scan t = [.hole p] := by
  have nothing : Piece.scan [] = [] := by
    rw [Piece.scan]
    rfl
  rw [Piece.scan_of_start? h, nothing]

theorem Scope.fill_hole (h : Placeholder.start? t = some (p, [])) :
    scope.fill t = p.resolve scope := by
  rw [fill, Text.substitute, Piece.scan_hole h]
  exact List.append_nil _

theorem Scope.fillEncoded_hole (h : Placeholder.start? t = some (p, [])) :
    scope.fillEncoded t = Text.Entity.encodeText (p.resolve scope) := by
  rw [fillEncoded, Text.substitute, Piece.scan_hole h]
  exact List.append_nil _

theorem Scope.get_key (plain : key.splitOn '.' = [key]) (found : scope.lookup key = some v) :
    scope.get key = (some v).filter (!·.isNull) := by
  rw [get, plain]
  dsimp only
  rw [found]
  rfl

/-- A name prints the value that is bound to it; null prints nothing, as no value does. -/
theorem Placeholder.resolve_key (plain : key.splitOn '.' = [key])
    (found : scope.lookup key = some v) : Placeholder.resolve ⟨key, none⟩ scope = v.print := by
  rw [resolve, Scope.get_key plain found]
  cases v <;> rfl

end Holes

/-- The scope of a fragment that is given a text. -/
def Scope.given (value : Text) : Scope := .top [("x".toList, .text value)]

theorem Placeholder.start?_given :
    start? "{{x}}".toList = some (⟨"x".toList, none⟩, []) := by decide

theorem Placeholder.resolve_given (value : Text) :
    Placeholder.resolve ⟨"x".toList, none⟩ (.given value) = value := by
  show _ = (Value.text value).print
  exact resolve_key (by decide) rfl

theorem Scope.fill_given (value : Text) : (given value).fill "{{x}}".toList = value := by
  rw [fill_hole Placeholder.start?_given, Placeholder.resolve_given]

theorem Scope.fillEncoded_given (value : Text) :
    (given value).fillEncoded "{{x}}".toList = Text.Entity.encodeText value := by
  rw [fillEncoded_hole Placeholder.start?_given, Placeholder.resolve_given]

/-! ### Fragments -/

namespace Store

variable {store : Store} {name : Text} {path : Path} {body : Forest}

/-- The fragment of that name is a file below the root, with that body. -/
structure Holds (store : Store) (name : Text) (path : Path) (body : Forest) : Prop where
  isPresent : store.snapshot.isPresent (store.candidate name)
  canonical_eq : store.snapshot.canonical (store.candidate name) = .ok path
  isWithin : store.root.isWithin path
  isFile : store.snapshot.isFile path
  read : ∃ source, store.snapshot.read path = .ok source ∧
    (Forest.read source).markedBody Document.templateType = body

theorem holds_iff : store.Holds name path body ↔
    store.snapshot.isPresent (store.candidate name) ∧
      store.snapshot.canonical (store.candidate name) = .ok path ∧ store.root.isWithin path ∧
      store.snapshot.isFile path ∧ (store.snapshot.read path).map (fun source =>
        (Forest.read source).markedBody Document.templateType) = .ok body := by
  have read_iff : (∃ source, store.snapshot.read path = .ok source ∧
      (Forest.read source).markedBody Document.templateType = body) ↔
      (store.snapshot.read path).map (fun source =>
        (Forest.read source).markedBody Document.templateType) = .ok body := by
    cases store.snapshot.read path <;> simp [Except.map]
  rw [← read_iff]
  exact ⟨fun h => ⟨h.isPresent, h.canonical_eq, h.isWithin, h.isFile, h.read⟩,
    fun ⟨h1, h2, h3, h4, h5⟩ => ⟨h1, h2, h3, h4, h5⟩⟩

instance : Decidable (store.Holds name path body) := decidable_of_iff' _ holds_iff

/-- A name without separators and dots stays below the root. -/
theorem isWithin_candidate (rooted : store.root.IsPlain) (h : name.IsSimple) :
    store.root.isWithin (store.candidate name) := by
  obtain ⟨base, -, rooted⟩ := rooted
  have written : Path.ofComponents [.name (name ++ ".xiv".toList)] = ⟨name ++ ".xiv".toList⟩ :=
    congrArg Path.mk (List.intercalate_singleton ..)
  have single : (Path.ofComponents [.name (name ++ ".xiv".toList)]).components
      = [.name (name ++ ".xiv".toList)] :=
    Path.components_ofComponents (List.forall_mem_singleton.mpr h.isPlainName)
  rw [written] at single
  rw [isWithin_candidate_iff rooted, Path.walk, single]
  exact List.suffix_cons _ _

theorem Holds.resolve_eq (h : store.Holds name path body) (rooted : store.root.IsPlain)
    (simple : name.IsSimple) : store.resolve name = .ok path := by
  simp [resolve, isWithin_candidate rooted simple, h.isPresent, h.canonical_eq, h.isWithin]

theorem Holds.load_eq (h : store.Holds name path body) : store.load path = .ok body := by
  obtain ⟨source, found, rfl⟩ := h.read
  rw [load, if_pos h.isFile, found]

end Store

/-- The tag of an inclusion without loop and condition, which names a fragment and gives it one
argument. -/
structure Tag.Includes (tag : Tag) (name argument : Text) : Prop where
  name_eq : tag.name = inclusionTag
  call_eq : Inclusion.ofAttributes tag.attributes = ⟨some name, [("x".toList, argument)]⟩
  lacks_iterate : tag.Lacks .iterate
  lacks_condition : tag.Lacks .condition

namespace Expansion

variable {c : Compiler} {opened : OpenFragments} {label : Text} {scope : Scope}

theorem expand_nil : expand c opened label scope .nil = .ok .nil :=
  expand_eq_ok.mpr ⟨.nil, .nil, rfl, rfl, rfl⟩

/-- Without a slot there is nothing to fill. -/
theorem fillSlot_of_slotCount {body : Forest} (h : body.slotCount = 0) :
    fillSlot .nil body = body := by
  unfold fillSlot
  cases hf : body.replaceFirst? (·.tag.name == slotTag) fun _ => .nil with
  | none => rfl
  | some filled =>
    have := Forest.slotCount_replaceFirst? hf
    rw [h, Forest.slotCount_nil] at this
    omega

/-- A call gives the fragment its argument as text, and wraps what comes of the body. -/
theorem expand_call {tag : Tag} {name argument : Text} {path : Path} {body inner : Forest}
    (calls : tag.Includes name argument) (rooted : c.store.root.IsPlain) (simple : name.IsSimple)
    (held : c.store.Holds name path body) (fresh : path ∉ opened)
    (room : ∀ limit ∈ c.limit?, opened.length < limit)
    (expanded : expand c (path :: opened) path.text (.given (scope.fill argument)) body
      = .ok inner)
    (no_slot : inner.slotCount = 0) :
    expand c opened label scope (.element tag false .nil .nil) = .ok (wrap name inner) := by
  have loops : eachLoop (loop (expand c) opened label scope) (.element tag false .nil .nil)
      = .ok (.element tag false .nil .nil) := by
    rw [eachLoop, Tag.lacks_iff.mp calls.lacks_iterate]
    rfl
  have pruned : prune scope (.element tag false .nil .nil) = .element tag false .nil .nil := by
    rw [prune, Tag.lacks_iff.mp calls.lacks_condition]
    rfl
  have opens : openFragment c opened label (Inclusion.ofAttributes tag.attributes)
      = .ok ⟨name, path, body⟩ := by
    rw [openFragment_eq_ok, calls.call_eq]
    exact ⟨rfl, held.resolve_eq rooted simple, fresh, room, held.load_eq⟩
  have included : inclusion c (expand c) opened label scope tag .nil
      = .ok (wrap name inner) := by
    refine inclusion_eq_ok.mpr ⟨.nil, ⟨name, path, body⟩, inner, expand_nil, opens, ?_, ?_⟩
    · rw [calls.call_eq]
      exact expanded
    · rw [fillSlot_of_slotCount no_slot]
  refine expand_eq_ok.mpr ⟨_, wrap name inner, loops, ?_, rfl⟩
  rw [pruned, eachInclusion, if_pos calls.name_eq, included]
  rfl

end Expansion

/-! ### Chains of fragments -/

/-- Fragments of which each includes the next and hands its argument on, the last one with a
body of its own. -/
inductive Store.Forwards (store : Store) (last : Forest) : List Text → List Path → Prop
  | last {name : Text} {path : Path} : store.Holds name path last →
      Forwards store last [name] [path]
  | next {name next : Text} {names : List Text} {path : Path} {paths : List Path} {tag : Tag} :
      store.Holds name path (.element tag false .nil .nil) → tag.Includes next "{{x}}".toList →
      Forwards store last (next :: names) paths →
      Forwards store last (name :: next :: names) (path :: paths)

/-- Wrappers inside each other, the first name outermost. -/
def Forest.nested (core : Forest) : List Text → Forest
  | [] => core
  | name :: names =>
    .element ⟨"div".toList, [⟨"class".toList, "x-".toList ++ name⟩]⟩ true (core.nested names) .nil

theorem Forest.slotCount_nested (core : Forest) (names : List Text) :
    (core.nested names).slotCount = core.slotCount := by
  have other : "div".toList ≠ slotTag := by decide
  induction names with
  | nil => rfl
  | cons name names ih => rw [nested, slotCount_element, if_neg other, ih, slotCount_nil]; omega

theorem Forest.trim_nested {core : Forest} (h : core.trim = core) (names : List Text) :
    (core.nested names).trim = core.nested names := by
  cases names with
  | nil => exact h
  | cons name names => rfl

/-- What the last fragment comes to when the argument is that text: a core without slots and
without blank texts at its ends. -/
structure Compiler.Shows (c : Compiler) (last : Forest) (value : Text) (core : Forest) : Prop where
  expand_eq (opened : OpenFragments) (label : Text) :
    expand c opened label (.given value) last = .ok core
  slotCount_eq : core.slotCount = 0
  trim_eq : core.trim = core

section Chains

variable {c : Compiler} {last core : Forest} {value first : Text} {others : List Text}
  {paths : List Path}

theorem wrap_nested (trimmed : core.trim = core) (simple : first.IsSimple) (names : List Text) :
    wrap first (core.nested names) = core.nested (first :: names) := by
  rw [wrap, simple.className_eq, Forest.trim_nested trimmed, Forest.nested]

/-- Whatever is handed on arrives at the last fragment, and what comes of that is wrapped once
by each fragment of the chain. -/
theorem Store.Forwards.expand_eq (chain : c.store.Forwards last (first :: others) paths)
    (shows : c.Shows last value core) (rooted : c.store.root.IsPlain)
    (simple : ∀ name ∈ first :: others, name.IsSimple) (distinct : paths.Nodup) {tag : Tag}
    {argument : Text} (calls : tag.Includes first argument) {opened : OpenFragments}
    {label : Text} {scope : Scope} (filled : scope.fill argument = value)
    (fresh : ∀ path ∈ paths, path ∉ opened)
    (room : ∀ limit ∈ c.limit?, opened.length + (others.length + 1) ≤ limit) :
    expand c opened label scope (.element tag false .nil .nil)
      = .ok (core.nested (first :: others)) := by
  induction others generalizing first paths tag argument opened label scope with
  | nil =>
    cases chain with
    | last held =>
      have here := simple first List.mem_cons_self
      rw [← wrap_nested shows.trim_eq here]
      refine expand_call calls rooted here held (fresh _ List.mem_cons_self) room ?_ ?_
      · rw [filled]
        exact shows.expand_eq _ _
      · exact shows.slotCount_eq
  | cons next names ih =>
    cases chain with
    | @next _ _ _ path paths _ held calls' chain =>
      obtain ⟨here, below⟩ := List.forall_mem_cons.mp simple
      obtain ⟨unused, distinct⟩ := List.nodup_cons.mp distinct
      obtain ⟨closed, fresh⟩ := List.forall_mem_cons.mp fresh
      have filled' : (Scope.given (scope.fill argument)).fill "{{x}}".toList = value := by
        rw [Scope.fill_given, filled]
      rw [← wrap_nested shows.trim_eq here]
      refine expand_call calls rooted here held closed ?_ ?_ ?_
      · intro limit hm
        have := room limit hm
        omega
      · refine ih chain below distinct calls' filled' ?_ ?_
        · intro other hm found
          rcases List.mem_cons.mp found with rfl | before
          · exact unused hm
          · exact fresh other hm before
        · intro limit hm
          have := room limit hm
          rw [List.length_cons] at this ⊢
          omega
      · rw [Forest.slotCount_nested, shows.slotCount_eq]

end Chains

/-! ### Sealed siblings -/

namespace Forest

variable {f : Forest}

theorem IsElements.trim_eq (h : f.IsElements) : f.trim = f := by
  have ends : f.trimEnd = f := by
    induction f with
    | nil => rfl
    | element tag s children rest _ ih => rw [trimEnd, ih h]
    | _ => exact h.elim
  rw [trim, ends]
  cases f with
  | text => exact h.elim
  | _ => rfl

theorem IsSealed.prune_eq (h : f.IsSealed) (scope : Scope) : prune scope f = f := by
  induction f with
  | nil => rfl
  | element tag s children rest _ ih =>
    cases s with
    | true => rw [prune, ih h]
    | false => exact h.elim
  | _ => exact h.elim

theorem IsSealed.eachInclusion_eq (h : f.IsSealed)
    (onInclusion : Tag → Forest → Except Failure Forest) : eachInclusion onInclusion f = .ok f := by
  induction f with
  | nil => rfl
  | element tag s children rest _ ih =>
    cases s with
    | true =>
      rw [eachInclusion, ih h]
      rfl
    | false => exact h.elim
  | _ => exact h.elim

end Forest

/-! ### The last fragment -/

/-- An element that stresses a text. -/
def Forest.bold (isSealed : Bool) (content : Text) (rest : Forest) : Forest :=
  .element ⟨"b".toList, []⟩ isSealed (.text content .nil) rest

/-- A bold element for each text, as the copies of a loop are. -/
def Forest.bolds (contents : List Text) : Forest := contents.foldr (bold true) .nil

/-- A bold element that is repeated for each item. -/
def Forest.boldEach : Forest :=
  .element ⟨"b".toList, [⟨"x-for".toList, "i in x".toList⟩]⟩ false
    (.text "{{i}}".toList .nil) .nil

section Last

variable {c : Compiler} {opened : OpenFragments} {label : Text} {scope : Scope}

theorem expand_bold (content : Text) : expand c opened label scope (.bold false content .nil)
    = .ok (.bold false (scope.fillEncoded content) .nil) :=
  expand_eq_ok.mpr ⟨.bold false content .nil, .bold false content .nil, rfl, rfl, rfl⟩

theorem shows_bold (value : Text) : c.Shows (.bold false "{{x}}".toList .nil) value
    (.bold false (Text.Entity.encodeText value) .nil) where
  expand_eq opened label := by rw [expand_bold, Scope.fillEncoded_given]
  slotCount_eq := rfl
  trim_eq := rfl

theorem eachItem_bold (items : List Value) :
    eachItem (fun item => expand c opened label (scope.derive "i".toList item)
      (.bold false "{{i}}".toList .nil)) items
      = .ok (.bolds (items.map fun item => Text.Entity.encodeText item.print)) := by
  induction items with
  | nil => rfl
  | cons item items ih =>
    have hole : Placeholder.start? "{{i}}".toList = some (⟨"i".toList, none⟩, []) := by decide
    have printed : Placeholder.resolve ⟨"i".toList, none⟩ (scope.derive "i".toList item)
        = item.print := Placeholder.resolve_key (by decide) rfl
    rw [eachItem, ih, expand_bold, Scope.fillEncoded_hole hole, printed]
    rfl

theorem isSealed_bolds (contents : List Text) : (Forest.bolds contents).IsSealed := by
  induction contents with
  | nil => trivial
  | cons content contents ih => exact ih

theorem slotCount_bolds (contents : List Text) : (Forest.bolds contents).slotCount = 0 := by
  induction contents with
  | nil => rfl
  | cons content contents ih =>
    show (Forest.bold true content (.bolds contents)).slotCount = 0
    rw [Forest.bold, Forest.slotCount_element, ih]
    rfl

section Lists

variable {items : List Value} (ordered : (Value.list items).IsOrdered)
  (shallow : (Value.list items).depth ≤ 127)

include ordered shallow

theorem loopItems_given : loopItems label (.given (Value.list items).print) "i in x".toList
    = .ok (⟨"i".toList, "x".toList⟩, items) := by
  have header : LoopHeader.read? "i in x".toList = some ⟨"i".toList, "x".toList⟩ := by
    decide +kernel
  have found : Scope.get "x".toList (.given (Value.list items).print)
      = (some (Value.text (Value.list items).print)).filter (!·.isNull) :=
    Scope.get_key (by decide) rfl
  have passed : (some (Value.text (Value.list items).print)).filter (!·.isNull)
      = some (Value.text (Value.list items).print) := rfl
  rw [loopItems, header]
  dsimp only
  rw [found, passed, Value.items_print ordered shallow]

theorem eachLoop_boldEach :
    eachLoop (loop (expand c) opened label (.given (Value.list items).print)) .boldEach
      = .ok (.bolds (items.map fun item => Text.Entity.encodeText item.print)) := by
  have repeats : Tag.takeDirective? .iterate ⟨"b".toList, [⟨"x-for".toList, "i in x".toList⟩]⟩
      = some ("i in x".toList, ⟨"b".toList, []⟩) := by decide
  have copied : loop (expand c) opened label (.given (Value.list items).print)
      "i in x".toList ⟨"b".toList, []⟩ (.text "{{i}}".toList .nil)
      = .ok (.bolds (items.map fun item => Text.Entity.encodeText item.print)) :=
    loop_eq_ok.mpr ⟨_, items, loopItems_given ordered shallow, eachItem_bold items⟩
  rw [Forest.boldEach, eachLoop, repeats]
  dsimp only
  rw [copied]
  exact congrArg Except.ok (Forest.append_nil _)

theorem shows_boldEach : c.Shows .boldEach (Value.list items).print
    (.bolds (items.map fun item => Text.Entity.encodeText item.print)) where
  expand_eq opened label := by
    have copies := isSealed_bolds (items.map fun item => Text.Entity.encodeText item.print)
    refine expand_eq_ok.mpr ⟨_, _, eachLoop_boldEach ordered shallow, ?_, copies.fill_eq _⟩
    rw [copies.prune_eq, copies.eachInclusion_eq]
  slotCount_eq := slotCount_bolds _
  trim_eq := (isSealed_bolds _).isElements.trim_eq

end Lists

end Last

/-! ### The source of the first call -/

/-- The tag that names a fragment and gives it one argument. -/
def Tag.including (name argument : Text) : Tag :=
  ⟨inclusionTag, [⟨"x-name".toList, name⟩, ⟨"t-x".toList, argument⟩]⟩

theorem Tag.lacks_including {kind : Directive.Kind} {name argument : Text}
    (names : Directive.Kind.ofName? "x-name".toList ≠ some kind)
    (passes : Directive.Kind.ofName? "t-x".toList ≠ some kind) :
    (including name argument).Lacks kind :=
  List.forall_mem_cons.mpr ⟨names, List.forall_mem_singleton.mpr passes⟩

theorem Tag.includes_including {name : Text} (simple : name.IsSimple) (argument : Text) :
    (including name argument).Includes name argument where
  name_eq := rfl
  call_eq := by
    have passed : Inclusion.ofAttributes [⟨"t-x".toList, argument⟩]
        = ⟨none, [("x".toList, argument)]⟩ := rfl
    have named : Directive.ofAttribute? ⟨"x-name".toList, name⟩ = some (.fragmentName name) := rfl
    rw [including, Inclusion.ofAttributes, passed, named]
    dsimp only
    rw [if_neg (by simp [simple.isAllBlank_eq]), simple.trim_eq]
    rfl
  lacks_iterate := lacks_including (by decide) (by decide)
  lacks_condition := lacks_including (by decide) (by decide)

theorem Tag.isWellFormed_including (name argument : Text) :
    (including name argument).IsWellFormed where
  name_ok := (by decide : isTagName inclusionTag)
  attributes_ok := List.forall_mem_cons.mpr ⟨(by decide : isAttributeName "x-name".toList),
    List.forall_mem_singleton.mpr (by decide : isAttributeName "t-x".toList)⟩
  hasDistinctNames := (by decide : ["x-name".toList, "t-x".toList].Nodup)

/-- A call is read as it is written. -/
theorem read_including {name : Text} (simple : name.IsSimple) :
    Forest.read ("<x-temp x-name=\"".toList ++ name ++ "\" t-x=\"{{v}}\"></x-temp>".toList)
      = .element (Tag.including name "{{v}}".toList) false .nil .nil := by
  have call := Forest.WellFormed.element (Tag.isWellFormed_including name "{{v}}".toList)
    (by decide : ¬Tag.isVoidName inclusionTag)
    (by decide : ¬Token.rawTextNames.any (·.toList == inclusionTag)) .nil .nil
  have named : Attribute.print ⟨"x-name".toList, name⟩
      = " x-name=\"".toList ++ name ++ ['"'] := by
    have given : ¬name.isEmpty := by simpa using simple.ne_nil
    rw [Attribute.print, if_neg given, simple.encodeAttribute_eq]
    rfl
  have written : (Forest.element (Tag.including name "{{v}}".toList) false .nil .nil).print
      = "<x-temp x-name=\"".toList ++ name ++ "\" t-x=\"{{v}}\"></x-temp>".toList := by
    have solid : ¬(Tag.including name "{{v}}".toList).isVoid :=
      (by decide : ¬Tag.isVoidName inclusionTag)
    have passed : Attribute.print ⟨"t-x".toList, "{{v}}".toList⟩ = " t-x=\"{{v}}\"".toList := by
      decide
    have spelled : inclusionTag = "x-temp".toList := rfl
    rw [Forest.print, if_neg solid, Tag.print, Tag.including, List.flatMap_cons, named,
      List.flatMap_cons, passed]
    simp [spelled, Forest.print, Tag.printEnd]
  rw [Forest.read, ← written]
  exact Forest.ofTokens_scan_print call

namespace Compiler

/-- An argument goes through any number of fragments as it is. Where each fragment of a chain
includes the next one and hands its argument on, a call of the first one comes to the wrappers
of all of them, in order, around what the last one shows: the textual form of the value, encoded
once and read back by decoding it, or, where the last one loops over a list, one element for
each item with the textual form of that, encoded once. -/
theorem arguments_are_forwarded {c : Compiler} {first : Text} {others : List Text}
    {paths : List Path} {scope : Scope} {v : Value} (rooted : c.store.root.IsPlain)
    (simple : ∀ name ∈ first :: others, name.IsSimple) (distinct : paths.Nodup)
    (room : ∀ limit ∈ c.limit?, (first :: others).length ≤ limit)
    (bound : scope.lookup "v".toList = some v) :
    let source := "<x-temp x-name=\"".toList ++ first ++ "\" t-x=\"{{v}}\"></x-temp>".toList
    (c.store.Forwards (.bold false "{{x}}".toList .nil) (first :: others) paths →
      c.compile scope source = .ok
        ((Forest.bold false (Text.Entity.encodeText v.print) .nil).nested (first :: others))) ∧
    Text.Entity.decode (Text.Entity.encodeText v.print) = v.print ∧
    ∀ items, v = .list items → v.IsOrdered → v.depth ≤ 127 →
      c.store.Forwards .boldEach (first :: others) paths →
      c.compile scope source = .ok ((Forest.bolds (items.map fun item =>
        Text.Entity.encodeText item.print)).nested (first :: others)) := by
  intro source
  have here := simple first List.mem_cons_self
  have filled : scope.fill "{{v}}".toList = v.print := by
    have hole : Placeholder.start? "{{v}}".toList = some (⟨"v".toList, none⟩, []) := by decide
    have plain : "v".toList.splitOn '.' = ["v".toList] := by decide
    rw [Scope.fill_hole hole, Placeholder.resolve_key plain bound]
  have forwarded {last core : Forest} (chain : c.store.Forwards last (first :: others) paths)
      (shows : c.Shows last v.print core) :
      c.compile scope source = .ok (core.nested (first :: others)) := by
    have room' : ∀ limit ∈ c.limit?, ([] : OpenFragments).length + (others.length + 1) ≤ limit := by
      intro limit hm
      have := room limit hm
      simpa using this
    rw [compile, read_including here]
    exact chain.expand_eq shows rooted simple distinct (Tag.includes_including here _) filled
      (fun _ _ => List.not_mem_nil) room'
  refine ⟨fun chain => forwarded chain (shows_bold _), Text.Entity.decode_encodeText _, ?_⟩
  rintro items rfl ordered shallow chain
  exact forwarded chain (shows_boldEach ordered shallow)

/-- Two chains of two fragments, one with a marker around its last body, and room for no more. -/
def relay : Compiler where
  store :=
    { snapshot := .ofFiles
        [{ names := ["t".toList, "a1.xiv".toList]
           content := "<x-temp t-x='{{x}}' x-name=b2></x-temp>".toList },
         { names := ["t".toList, "b2.xiv".toList]
           content := "<p><xiv type=template><b>{{x}}</b></xiv></p>".toList },
         { names := ["t".toList, "Rows.xiv".toList]
           content := "<x-temp x-name=\"row\" t-x=\"{{x}}\"></x-temp>".toList },
         { names := ["t".toList, "row.xiv".toList]
           content := "<b x-for=\"i in x\">{{i}}</b>".toList }]
      root := .ofNames ["t".toList] }
  limit? := some 2

/-- A text with a placeholder, a reference and quotes, and a list with such texts. -/
theorem relay_forwards :
    let t := " '{{v}}' &amp; <\"é".toList
    let items : List Value := [.text "\"{{i}}\"".toList, .null, .list [.text "<".toList]]
    let call (name : String) := "<x-temp x-name=\"".toList ++ name.toList
      ++ "\" t-x=\"{{v}}\"></x-temp>".toList
    let wrapper (name : String) (inner : Forest) : Forest :=
      .element ⟨"div".toList, [⟨"class".toList, name.toList⟩]⟩ true inner .nil
    let b (isSealed : Bool) (content : String) (rest : Forest) : Forest :=
      .element ⟨"b".toList, []⟩ isSealed (.text content.toList .nil) rest
    relay.compile (.top [("v".toList, .text t)]) (call "a1") = .ok (wrapper "x-a1" (wrapper "x-b2"
        (b false " &#x27;{{v}}&#x27; &amp;amp; &lt;&quot;é" .nil))) ∧
      relay.compile (.inner [] (.top [("v".toList, .list items)])) (call "Rows")
        = .ok (wrapper "x-Rows" (wrapper "x-row" (b true "&quot;{{i}}&quot;" (b true ""
            (b true "[&quot;&lt;&quot;]" .nil))))) := by
  intro t items call wrapper b
  have rooted : relay.store.root.IsPlain := ⟨["t".toList], rfl, by decide⟩
  have simple (name : String) (h : name.toList ≠ [] ∧ name.toList.all Char.isAlphanum) :
      Text.IsSimple name.toList := ⟨h.1, List.all_eq_true.mp h.2⟩
  let path (file : String) : Path := .ofNames ["t".toList, file.toList]
  have texts : relay.store.Forwards (.bold false "{{x}}".toList .nil) ["a1".toList, "b2".toList]
      [path "a1.xiv", path "b2.xiv"] := by
    have first : relay.store.Holds "a1".toList (path "a1.xiv") (.element
        ⟨inclusionTag, [⟨"t-x".toList, "{{x}}".toList⟩, ⟨"x-name".toList, "b2".toList⟩]⟩
        false .nil .nil) := by
      decide +kernel
    have second : relay.store.Holds "b2".toList (path "b2.xiv")
        (.bold false "{{x}}".toList .nil) := by
      decide +kernel
    exact .next first ⟨rfl, by decide +kernel, by decide, by decide⟩ (.last second)
  have rows : relay.store.Forwards .boldEach ["Rows".toList, "row".toList]
      [path "Rows.xiv", path "row.xiv"] := by
    have first : relay.store.Holds "Rows".toList (path "Rows.xiv")
        (.element (Tag.including "row".toList "{{x}}".toList) false .nil .nil) := by
      decide +kernel
    have second : relay.store.Holds "row".toList (path "row.xiv") .boldEach := by
      decide +kernel
    exact .next first (Tag.includes_including (simple "row" (by decide)) _) (.last second)
  have ordered : (Value.list items).IsOrdered := by
    refine .list ?_
    simp only [items, List.forall_mem_cons]
    exact ⟨.text _, .null, .list (by simp [Value.IsOrdered.text]), by simp⟩
  have room : ∀ limit ∈ relay.limit?, 2 ≤ limit := by simp [relay]
  obtain ⟨shown, -, -⟩ := arguments_are_forwarded rooted
    (List.forall_mem_cons.mpr ⟨simple "a1" (by decide), List.forall_mem_singleton.mpr
      (simple "b2" (by decide))⟩) (by decide : [path "a1.xiv", path "b2.xiv"].Nodup) room
    (rfl : (Scope.top [("v".toList, .text t)]).lookup "v".toList = some (.text t))
  obtain ⟨-, -, listed⟩ := arguments_are_forwarded rooted
    (List.forall_mem_cons.mpr ⟨simple "Rows" (by decide), List.forall_mem_singleton.mpr
      (simple "row" (by decide))⟩) (by decide : [path "Rows.xiv", path "row.xiv"].Nodup) room
    (rfl : (Scope.inner [] (.top [("v".toList, .list items)])).lookup "v".toList
      = some (.list items))
  have shown := shown texts
  have listed := listed items rfl ordered (by decide) rows
  have encoded : Text.Entity.encodeText (Value.text t).print
      = " &#x27;{{v}}&#x27; &amp;amp; &lt;&quot;é".toList := by decide +kernel
  have encoded_items : (items.map fun item => Text.Entity.encodeText item.print)
      = ["&quot;{{i}}&quot;".toList, [], "[&quot;&lt;&quot;]".toList] := by decide +kernel
  rw [encoded] at shown
  rw [encoded_items] at listed
  exact ⟨shown, listed⟩

end Compiler

end HtmlTemplate
