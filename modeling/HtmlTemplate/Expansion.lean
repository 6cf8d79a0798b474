import HtmlTemplate.Placeholder
import HtmlTemplate.Store

/-!
# Expansion

A forest is expanded in four passes: loops, conditions, inclusions, placeholders. A copy
of a loop element and the body of a fragment are expanded by all four passes in turn,
and sealed against the passes of the level around them.

Expansion ends by itself. A copy of a loop element carries one attribute less, slot
content is smaller than its inclusion, and a fragment is opened only while it is not
open yet, of which there are finitely many.
-/
namespace HtmlTemplate

/-- A store, and how many fragments may be open at once, if that is limited. -/
structure Compiler where
  store : Store
  limit? : Option Nat

/-- The fragments that are open, innermost first. -/
abbrev OpenFragments := List Path

namespace Forest

/-- The number of elements and attributes that a pass still works on. -/
def weight : Forest → Nat
  | nil => 0
  | element tag false children rest => 1 + tag.attributes.length + children.weight + rest.weight
  | element _ true _ rest => rest.weight
  | text _ rest => rest.weight
  | comment _ rest => rest.weight
  | declaration _ rest => rest.weight

/-- A way to expand every forest that weighs less than the whole. -/
abbrev ExpandBelow (whole : Forest) :=
  (f : Forest) → f.weight < whole.weight → Scope → Except Failure Forest

theorem weight_copy {tag tag' : Tag} {expression : Text} {children rest : Forest} {bound : Nat}
    (ht : tag.takeDirective? .iterate = some (expression, tag'))
    (h : (element tag false children rest).weight ≤ bound) :
    (element tag' false children nil).weight < bound := by
  have := Tag.length_takeAttribute? ht
  simp only [weight] at *
  omega

theorem weight_children {tag : Tag} {children rest : Forest} {bound : Nat}
    (h : (element tag false children rest).weight ≤ bound) : children.weight < bound := by
  simp only [weight] at h
  omega

theorem weight_rest {tag : Tag} {s : Bool} {children rest : Forest} {bound : Nat}
    (h : (element tag s children rest).weight ≤ bound) : rest.weight ≤ bound := by
  cases s <;> simp only [weight] at h <;> omega

@[simp] theorem weight_append (f g : Forest) : (f ++ g).weight = f.weight + g.weight := by
  induction f with
  | element tag s children rest _ ih =>
    cases s with
    | true => simp [weight, ih]
    | false =>
      simp [weight, ih]
      omega
  | _ => simp_all [weight]

@[simp] theorem weight_sealTop (f : Forest) : f.sealTop.weight = 0 := by
  induction f <;> simp_all [weight, sealTop]

end Forest

namespace Expansion

/-- The items of a loop and its header. -/
def loopItems (label : Text) (scope : Scope) (expression : Text) :
    Except Failure (LoopHeader × List Value) :=
  match LoopHeader.read? expression with
  | none => .error (.invalidLoopExpression expression label)
  | some header =>
    match (LoopSource.ofValue? (scope.get header.source)).items with
    | .error reason => .error (.invalidLoopSource header.source reason label)
    | .ok items => .ok (header, items)

/-- One sealed copy per item, each expanded in a scope that binds the item. -/
def copies (copy : Scope → Except Failure Forest) (scope : Scope) (name : Text) :
    List Value → Except Failure Forest
  | [] => .ok .nil
  | item :: items => do
    let first ← copy (scope.derive name item)
    let others ← copies copy scope name items
    return first.sealTop ++ others

/-- The copies of a loop element. -/
def iterate (label : Text) (scope : Scope) (expression : Text)
    (copy : Scope → Except Failure Forest) : Except Failure Forest := do
  let (header, items) ← loopItems label scope expression
  copies copy scope header.variableName items

/-- Replaces every element that carries a loop by its copies. -/
def expandLoops (label : Text) (scope : Scope) {whole : Forest}
    (expand : Forest.ExpandBelow whole) :
    (f : Forest) → f.weight ≤ whole.weight → Except Failure Forest
  | .nil, _ => .ok .nil
  | .element tag true children rest, h => do
    let rest ← expandLoops label scope expand rest (Forest.weight_rest h)
    return .element tag true children rest
  | .element tag false children rest, h =>
    match ht : tag.takeDirective? .iterate with
    | some (expression, tag) => do
      let here ← iterate label scope expression
        (expand (.element tag false children .nil) (Forest.weight_copy ht h))
      let rest ← expandLoops label scope expand rest (Forest.weight_rest h)
      return here ++ rest
    | none => do
      let children ← expandLoops label scope expand children
        (Nat.le_of_lt (Forest.weight_children h))
      let rest ← expandLoops label scope expand rest (Forest.weight_rest h)
      return .element tag false children rest
  | .text content rest, h => do
    return .text content (← expandLoops label scope expand rest h)
  | .comment body rest, h => do
    return .comment body (← expandLoops label scope expand rest h)
  | .declaration raw rest, h => do
    return .declaration raw (← expandLoops label scope expand rest h)

/-- Whether a comment is left out of the output. -/
def isHiddenComment (body : Text) : Bool := hiddenCommentStart.isPrefixOf body.trimStart

/-- Leaves out elements whose condition does not hold, and hidden comments. -/
def prune (scope : Scope) : Forest → Forest
  | .nil => .nil
  | .element tag true children rest => .element tag true children (prune scope rest)
  | .element tag false children rest =>
    match tag.takeDirective? .condition with
    | some (condition, tag) =>
      if scope.holds condition then
        .element tag false (prune scope children) (prune scope rest)
      else prune scope rest
    | none => .element tag false (prune scope children) (prune scope rest)
  | .text content rest => .text content (prune scope rest)
  | .comment body rest =>
    if isHiddenComment body then prune scope rest else .comment body (prune scope rest)
  | .declaration raw rest => .declaration raw (prune scope rest)

/-- Replaces every inclusion by what `expandOne` makes of its tag and its children. -/
def expandInclusions {whole : Forest}
    (expandOne : Tag → (children : Forest) → children.weight < whole.weight →
      Except Failure Forest) :
    (f : Forest) → f.weight ≤ whole.weight → Except Failure Forest
  | .nil, _ => .ok .nil
  | .element tag true children rest, h => do
    let rest ← expandInclusions expandOne rest (Forest.weight_rest h)
    return .element tag true children rest
  | .element tag false children rest, h => do
    if tag.name = inclusionTag then
      let here ← expandOne tag children (Forest.weight_children h)
      let rest ← expandInclusions expandOne rest (Forest.weight_rest h)
      return here ++ rest
    else
      let children ← expandInclusions expandOne children
        (Nat.le_of_lt (Forest.weight_children h))
      let rest ← expandInclusions expandOne rest (Forest.weight_rest h)
      return .element tag false children rest
  | .text content rest, h => do
    return .text content (← expandInclusions expandOne rest h)
  | .comment body rest, h => do
    return .comment body (← expandInclusions expandOne rest h)
  | .declaration raw rest, h => do
    return .declaration raw (← expandInclusions expandOne rest h)

/-- The characters of a name that may stand in a class. -/
def className (name : Text) : Text := name.filter fun c => c.isAlphanum || c == '_' || c == '-'

/-- The body of a fragment inside its sealed wrapper. -/
def wrap (name : Text) (body : Forest) : Forest :=
  .element ⟨"div".toList, [⟨"class".toList, "x-".toList ++ className name⟩]⟩ true body.trim .nil

/-- The body with slot content in place of its first slot. -/
def fillSlot (slot body : Forest) : Forest :=
  (body.replaceFirst? (·.tag.name == slotTag) fun _ => slot).getD body

/-- The scope of a fragment: its arguments, resolved in the scope of the call. -/
def argumentScope (scope : Scope) (arguments : List (Text × Text)) : Scope :=
  .top (arguments.map fun (key, value) => (key, .text (scope.fill value)))

/-- A fragment that may be opened: its name, its path and its body. -/
structure Opening where
  name : Text
  path : Path
  body : Forest

/-- Finds the fragment that an inclusion names, unless it is open already or too many are. -/
def openFragment (c : Compiler) (opened : OpenFragments) (label : Text) (call : Inclusion) :
    Except Failure Opening :=
  match call.name? with
  | none => .error (.missingFragmentName label)
  | some name =>
    match c.store.resolve name with
    | .error e => .error e
    | .ok path =>
      if path ∈ opened then .error (.circularReference label path.text)
      else
        match c.limit?.filter (· ≤ opened.length) with
        | some limit => .error (.nestingTooDeep limit label)
        | none =>
          match c.store.load path with
          | .error e => .error e
          | .ok body => .ok ⟨name, path, body⟩

theorem openFragment_path {c : Compiler} {opened : OpenFragments} {label : Text}
    {call : Inclusion} {o : Opening} (h : openFragment c opened label call = .ok o) :
    o.path ∈ c.store.snapshot.files ∧ o.path ∉ opened := by
  unfold openFragment at h
  split at h
  · simp at h
  · split at h
    · simp at h
    · rename_i hr
      split at h
      · simp at h
      · rename_i fresh
        split at h
        · simp at h
        · split at h
          · simp at h
          · rename_i hl
            obtain rfl := by simpa using h
            exact ⟨Store.mem_files hr hl, fresh⟩

/-- The number of files that are not open. -/
def closedFiles (c : Compiler) (opened : OpenFragments) : Nat :=
  c.store.snapshot.files.countP (· ∉ opened)

theorem countP_cons_lt {files : List Path} {opened : OpenFragments} {path : Path}
    (hf : path ∈ files) (ho : path ∉ opened) :
    files.countP (· ∉ path :: opened) < files.countP (· ∉ opened) := by
  have mono (fs : List Path) : fs.countP (· ∉ path :: opened) ≤ fs.countP (· ∉ opened) :=
    List.countP_mono_left (by simp)
  induction files with
  | nil => simp at hf
  | cons f fs ih =>
    rcases List.mem_cons.mp hf with rfl | hf
    · have := mono fs
      simp only [List.countP_cons, List.mem_cons, true_or, not_true_eq_false, decide_false, ho,
        not_false_eq_true, decide_true]
      simp only [List.mem_cons] at this
      grind
    · have := ih hf
      have step : ∀ f, (if decide (f ∉ path :: opened) then 1 else 0)
          ≤ (if decide (f ∉ opened) then 1 else 0 : Nat) := by
        intro f
        by_cases h : f ∈ opened <;> simp [h]
        split <;> simp
      have := step f
      rw [List.countP_cons, List.countP_cons]
      omega

theorem closedFiles_lt {c : Compiler} {opened : OpenFragments} {label : Text}
    {call : Inclusion} {o : Opening} (h : openFragment c opened label call = .ok o) :
    closedFiles c (o.path :: opened) < closedFiles c opened :=
  countP_cons_lt (openFragment_path h).1 (openFragment_path h).2

theorem weight_copies {copy : Scope → Except Failure Forest} {scope : Scope} {name : Text}
    {items : List Value} {g : Forest} (h : copies copy scope name items = .ok g) :
    g.weight = 0 := by
  induction items generalizing g with
  | nil =>
    obtain rfl := by simpa [copies] using h
    rfl
  | cons item items ih =>
    simp only [copies, Failure.bind_eq_ok, Failure.pure_eq_ok] at h
    obtain ⟨first, -, others, ho, rfl⟩ := h
    simp [ih ho]

theorem weight_iterate {label : Text} {scope : Scope} {expression : Text}
    {copy : Scope → Except Failure Forest} {g : Forest}
    (h : iterate label scope expression copy = .ok g) : g.weight = 0 := by
  simp only [iterate, Failure.bind_eq_ok] at h
  obtain ⟨found, -, hc⟩ := h
  exact weight_copies hc

/-- Expanding loops adds no work for the passes after it. -/
theorem weight_expandLoops {label : Text} {scope : Scope} {whole : Forest}
    {expand : Forest.ExpandBelow whole} {f g : Forest} {hf : f.weight ≤ whole.weight}
    (h : expandLoops label scope expand f hf = .ok g) : g.weight ≤ f.weight := by
  induction f generalizing g with
  | nil =>
    obtain rfl := by simpa [expandLoops] using h
    exact Nat.le_refl _
  | element tag s children rest ihc ihr =>
    cases s with
    | true =>
      simp only [expandLoops, Failure.bind_eq_ok, Failure.pure_eq_ok] at h
      obtain ⟨rest', hr, rfl⟩ := h
      simpa only [Forest.weight] using ihr hr
    | false =>
      unfold expandLoops at h
      split at h
      · simp only [Failure.bind_eq_ok, Failure.pure_eq_ok] at h
        obtain ⟨here, hi, rest', hr, rfl⟩ := h
        have := ihr hr
        rw [Forest.weight_append, weight_iterate hi]
        simp only [Forest.weight]
        omega
      · simp only [Failure.bind_eq_ok, Failure.pure_eq_ok] at h
        obtain ⟨children', hc, rest', hr, rfl⟩ := h
        have := ihr hr
        have := ihc hc
        simp only [Forest.weight]
        omega
  | text content rest ih | comment body rest ih | declaration raw rest ih =>
    simp only [expandLoops, Failure.bind_eq_ok, Failure.pure_eq_ok] at h
    obtain ⟨rest', hr, rfl⟩ := h
    simpa only [Forest.weight] using ih hr

theorem weight_prune (scope : Scope) (f : Forest) : (prune scope f).weight ≤ f.weight := by
  induction f with
  | nil => simp [prune]
  | element tag s children rest ihc ihr =>
    cases s with
    | true => simpa [prune, Forest.weight] using ihr
    | false =>
      simp only [prune]
      split
      · rename_i ht
        have := Tag.length_takeAttribute? ht
        split <;> simp only [Forest.weight] <;> omega
      · simp only [Forest.weight]
        omega
  | text content rest ih | declaration raw rest ih => simpa [prune, Forest.weight] using ih
  | comment body rest ih =>
    simp only [prune]
    split <;> simpa [Forest.weight] using ih

/-- Expands a forest below the open fragments. The label names the file it comes from. -/
def expand (c : Compiler) (opened : OpenFragments) (label : Text) (scope : Scope)
    (whole : Forest) : Except Failure Forest :=
  match hl : @expandLoops label scope whole
      (fun f _ scope => expand c opened label scope f) whole (Nat.le_refl _) with
  | .error e => .error e
  | .ok looped => do
    let included ← @expandInclusions whole
      (fun tag children _ => do
        let call := Inclusion.ofAttributes tag.attributes
        let slot ← expand c opened label scope children
        match _ho : openFragment c opened label call with
        | .error e => .error e
        | .ok o => do
          let body ← expand c (o.path :: opened) o.path.text
            (argumentScope scope call.arguments) o.body
          return wrap o.name (fillSlot slot body))
      (prune scope looped) (Nat.le_trans (weight_prune scope looped) (weight_expandLoops hl))
    return included.fill scope
termination_by (closedFiles c opened, whole.weight)
decreasing_by
  · exact Prod.Lex.right _ ‹_›
  · exact Prod.Lex.right _ ‹_›
  · exact Prod.Lex.left _ _ (closedFiles_lt ‹_›)

end Expansion

namespace Compiler

/-- The label of the main document, which is no fragment. -/
def mainLabel : Text := "<main>".toList

/-- Expands a source in a scope. -/
def compile (c : Compiler) (scope : Scope) (source : Text) : Except Failure Forest :=
  Expansion.expand c [] mainLabel scope (Forest.read source)

/-- Expands the document in a file, without any names. -/
def compileFile (c : Compiler) (path : Path) : Except Failure Forest :=
  let files := c.store.snapshot
  if files.isFile path then
    match files.read path with
    | .ok source => c.compile .empty source
    | .error e => .error (.file e)
  else if files.isPresent path then
    .error (.invalidInput path.text "main template is not a file".toList)
  else .error (.invalidInput path.text "main template does not exist".toList)

end Compiler

end HtmlTemplate
