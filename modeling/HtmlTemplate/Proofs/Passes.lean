import HtmlTemplate.Expansion

/-!
# The passes as walks

Two of the four passes can fail. Each walks a forest and hands every element of its kind
to an action; written for any monad, the walks serve every account of an expansion. Main
statement: an expansion is its four passes with itself in the place of the calls they
make, so the termination argument of its definition is not needed again.
-/
namespace HtmlTemplate.Expansion

section Walks

variable {m : Type → Type} [Monad m]

/-- Replaces every element that carries a loop by what the action makes of the expression
and of the element without it. -/
def eachLoop (onLoop : (expression : Text) → Tag → (children : Forest) → m Forest) :
    Forest → m Forest
  | .nil => return .nil
  | .element tag true children rest => do
    let rest ← eachLoop onLoop rest
    return .element tag true children rest
  | .element tag false children rest =>
    match tag.takeDirective? .iterate with
    | some (expression, tag) => do
      let here ← onLoop expression tag children
      let rest ← eachLoop onLoop rest
      return here ++ rest
    | none => do
      let children ← eachLoop onLoop children
      let rest ← eachLoop onLoop rest
      return .element tag false children rest
  | .text content rest => do
    return .text content (← eachLoop onLoop rest)
  | .comment body rest => do
    return .comment body (← eachLoop onLoop rest)
  | .declaration raw rest => do
    return .declaration raw (← eachLoop onLoop rest)

/-- The sealed copies for the items of a loop, in order. -/
def eachItem (copy : Value → m Forest) : List Value → m Forest
  | [] => return .nil
  | item :: items => do
    let first ← copy item
    let others ← eachItem copy items
    return first.sealTop ++ others

/-- Replaces every inclusion by what the action makes of its tag and its children. -/
def eachInclusion (onInclusion : Tag → (children : Forest) → m Forest) : Forest → m Forest
  | .nil => return .nil
  | .element tag true children rest => do
    let rest ← eachInclusion onInclusion rest
    return .element tag true children rest
  | .element tag false children rest => do
    if tag.name = inclusionTag then
      let here ← onInclusion tag children
      let rest ← eachInclusion onInclusion rest
      return here ++ rest
    else
      let children ← eachInclusion onInclusion children
      let rest ← eachInclusion onInclusion rest
      return .element tag false children rest
  | .text content rest => do
    return .text content (← eachInclusion onInclusion rest)
  | .comment body rest => do
    return .comment body (← eachInclusion onInclusion rest)
  | .declaration raw rest => do
    return .declaration raw (← eachInclusion onInclusion rest)

end Walks

/-! ### Walks side by side -/

/-- Every element that the passes still look at satisfies a condition on its tag and its
children. -/
def EachLive (p : Tag → (children : Forest) → Prop) : Forest → Prop
  | .nil => True
  | .element tag false children rest => p tag children ∧ EachLive p children ∧ EachLive p rest
  | .element _ true _ rest => EachLive p rest
  | .text _ rest => EachLive p rest
  | .comment _ rest => EachLive p rest
  | .declaration _ rest => EachLive p rest

theorem EachLive.and {p q r : Tag → Forest → Prop} {f : Forest} (hp : EachLive p f)
    (hq : EachLive q f) (h : ∀ tag children, p tag children → q tag children → r tag children) :
    EachLive r f := by
  induction f with
  | nil => trivial
  | element tag s children rest ihc ihr =>
    cases s with
    | true => exact ihr hp hq
    | false => exact ⟨h _ _ hp.1 hq.1, ihc hp.2.1 hq.2.1, ihr hp.2.2 hq.2.2⟩
  | text content rest ih | comment body rest ih | declaration raw rest ih => exact ih hp hq

theorem EachLive.mono {p q : Tag → Forest → Prop} {f : Forest} (hp : EachLive p f)
    (h : ∀ tag children, p tag children → q tag children) : EachLive q f :=
  hp.and hp fun tag children here _ => h tag children here

/-- What holds of every live element holds below each of them. -/
theorem EachLive.below {p : Tag → Forest → Prop} {f : Forest} (h : EachLive p f) :
    EachLive (fun tag children => p tag children ∧ EachLive p children) f := by
  induction f with
  | nil => trivial
  | element tag s children rest ihc ihr =>
    cases s with
    | true => exact ihr h
    | false => exact ⟨⟨h.1, h.2.1⟩, ihc h.2.1, ihr h.2.2⟩
  | text content rest ih | comment body rest ih | declaration raw rest ih => exact ih h

theorem eachLive_weight_le {f : Forest} {bound : Nat} (h : f.weight ≤ bound) :
    EachLive (fun tag children => (Forest.element tag false children .nil).weight ≤ bound) f := by
  induction f with
  | nil => trivial
  | element tag s children rest ihc ihr =>
    have rest_ok := ihr (Forest.weight_rest h)
    cases s with
    | true => exact rest_ok
    | false =>
      refine ⟨?_, ihc (Nat.le_of_lt (Forest.weight_children h)), rest_ok⟩
      simp only [Forest.weight] at h ⊢
      omega
  | text content rest ih | comment body rest ih | declaration raw rest ih => exact ih h

section Relations

variable {m n : Type → Type} [Monad m] [Monad n] {R : m Forest → n Forest → Prop}

/-- A relation between computations that holds step by step. -/
structure Stepwise (R : m Forest → n Forest → Prop) : Prop where
  pure (f : Forest) : R (Pure.pure f) (Pure.pure f)
  bind {a : m Forest} {a' : n Forest} {k : Forest → m Forest} {k' : Forest → n Forest} :
    R a a' → (∀ f, R (k f) (k' f)) → R (a >>= k) (a' >>= k')

namespace Stepwise

theorem eachItem (hR : Stepwise R) {copy : Value → m Forest} {copy' : Value → n Forest}
    (h : ∀ item, R (copy item) (copy' item)) (items : List Value) :
    R (Expansion.eachItem copy items) (Expansion.eachItem copy' items) := by
  induction items with
  | nil => exact hR.pure _
  | cons item items ih =>
    refine hR.bind (h item) fun first => ?_
    exact hR.bind ih fun others => hR.pure _

/-- Walks over loops are related where their actions are. -/
theorem eachLoop (hR : Stepwise R) {onLoop : Text → Tag → Forest → m Forest}
    {onLoop' : Text → Tag → Forest → n Forest} {f : Forest}
    (h : EachLive (fun tag children => ∀ expression rest,
      tag.takeDirective? .iterate = some (expression, rest) →
      R (onLoop expression rest children) (onLoop' expression rest children)) f) :
    R (Expansion.eachLoop onLoop f) (Expansion.eachLoop onLoop' f) := by
  induction f with
  | nil => exact hR.pure _
  | element tag s children rest ihc ihr =>
    cases s with
    | true => exact hR.bind (ihr h) fun rest => hR.pure _
    | false =>
      obtain ⟨here, hc, hr⟩ := h
      unfold Expansion.eachLoop
      split
      · rename_i taken
        refine hR.bind (here _ _ taken) fun here => ?_
        exact hR.bind (ihr hr) fun rest => hR.pure _
      · refine hR.bind (ihc hc) fun children => ?_
        exact hR.bind (ihr hr) fun rest => hR.pure _
  | text content rest ih | comment body rest ih | declaration raw rest ih =>
    exact hR.bind (ih h) fun rest => hR.pure _

theorem eachInclusion (hR : Stepwise R) {onInclusion : Tag → Forest → m Forest}
    {onInclusion' : Tag → Forest → n Forest} {f : Forest}
    (h : EachLive (fun tag children =>
      R (onInclusion tag children) (onInclusion' tag children)) f) :
    R (Expansion.eachInclusion onInclusion f) (Expansion.eachInclusion onInclusion' f) := by
  induction f with
  | nil => exact hR.pure _
  | element tag s children rest ihc ihr =>
    cases s with
    | true => exact hR.bind (ihr h) fun rest => hR.pure _
    | false =>
      obtain ⟨here, hc, hr⟩ := h
      unfold Expansion.eachInclusion
      split
      · refine hR.bind here fun here => ?_
        exact hR.bind (ihr hr) fun rest => hR.pure _
      · refine hR.bind (ihc hc) fun children => ?_
        exact hR.bind (ihr hr) fun rest => hR.pure _
  | text content rest ih | comment body rest ih | declaration raw rest ih =>
    exact hR.bind (ih h) fun rest => hR.pure _

end Stepwise

/-- Equality of computations holds step by step. -/
theorem stepwise_eq : Stepwise (@Eq (m Forest)) where
  pure _ := rfl
  bind ha hk := by rw [ha, funext hk]

end Relations

/-- A way to expand a forest below open fragments, under a label and in a scope. -/
abbrev Expander := OpenFragments → Text → Scope → Forest → Except Failure Forest

/-- The copies of a loop element, each made by the expander. -/
def loop (expander : Expander) (opened : OpenFragments) (label : Text) (scope : Scope)
    (expression : Text) (tag : Tag) (children : Forest) : Except Failure Forest :=
  iterate label scope expression fun scope =>
    expander opened label scope (.element tag false children .nil)

/-- The wrapper of an inclusion, with slot content and fragment body made by the expander. -/
def inclusion (c : Compiler) (expander : Expander) (opened : OpenFragments) (label : Text)
    (scope : Scope) (tag : Tag) (children : Forest) : Except Failure Forest := do
  let call := Inclusion.ofAttributes tag.attributes
  let slot ← expander opened label scope children
  let o ← openFragment c opened label call
  let body ← expander (o.path :: opened) o.path.text (argumentScope scope call.arguments) o.body
  return wrap o.name (fillSlot slot body)

/-- The four passes, with the expander in the place of the calls they make. -/
def passes (c : Compiler) (expander : Expander) : Expander := fun opened label scope f => do
  let looped ← eachLoop (loop expander opened label scope) f
  let included ← eachInclusion (inclusion c expander opened label scope) (prune scope looped)
  return included.fill scope

theorem copies_eq_eachItem (copy : Scope → Except Failure Forest) (scope : Scope) (name : Text)
    (items : List Value) :
    copies copy scope name items = eachItem (fun item => copy (scope.derive name item)) items := by
  induction items with
  | nil => rfl
  | cons item items ih => simp only [copies, eachItem, ih]

theorem expandLoops_eq_eachLoop {expander : Expander} {opened : OpenFragments} {label : Text}
    {scope : Scope} {whole : Forest} (f : Forest) (h : f.weight ≤ whole.weight) :
    expandLoops label scope (fun g _ scope => expander opened label scope g) f h
      = eachLoop (loop expander opened label scope) f := by
  induction f with
  | nil => rfl
  | element tag s children rest ihc ihr =>
    cases s with
    | true => simp only [expandLoops, eachLoop, ihr]
    | false =>
      unfold expandLoops eachLoop
      split
      · rename_i ht
        simp only [ht, ihr, loop]
      · rename_i ht
        simp only [ht, ihc, ihr]
  | text content rest ih | comment body rest ih | declaration raw rest ih =>
    simp only [expandLoops, eachLoop]
    rw [ih h]

theorem expandInclusions_eq_eachInclusion {whole : Forest}
    {bounded : Tag → (children : Forest) → children.weight < whole.weight →
      Except Failure Forest}
    {one : Tag → Forest → Except Failure Forest}
    (same : ∀ tag children h, bounded tag children h = one tag children)
    (f : Forest) (h : f.weight ≤ whole.weight) :
    expandInclusions bounded f h = eachInclusion one f := by
  induction f with
  | nil => rfl
  | element tag s children rest ihc ihr =>
    cases s with
    | true => simp only [expandInclusions, eachInclusion, ihr]
    | false => simp only [expandInclusions, eachInclusion, ihc, ihr, same]
  | text content rest ih | comment body rest ih | declaration raw rest ih =>
    simp only [expandInclusions, eachInclusion]
    rw [ih h]

/-- An expansion is its four passes over the expansions they call for. -/
theorem expand_eq_passes (c : Compiler) (opened : OpenFragments) (label : Text) (scope : Scope)
    (f : Forest) : expand c opened label scope f = passes c (expand c) opened label scope f := by
  rw [expand, passes, ← expandLoops_eq_eachLoop f (Nat.le_refl f.weight)]
  split
  · rename_i hl
    rw [hl]
    rfl
  · rename_i looped hl
    rw [@expandInclusions_eq_eachInclusion f _ (inclusion c (expand c) opened label scope)]
    · rw [hl]
      rfl
    · intro tag children _
      unfold inclusion
      dsimp only
      congr 1
      funext slot
      -- The match remembers its equation, so it is no bind by itself.
      split
      · rename_i ho
        rw [ho]
        rfl
      · rename_i ho
        rw [ho]
        rfl

/-- Expanding loops adds no work for the passes after it. -/
theorem weight_eachLoop {expander : Expander} {opened : OpenFragments} {label : Text}
    {scope : Scope} {f g : Forest} (h : eachLoop (loop expander opened label scope) f = .ok g) :
    g.weight ≤ f.weight := by
  rw [← expandLoops_eq_eachLoop f (Nat.le_refl f.weight)] at h
  exact weight_expandLoops h

section Following

variable {m : Type → Type} [Monad m] {R : m Forest → Except Failure Forest → Prop}
  {c : Compiler} {opened : OpenFragments} {label : Text} {scope : Scope} {f : Forest}

/-- A relation to computations that can fail, which holds step by step while they succeed. -/
structure Following (R : m Forest → Except Failure Forest → Prop) : Prop where
  pure (f : Forest) : R (Pure.pure f) (.ok f)
  bind {a : m Forest} {r : Except Failure Forest} {k : Forest → m Forest}
    {t : Forest → Except Failure Forest} :
    R a r → (∀ f, r = .ok f → R (k f) (t f)) → R (a >>= k) (r >>= t)

theorem Following.stepwise (hR : Following R) : Stepwise R where
  pure := hR.pure
  bind ha hk := hR.bind ha fun f _ => hk f

/-- Passes follow the expansion where their loops and inclusions do. The calls that these
make are for lighter forests. -/
theorem Following.expand (hR : Following R) {onLoop : Text → Tag → Forest → m Forest}
    {onInclusion : Tag → Forest → m Forest}
    (loops : ∀ expression tag children,
      (Forest.element tag false children .nil).weight < f.weight →
      R (onLoop expression tag children)
        (loop (Expansion.expand c) opened label scope expression tag children))
    (inclusions : ∀ tag children, children.weight < f.weight →
      R (onInclusion tag children)
        (inclusion c (Expansion.expand c) opened label scope tag children)) :
    R (do
        let looped ← eachLoop onLoop f
        let included ← eachInclusion onInclusion (prune scope looped)
        return included.fill scope)
      (Expansion.expand c opened label scope f) := by
  rw [expand_eq_passes]
  refine hR.bind (hR.stepwise.eachLoop ?_) fun looped hl => ?_
  · refine (eachLive_weight_le (Nat.le_refl f.weight)).mono ?_
    intro tag children light expression rest taken
    exact loops expression rest children (Forest.weight_copy taken light)
  · have bounded : (prune scope looped).weight ≤ f.weight :=
      Nat.le_trans (weight_prune scope looped) (weight_eachLoop hl)
    refine hR.bind (hR.stepwise.eachInclusion ?_) fun included _ => hR.pure _
    refine (eachLive_weight_le bounded).mono ?_
    intro tag children light
    exact inclusions tag children (Forest.weight_children light)

end Following

/-- A loop succeeds when its header and its items can be read and every copy can be made. -/
theorem loop_eq_ok {expander : Expander} {opened : OpenFragments} {label : Text} {scope : Scope}
    {expression : Text} {tag : Tag} {children g : Forest} :
    loop expander opened label scope expression tag children = .ok g ↔
      ∃ header items, loopItems label scope expression = .ok (header, items) ∧
        eachItem (fun item => expander opened label (scope.derive header.variableName item)
          (.element tag false children .nil)) items = .ok g := by
  simp only [loop, iterate, copies_eq_eachItem, Failure.bind_eq_ok, Prod.exists]

/-- An inclusion succeeds when its slot content can be made, its fragment may be opened and
the body of that can be made. -/
theorem inclusion_eq_ok {c : Compiler} {expander : Expander} {opened : OpenFragments}
    {label : Text} {scope : Scope} {tag : Tag} {children g : Forest} :
    inclusion c expander opened label scope tag children = .ok g ↔
      ∃ slot o body, expander opened label scope children = .ok slot ∧
        openFragment c opened label (Inclusion.ofAttributes tag.attributes) = .ok o ∧
        expander (o.path :: opened) o.path.text
          (argumentScope scope (Inclusion.ofAttributes tag.attributes).arguments) o.body
          = .ok body ∧
        wrap o.name (fillSlot slot body) = g := by
  simp only [inclusion, Failure.bind_eq_ok, Failure.pure_eq_ok]
  constructor
  · rintro ⟨slot, hs, o, ho, body, hb, rfl⟩
    exact ⟨slot, o, body, hs, ho, hb, rfl⟩
  · rintro ⟨slot, o, body, hs, ho, hb, rfl⟩
    exact ⟨slot, hs, o, ho, body, hb, rfl⟩

/-- The three results on the way to a successful expansion. -/
theorem expand_eq_ok {c : Compiler} {opened : OpenFragments} {label : Text} {scope : Scope}
    {f g : Forest} : expand c opened label scope f = .ok g ↔
      ∃ looped included, eachLoop (loop (expand c) opened label scope) f = .ok looped ∧
        eachInclusion (inclusion c (expand c) opened label scope) (prune scope looped)
          = .ok included ∧
        included.fill scope = g := by
  rw [expand_eq_passes]
  simp only [passes, Failure.bind_eq_ok, Failure.pure_eq_ok]
  constructor
  · rintro ⟨looped, hl, included, hi, rfl⟩
    exact ⟨looped, included, hl, hi, rfl⟩
  · rintro ⟨looped, included, hl, hi, rfl⟩
    exact ⟨looped, hl, included, hi, rfl⟩

/-- Opening a fragment, step by step. -/
theorem openFragment_eq_steps (c : Compiler) (opened : OpenFragments) (label : Text)
    (call : Inclusion) : openFragment c opened label call =
      match call.name? with
      | none => .error (.missingFragmentName label)
      | some name => do
        let path ← c.store.resolve name
        if path ∈ opened then .error (.circularReference label path.text)
        else
          match c.limit?.filter (· ≤ opened.length) with
          | some limit => .error (.nestingTooDeep limit label)
          | none => do
            let body ← c.store.load path
            return ⟨name, path, body⟩ := by
  unfold openFragment
  cases call.name? with
  | none => rfl
  | some name =>
    dsimp only
    cases c.store.resolve name with
    | error e => rfl
    | ok path =>
      dsimp only [Bind.bind, Except.bind]
      split
      · rfl
      · cases c.limit?.filter (· ≤ opened.length) with
        | some limit => rfl
        | none => cases c.store.load path <;> rfl

/-- A fragment is opened exactly when the call names it, its path is no open fragment, the
limit leaves room and the file can be loaded. -/
theorem openFragment_eq_ok {c : Compiler} {opened : OpenFragments} {label : Text}
    {call : Inclusion} {o : Opening} : openFragment c opened label call = .ok o ↔
      call.name? = some o.name ∧ c.store.resolve o.name = .ok o.path ∧ o.path ∉ opened ∧
        (∀ limit ∈ c.limit?, opened.length < limit) ∧ c.store.load o.path = .ok o.body := by
  have room : c.limit?.filter (· ≤ opened.length) = none ↔
      ∀ limit ∈ c.limit?, opened.length < limit := by
    simp [Option.filter_eq_none_iff]
  rw [openFragment_eq_steps]
  cases call.name? with
  | none => simp
  | some name =>
    simp only [Failure.bind_eq_ok, Option.some.injEq]
    constructor
    · rintro ⟨path, resolved, h⟩
      split at h
      · simp at h
      · rename_i fresh
        split at h
        · simp at h
        · rename_i unlimited
          simp only [Failure.bind_eq_ok, Failure.pure_eq_ok] at h
          obtain ⟨body, loaded, rfl⟩ := h
          exact ⟨rfl, resolved, fresh, room.mp unlimited, loaded⟩
    · rintro ⟨rfl, resolved, fresh, limit_ok, loaded⟩
      refine ⟨o.path, resolved, ?_⟩
      rw [if_neg fresh, room.mpr limit_ok]
      simp only [Failure.bind_eq_ok, Failure.pure_eq_ok]
      exact ⟨o.body, loaded, rfl⟩

/-- What holds of a forest when it holds of all lighter forests below the same open
fragments, and of all forests below more of them, holds of every forest. -/
theorem expansion_induction (c : Compiler) {motive : OpenFragments → Forest → Prop}
    (step : ∀ opened f, (∀ g : Forest, g.weight < f.weight → motive opened g) →
      (∀ inner g, closedFiles c inner < closedFiles c opened → motive inner g) →
      motive opened f)
    (opened : OpenFragments) (f : Forest) : motive opened f :=
  step opened f (fun g _ => expansion_induction c step opened g)
    (fun inner g _ => expansion_induction c step inner g)
termination_by (closedFiles c opened, f.weight)
decreasing_by
  · exact Prod.Lex.right _ ‹_›
  · exact Prod.Lex.left _ _ ‹_›

end HtmlTemplate.Expansion
