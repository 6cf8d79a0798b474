import HtmlTemplate.Proofs.Passes

/-!
# Sessions

An expansion as a run that keeps the open fragments on one stack: a fragment is pushed
before its body is expanded and popped after, also when that fails. Nothing here knows
that runs end, so a run is given fuel for the depth of its calls. Main statement: a run
leaves the stack as it found it, makes only calls of the kind it was called with, and ends
as the expansion does unless its fuel is spent.
-/
namespace HtmlTemplate

open Expansion

/-- A call of the expansion: the fragments open at that moment, and the label. -/
structure Call where
  opened : OpenFragments
  label : Text
deriving DecidableEq, Repr

/-- Why a run has no forest to give. -/
inductive Halt where
  | failed (cause : Failure)
  | outOfFuel
deriving DecidableEq, Repr

/-- What a run keeps: the stack, and all calls so far, the last one first. -/
structure Session where
  opened : OpenFragments := []
  calls : List Call := []
deriving DecidableEq, Repr

/-- A part of a run. What it does to the session is done also when it fails. -/
def Action (α : Type) := Session → Except Halt α × Session

namespace Action

variable {α β : Type}

/-- The first action, then the second one unless the first one fails. -/
def andThen (a : Action α) (k : α → Action β) : Action β := fun s =>
  match a s with
  | (.ok x, s) => k x s
  | (.error e, s) => (.error e, s)

instance : Monad Action where
  pure x := fun s => (.ok x, s)
  bind := andThen

/-- Fails, for a reason of its own or for want of fuel. -/
def halt (reason : Halt) : Action α := fun s => (.error reason, s)

/-- A computation that has nothing to do with the session. -/
def ofExcept (r : Except Failure α) : Action α := fun s => (r.mapError .failed, s)

def opened : Action OpenFragments := fun s => (.ok s.opened, s)

def record (label : Text) : Action Unit := fun s =>
  (.ok (), { s with calls := ⟨s.opened, label⟩ :: s.calls })

/-- Pushes a fragment, acts, and pops it whatever came of that. -/
def within (path : Path) (a : Action α) : Action α := fun s =>
  let (r, s) := a { s with opened := path :: s.opened }
  (r, { s with opened := s.opened.tail })

end Action

namespace Session

/-- The copies of a loop element, each made by a call. -/
def loop (process : Text → Scope → Forest → Action Forest) (label : Text) (scope : Scope)
    (expression : Text) (tag : Tag) (children : Forest) : Action Forest := do
  let (header, items) ← Action.ofExcept (loopItems label scope expression)
  eachItem (fun item => process label (scope.derive header.variableName item)
    (.element tag false children .nil)) items

/-- The wrapper of an inclusion. Its slot content is made below the open fragments, its
body with one more. -/
def inclusion (c : Compiler) (process : Text → Scope → Forest → Action Forest) (label : Text)
    (scope : Scope) (tag : Tag) (children : Forest) : Action Forest := do
  let call := Inclusion.ofAttributes tag.attributes
  let slot ← process label scope children
  let opened ← Action.opened
  let o ← Action.ofExcept (openFragment c opened label call)
  let body ← Action.within o.path
    (process o.path.text (argumentScope scope call.arguments) o.body)
  return wrap o.name (fillSlot slot body)

/-- Notes the call and makes the four passes, as deep as the fuel allows. -/
def process (c : Compiler) : (fuel : Nat) → Text → Scope → Forest → Action Forest
  | 0, label, _, _ => do
    Action.record label
    Action.halt .outOfFuel
  | fuel + 1, label, scope, f => do
    Action.record label
    let looped ← eachLoop (loop (process c fuel) label scope) f
    let included ← eachInclusion (inclusion c (process c fuel) label scope) (prune scope looped)
    return included.fill scope

/-- The run for a source, from an empty stack. -/
def compile (c : Compiler) (fuel : Nat) (scope : Scope) (source : Text) :
    Except Halt Forest × Session :=
  process c fuel Compiler.mainLabel scope (Forest.read source) {}

end Session

/-- An action that starts below the open fragments leaves them open, makes only calls of
one kind, and ends as a computation does, unless the fuel is spent where it was not
enough. -/
structure Action.Follows {α : Type} (kind : Call → Prop) (opened : OpenFragments)
    (enough : Prop) (a : Action α) (r : Except Failure α) : Prop where
  opened_eq (s : Session) : s.opened = opened → (a s).2.opened = opened
  calls_kind (s : Session) : s.opened = opened → (∀ call ∈ s.calls, kind call) →
    ∀ call ∈ (a s).2.calls, kind call
  result (s : Session) : s.opened = opened →
    (a s).1 = r.mapError .failed ∨ ¬enough ∧ (a s).1 = .error .outOfFuel

namespace Action.Follows

variable {α β : Type} {kind : Call → Prop} {opened : OpenFragments} {enough : Prop}

theorem pure (x : α) : Follows kind opened enough (Pure.pure x) (Pure.pure x) where
  opened_eq _ h := h
  calls_kind _ _ h := h
  result _ _ := .inl rfl

theorem ofExcept (r : Except Failure α) : Follows kind opened enough (Action.ofExcept r) r where
  opened_eq _ h := h
  calls_kind _ _ h := h
  result _ _ := .inl rfl

theorem mono {more : Prop} {a : Action α} {r : Except Failure α} (h : more → enough)
    (ha : Follows kind opened enough a r) : Follows kind opened more a r where
  opened_eq := ha.opened_eq
  calls_kind := ha.calls_kind
  result s hs := (ha.result s hs).imp_right fun ⟨spent, he⟩ => ⟨fun hm => spent (h hm), he⟩

theorem bind {a : Action α} {r : Except Failure α} {k : α → Action β}
    {t : α → Except Failure β} (ha : Follows kind opened enough a r)
    (hk : ∀ x, r = .ok x → Follows kind opened enough (k x) (t x)) :
    Follows kind opened enough (a >>= k) (r >>= t) := by
  -- The first action has a value, a failure of the computation, or no fuel left.
  have split (s : Session) (hs : s.opened = opened) :
      (∃ x, r = .ok x ∧ a s = (.ok x, (a s).2)) ∨
        ∃ e, a s = (.error e, (a s).2) ∧
          ((∃ f, r = .error f ∧ e = .failed f) ∨ ¬enough ∧ e = .outOfFuel) := by
    rcases ha.result s hs with he | ⟨spent, he⟩
    · cases r with
      | ok x => exact .inl ⟨x, rfl, Prod.ext he rfl⟩
      | error f => exact .inr ⟨.failed f, Prod.ext he rfl, .inl ⟨f, rfl, rfl⟩⟩
    · exact .inr ⟨.outOfFuel, Prod.ext he rfl, .inr ⟨spent, rfl⟩⟩
  constructor
  · intro s hs
    have left := ha.opened_eq s hs
    change (andThen a k s).2.opened = opened
    rcases split s hs with ⟨x, hx, he⟩ | ⟨e, he, -⟩
    · rw [andThen, he]
      exact (hk x hx).opened_eq _ left
    · rw [andThen, he]
      exact left
  · intro s hs hc
    have left := ha.opened_eq s hs
    have calls := ha.calls_kind s hs hc
    change ∀ call ∈ (andThen a k s).2.calls, kind call
    rcases split s hs with ⟨x, hx, he⟩ | ⟨e, he, -⟩
    · rw [andThen, he]
      exact (hk x hx).calls_kind _ left calls
    · rw [andThen, he]
      exact calls
  · intro s hs
    have left := ha.opened_eq s hs
    change (andThen a k s).1 = _ ∨ _ ∧ (andThen a k s).1 = _
    rcases split s hs with ⟨x, rfl, he⟩ | ⟨e, he, ⟨f, rfl, rfl⟩ | ⟨spent, rfl⟩⟩
    · rw [andThen, he]
      exact (hk x rfl).result _ left
    · rw [andThen, he]
      exact .inl rfl
    · rw [andThen, he]
      exact .inr ⟨spent, rfl⟩

theorem bind_opened {k : OpenFragments → Action β} {r : Except Failure β}
    (h : Follows kind opened enough (k opened) r) :
    Follows kind opened enough (Action.opened >>= k) r where
  opened_eq := by
    rintro s rfl
    exact h.opened_eq s rfl
  calls_kind := by
    rintro s rfl
    exact h.calls_kind s rfl
  result := by
    rintro s rfl
    exact h.result s rfl

theorem bind_record {label : Text} {k : Unit → Action β} {r : Except Failure β}
    (hc : kind ⟨opened, label⟩) (h : Follows kind opened enough (k ()) r) :
    Follows kind opened enough (record label >>= k) r := by
  have noted (s : Session) (hs : s.opened = opened) (calls : ∀ call ∈ s.calls, kind call) :
      ∀ call ∈ (⟨s.opened, label⟩ : Call) :: s.calls, kind call := by
    intro call hm
    rcases List.mem_cons.mp hm with rfl | hm
    · exact hs ▸ hc
    · exact calls call hm
  constructor
  · intro s hs
    exact h.opened_eq { s with calls := ⟨s.opened, label⟩ :: s.calls } hs
  · intro s hs calls
    exact h.calls_kind { s with calls := ⟨s.opened, label⟩ :: s.calls } hs (noted s hs calls)
  · intro s hs
    exact h.result { s with calls := ⟨s.opened, label⟩ :: s.calls } hs

/-- What is pushed before an action is popped after it, whatever its outcome. -/
theorem within {path : Path} {a : Action α} {r : Except Failure α}
    (h : Follows kind (path :: opened) enough a r) :
    Follows kind opened enough (Action.within path a) r := by
  constructor
  · rintro s rfl
    have inner := h.opened_eq { s with opened := path :: s.opened } rfl
    change (a { s with opened := path :: s.opened }).2.opened.tail = s.opened
    rw [inner]
    rfl
  · rintro s rfl
    exact h.calls_kind { s with opened := path :: s.opened } rfl
  · rintro s rfl
    exact h.result { s with opened := path :: s.opened } rfl

/-- Nothing is promised of a run whose fuel is spent. -/
theorem outOfFuel {r : Except Failure α} (spent : ¬enough) :
    Follows kind opened enough (halt .outOfFuel) r where
  opened_eq _ h := h
  calls_kind _ _ h := h
  result _ _ := .inr ⟨spent, rfl⟩

theorem following : Following (@Follows Forest kind opened enough) where
  pure := pure
  bind := bind

end Action.Follows

namespace Store

/-- The weight of the fragment in a file, if there is one. -/
def weightAt (store : Store) (path : Path) : Nat :=
  match store.load path with
  | .ok body => body.weight
  | .error _ => 0

/-- The weight of the heaviest fragment. -/
def maxWeight (store : Store) : Nat := (store.snapshot.files.map store.weightAt).max?.getD 0

theorem weight_body_le {store : Store} {path : Path} {body : Forest}
    (hp : path ∈ store.snapshot.files) (hb : store.load path = .ok body) :
    body.weight ≤ store.maxWeight := by
  have here : store.weightAt path = body.weight := by simp [weightAt, hb]
  rw [← here]
  exact List.le_max?_getD_of_mem (List.mem_map_of_mem hp)

end Store

namespace Session

/-- How deep the calls below a forest can be nested: every fragment that is not open yet
adds no more levels than the heaviest one weighs, and one. -/
def depth (c : Compiler) (opened : OpenFragments) (f : Forest) : Nat :=
  closedFiles c opened * (c.store.maxWeight + 1) + f.weight

theorem depth_lt {c : Compiler} {opened : OpenFragments} {f g : Forest}
    (h : g.weight < f.weight) : depth c opened g < depth c opened f :=
  Nat.add_lt_add_left h _

theorem depth_body_lt {c : Compiler} {opened : OpenFragments} {label : Text} {call : Inclusion}
    {o : Opening} {f : Forest} (ho : openFragment c opened label call = .ok o) :
    depth c (o.path :: opened) o.body < depth c opened f := by
  have closed := closedFiles_lt ho
  have light := Store.weight_body_le (openFragment_path ho).1 (openFragment_eq_ok.mp ho).2.2.2.2
  have := Nat.mul_le_mul_right (c.store.maxWeight + 1) (Nat.succ_le_of_lt closed)
  rw [Nat.succ_mul] at this
  unfold depth
  omega

section Calls

variable {c : Compiler} {kind : Call → Prop} {opened : OpenFragments} {enough : Prop}
  {process : Text → Scope → Forest → Action Forest} {expander : Expander} {label : Text}

theorem loop_follows {expression : Text} {tag : Tag} {children : Forest} {scope : Scope}
    (copy : ∀ scope, Action.Follows kind opened enough
      (process label scope (.element tag false children .nil))
      (expander opened label scope (.element tag false children .nil))) :
    Action.Follows kind opened enough (loop process label scope expression tag children)
      (Expansion.loop expander opened label scope expression tag children) := by
  simp only [Expansion.loop, iterate, copies_eq_eachItem]
  refine .bind (.ofExcept _) ?_
  rintro ⟨header, items⟩ -
  exact Action.Follows.following.stepwise.eachItem (fun item => copy _) items

theorem inclusion_follows {tag : Tag} {children : Forest} {scope : Scope}
    (slot : Action.Follows kind opened enough (process label scope children)
      (expander opened label scope children))
    (body : ∀ {call o} scope, openFragment c opened label call = .ok o →
      Action.Follows kind (o.path :: opened) enough (process o.path.text scope o.body)
        (expander (o.path :: opened) o.path.text scope o.body)) :
    Action.Follows kind opened enough (inclusion c process label scope tag children)
      (Expansion.inclusion c expander opened label scope tag children) := by
  refine .bind slot fun slot _ => .bind_opened (.bind (.ofExcept _) ?_)
  intro o ho
  exact .bind (.within (body _ ho)) fun _ _ => .pure _

end Calls

/-- A run follows the expansion: it makes only calls of a kind that opening a fragment
preserves, and it ends as the expansion does once its fuel exceeds the depth. -/
theorem process_follows {c : Compiler} {kind : Call → Prop}
    (opens : ∀ {opened label call o}, kind ⟨opened, label⟩ →
      openFragment c opened label call = .ok o → kind ⟨o.path :: opened, o.path.text⟩)
    (fuel : Nat) {opened : OpenFragments} {label : Text} (scope : Scope) (f : Forest)
    (hc : kind ⟨opened, label⟩) :
    Action.Follows kind opened (depth c opened f < fuel) (process c fuel label scope f)
      (expand c opened label scope f) := by
  induction fuel generalizing opened label scope f with
  | zero => exact .bind_record hc (.outOfFuel (Nat.not_lt_zero _))
  | succ fuel ih =>
    have lighter (scope : Scope) {g : Forest} (hg : g.weight < f.weight) :
        Action.Follows kind opened (depth c opened f < fuel + 1) (process c fuel label scope g)
          (expand c opened label scope g) :=
      (ih scope g hc).mono fun enough => by
        have below : depth c opened g < depth c opened f := depth_lt hg
        omega
    have body {call : Inclusion} {o : Opening} (scope : Scope)
        (ho : openFragment c opened label call = .ok o) :
        Action.Follows kind (o.path :: opened) (depth c opened f < fuel + 1)
          (process c fuel o.path.text scope o.body)
          (expand c (o.path :: opened) o.path.text scope o.body) :=
      (ih scope o.body (opens hc ho)).mono fun enough => by
        have := depth_body_lt (f := f) ho
        omega
    refine .bind_record hc (Action.Follows.following.expand ?_ ?_)
    · intro expression tag children light
      exact loop_follows fun scope => lighter scope light
    · intro tag children light
      exact inclusion_follows (lighter scope light) body

theorem process_follows_expand (c : Compiler) (fuel : Nat) (opened : OpenFragments)
    (label : Text) (scope : Scope) (f : Forest) :
    Action.Follows (fun _ => True) opened (depth c opened f < fuel) (process c fuel label scope f)
      (expand c opened label scope f) :=
  process_follows (fun _ _ => trivial) fuel scope f trivial

end Session

end HtmlTemplate
