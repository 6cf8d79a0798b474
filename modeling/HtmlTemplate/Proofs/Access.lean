import HtmlTemplate.Proofs.Session

/-!
# Runs that ask a store

An expansion that asks the store and fails by actions of some kind, which may note what they are
asked for or refuse to answer. Main result: a relation between actions and computations that all
actions keep, each with its own answer of the store, holds between a run and the expansion.
-/
namespace HtmlTemplate

open Expansion

/-- What a run asks a store and how it fails, as actions of some kind. -/
structure Access (m : Type → Type) where
  resolve : Text → m Path
  load : Path → m Forest
  halt : {α : Type} → Halt → m α

namespace Access

variable {m : Type → Type} [Monad m]

section Runs

/-- A computation that asks nothing. -/
def ofExcept {α : Type} (access : Access m) : Except Failure α → m α
  | .ok x => pure x
  | .error e => access.halt (.failed e)

/-- Finds the fragment that an inclusion names, unless it is open already or too many are. -/
def openFragment (access : Access m) (limit? : Option Nat) (opened : OpenFragments)
    (label : Text) (call : Inclusion) : m Opening :=
  match call.name? with
  | none => access.halt (.failed (.missingFragmentName label))
  | some name => do
    let path ← access.resolve name
    if path ∈ opened then access.halt (.failed (.circularReference label path.text))
    else
      match limit?.filter (· ≤ opened.length) with
      | some limit => access.halt (.failed (.nestingTooDeep limit label))
      | none => do
        let body ← access.load path
        return ⟨name, path, body⟩

/-- The copies of a loop element. -/
def loop (access : Access m) (process : Text → Scope → Forest → m Forest) (label : Text)
    (scope : Scope) (expression : Text) (tag : Tag) (children : Forest) : m Forest := do
  let (header, items) ← access.ofExcept (loopItems label scope expression)
  eachItem (fun item => process label (scope.derive header.variableName item)
    (.element tag false children .nil)) items

/-- The wrapper of an inclusion. -/
def inclusion (access : Access m) (limit? : Option Nat)
    (process : OpenFragments → Text → Scope → Forest → m Forest) (opened : OpenFragments)
    (label : Text) (scope : Scope) (tag : Tag) (children : Forest) : m Forest := do
  let call := Inclusion.ofAttributes tag.attributes
  let slot ← process opened label scope children
  let o ← access.openFragment limit? opened label call
  let body ← process (o.path :: opened) o.path.text (argumentScope scope call.arguments) o.body
  return wrap o.name (fillSlot slot body)

/-- The four passes, as deep as the fuel allows. -/
def process (access : Access m) (limit? : Option Nat) :
    (fuel : Nat) → OpenFragments → Text → Scope → Forest → m Forest
  | 0, _, _, _, _ => access.halt .outOfFuel
  | fuel + 1, opened, label, scope, f => do
    let looped ← eachLoop (access.loop (process access limit? fuel opened) label scope) f
    let included ← eachInclusion
      (access.inclusion limit? (process access limit? fuel) opened label scope)
      (prune scope looped)
    return included.fill scope

/-- Runs that fail alike and open fragments alike are the same, call by call. -/
theorem process_congr {first second : Access m} {limit? : Option Nat}
    (opens : first.openFragment limit? = second.openFragment limit?)
    (halt : ∀ {α : Type} (reason : Halt), (first.halt reason : m α) = second.halt reason)
    (fuel : Nat) :
    first.process limit? fuel = second.process limit? fuel := by
  have computes {α : Type} (r : Except Failure α) : first.ofExcept r = second.ofExcept r := by
    cases r with
    | ok x => rfl
    | error e => exact halt _
  induction fuel with
  | zero =>
    funext opened label scope f
    exact halt _
  | succ fuel ih =>
    funext opened label scope f
    rw [process, process, ih]
    unfold loop inclusion
    simp only [computes, opens]

end Runs

/-! ### Runs follow the expansion -/

/-- The actions keep a relation to computations: a failure to that failure, a question to the
answer of the store, and no fuel to anything where the fuel was not enough. A fragment is asked
for only where a name leads. -/
structure Keeps (access : Access m) (store : Store)
    (R : {α : Type} → (enough : Prop) → m α → Except Failure α → Prop) : Prop where
  mono {α : Type} {enough more : Prop} {a : m α} {r : Except Failure α} :
    (more → enough) → R enough a r → R more a r
  pure {α : Type} {enough : Prop} (x : α) : R enough (Pure.pure x) (.ok x)
  bind {α β : Type} {enough : Prop} {a : m α} {r : Except Failure α} {k : α → m β}
    {t : α → Except Failure β} :
    R enough a r → (∀ x, r = .ok x → R enough (k x) (t x)) → R enough (a >>= k) (r >>= t)
  failed {α : Type} {enough : Prop} (e : Failure) :
    R enough (access.halt (.failed e) : m α) (.error e)
  outOfFuel {α : Type} {enough : Prop} (r : Except Failure α) :
    ¬enough → R enough (access.halt .outOfFuel) r
  resolve {enough : Prop} (name : Text) : R enough (access.resolve name) (store.resolve name)
  load {enough : Prop} {name : Text} {path : Path} :
    store.resolve name = .ok path → R enough (access.load path) (store.load path)

namespace Keeps

variable {access : Access m} {c : Compiler}
  {R : {α : Type} → (enough : Prop) → m α → Except Failure α → Prop}
  (keeps : access.Keeps c.store R) {enough : Prop}

include keeps

theorem following : Following (R (α := Forest) enough) where
  pure := keeps.pure
  bind := keeps.bind

theorem ofExcept {α : Type} (r : Except Failure α) : R enough (access.ofExcept r) r := by
  cases r with
  | ok x => exact keeps.pure x
  | error e => exact keeps.failed e

theorem openFragment (opened : OpenFragments) (label : Text) (call : Inclusion) :
    R enough (access.openFragment c.limit? opened label call)
      (Expansion.openFragment c opened label call) := by
  rw [openFragment_eq_steps]
  unfold Access.openFragment
  cases call.name? with
  | none => exact keeps.failed _
  | some name =>
    refine keeps.bind (keeps.resolve name) fun path hr => ?_
    split
    · exact keeps.failed _
    · cases c.limit?.filter (· ≤ opened.length) with
      | some limit => exact keeps.failed _
      | none => exact keeps.bind (keeps.load hr) fun body _ => keeps.pure _

/-- A run is related to the expansion, for fuel that exceeds the depth. -/
theorem process (fuel : Nat) (opened : OpenFragments) (label : Text) (scope : Scope)
    (f : Forest) : R (Session.depth c opened f < fuel)
      (access.process c.limit? fuel opened label scope f) (expand c opened label scope f) := by
  induction fuel generalizing opened label scope f with
  | zero => exact keeps.outOfFuel _ (Nat.not_lt_zero _)
  | succ fuel ih =>
    have lighter (scope : Scope) {g : Forest} (hg : g.weight < f.weight) :
        R (Session.depth c opened f < fuel + 1)
          (access.process c.limit? fuel opened label scope g)
          (expand c opened label scope g) := by
      refine keeps.mono (fun enough => ?_) (ih opened label scope g)
      have below : Session.depth c opened g < Session.depth c opened f := Session.depth_lt hg
      omega
    refine keeps.following.expand ?_ ?_
    · intro expression tag children light
      simp only [Expansion.loop, iterate, copies_eq_eachItem]
      refine keeps.bind (keeps.ofExcept _) ?_
      rintro ⟨header, items⟩ -
      exact keeps.following.stepwise.eachItem (fun item => lighter _ light) items
    · intro tag children light
      refine keeps.bind (lighter scope light) fun slot _ => ?_
      refine keeps.bind (keeps.openFragment opened label _) fun o ho => ?_
      refine keeps.bind (keeps.mono (fun enough => ?_) (ih _ _ _ _)) fun _ _ => keeps.pure _
      have := Session.depth_body_lt (f := f) ho
      omega

end Keeps

/-! ### The actions of a store itself -/

/-- What the store itself answers. -/
def ofStore (store : Store) : Access (Except Halt) where
  resolve name := (store.resolve name).mapError .failed
  load path := (store.load path).mapError .failed
  halt := .error

/-- A run ends as a computation does, unless the fuel is spent where it was not enough. -/
def EndsAs {α : Type} (enough : Prop) (a : Except Halt α) (r : Except Failure α) : Prop :=
  a = r.mapError .failed ∨ ¬enough ∧ a = .error .outOfFuel

namespace EndsAs

variable {α β : Type} {enough : Prop} {r : Except Failure α}

theorem mono {more : Prop} {a : Except Halt α} (h : more → enough) (ha : EndsAs enough a r) :
    EndsAs more a r :=
  ha.imp_right fun ⟨spent, he⟩ => ⟨fun hm => spent (h hm), he⟩

theorem eq_ok {x : α} (h : EndsAs enough (.ok x) r) : r = .ok x := by
  rcases h with he | ⟨-, he⟩
  · cases r with
    | ok y =>
      obtain rfl : x = y := Except.ok.inj he
      rfl
    | error e => cases he
  · exact absurd he (by simp)

/-- A run that has ended does not go on. -/
theorem bind_error {e : Halt} (h : EndsAs enough (.error e : Except Halt α) r)
    (t : α → Except Failure β) : EndsAs enough (.error e : Except Halt β) (r >>= t) := by
  rcases h with he | ⟨spent, he⟩
  · cases r with
    | ok y => cases he
    | error f =>
      obtain rfl := Except.error.inj he
      exact .inl rfl
  · obtain rfl := Except.error.inj he
    exact .inr ⟨spent, rfl⟩

end EndsAs

theorem keeps_endsAs (store : Store) : (ofStore store).Keeps store @EndsAs where
  mono := EndsAs.mono
  pure _ := .inl rfl
  bind := by
    intro α β enough a r k t ha hk
    cases a with
    | ok x =>
      rw [ha.eq_ok]
      exact hk x ha.eq_ok
    | error e => exact ha.bind_error t
  failed _ := .inl rfl
  outOfFuel _ spent := .inr ⟨spent, rfl⟩
  resolve _ := .inl rfl
  load _ := .inl rfl

/-- With the actions of the store itself, a run ends as the expansion does once its fuel exceeds
the depth. -/
theorem process_ofStore {c : Compiler} {fuel : Nat} {opened : OpenFragments} {f : Forest}
    (enough : Session.depth c opened f < fuel) (label : Text) (scope : Scope) :
    (ofStore c.store).process c.limit? fuel opened label scope f
      = (expand c opened label scope f).mapError .failed :=
  ((keeps_endsAs c.store).process fuel opened label scope f).resolve_right
    fun ⟨spent, _⟩ => spent enough

end Access

end HtmlTemplate
