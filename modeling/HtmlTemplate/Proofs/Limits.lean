import HtmlTemplate.Proofs.Stack

/-!
# Limits and open fragments are guards

A limit and the fragments that are open can end an expansion. They never change what it
gives. Main result: under a limit a compilation ends as without one, or at that limit, and
two expansions of one forest that succeed give the same, from whatever stacks they start.
-/
namespace HtmlTemplate

namespace Expansion

/-! ### Ending at a limit -/

/-- The first computation ends as the second one, or at the limit before. -/
def CutAt {α : Type} (limit : Nat) (cut r : Except Failure α) : Prop :=
  cut = r ∨ ∃ fragment, cut = .error (.nestingTooDeep limit fragment)

namespace CutAt

variable {α β : Type} {limit : Nat}

theorem refl (r : Except Failure α) : CutAt limit r r := .inl rfl

theorem bind {cut r : Except Failure α} {k t : α → Except Failure β} (h : CutAt limit cut r)
    (hk : ∀ x, r = .ok x → CutAt limit (k x) (t x)) : CutAt limit (cut >>= k) (r >>= t) := by
  rcases h with rfl | ⟨fragment, rfl⟩
  · cases cut with
    | error e => exact .refl _
    | ok x => exact hk x rfl
  · exact .inr ⟨fragment, rfl⟩

theorem following : Following (@CutAt Forest limit) where
  pure f := .refl (.ok f)
  bind := bind

end CutAt

/-! ### Giving the same -/

/-- If both computations succeed, they give the same. -/
def Agree {α : Type} (a r : Except Failure α) : Prop := ∀ x y, a = .ok x → r = .ok y → x = y

namespace Agree

variable {α β : Type}

theorem pure (x : α) : Agree (Pure.pure x) (Pure.pure x) := by
  intro y z hy hz
  exact (Failure.pure_eq_ok.mp hy).symm.trans (Failure.pure_eq_ok.mp hz)

theorem bind {a r : Except Failure α} {k t : α → Except Failure β} (h : Agree a r)
    (hk : ∀ x, r = .ok x → Agree (k x) (t x)) : Agree (a >>= k) (r >>= t) := by
  intro y z hy hz
  obtain ⟨x, hx, hy⟩ := Failure.bind_eq_ok.mp hy
  obtain ⟨x', hx', hz⟩ := Failure.bind_eq_ok.mp hz
  obtain rfl := h x x' hx hx'
  exact hk x hx' y z hy hz

theorem following : Following (@Agree Forest) where
  pure := pure
  bind := bind

end Agree

/-! ### Two expansions of one forest -/

variable {store : Store} {limit? limit?' : Option Nat} {opened opened' : OpenFragments}
  {label label' : Text} {scope : Scope}

/-- Two expansions of a forest are related where their loops and inclusions are. -/
theorem Following.expand_expand {R : Except Failure Forest → Except Failure Forest → Prop}
    (hR : Following R) {c c' : Compiler} {f : Forest}
    (loops : ∀ expression tag children,
      (Forest.element tag false children .nil).weight < f.weight →
      R (loop (Expansion.expand c') opened' label' scope expression tag children)
        (loop (Expansion.expand c) opened label scope expression tag children))
    (inclusions : ∀ tag children, children.weight < f.weight →
      R (inclusion c' (Expansion.expand c') opened' label' scope tag children)
        (inclusion c (Expansion.expand c) opened label scope tag children)) :
    R (Expansion.expand c' opened' label' scope f) (Expansion.expand c opened label scope f) := by
  rw [expand_eq_passes c']
  exact hR.expand loops inclusions

theorem openFragment_cutAt {limit : Nat} (room : ∀ more ∈ limit?, limit ≤ more)
    (call : Inclusion) : CutAt limit (openFragment ⟨store, some limit⟩ opened label call)
      (openFragment ⟨store, limit?⟩ opened label call) := by
  rw [openFragment_eq_steps, openFragment_eq_steps]
  cases call.name? with
  | none => exact .refl _
  | some name =>
    refine .bind (.refl _) fun path _ => ?_
    split
    · exact .refl _
    · by_cases full : limit ≤ opened.length
      · have here : (some limit).filter (· ≤ opened.length) = some limit := by simpa using full
        rw [here]
        exact .inr ⟨label, rfl⟩
      · have here : (some limit).filter (· ≤ opened.length) = none := by simpa using full
        have there : limit?.filter (· ≤ opened.length) = none := by
          rw [Option.filter_eq_none_iff]
          intro more hm
          have := room more hm
          simpa using by omega
        rw [here, there]
        exact .refl _

/-- More room than the limit leaves makes no difference until the limit is met. -/
theorem expand_cutAt {limit : Nat} (room : ∀ more ∈ limit?, limit ≤ more)
    (opened : OpenFragments) (f : Forest) :
    ∀ label scope, CutAt limit (expand ⟨store, some limit⟩ opened label scope f)
      (expand ⟨store, limit?⟩ opened label scope f) := by
  induction opened, f using expansion_induction ⟨store, limit?⟩ with
  | step opened f lighter inner =>
    intro label scope
    refine CutAt.following.expand_expand ?_ ?_
    · intro expression tag children light
      simp only [loop, iterate, copies_eq_eachItem]
      refine .bind (.refl _) ?_
      rintro ⟨header, items⟩ -
      exact CutAt.following.stepwise.eachItem (fun item => lighter _ light _ _) items
    · intro tag children light
      refine .bind (lighter _ light _ _) fun slot _ => ?_
      refine .bind (openFragment_cutAt room _) fun o ho => ?_
      exact .bind (inner _ _ (closedFiles_lt ho) _ _) fun body _ => .refl _

/-- Which items a loop has does not depend on the file it stands in. -/
theorem loopItems_agree (expression : Text) :
    Agree (loopItems label' scope expression) (loopItems label scope expression) := by
  intro x y hx hy
  unfold loopItems at hx hy
  split at hx
  · simp at hx
  · split at hx
    · simp at hx
    · simp_all

/-- Which fragment an inclusion opens does not depend on those that are open. -/
theorem openFragment_agree (call : Inclusion) :
    Agree (openFragment ⟨store, limit?'⟩ opened' label' call)
      (openFragment ⟨store, limit?⟩ opened label call) := by
  intro o o' ho ho'
  obtain ⟨name, resolved, -, -, loaded⟩ := openFragment_eq_ok.mp ho
  obtain ⟨name', resolved', -, -, loaded'⟩ := openFragment_eq_ok.mp ho'
  cases o with
  | mk n p b =>
    cases o' with
    | mk n' p' b' => simp_all

/-- Two expansions of a forest in one scope that succeed give the same. -/
theorem expand_agree (opened : OpenFragments) (f : Forest) :
    ∀ opened' label label' scope, Agree (expand ⟨store, limit?'⟩ opened' label' scope f)
      (expand ⟨store, limit?⟩ opened label scope f) := by
  induction opened, f using expansion_induction ⟨store, limit?⟩ with
  | step opened f lighter inner =>
    intro opened' label label' scope
    refine Agree.following.expand_expand ?_ ?_
    · intro expression tag children light
      simp only [loop, iterate, copies_eq_eachItem]
      refine .bind (loopItems_agree expression) ?_
      rintro ⟨header, items⟩ -
      exact Agree.following.stepwise.eachItem (fun item => lighter _ light _ _ _ _) items
    · intro tag children light
      refine .bind (lighter _ light _ _ _ _) fun slot _ => ?_
      refine .bind (openFragment_agree _) fun o ho => ?_
      exact .bind (inner _ _ (closedFiles_lt ho) _ _ _ _) fun body _ => .pure _

end Expansion

namespace Compiler

open Expansion

/-- Limits and open fragments are guards. Under a limit a compilation ends as without one, or
it fails at that limit; a result that is no such failure is the result under every higher
limit. Two expansions of a forest that succeed give the same, whatever their limits, the
fragments open at their start and their labels. -/
theorem limits_and_open_fragments_are_guards (store : Store) :
    (∀ scope source limit,
      compile ⟨store, some limit⟩ scope source = compile ⟨store, none⟩ scope source ∨
        ∃ fragment, compile ⟨store, some limit⟩ scope source
          = .error (.nestingTooDeep limit fragment)) ∧
    (∀ scope source limit more, limit ≤ more →
      (∀ bound fragment, compile ⟨store, some limit⟩ scope source
        ≠ .error (.nestingTooDeep bound fragment)) →
      compile ⟨store, some more⟩ scope source = compile ⟨store, some limit⟩ scope source) ∧
    ∀ limit? limit?' opened opened' label label' scope f g g',
      expand ⟨store, limit?⟩ opened label scope f = .ok g →
      expand ⟨store, limit?'⟩ opened' label' scope f = .ok g' → g = g' := by
  refine ⟨?_, ?_, ?_⟩
  · intro scope source limit
    exact expand_cutAt (by simp) [] (Forest.read source) mainLabel scope
  · intro scope source limit more le reached
    have room : ∀ bound ∈ some more, limit ≤ bound := by simpa using le
    rcases expand_cutAt room [] (Forest.read source) mainLabel scope with same | ⟨fragment, cut⟩
    · exact same.symm
    · exact absurd cut (reached limit fragment)
  · intro limit? limit?' opened opened' label label' scope f g g' h h'
    exact expand_agree opened' f opened label' label scope g g' h h'

/-- A fragment that includes another one for every item, and shows its slot. -/
def listing : Store where
  snapshot := .ofFiles
    [{ names := ["t".toList, "all.xiv".toList]
       content := ("<p x-for='x in xs'><x-temp x-name=one t-t='{{x}}'></x-temp></p>"
         ++ "<x-slot></x-slot>").toList },
     { names := ["t".toList, "one.xiv".toList], content := "<b>{{t}}</b>".toList }]
  root := .ofNames ["t".toList]

/-- Where one fragment may be open, the second one below it is refused, though not in the
slot content. Where two may be, nothing else changes, nor does it below an open fragment that
has no part in this. -/
theorem listing_guarded :
    let source := "<x-temp x-name=all t-xs='[0]'><x-temp x-name=one t-t=s></x-temp></x-temp>".toList
    let wrapper (name : String) (body rest : Forest) : Forest :=
      .element ⟨"div".toList, [⟨"class".toList, name.toList⟩]⟩ true body rest
    let bold (t : String) : Forest :=
      wrapper "x-one" (.element ⟨"b".toList, []⟩ false (.text t.toList .nil) .nil) .nil
    let nodes := wrapper "x-all" (.element ⟨"p".toList, []⟩ true (bold "0") (bold "s")) .nil
    let other : OpenFragments := [.ofNames ["t".toList, "c.xiv".toList]]
    compile ⟨listing, some 1⟩ .empty source
        = .error (.nestingTooDeep 1 "/t/all.xiv".toList) ∧
      compile ⟨listing, some 2⟩ .empty source = .ok nodes ∧
      compile ⟨listing, none⟩ .empty source = .ok nodes ∧
      compile ⟨listing, some 7⟩ .empty source = .ok nodes ∧
      ∃ g, expand ⟨listing, some 3⟩ other "c".toList .empty (Forest.read source) = .ok g ∧
        nodes = g := by
  intro source wrapper bold nodes other
  have cut : compile ⟨listing, some 1⟩ .empty source
      = .error (.nestingTooDeep 1 "/t/all.xiv".toList) := by
    have run : (Session.compile ⟨listing, some 1⟩ 60 .empty source).1
        = .error (.failed (.nestingTooDeep 1 "/t/all.xiv".toList)) := by decide +kernel
    exact Session.compile_eq_of_run run
  have run : (Session.compile ⟨listing, some 2⟩ 60 .empty source).1 = .ok nodes := by
    decide +kernel
  have compiled := Session.compile_eq_ok run
  have below : (Session.process ⟨listing, some 3⟩ 60 "c".toList .empty (Forest.read source)
      ⟨other, []⟩).1 = .ok nodes := by decide +kernel
  have elsewhere : expand ⟨listing, some 3⟩ other "c".toList .empty (Forest.read source)
      = .ok nodes := Session.expand_eq_of_process (s := ⟨other, []⟩) below
  obtain ⟨cutAt, more, agree⟩ := limits_and_open_fragments_are_guards listing
  have reached : ∀ bound fragment, compile ⟨listing, some 2⟩ .empty source
      ≠ .error (.nestingTooDeep bound fragment) := by simp [compiled]
  refine ⟨cut, compiled, ?_, ?_, nodes, elsewhere, ?_⟩
  · rcases cutAt .empty source 2 with same | ⟨fragment, cut⟩
    · rw [← same, compiled]
    · exact absurd cut (reached 2 fragment)
  · rw [more .empty source 2 7 (by decide) reached, compiled]
  · exact agree _ _ _ _ _ _ _ _ _ _ compiled elsewhere

end Compiler

end HtmlTemplate
