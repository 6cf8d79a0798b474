import HtmlTemplate.Proofs.Agreement
import HtmlTemplate.Proofs.Hidden

/-!
# Siblings

Every pass goes over a whole level before the next pass begins, so a later sibling can fail an
expansion before an earlier one does. Main result: apart from that, siblings have no influence
on each other. What is made of two forests side by side is what is made of each of them, and a
failure is that of one of them, also in a run that keeps one stack for both.
-/
namespace HtmlTemplate

open Expansion

/-- What is made of two forests side by side, by what is made of each: both results one after
the other, or else a failure of one of them. -/
structure Beside {ε : Type} (first second both : Except ε Forest) : Prop where
  ok_iff (h : Forest) : both = .ok h ↔ ∃ f g, first = .ok f ∧ second = .ok g ∧ h = f ++ g
  of_error (e : ε) : both = .error e → first = .error e ∨ second = .error e

namespace Beside

variable {ε : Type} {first second both : Except ε Forest}

theorem ok (f g : Forest) : Beside (.ok f : Except ε Forest) (.ok g) (.ok (f ++ g)) where
  ok_iff h := by
    constructor
    · intro he
      exact ⟨f, g, rfl, rfl, (Except.ok.inj he).symm⟩
    · rintro ⟨_, _, ⟨⟩, ⟨⟩, rfl⟩
      rfl
  of_error e he := nomatch he

/-- Where one of the two fails, so does the whole if it does so in the same way. -/
theorem error {e : ε} (h : first = .error e ∨ second = .error e) :
    Beside first second (.error e) where
  ok_iff g := by
    constructor
    · intro he
      exact nomatch he
    · rintro ⟨_, _, rfl, rfl, -⟩
      rcases h with h | h <;> exact nomatch h
  of_error e' he := by
    obtain rfl := Except.error.inj he
    exact h

/-- The three results that two forests and the whole can have. -/
theorem cases (h : Beside first second both) :
    (∃ f g, first = .ok f ∧ second = .ok g ∧ both = .ok (f ++ g)) ∨
      ∃ e, both = .error e ∧ (first = .error e ∨ second = .error e) := by
  cases hb : both with
  | ok whole =>
    obtain ⟨f, g, hf, hg, rfl⟩ := (h.ok_iff whole).mp hb
    exact .inl ⟨f, g, hf, hg, rfl⟩
  | error e => exact .inr ⟨e, rfl, h.of_error e hb⟩

/-- The first of the two to be made fails the whole, or else the second one. -/
theorem in_turn (first second : Except ε Forest) :
    Beside first second (do
      let f ← first
      let g ← second
      return f ++ g) := by
  cases first with
  | error e => exact error (.inl rfl)
  | ok f =>
    cases second with
    | error e => exact error (.inr rfl)
    | ok g => exact ok f g

/-- A pass after another one: a failure in the first pass comes before any in the second. -/
theorem bind {next : Forest → Except ε Forest} (h : Beside first second both)
    (hn : ∀ f g, Beside (next f) (next g) (next (f ++ g))) :
    Beside (first >>= next) (second >>= next) (both >>= next) := by
  rcases h.cases with ⟨f, g, rfl, rfl, rfl⟩ | ⟨e, rfl, he⟩
  · exact hn f g
  · apply error
    rcases he with rfl | rfl
    · exact .inl rfl
    · exact .inr rfl

theorem mapError {ε' : Type} (h : Beside first second both) (name : ε → ε') :
    Beside (first.mapError name) (second.mapError name) (both.mapError name) := by
  rcases h.cases with ⟨f, g, rfl, rfl, rfl⟩ | ⟨e, rfl, he⟩
  · exact ok f g
  · apply error
    rcases he with rfl | rfl
    · exact .inl rfl
    · exact .inr rfl

end Beside

namespace Expansion

variable (c : Compiler) (opened : OpenFragments) (label : Text) (scope : Scope)

/-- A pass begins with a whole level. -/
theorem weight_level_le (f : Forest) : f.weight ≤ f.weight := Nat.le_refl _

/-- The pass over the loops of a level. -/
def loopPass (f : Forest) : Except Failure Forest :=
  @expandLoops label scope f (fun f _ scope => expand c opened label scope f) f
    (weight_level_le f)

/-- The pass over the inclusions of a level. -/
def inclusionPass (f : Forest) : Except Failure Forest :=
  @expandInclusions f
    (fun tag children _ => inclusion c (expand c) opened label scope tag children) f
    (weight_level_le f)

theorem loopPass_eq (f : Forest) : loopPass c opened label scope f
    = eachLoop (loop (expand c) opened label scope) f :=
  expandLoops_eq_eachLoop f (Nat.le_refl _)

theorem inclusionPass_eq (f : Forest) : inclusionPass c opened label scope f
    = eachInclusion (inclusion c (expand c) opened label scope) f :=
  @expandInclusions_eq_eachInclusion f _ (inclusion c (expand c) opened label scope)
    (fun _ _ _ => rfl) f (Nat.le_refl _)

theorem expand_eq_passes_in_turn (f : Forest) : expand c opened label scope f = (do
    let looped ← loopPass c opened label scope f
    let included ← inclusionPass c opened label scope (prune scope looped)
    return included.fill scope) := by
  simp only [expand_eq_passes, passes, loopPass_eq, inclusionPass_eq]

theorem eachInclusion_append (onInclusion : Tag → Forest → Except Failure Forest)
    (f g : Forest) : eachInclusion onInclusion (f ++ g) = (do
      let f ← eachInclusion onInclusion f
      let g ← eachInclusion onInclusion g
      return f ++ g) := by
  induction f with
  | nil => exact (bind_pure (eachInclusion onInclusion g)).symm
  | element tag s children rest _ ih =>
    cases s with
    | true => simp only [Forest.element_append, eachInclusion, ih, bind_assoc, pure_bind]
    | false =>
      simp only [Forest.element_append, eachInclusion, ih]
      split
      · simp only [bind_assoc, pure_bind, Forest.append_assoc]
      · simp only [bind_assoc, pure_bind, Forest.element_append]
  | text content rest ih | comment body rest ih | declaration raw rest ih =>
    simp only [Forest.text_append, Forest.comment_append, Forest.declaration_append,
      eachInclusion, ih, bind_assoc, pure_bind]

variable (f g : Forest)

theorem beside_loopPass : Beside (loopPass c opened label scope f)
    (loopPass c opened label scope g) (loopPass c opened label scope (f ++ g)) := by
  rw [loopPass_eq, loopPass_eq, loopPass_eq, eachLoop_append]
  exact .in_turn _ _

theorem beside_inclusionPass : Beside (inclusionPass c opened label scope f)
    (inclusionPass c opened label scope g) (inclusionPass c opened label scope (f ++ g)) := by
  rw [inclusionPass_eq, inclusionPass_eq, inclusionPass_eq, eachInclusion_append]
  exact .in_turn _ _

theorem beside_expand : Beside (expand c opened label scope f) (expand c opened label scope g)
    (expand c opened label scope (f ++ g)) := by
  rw [expand_eq_passes_in_turn, expand_eq_passes_in_turn, expand_eq_passes_in_turn]
  apply (beside_loopPass c opened label scope f g).bind
  intro f g
  rw [prune_append]
  apply (beside_inclusionPass c opened label scope _ _).bind
  intro f g
  rw [Forest.fill_append]
  exact .ok _ _

end Expansion

namespace Session

variable {c : Compiler} {fuel : Nat} {label : Text} {scope : Scope} {f g : Forest} {s : Session}

/-- A call whose fuel exceeds the depth of its forest ends as the expansion does. -/
theorem process_eq_of_depth_lt (enough : depth c s.opened f < fuel) :
    (process c fuel label scope f s).1
      = (expand c s.opened label scope f).mapError .failed := by
  have run := process_follows_expand c fuel s.opened label scope f
  exact (run.result s rfl).resolve_right fun ⟨spent, _⟩ => spent enough

theorem depth_append_left_le (opened : OpenFragments) :
    depth c opened f ≤ depth c opened (f ++ g) := by
  unfold depth
  rw [Forest.weight_append]
  omega

theorem depth_append_right_le (opened : OpenFragments) :
    depth c opened g ≤ depth c opened (f ++ g) := by
  unfold depth
  rw [Forest.weight_append]
  omega

/-- Two calls one after the other, the second on the stack that the first one leaves, give
together what one call gives for both forests. -/
theorem beside_process (enough : depth c s.opened (f ++ g) < fuel) :
    Beside (process c fuel label scope f s).1
      (process c fuel label scope g (process c fuel label scope f s).2).1
      (process c fuel label scope (f ++ g) s).1 := by
  have left := Nat.lt_of_le_of_lt (depth_append_left_le s.opened) enough
  have right := Nat.lt_of_le_of_lt (depth_append_right_le s.opened) enough
  have kept := process_opened c fuel label scope f s
  rw [← kept] at right
  rw [process_eq_of_depth_lt left, process_eq_of_depth_lt right, process_eq_of_depth_lt enough,
    kept]
  exact (beside_expand c s.opened label scope f g).mapError Halt.failed

end Session

namespace Compiler

/-- Siblings are independent of each other, in the expansion and in each of its passes. So they
are in a run: the second forest may as well be expanded in a call of its own, on the stack that
the first one leaves, which is the stack that the first one found. -/
theorem siblings_are_independent (c : Compiler) (opened : OpenFragments) (label : Text)
    (scope : Scope) (f g : Forest) :
    Beside (expand c opened label scope f) (expand c opened label scope g)
      (expand c opened label scope (f ++ g)) ∧
    Beside (loopPass c opened label scope f) (loopPass c opened label scope g)
      (loopPass c opened label scope (f ++ g)) ∧
    prune scope (f ++ g) = prune scope f ++ prune scope g ∧
    Beside (inclusionPass c opened label scope f) (inclusionPass c opened label scope g)
      (inclusionPass c opened label scope (f ++ g)) ∧
    (f ++ g).fill scope = f.fill scope ++ g.fill scope ∧
    ∀ fuel (s : Session), s.opened = opened → Session.depth c opened (f ++ g) < fuel →
      let first := Session.process c fuel label scope f s
      let second := Session.process c fuel label scope g first.2
      let both := Session.process c fuel label scope (f ++ g) s
      Beside first.1 second.1 both.1 ∧
        both.1 = (expand c opened label scope (f ++ g)).mapError Halt.failed ∧
        first.2.opened = opened ∧ second.2.opened = opened ∧ both.2.opened = opened := by
  refine ⟨beside_expand .., beside_loopPass .., prune_append .., beside_inclusionPass ..,
    Forest.fill_append .., ?_⟩
  rintro fuel s rfl enough
  refine ⟨Session.beside_process enough, Session.process_eq_of_depth_lt enough, ?_, ?_, ?_⟩
  · exact Session.process_opened ..
  · rw [Session.process_opened, Session.process_opened]
  · exact Session.process_opened ..

/-- Below an open fragment, a missing fragment is found missing only after the header of the loop
behind it was read. A sealed element between them is left alone. -/
theorem later_sibling_fails_first :
    let opened : OpenFragments := [.ofNames ["t".toList, "shell.xiv".toList]]
    let label := "/t/shell.xiv".toList
    let f : Forest :=
      .element ⟨inclusionTag, [⟨"x-name".toList, "missing".toList⟩]⟩ false .nil .nil
    let g : Forest := .element ⟨"b".toList, []⟩ true (.text "\x7b\x7bx\x7d\x7d".toList .nil)
      (.element ⟨"i".toList, [⟨"x-for".toList, "broken".toList⟩]⟩ false .nil .nil)
    let s : Session := { opened }
    let first := Session.process shell 20 label .empty f s
    let missing := Failure.fragmentNotFound "/t/missing.xiv".toList
    let broken := Failure.invalidLoopExpression "broken".toList label
    s.opened = opened ∧ Session.depth shell opened (f ++ g) < 20 ∧
      expand shell opened label .empty f = .error missing ∧
      expand shell opened label .empty (f ++ g) = .error broken ∧
      (Session.process shell 20 label .empty (f ++ g) s).1 = .error (.failed broken) ∧
      Beside first.1 (Session.process shell 20 label .empty g first.2).1
        (.error (.failed broken)) := by
  intro opened label f g s first missing broken
  have enough : Session.depth shell opened (f ++ g) < 20 := by decide +kernel
  have alone : first.1 = .error (.failed missing) := by decide +kernel
  have together : (Session.process shell 20 label .empty (f ++ g) s).1
      = .error (.failed broken) := by decide +kernel
  obtain ⟨beside, ends, -⟩ :=
    (siblings_are_independent shell opened label .empty f g).2.2.2.2.2 20 s rfl enough
  refine ⟨rfl, enough, Session.expand_eq_of_process (r := .error _) alone,
    Session.expand_eq_of_process (r := .error _) together, together, ?_⟩
  rw [← together]
  exact beside

end Compiler

end HtmlTemplate
