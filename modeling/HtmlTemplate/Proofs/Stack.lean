import HtmlTemplate.Proofs.PlainFiles
import HtmlTemplate.Proofs.Session
import Mathlib.Data.List.Dedup
import Mathlib.Data.List.Perm.Subperm

/-!
# The stack of open fragments

Every fragment on the stack is a regular file below the root, and none is there twice, so
the stack is never longer than there are such files. Main results: every call finds the
stack in order and leaves it as it was, and every run ends.
-/
namespace HtmlTemplate

open Expansion

theorem Path.IsPlain.isAbsolute {p : Path} (h : p.IsPlain) : p.isAbsolute := by
  obtain ⟨names, rfl, -⟩ := h
  cases names with
  | nil => rfl
  | cons name names => simp [Path.ofComponents, Path.isAbsolute, Path.Component.segment]

namespace Store

/-- The canonical path of a regular file that lies below the root, component by
component. -/
structure IsFragment (store : Store) (p : Path) : Prop where
  isFile : store.snapshot.isFile p
  canonical_eq : store.snapshot.canonical p = .ok p
  isWithin : store.root.isWithin p

theorem isFragment_iff {store : Store} {p : Path} : store.IsFragment p ↔
    store.snapshot.isFile p ∧ store.snapshot.canonical p = .ok p ∧ store.root.isWithin p :=
  ⟨fun h => ⟨h.isFile, h.canonical_eq, h.isWithin⟩, fun ⟨h1, h2, h3⟩ => ⟨h1, h2, h3⟩⟩

instance (store : Store) (p : Path) : Decidable (store.IsFragment p) :=
  decidable_of_iff' _ isFragment_iff

/-- The regular files below the root, each once. -/
def fragmentFiles (store : Store) : List Path :=
  (store.snapshot.files.filter fun p => store.IsFragment p).dedup

theorem mem_fragmentFiles {store : Store} {p : Path} :
    p ∈ store.fragmentFiles ↔ store.IsFragment p := by
  simp only [fragmentFiles, List.mem_dedup, List.mem_filter, decide_eq_true_eq,
    and_iff_right_iff_imp]
  exact fun h => store.snapshot.mem_files h.isFile h.canonical_eq

/-- The regular file that a name leads to is a fragment, through links and parent steps. -/
theorem isFragment_of_resolve {store : Store} {name : Text} {path : Path}
    (hr : store.resolve name = .ok path) (file : store.snapshot.isFile path) :
    store.IsFragment path := by
  unfold resolve at hr
  dsimp only at hr
  split at hr
  · simp at hr
  · split at hr
    · rename_i absent
      obtain rfl := by simpa using hr
      simp [store.snapshot.isPresent_of_isFile file] at absent
    · split at hr
      · simp at hr
      · rename_i found
        split at hr
        · rename_i within
          obtain rfl := by simpa using hr
          exact ⟨file, store.snapshot.canonical_canonical found, within⟩
        · simp at hr

theorem isFragment_of_load {store : Store} {name : Text} {path : Path} {body : Forest}
    (hr : store.resolve name = .ok path) (hl : store.load path = .ok body) :
    store.IsFragment path :=
  isFragment_of_resolve hr (isFile_of_load hl)

end Store

/-- The label of a call below those open fragments: the path of the innermost one, or that
of the main document. -/
def labelBelow : OpenFragments → Text
  | [] => Compiler.mainLabel
  | path :: _ => path.text

/-- What every call finds: different fragments of the store, no more than the limit, and
the label of the innermost one. -/
structure Call.InOrder (c : Compiler) (call : Call) : Prop where
  nodup : call.opened.Nodup
  isFragment : ∀ p ∈ call.opened, c.store.IsFragment p
  within_limit : ∀ limit ∈ c.limit?, call.opened.length ≤ limit
  label_eq : call.label = labelBelow call.opened

namespace Call

theorem inOrder_main (c : Compiler) : InOrder c ⟨[], Compiler.mainLabel⟩ where
  nodup := .nil
  isFragment := by simp
  within_limit := by simp
  label_eq := rfl

theorem inOrder_open {c : Compiler} {opened : OpenFragments} {label : Text} {call : Inclusion}
    {o : Opening} (h : InOrder c ⟨opened, label⟩)
    (ho : openFragment c opened label call = .ok o) :
    InOrder c ⟨o.path :: opened, o.path.text⟩ := by
  obtain ⟨-, hr, fresh, room, hl⟩ := openFragment_eq_ok.mp ho
  constructor
  · exact List.nodup_cons.mpr ⟨fresh, h.nodup⟩
  · intro p hp
    rcases List.mem_cons.mp hp with rfl | hp
    · exact Store.isFragment_of_load hr hl
    · exact h.isFragment p hp
  · intro limit hm
    exact room limit hm
  · rfl

/-- Only the call for the main document has its label, for the path of a fragment is
absolute. -/
theorem InOrder.label_eq_main_iff {c : Compiler} {call : Call} (h : InOrder c call) :
    call.label = Compiler.mainLabel ↔ call.opened = [] := by
  rw [h.label_eq]
  cases hc : call.opened with
  | nil => simp [labelBelow]
  | cons path opened =>
    have absolute := (c.store.snapshot.canonical_isPlain
      (h.isFragment path (by simp [hc])).canonical_eq).isAbsolute
    simp only [labelBelow, reduceCtorEq, iff_false]
    intro he
    rw [Path.isAbsolute, he] at absolute
    exact absurd absolute (by decide)

theorem InOrder.length_le {c : Compiler} {call : Call} (h : InOrder c call) :
    call.opened.length ≤ c.store.fragmentFiles.length := by
  refine (List.subperm_of_subset h.nodup ?_).length_le
  intro p hp
  exact Store.mem_fragmentFiles.mpr (h.isFragment p hp)

end Call

namespace Session

theorem compile_inOrder (c : Compiler) (fuel : Nat) (scope : Scope) (source : Text) :
    ∀ call ∈ (compile c fuel scope source).2.calls, call.InOrder c := by
  have run := process_follows Call.inOrder_open fuel scope (Forest.read source)
    (Call.inOrder_main c)
  exact run.calls_kind {} rfl (by simp)

/-- A run ends as the compilation does once its fuel exceeds the depth of the source. -/
theorem compile_eq (c : Compiler) (scope : Scope) (source : Text) {fuel : Nat}
    (enough : depth c [] (Forest.read source) < fuel) :
    (compile c fuel scope source).1 = (c.compile scope source).mapError .failed := by
  have run := process_follows_expand c fuel [] Compiler.mainLabel scope (Forest.read source)
  exact (run.result {} rfl).resolve_right fun ⟨spent, _⟩ => spent enough

/-- A call that does not spend its fuel ends as the expansion does. -/
theorem expand_eq_of_process {c : Compiler} {fuel : Nat} {label : Text} {scope : Scope}
    {f : Forest} {s : Session} {r : Except Failure Forest}
    (h : (process c fuel label scope f s).1 = r.mapError .failed) :
    expand c s.opened label scope f = r := by
  rcases (process_follows_expand c fuel s.opened label scope f).result s rfl with he | ⟨-, he⟩
  · rw [he] at h
    cases hr : expand c s.opened label scope f <;> cases r <;> simp_all [Except.mapError]
  · rw [he] at h
    cases r <;> simp [Except.mapError] at h

/-- A run that does not spend its fuel ends as the compilation does. -/
theorem compile_eq_of_run {c : Compiler} {fuel : Nat} {scope : Scope} {source : Text}
    {r : Except Failure Forest} (h : (compile c fuel scope source).1 = r.mapError .failed) :
    c.compile scope source = r :=
  expand_eq_of_process h

theorem compile_eq_ok {c : Compiler} {fuel : Nat} {scope : Scope} {source : Text}
    {nodes : Forest} (h : (compile c fuel scope source).1 = .ok nodes) :
    c.compile scope source = .ok nodes :=
  compile_eq_of_run h

/-- A call leaves the stack as it found it, whatever its outcome. -/
theorem process_opened (c : Compiler) (fuel : Nat) (label : Text) (scope : Scope) (f : Forest)
    (s : Session) : (process c fuel label scope f s).2.opened = s.opened := by
  exact (process_follows_expand c fuel s.opened label scope f).opened_eq s rfl

/-- So does an inclusion, which pushes a fragment and pops it. -/
theorem inclusion_opened (c : Compiler) (fuel : Nat) (label : Text) (scope : Scope) (tag : Tag)
    (children : Forest) (s : Session) :
    (inclusion c (process c fuel) label scope tag children s).2.opened = s.opened := by
  have follows (opened : OpenFragments) (label : Text) (scope : Scope) (f : Forest) :
      Action.Follows (fun _ => True) opened False (process c fuel label scope f)
        (expand c opened label scope f) :=
    (process_follows_expand c fuel opened label scope f).mono False.elim
  have run : Action.Follows (fun _ => True) s.opened False
      (inclusion c (process c fuel) label scope tag children)
      (Expansion.inclusion c (expand c) s.opened label scope tag children) :=
    inclusion_follows (follows _ _ _ _) fun _ _ => follows _ _ _ _
  exact run.opened_eq s rfl

/-- Compilation ends, with a limit or without one: a run that does not know of any end
gives the result of the compilation once it may nest its calls as deep as the source and
the fragments call for. However long it runs, no more fragments are open at once than there
are regular files below the root. -/
theorem run_ends_and_opens_no_more_than_files (c : Compiler) (scope : Scope) (source : Text) :
    (∀ fuel, depth c [] (Forest.read source) < fuel →
      (compile c fuel scope source).1 = (c.compile scope source).mapError .failed) ∧
    ∀ fuel, ∀ call ∈ (compile c fuel scope source).2.calls,
      call.opened.length ≤ c.store.fragmentFiles.length := by
  constructor
  · intro fuel enough
    exact compile_eq c scope source enough
  · intro fuel call hm
    exact (compile_inOrder c fuel scope source call hm).length_le

/-- Two fragments that include each other, the second one from its slot content too. -/
def cyclic : Compiler where
  store :=
    { snapshot := .ofFiles
        [{ names := ["t".toList, "a.xiv".toList]
           content := "<p x-for='x in xs'><x-temp x-name=b></x-temp></p>".toList },
         { names := ["t".toList, "b.xiv".toList]
           content := "<x-temp x-name=b><x-temp x-name=a></x-temp></x-temp>".toList }]
      root := .ofNames ["t".toList] }
  limit? := none

/-- A run into the cycle ends with the failure of the compilation, at two open fragments
of two. -/
theorem run_ends_on_cycle :
    let source := "<x-temp x-name=a t-xs='[1]'></x-temp>".toList
    let inner : Call := ⟨[.ofNames ["t".toList, "b.xiv".toList],
      .ofNames ["t".toList, "a.xiv".toList]], "/t/b.xiv".toList⟩
    depth cyclic [] (Forest.read source) < 40 ∧
    (cyclic.compile .empty source).mapError Halt.failed
      = .error (.failed (.circularReference "/t/b.xiv".toList "/t/a.xiv".toList)) ∧
    inner ∈ (compile cyclic 40 .empty source).2.calls ∧
    inner.opened.length ≤ cyclic.store.fragmentFiles.length := by
  intro source inner
  have enough : depth cyclic [] (Forest.read source) < 40 := by decide +kernel
  have made : inner ∈ (compile cyclic 40 .empty source).2.calls := by decide +kernel
  obtain ⟨ends, bounded⟩ := run_ends_and_opens_no_more_than_files cyclic .empty source
  refine ⟨enough, ?_, made, bounded 40 inner made⟩
  rw [← ends 40 enough]
  decide +kernel

/-- The discipline of the stack. Every call finds different canonical paths of regular
files below the root, no more than the limit, under the label of the innermost one, which
is that of the main document exactly when there is none. Every call and every inclusion
leaves the stack as it found it, whatever its outcome. The runs are those of the
compilation. -/
theorem calls_inOrder_and_stack_kept (c : Compiler) (fuel : Nat) (scope : Scope)
    (source : Text) :
    (∀ call ∈ (compile c fuel scope source).2.calls,
      call.InOrder c ∧ (call.label = Compiler.mainLabel ↔ call.opened = [])) ∧
    (∀ label scope f s, (process c fuel label scope f s).2.opened = s.opened) ∧
    (∀ label scope tag children s,
      (inclusion c (process c fuel) label scope tag children s).2.opened = s.opened) ∧
    (depth c [] (Forest.read source) < fuel →
      (compile c fuel scope source).1 = (c.compile scope source).mapError .failed) := by
  refine ⟨?_, ?_, ?_, ?_⟩
  · intro call hm
    have inOrder := compile_inOrder c fuel scope source call hm
    exact ⟨inOrder, inOrder.label_eq_main_iff⟩
  · intro label scope f s
    exact process_opened c fuel label scope f s
  · intro label scope tag children s
    exact inclusion_opened c fuel label scope tag children s
  · intro enough
    exact compile_eq c scope source enough

/-- A fragment that includes another one, where only one may be open. -/
def limited : Compiler where
  store :=
    { snapshot := .ofFiles
        [{ names := ["t".toList, "a.xiv".toList]
           content := "<p><x-temp x-name=b></x-temp></p>".toList },
         { names := ["t".toList, "b.xiv".toList], content := "<b>{{t}}</b>".toList }]
      root := .ofNames ["t".toList] }
  limit? := some 1

/-- The limit stops the second fragment below the first one, not the same fragment in the
slot content. -/
theorem calls_inOrder_below_limit :
    let source := "<x-temp x-name=a><x-temp x-name=b t-t=1></x-temp></x-temp>".toList
    let inner : Call := ⟨[.ofNames ["t".toList, "a.xiv".toList]], "/t/a.xiv".toList⟩
    depth limited [] (Forest.read source) < 60 ∧
    (limited.compile .empty source).mapError Halt.failed
      = .error (.failed (.nestingTooDeep 1 "/t/a.xiv".toList)) ∧
    inner ∈ (compile limited 60 .empty source).2.calls ∧ inner.InOrder limited ∧
    (compile limited 60 .empty source).2.opened = [] := by
  intro source inner
  have enough : depth limited [] (Forest.read source) < 60 := by decide +kernel
  have made : inner ∈ (compile limited 60 .empty source).2.calls := by decide +kernel
  obtain ⟨inOrder, kept, -, ends⟩ := calls_inOrder_and_stack_kept limited 60 .empty source
  refine ⟨enough, ?_, made, (inOrder inner made).1, kept _ _ _ _⟩
  rw [← ends enough]
  decide +kernel

end Session

end HtmlTemplate
