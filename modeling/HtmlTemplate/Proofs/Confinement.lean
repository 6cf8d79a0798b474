import HtmlTemplate.Proofs.Access
import HtmlTemplate.Proofs.Stack

/-!
# Reads stay below the root

A run that notes every file it reads. Whatever names a template includes, all it reads are
regular files whose canonical path lies below the root. Main result: so nothing else in the
file system has an effect on a compilation.
-/
namespace HtmlTemplate

open Expansion

/-- A part of a run with the files it has read, the last one first. They are kept also when
it fails. -/
abbrev Reading := ExceptT Halt (StateM (List Path))

namespace Reading

variable {α β : Type}

/-- A computation that reads no file. -/
def ofExcept (r : Except Failure α) : Reading α := ExceptT.mk (pure (r.mapError .failed))

/-- The result of a run and the files it has read, after others. -/
def after (log : List Path) (a : Reading α) : Except Halt α × List Path := (a.run).run log

/-- The body of the fragment in a file. Only a regular file is read. -/
def load (store : Store) (path : Path) : Reading Forest := do
  if store.snapshot.isFile path then modify (path :: ·)
  ofExcept (store.load path)

/-- What a store answers, with a note of every file that is read. -/
def access (store : Store) : Access Reading where
  resolve name := ofExcept (store.resolve name)
  load := load store
  halt := throw

/-- The run of an expansion with these answers. -/
def process (c : Compiler) :
    (fuel : Nat) → OpenFragments → Text → Scope → Forest → Reading Forest :=
  (access c.store).process c.limit?

/-- The run for a source, with all the files it reads. -/
def compile (c : Compiler) (fuel : Nat) (scope : Scope) (source : Text) :
    Except Halt Forest × List Path :=
  (process c fuel [] Compiler.mainLabel scope (Forest.read source)).after []

/-- A run reads only files of one kind, and ends as a computation does, unless the fuel is
spent where it was not enough. -/
structure Follows (kind : Path → Prop) (enough : Prop) (a : Reading α) (r : Except Failure α) :
    Prop where
  reads (log : List Path) : (∀ p ∈ log, kind p) → ∀ p ∈ (a.after log).2, kind p
  result (log : List Path) : Access.EndsAs enough (a.after log).1 r

namespace Follows

variable {kind : Path → Prop} {enough : Prop}

theorem ofExcept (r : Except Failure α) : Follows kind enough (Reading.ofExcept r) r where
  reads _ h := h
  result _ := .inl rfl

theorem pure (x : α) : Follows kind enough (Pure.pure x) (Pure.pure x) := ofExcept (.ok x)

theorem outOfFuel {r : Except Failure α} (spent : ¬enough) :
    Follows kind enough (throw .outOfFuel) r where
  reads _ h := h
  result _ := .inr ⟨spent, rfl⟩

theorem mono {more : Prop} {a : Reading α} {r : Except Failure α} (h : more → enough)
    (ha : Follows kind enough a r) : Follows kind more a r where
  reads := ha.reads
  result log := (ha.result log).mono h

theorem after_bind (a : Reading α) (k : α → Reading β) (log : List Path) :
    (a >>= k).after log = match a.after log with
      | (.ok x, log) => (k x).after log
      | (.error e, log) => (.error e, log) := by
  show (match a.after log with | (x, log) => ExceptT.bindCont k x log) = _
  split
  rename_i x later he
  rw [he]
  cases x <;> rfl

theorem bind {a : Reading α} {r : Except Failure α} {k : α → Reading β}
    {t : α → Except Failure β} (ha : Follows kind enough a r)
    (hk : ∀ x, r = .ok x → Follows kind enough (k x) (t x)) :
    Follows kind enough (a >>= k) (r >>= t) := by
  constructor
  · intro log noted
    have first := ha.reads log noted
    have result := ha.result log
    rw [after_bind]
    split
    · rename_i x later he
      rw [he] at first result
      exact (hk x result.eq_ok).reads later first
    · rename_i e later he
      rw [he] at first
      exact first
  · intro log
    have result := ha.result log
    rw [after_bind]
    split
    · rename_i x later he
      rw [he] at result
      rw [result.eq_ok]
      exact (hk x result.eq_ok).result later
    · rename_i e later he
      rw [he] at result
      exact result.bind_error t

end Follows

theorem load_follows {store : Store} {enough : Prop} {name : Text} {path : Path}
    (hr : store.resolve name = .ok path) :
    Follows store.IsFragment enough (load store path) (store.load path) := by
  unfold load
  by_cases file : store.snapshot.isFile path
  · have fragment := Store.isFragment_of_resolve hr file
    rw [if_pos file]
    constructor
    · intro log noted p hp
      rcases List.mem_cons.mp hp with rfl | hp
      · exact fragment
      · exact noted p hp
    · intro log
      exact .inl rfl
  · rw [if_neg file]
    exact .ofExcept _

theorem keeps_follows (store : Store) :
    (access store).Keeps store (fun enough a r => Follows store.IsFragment enough a r) where
  mono := Follows.mono
  pure := Follows.pure
  bind := Follows.bind
  failed e := .ofExcept (.error e)
  outOfFuel _ := Follows.outOfFuel
  resolve name := .ofExcept (store.resolve name)
  load := load_follows

/-- A run ends as the expansion does once its fuel exceeds the depth, and it reads fragments
only. -/
theorem process_follows (c : Compiler) (fuel : Nat) (opened : OpenFragments) (label : Text)
    (scope : Scope) (f : Forest) :
    Follows c.store.IsFragment (Session.depth c opened f < fuel)
      (process c fuel opened label scope f) (expand c opened label scope f) :=
  (keeps_follows c.store).process fuel opened label scope f

/-- What a run ends with tells what the computation ends with. -/
theorem mapError_failed_inj {r s : Except Failure α}
    (h : r.mapError Halt.failed = s.mapError .failed) : r = s := by
  cases r <;> cases s <;> simp_all [Except.mapError]

/-- A run ends as the compilation does once its fuel exceeds the depth of the source. -/
theorem compile_eq (c : Compiler) (scope : Scope) (source : Text) {fuel : Nat}
    (enough : Session.depth c [] (Forest.read source) < fuel) :
    (compile c fuel scope source).1 = (c.compile scope source).mapError .failed := by
  have run := process_follows c fuel [] Compiler.mainLabel scope (Forest.read source)
  exact (run.result []).resolve_right fun ⟨spent, _⟩ => spent enough

end Reading

/-- A second file system in which everything is as in the first, the files outside the root
apart: those may contain other things. -/
structure Snapshot.AgreesBelow (root : Path) (first second : Snapshot) : Prop where
  isPresent_eq (p : Path) : second.isPresent p = first.isPresent p
  isFile_eq (p : Path) : second.isFile p = first.isFile p
  canonical_eq (p : Path) : second.canonical p = first.canonical p
  read_eq (p : Path) : Store.IsFragment ⟨first, root⟩ p → second.read p = first.read p

/-- The compiler in another file system, with the same root and limit. -/
def Compiler.withSnapshot (c : Compiler) (snapshot : Snapshot) : Compiler :=
  { c with store := { c.store with snapshot } }

namespace Snapshot.AgreesBelow

variable {c : Compiler} {other : Snapshot}

theorem resolve_eq (h : AgreesBelow c.store.root c.store.snapshot other) (name : Text) :
    (c.withSnapshot other).store.resolve name = c.store.resolve name := by
  simp only [Store.resolve, Store.candidate, Compiler.withSnapshot, h.isPresent_eq,
    h.canonical_eq]
  rfl

/-- What a name leads to has the same body in both file systems. -/
theorem load_eq (h : AgreesBelow c.store.root c.store.snapshot other) {name : Text}
    {path : Path} (hr : c.store.resolve name = .ok path) :
    Reading.load (c.withSnapshot other).store path = Reading.load c.store path := by
  simp only [Reading.load, Store.load, Compiler.withSnapshot, h.isFile_eq]
  by_cases file : c.store.snapshot.isFile path
  · simp only [h.read_eq path (Store.isFragment_of_resolve hr file)]
  · simp only [if_neg file]

theorem openFragment_eq (h : AgreesBelow c.store.root c.store.snapshot other)
    (opened : OpenFragments) (label : Text) (call : Inclusion) :
    (Reading.access (c.withSnapshot other).store).openFragment c.limit? opened label call
      = (Reading.access c.store).openFragment c.limit? opened label call := by
  unfold Access.openFragment Reading.access
  cases call.name? with
  | none => rfl
  | some name =>
    simp only [h.resolve_eq]
    cases hr : c.store.resolve name with
    | error e => rfl
    | ok path =>
      show (if path ∈ opened then _ else _) = if path ∈ opened then _ else _
      rw [h.load_eq hr]

/-- The same run. Which names are asked for depends on bodies read before. -/
theorem process_eq (h : AgreesBelow c.store.root c.store.snapshot other) (fuel : Nat) :
    Reading.process (c.withSnapshot other) fuel = Reading.process c fuel := by
  have opens : (Reading.access (c.withSnapshot other).store).openFragment c.limit?
      = (Reading.access c.store).openFragment c.limit? := by
    funext opened label call
    exact h.openFragment_eq opened label call
  exact Access.process_congr opens (fun _ => rfl) fuel

end Snapshot.AgreesBelow

/-- Files outside the root may be rewritten. -/
theorem Snapshot.agreesBelow_ofFiles {root : Path} {files : List PlainFile}
    (content : PlainFile → Text)
    (same : ∀ file ∈ files, root.isWithin file.path → content file = file.content) :
    AgreesBelow root (ofFiles files)
      (ofFiles (files.map fun file => { file with content := content file })) := by
  have found (p : Path) :
      (files.map fun file => { file with content := content file }).find? (PlainFile.isAt p)
        = (files.find? (PlainFile.isAt p)).map fun file =>
          { file with content := content file } :=
    List.find?_map
  constructor
  · intro p
    exact List.any_map
  · intro p
    exact List.any_map
  · intro p
    simp only [ofFiles, found]
    cases files.find? (PlainFile.isAt p) <;> rfl
  · intro p fragment
    simp only [ofFiles, found]
    cases hf : files.find? (PlainFile.isAt p) with
    | none => rfl
    | some file =>
      have here : file.path.components = p.components := by
        simpa [PlainFile.isAt] using List.find?_some hf
      have within : root.isWithin file.path := by
        simpa [Path.isWithin, here] using fragment.isWithin
      simp [same file (List.mem_of_find?_eq_some hf) within]

namespace Compiler

/-- Compilation is confined to the root. Every file it reads is a regular file whose
canonical path extends the root, component by component. In a file system that differs
in what files outside the root contain, it reads the same files and has the same result,
a forest or a failure. -/
theorem compile_confined (c : Compiler) (scope : Scope) (source : Text) :
    (∀ fuel, ∀ p ∈ (Reading.compile c fuel scope source).2, c.store.IsFragment p) ∧
    (∀ fuel, Session.depth c [] (Forest.read source) < fuel →
      (Reading.compile c fuel scope source).1 = (c.compile scope source).mapError .failed) ∧
    ∀ other, Snapshot.AgreesBelow c.store.root c.store.snapshot other →
      (∀ fuel, Reading.compile (c.withSnapshot other) fuel scope source
        = Reading.compile c fuel scope source) ∧
      (c.withSnapshot other).compile scope source = c.compile scope source := by
  refine ⟨?_, ?_, ?_⟩
  · intro fuel
    have run := Reading.process_follows c fuel [] mainLabel scope (Forest.read source)
    exact run.reads [] (by simp)
  · intro fuel enough
    exact Reading.compile_eq c scope source enough
  · intro other agree
    have same (fuel : Nat) : Reading.compile (c.withSnapshot other) fuel scope source
        = Reading.compile c fuel scope source := by
      simp only [Reading.compile, agree.process_eq]
    refine ⟨same, ?_⟩
    -- One fuel that is enough for both.
    let first := Session.depth c [] (Forest.read source)
    let second := Session.depth (c.withSnapshot other) [] (Forest.read source)
    have here := Reading.compile_eq c scope source (show first < first + second + 1 by omega)
    have there := Reading.compile_eq (c.withSnapshot other) scope source
      (show second < first + second + 1 by omega)
    rw [same, here] at there
    exact (Reading.mapError_failed_inj there).symm

/-- A fragment that asks for a file beside the root, which is there. -/
def prying : Compiler where
  store :=
    { snapshot := .ofFiles
        [{ names := ["t".toList, "note.xiv".toList]
           content := "<x-temp x-name=/s/note>".toList },
         { names := ["s".toList, "note.xiv".toList], content := "<i>s</i>".toList }]
      root := .ofNames ["t".toList] }
  limit? := none

/-- The same files, the one beside the root empty. -/
def emptied : Snapshot := .ofFiles
  [{ names := ["t".toList, "note.xiv".toList]
     content := "<x-temp x-name=/s/note>".toList },
   { names := ["s".toList, "note.xiv".toList], content := [] }]

/-- The fragment is read through a parent step. The file beside the root is not, so what it
contains has no effect. -/
theorem prying_confined :
    let source := "<x-temp x-name=../t//note></x-temp>".toList
    let fragment : Path := .ofNames ["t".toList, "note.xiv".toList]
    let beside : Path := .ofNames ["s".toList, "note.xiv".toList]
    Session.depth prying [] (Forest.read source) < 40 ∧
    (prying.compile .empty source).mapError Halt.failed
      = .error (.failed (.invalidPath "/s/note".toList)) ∧
    fragment ∈ (Reading.compile prying 40 .empty source).2 ∧ prying.store.IsFragment fragment ∧
    emptied.read beside ≠ prying.store.snapshot.read beside ∧
    (prying.withSnapshot emptied).compile .empty source = prying.compile .empty source := by
  intro source fragment beside
  have enough : Session.depth prying [] (Forest.read source) < 40 := by decide +kernel
  have made : fragment ∈ (Reading.compile prying 40 .empty source).2 := by decide +kernel
  have agree : Snapshot.AgreesBelow prying.store.root prying.store.snapshot emptied := by
    refine Snapshot.agreesBelow_ofFiles
      (fun file => if prying.store.root.isWithin file.path then file.content else []) ?_
    intro file _ within
    exact if_pos within
  obtain ⟨fragments, ends, same⟩ := compile_confined prying .empty source
  refine ⟨enough, ?_, made, fragments 40 fragment made, by decide +kernel, (same emptied agree).2⟩
  rw [← ends 40 enough]
  decide +kernel

end Compiler

end HtmlTemplate
