import HtmlTemplate.Command.Run
import HtmlTemplate.Proofs.Growth
import HtmlTemplate.Proofs.Stack

/-!
# What a compilation leaves on the disk

Nothing is written before the document is finished. Main result: a compilation that fails or
prints leaves the disk as it is, and one that is done changes one file and makes the
directories above it that are missing.
-/
namespace HtmlTemplate.Command

open Disk

variable {disk later : Disk} {around : Surroundings}

theorem written_of_writeBelow {here : Place} {path : Path} {content : Text}
    (standing : disk.IsRealDirectory here)
    (h : writeBelow disk here path content = .ok later) :
    ∃ place, Written disk later here path content place := by
  unfold writeBelow at h
  split at h
  · simp at h
  · rename_i made directories
    split at h
    · rename_i written
      obtain rfl := Except.ok.inj h
      cases parent : path.parent? with
      | none =>
        rw [parent] at directories
        obtain rfl := Except.ok.inj directories
        exact written_of_write standing (.refl _ _ _) (by simp [parent]) written
      | some upper =>
        rw [parent] at directories
        obtain ⟨grows, directory⟩ := grows_of_go (Nat.le_refl _) directories
        refine written_of_write standing (grows.mono fun p => isAbove_of_parent? parent) ?_ written
        intro other found named
        obtain rfl : upper = other := Option.some.inj (parent.symm.trans found)
        exact directory named
    · simp at h

/-- What a compilation makes: the path it writes to and the document. An option goes before the
setting, and the setting before what is usual; each path is seen from the root. -/
inductive Yields (files : Snapshot) (root : Path) (options : CompileOptions) : Path → Text → Prop
  | mk {loaded : Option Settings} {store : Store} {forest : Forest}
      (settings : Settings.load files root = .ok loaded)
      (opened : Store.open? files
        (root.join (options.templates?.getD (loaded.getD {}).templates)) = .ok store)
      (compiled : (Compiler.mk store (loaded.getD {}).maxDepth?).compileFile
        (root.join options.input) = .ok forest) :
      Yields files root options (root.join (options.output?.getD (loaded.getD {}).output))
        (Document.render (((options.runtime?.or (loaded.getD {}).runtime?).map root.join).bind
          fun path => (files.read path).toOption) forest)

theorem yields_of_document {files : Snapshot} {root : Path} {options : CompileOptions}
    {loaded : Option Settings} {html : Text} (settings : Settings.load files root = .ok loaded)
    (h : document files (plan root (loaded.getD {}) options) = .ok html) :
    Yields files root options (plan root (loaded.getD {}) options).output html := by
  obtain ⟨store, opened, h⟩ := Failure.bind_eq_ok.mp h
  obtain ⟨forest, compiled, h⟩ := Failure.bind_eq_ok.mp h
  obtain rfl := Except.ok.inj h
  exact .mk settings opened compiled

/-- A compilation fails before it writes, prints, or writes the document at last. -/
theorem runCompile_cases (disk : Disk) (around : Surroundings) (arguments : Arguments)
    (options : CompileOptions) :
    (∃ e, (runCompile disk around arguments options).ending = .failed e ∧
      (runCompile disk around arguments options).disk = disk) ∨
    ∃ output html, Yields (disk.view around.here) (rootOf around.here arguments) options
        output html ∧
      (options.toStdout ∧ (runCompile disk around arguments options).disk = disk ∨
        options.toStdout = false ∧
          ((runCompile disk around arguments options).ending = .done ∧
              writeBelow disk around.here output html
                = .ok (runCompile disk around arguments options).disk ∨
            ∃ cause, (runCompile disk around arguments options).ending = .unwritten cause)) := by
  unfold runCompile
  dsimp only
  split
  · rename_i e _
    exact .inl ⟨e, rfl, rfl⟩
  · rename_i loaded settings
    split
    · rename_i e _
      exact .inl ⟨e, rfl, rfl⟩
    · rename_i html finished
      refine .inr ⟨_, html, yields_of_document settings finished, ?_⟩
      split
      · rename_i prints
        exact .inl ⟨prints, rfl⟩
      · rename_i writes
        refine .inr ⟨by simpa using writes, ?_⟩
        split
        · rename_i cause _
          exact .inr ⟨cause, rfl⟩
        · rename_i written
          exact .inl ⟨rfl, written⟩

theorem runCompile_done {arguments : Arguments} {options : CompileOptions}
    {loaded : Option Settings} {html : Text}
    (settings : Settings.load (disk.view around.here) (rootOf around.here arguments) = .ok loaded)
    (finished : document (disk.view around.here)
      (plan (rootOf around.here arguments) (loaded.getD {}) options) = .ok html)
    (quiet : options.toStdout = false)
    (written : writeBelow disk around.here
      (plan (rootOf around.here arguments) (loaded.getD {}) options).output html = .ok later) :
    (runCompile disk around arguments options).ending = .done := by
  simp [runCompile, settings, finished, quiet, written]

/-- The arguments ask for one compilation, and not for more of them at every change. -/
def Arguments.AsksOnce (given : Arguments) (options : CompileOptions) : Prop :=
  given.task? = some (.compile options) ∧ options.watch = false

theorem exists_runCompile_of_run (disk : Disk) (around : Surroundings) {arguments : List Text}
    {given : Arguments} {options : CompileOptions}
    (understood : Arguments.read arguments = .ok given) (asked : given.AsksOnce options) :
    ∃ color, run disk around arguments
      = runCompile disk { around with color } given options := by
  refine ⟨around.color && !given.noColor, ?_⟩
  unfold run
  rw [understood]
  dsimp only
  rw [asked.1]

/-- A compilation that fails or prints leaves the disk as it is. One that is done without
printing writes the document, and makes the directories above it that are missing. -/
theorem compilation_writes_document_or_nothing {arguments : List Text} {given : Arguments}
    {options : CompileOptions} (standing : disk.IsRealDirectory around.here)
    (understood : Arguments.read arguments = .ok given) (asked : given.AsksOnce options) :
    ((∃ e, (run disk around arguments).ending = .failed e) ∨ options.toStdout →
      (run disk around arguments).disk = disk) ∧
    ((run disk around arguments).ending = .done → options.toStdout = false →
      ∃ output html place,
        Yields (disk.view around.here) (rootOf around.here given) options output html ∧
          Written disk (run disk around arguments).disk around.here output html place) := by
  obtain ⟨color, ran⟩ := exists_runCompile_of_run disk around understood asked
  rw [ran]
  rcases runCompile_cases disk { around with color } given options with
    ⟨e, ending, same⟩ | ⟨output, html, yields, prints | writes⟩
  · exact ⟨fun _ => same, fun done => by simp [ending] at done⟩
  · exact ⟨fun _ => prints.2, fun _ writes => by simp [prints.1] at writes⟩
  · obtain ⟨quiet, ⟨ending, written⟩ | ⟨cause, ending⟩⟩ := writes
    · obtain ⟨place, written⟩ := written_of_writeBelow standing written
      refine ⟨?_, fun _ _ => ⟨output, html, place, yields, written⟩⟩
      simp [ending, quiet]
    · simp [ending, quiet]

/-- A project with a document, and nothing written yet. -/
def desk : Disk where
  entries :=
    [(["p".toList], .directory), (["templates".toList, "p".toList], .directory),
      (["main.xiv".toList, "p".toList], .file (.text "Hi".toList))]

theorem desk_has_its_page_written :
    let around : Surroundings := { here := ["p".toList] }
    let arguments := ["compile".toList, "main.xiv".toList, "-o".toList, "new/a.html".toList]
    let options : CompileOptions :=
      ⟨.ofString "main.xiv", none, some (.ofString "new/a.html"), none, false, false⟩
    (run desk around arguments).ending = .done ∧
      ∃ output html place, Yields (desk.view around.here) (pathOf around.here) options output html ∧
        Written desk (run desk around arguments).disk around.here output html place := by
  intro around arguments options
  let files := desk.view around.here
  let store : Store := ⟨files, .ofString "/p/templates"⟩
  have standing : desk.IsRealDirectory around.here := by decide +kernel
  have understood :
      Arguments.read arguments = .ok ⟨none, false, false, some (.compile options)⟩ := rfl
  have asked : Arguments.AsksOnce ⟨none, false, false, some (.compile options)⟩ options :=
    ⟨rfl, rfl⟩
  have load : Settings.load files (pathOf around.here) = .ok none := by cbv
  have opened : Store.open? files (.ofString "/p/templates") = .ok store := by cbv
  have isFile : files.isFile (.ofString "/p/main.xiv") = true := by cbv
  have read : files.read (.ofString "/p/main.xiv") = .ok "Hi".toList := by cbv
  have compiled : (Compiler.mk store none).compile .empty "Hi".toList
      = .ok (.text "Hi".toList .nil) := by
    have run : (Session.compile ⟨store, none⟩ 10 .empty "Hi".toList).1
        = .ok (.text "Hi".toList .nil) := by decide +kernel
    exact Session.compile_eq_ok run
  have found : (Compiler.mk store none).compileFile (.ofString "/p/main.xiv")
      = .ok (.text "Hi".toList .nil) := by
    unfold Compiler.compileFile
    dsimp only
    rw [if_pos isFile, read]
    exact compiled
  have finished : document files (plan (pathOf around.here) {} options)
      = .ok (Document.render none (.text "Hi".toList .nil)) := by
    refine Failure.bind_eq_ok.mpr ⟨store, opened, ?_⟩
    exact Failure.bind_eq_ok.mpr ⟨_, found, rfl⟩
  have written (html : Text) : writeBelow desk around.here (.ofString "/p/new/a.html") html
      = .ok ((desk.put ["new".toList, "p".toList] .directory).put
          ["a.html".toList, "new".toList, "p".toList] (.file (.text html))) := by
    cbv
  have done : (run desk around arguments).ending = .done := by
    obtain ⟨color, ran⟩ := exists_runCompile_of_run desk around understood asked
    rw [ran]
    exact runCompile_done load finished rfl (written _)
  exact ⟨done, (compilation_writes_document_or_nothing standing understood asked).2 done rfl⟩

end HtmlTemplate.Command
