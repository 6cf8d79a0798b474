import HtmlTemplate.Proofs.NewDirectories
import HtmlTemplate.Proofs.Output

/-!
# Creating a sample project

Files are created one after the other, each only where nothing is found under its path. Main
result: whatever stood on the disk stays as it is, and a run that is done has created just the
missing files, so that another one finds nothing to do. This needs every parent step of the root
to be taken from a directory that is there; a root like `new/../site` gets its first directory
only after the look at its document, and then an old document is written over.
-/
namespace HtmlTemplate

namespace Disk

/-! ### What is added -/

/-- Beside what was there, the later disk has only those of the files that were missing, and
directories above them. -/
def GainsOnly (disk later : Disk) (base : Place) (files : List (Path × Text)) : Prop :=
  ∀ place, later.lookup place = disk.lookup place ∨ disk.lookup place = none ∧
    ∃ path content, (path, content) ∈ files ∧ disk.isPresent base path = false ∧
      (later.locate base path = .ok place ∧ later.lookup place = some (.file (.text content)) ∨
        ∃ upper, upper.IsAbove path ∧ later.locate base upper = .ok place ∧
          later.lookup place = some .directory)

theorem entryAt_eq_ok {disk : Disk} {base : Place} {path : Path} {entry : Entry} :
    disk.entryAt base path = .ok entry ↔
      ∃ place, disk.locate base path = .ok place ∧ disk.lookup place = some entry := by
  unfold entryAt
  cases disk.locate base path with
  | error e => simp
  | ok place => cases h : disk.lookup place <;> simp [h]

namespace GainsOnly

variable {disk made later : Disk} {base : Place} {files : List (Path × Text)}

theorem refl (disk : Disk) (base : Place) (files : List (Path × Text)) :
    GainsOnly disk disk base files := fun _ => .inl rfl

theorem lookup_eq (h : GainsOnly disk later base files) {place : Place} {entry : Entry}
    (found : disk.lookup place = some entry) : later.lookup place = some entry := by
  rcases h place with same | ⟨absent, -⟩
  · rw [same, found]
  · simp [absent] at found

theorem keeps (h : GainsOnly disk later base files) : disk.Keeps later :=
  ⟨h.lookup_eq, h.lookup_eq, fun found => ⟨_, h.lookup_eq found⟩⟩

theorem trans (h : GainsOnly disk made base files) (hl : GainsOnly made later base files) :
    GainsOnly disk later base files := by
  intro place
  rcases hl place with same | ⟨absent, path, content, listed, missing, added⟩
  · rcases h place with same' | ⟨absent, path, content, listed, missing, added⟩
    · exact .inl (same.trans same')
    · refine .inr ⟨absent, path, content, listed, missing, ?_⟩
      rw [same]
      exact added.imp (fun ⟨located, found⟩ => ⟨hl.keeps.locate located, found⟩)
        fun ⟨upper, above, located, found⟩ => ⟨upper, above, hl.keeps.locate located, found⟩
  · have absent' : disk.lookup place = none := by
      rcases h place with same | ⟨absent', -⟩
      · rw [← same, absent]
      · exact absent'
    exact .inr ⟨absent', path, content, listed, h.keeps.isPresent_eq_false missing, added⟩

theorem isTree (h : GainsOnly disk later base files) (tree : disk.IsTree)
    (standing : disk.IsRealDirectory base) : later.IsTree := by
  intro name here entry found
  have standing' := h.keeps.isRealDirectory standing
  rcases h (name :: here) with
    same | ⟨-, path, content, -, -, ⟨located, -⟩ | ⟨upper, -, located, -⟩⟩
  · rw [same] at found
    exact h.keeps.directory (tree found)
  · exact lookup_tail_of_locate standing' located
  · exact lookup_tail_of_locate standing' located

theorem entryAt_eq (h : GainsOnly disk later base files) {path : Path} {entry : Entry}
    (found : disk.entryAt base path = .ok entry) : later.entryAt base path = .ok entry := by
  obtain ⟨place, located, found⟩ := entryAt_eq_ok.mp found
  exact entryAt_eq_ok.mpr ⟨place, h.keeps.locate located, h.lookup_eq found⟩

end GainsOnly

/-! ### A file that is written over -/

namespace Written

variable {disk later : Disk} {base : Place} {path : Path} {content : Text} {place : Place}

theorem keeps (h : Written disk later base path content place) : disk.Keeps later := by
  have same {other : Place} {entry : Entry} (found : disk.lookup other = some entry)
      (apart : other ≠ place) : later.lookup other = some entry := by
    rcases h.others other apart with same | ⟨absent, -⟩
    · rw [same, found]
    · simp [absent] at found
  have solid {other : Place} {entry : Entry} (found : disk.lookup other = some entry)
      (no_file : ∀ content, entry ≠ .file content) : other ≠ place := by
    rintro rfl
    rcases h.free with absent | ⟨old, file⟩
    · simp [absent] at found
    · exact no_file old (Option.some.inj (found.symm.trans file))
  refine ⟨fun found => same found (solid found (by simp)),
    fun found => same found (solid found (by simp)), ?_⟩
  intro other old found
  by_cases he : other = place
  · exact ⟨_, he ▸ h.holds⟩
  · exact ⟨old, same found he⟩

theorem isTree (h : Written disk later base path content place) (tree : disk.IsTree)
    (standing : disk.IsRealDirectory base) : later.IsTree := by
  intro name here entry found
  have standing' := h.keeps.isRealDirectory standing
  by_cases he : name :: here = place
  · exact lookup_tail_of_locate standing' (he ▸ h.named)
  · rcases h.others _ he with same | ⟨-, -, upper, -, located⟩
    · rw [same] at found
      exact h.keeps.directory (tree found)
    · exact lookup_tail_of_locate standing' located

end Written

end Disk

namespace Command

open Disk

variable {disk later : Disk} {here : Place} {p : Path} {n : Text} {content : Text}

/-! ### One file -/

theorem exists_made_of_writeBelow (hn : IsName n)
    (h : writeBelow disk here (p.join ⟨n⟩) content = .ok later) :
    ∃ upper made, upper.IsParent (p.join ⟨n⟩) ∧ disk.makeDirectories here upper = .ok made ∧
      made.write here (p.join ⟨n⟩) content = .ok later := by
  obtain ⟨upper, parent⟩ := Path.exists_parent?_join hn p
  unfold writeBelow at h
  rw [parent, Option.map_some, Option.getD_some] at h
  split at h
  · cases h
  · rename_i made directories
    split at h
    · rename_i written
      obtain ⟨⟩ := h
      exact ⟨upper, made, Path.isParent_of_parent? parent, directories, written⟩
    · cases h

section Writing

variable (hn : IsName n) (tree : disk.IsTree) (standing : disk.IsRealDirectory here)
  (hold : disk.ParentStepsHold here p)

include hn tree standing hold

/-- Below a directory that was there or is new, a file that was missing is written where nothing
stands. -/
theorem exists_prepared_of_writeBelow (absent : disk.isPresent here (p.join ⟨n⟩) = false)
    (h : writeBelow disk here (p.join ⟨n⟩) content = .ok later) :
    ∃ made place, IsPrepared disk made here p ∧ disk.Keeps made ∧ made.lookup place = none ∧
      later = made.put place (.file (.text content)) ∧
      later.locate here (p.join ⟨n⟩) = .ok place := by
  obtain ⟨upper, made, above, directories, written⟩ := exists_made_of_writeBelow hn h
  obtain ⟨steps, absolute⟩ := above.steps_of_join hn
  obtain ⟨grows, -⟩ := grows_of_go (Nat.le_refl _) directories
  have prepared : IsPrepared disk made here p := by
    have hold' := hold.of_begins absolute (steps ▸ List.prefix_refl _)
    refine (makeDirectories_cases tree standing hold' (Nat.le_refl _) directories).imp_right ?_
    exact fun ⟨name, place, new⟩ => ⟨name, place, new.congr absolute steps⟩
  have missing : made.isPresent here (p.join ⟨n⟩) = false := by
    rcases prepared with rfl | ⟨name, place, new⟩
    · exact absent
    · exact (new.lacks (grows.keeps.isRealDirectory standing) hn (.inl rfl)).absent
  obtain ⟨place, free, rfl, located⟩ := exists_place_of_write written
  refine ⟨made, place, prepared, grows.keeps, ?_, rfl, located⟩
  rcases free with none_left | ⟨old, found⟩
  · exact none_left
  · have located' := locate_of_put_file found located
    rw [Bool.eq_false_iff, ne_eq, isPresent_iff] at missing
    exact absurd ⟨place, located'⟩ missing

theorem gainsOnly_of_writeBelow {files : List (Path × Text)}
    (listed : (p.join ⟨n⟩, content) ∈ files)
    (absent : disk.isPresent here (p.join ⟨n⟩) = false)
    (h : writeBelow disk here (p.join ⟨n⟩) content = .ok later) :
    GainsOnly disk later here files := by
  obtain ⟨place, written⟩ := written_of_writeBelow standing h
  obtain ⟨made, place', -, keeps, none_left, -, located⟩ :=
    exists_prepared_of_writeBelow hn tree standing hold absent h
  obtain rfl : place = place' := Except.ok.inj (written.named.symm.trans located)
  intro other
  by_cases he : other = place
  · subst he
    have free : disk.lookup other = none := by
      rcases written.free with free | ⟨old, found⟩
      · exact free
      · obtain ⟨_, found⟩ := keeps.file found
        simp [none_left] at found
    exact .inr ⟨free, _, content, listed, absent, .inl ⟨located, written.holds⟩⟩
  · rcases written.others other he with same | ⟨free, found, upper, above, located⟩
    · exact .inl same
    · exact .inr ⟨free, _, content, listed, absent, .inr ⟨upper, above, located, found⟩⟩

/-- A file under a name where not even a symbolic link stands is written into the directory that
its path leads to. -/
theorem exists_place_of_lacks (lacks : disk.Lacks here (p.join ⟨n⟩))
    (h : writeBelow disk here (p.join ⟨n⟩) content = .ok later) :
    ∃ made place, IsPrepared disk made here p ∧ disk.Keeps made ∧
      made.lookup (n :: place) = none ∧ later = made.put (n :: place) (.file (.text content)) := by
  obtain ⟨made, found, prepared, keeps, -, rfl, located⟩ :=
    exists_prepared_of_writeBelow hn tree standing hold lacks.absent h
  have standing' := keeps.isRealDirectory standing
  have lacks' : made.Lacks here (p.join ⟨n⟩) := by
    rcases prepared with rfl | ⟨name, place, new⟩
    · exact lacks
    · exact new.lacks standing' hn (.inl rfl)
  obtain ⟨left, place, leads, walked⟩ := exists_leads_of_locate_join hn located
  have none_left := (lacks_join_iff hn standing').mp lacks' (locate_eq_ok.mp located).1 place
    ⟨left, leads_of_put_file leads⟩
  have same : n :: place = found := by
    by_contra apart
    rw [walk_name_none hn (by rw [lookup_put_of_ne _ apart, none_left])] at walked
    cases walked
  exact ⟨made, place, prepared, keeps, none_left, by rw [same]⟩

end Writing

/-- A failure leaves the directories that were made by then. -/
theorem grows_of_writeBelow_error {path : Path} {cause : FileError}
    (h : writeBelow disk here path content = .error (later, cause)) :
    Grows here (·.IsAbove path) disk later := by
  unfold writeBelow at h
  cases parent : path.parent? with
  | none =>
    rw [parent, Option.map_none, Option.getD_none] at h
    dsimp only at h
    split at h
    · cases h
    · obtain ⟨⟩ := h
      exact .refl _ _ _
  | some upper =>
    rw [parent, Option.map_some, Option.getD_some] at h
    split at h
    · rename_i failure directories
      obtain ⟨⟩ := h
      exact (grows_of_go_error (Nat.le_refl _) directories).mono fun p => isAbove_of_parent? parent
    · rename_i made directories
      split at h
      · cases h
      · obtain ⟨⟩ := h
        exact (grows_of_go (Nat.le_refl _) directories).1.mono fun p => isAbove_of_parent? parent

theorem gainsOnly_of_writeBelow_error {path : Path} {files : List (Path × Text)} {cause : FileError}
    (listed : (path, content) ∈ files) (absent : disk.isPresent here path = false)
    (h : writeBelow disk here path content = .error (later, cause)) :
    GainsOnly disk later here files := by
  intro place
  rcases grows_of_writeBelow_error h place with same | ⟨free, found, upper, above, located⟩
  · exact .inl same
  · exact .inr ⟨free, path, content, listed, absent, .inr ⟨upper, above, located, found⟩⟩

/-! ### A list of files -/

/-- The file was there, or it is written. -/
inductive Settles (here : Place) (path : Path) (content : Text) (disk later : Disk) : Prop
  | present (found : disk.isPresent here path) (same : later = disk)
  | written (absent : disk.isPresent here path = false)
      (done : writeBelow disk here path content = .ok later)

section Loop

variable {around : Surroundings} {root : Path} {created : Bool} {files rest : List (Path × Text)}
  {path : Path} {out : Outcome}

/-- A run over a list of files settles the first one and goes on, or it ends there. -/
theorem createMissing_cons_cases (around : Surroundings) (root : Path) (created : Bool)
    (path : Path) (content : Text) (rest : List (Path × Text)) (out : Outcome) :
    (∃ created' out', Settles around.here path content out.disk out'.disk ∧
      out'.ending = out.ending ∧ createMissing around root created ((path, content) :: rest) out
        = createMissing around root created' rest out') ∨
    out.disk.isPresent around.here path = false ∧ ∃ later cause,
      writeBelow out.disk around.here path content = .error (later, cause) ∧
      (createMissing around root created ((path, content) :: rest) out).disk = later ∧
      (createMissing around root created ((path, content) :: rest) out).ending
        = .unwritten cause := by
  rw [createMissing]
  split
  · rename_i found
    refine .inl ⟨_, _, ?_, ?_, rfl⟩
    · exact .present found rfl
    · rfl
  · rename_i absent
    rw [Bool.not_eq_true] at absent
    split
    · rename_i failed
      exact .inr ⟨absent, _, _, failed, rfl, rfl⟩
    · rename_i done
      refine .inl ⟨_, _, ?_, ?_, rfl⟩
      · exact .written absent done
      · rfl

theorem createMissing_nil :
    (createMissing around root created [] out).disk = out.disk ∧
      (createMissing around root created [] out).ending = out.ending := by
  rw [createMissing]
  split <;> exact ⟨rfl, rfl⟩

/-- What holds of the disk at first and is kept where a file is settled, or cannot be written,
holds at the end of the run. -/
theorem createMissing_induction {P : Disk → Prop}
    (step : ∀ path content, (path, content) ∈ files → ∀ disk later, P disk →
      (Settles around.here path content disk later ∨
        disk.isPresent around.here path = false ∧
          ∃ cause, writeBelow disk around.here path content = .error (later, cause)) → P later)
    (start : P out.disk) : P (createMissing around root created files out).disk := by
  induction files generalizing created out with
  | nil => rwa [createMissing_nil.1]
  | cons file rest ih =>
    obtain ⟨path, content⟩ := file
    have first := step path content List.mem_cons_self
    rcases createMissing_cons_cases around root created path content rest out with
      ⟨created', out', settled, -, later⟩ | ⟨absent, later, cause, failed, same, -⟩
    · rw [later]
      exact ih (fun path content listed => step path content (List.mem_cons_of_mem _ listed))
        (first _ _ start (.inl settled))
    · rw [same]
      exact first _ _ start (.inr ⟨absent, cause, failed⟩)

/-- A run that is done has settled its first file. -/
theorem exists_settles_of_done (begun : out.ending = .done)
    (done : (createMissing around root created ((path, content) :: rest) out).ending = .done) :
    ∃ created' out', Settles around.here path content out.disk out'.disk ∧ out'.ending = .done ∧
      createMissing around root created ((path, content) :: rest) out
        = createMissing around root created' rest out' := by
  rcases createMissing_cons_cases around root created path content rest out with
    ⟨created', out', settled, same, later⟩ | ⟨-, later, cause, -, -, failed⟩
  · exact ⟨created', out', settled, same.trans begun, later⟩
  · rw [failed] at done
    cases done

/-- Where all files are there, nothing is done. -/
theorem createMissing_of_present
    (present : ∀ path content, (path, content) ∈ files → out.disk.isPresent around.here path) :
    (createMissing around root created files out).disk = out.disk ∧
      (createMissing around root created files out).ending = out.ending := by
  induction files generalizing created out with
  | nil => exact createMissing_nil
  | cons file rest ih =>
    obtain ⟨path, content⟩ := file
    rw [createMissing, if_pos (present path content List.mem_cons_self)]
    exact ih fun path content listed => present path content (List.mem_cons_of_mem _ listed)

end Loop

/-! ### What one file changes -/

namespace Settles

variable {q : Path} {m : Text} {x : Text}

theorem keeps {path : Path} (h : Settles here path content disk later)
    (standing : disk.IsRealDirectory here) : disk.Keeps later := by
  cases h with
  | present found same =>
    rw [same]
    exact .refl disk
  | written absent done =>
    obtain ⟨place, written⟩ := written_of_writeBelow standing done
    exact written.keeps

theorem isTree {path : Path} (h : Settles here path content disk later) (tree : disk.IsTree)
    (standing : disk.IsRealDirectory here) : later.IsTree := by
  cases h with
  | present found same => rwa [same]
  | written absent done =>
    obtain ⟨place, written⟩ := written_of_writeBelow standing done
    exact written.isTree tree standing

theorem isPresent {path : Path} (h : Settles here path content disk later)
    (standing : disk.IsRealDirectory here) : later.isPresent here path := by
  cases h with
  | present found same => rwa [same]
  | written absent done =>
    obtain ⟨place, written⟩ := written_of_writeBelow standing done
    exact isPresent_iff.mpr ⟨place, written.named⟩

theorem entryAt_eq {path : Path} (h : Settles here path content disk later)
    (standing : disk.IsRealDirectory here) (absent : disk.isPresent here path = false) :
    later.entryAt here path = .ok (.file (.text content)) := by
  cases h with
  | present found same => simp [absent] at found
  | written absent done =>
    obtain ⟨place, written⟩ := written_of_writeBelow standing done
    exact entryAt_eq_ok.mpr ⟨place, written.named, written.holds⟩

section Named

variable (h : Settles here (p.join ⟨n⟩) content disk later) (hn : IsName n) (tree : disk.IsTree)
  (standing : disk.IsRealDirectory here) (hold : disk.ParentStepsHold here p)

include h hn tree standing hold

theorem gainsOnly {files : List (Path × Text)} (listed : (p.join ⟨n⟩, content) ∈ files) :
    GainsOnly disk later here files := by
  cases h with
  | present found same =>
    rw [same]
    exact .refl _ _ _
  | written absent done => exact gainsOnly_of_writeBelow hn tree standing hold listed absent done

/-- A name that the directories leave missing is missing when the file is written. -/
theorem lacks_of_prepared (hm : IsName m) (apart : m ≠ n)
    (no_link : disk.isPresent here (p.join ⟨n⟩) = false → ¬disk.IsLink here (p.join ⟨n⟩))
    (lacks : ∀ made, IsPrepared disk made here p → disk.Keeps made →
      made.Lacks here (q.join ⟨m⟩)) : later.Lacks here (q.join ⟨m⟩) := by
  cases h with
  | present found same =>
    rw [same]
    exact lacks disk (.inl rfl) (.refl disk)
  | written absent done =>
    obtain ⟨made, place, prepared, keeps, none_left, rfl⟩ :=
      exists_place_of_lacks hn tree standing hold ⟨absent, no_link absent⟩ done
    exact (lacks made prepared keeps).put_file hm apart (keeps.isRealDirectory standing)
      (keeps_put_file (.inl none_left) _)

theorem lacks (hm : IsName m) (apart : m ≠ n)
    (no_link : disk.isPresent here (p.join ⟨n⟩) = false → ¬disk.IsLink here (p.join ⟨n⟩))
    (below : q = p ∨ ∃ n, IsName n ∧ q = p.join ⟨n⟩) (lacks : disk.Lacks here (q.join ⟨m⟩)) :
    later.Lacks here (q.join ⟨m⟩) := by
  refine lacks_of_prepared h hn tree standing hold hm apart no_link ?_
  rintro made (rfl | ⟨name, place, new⟩) keeps
  · exact lacks
  · exact new.lacks (keeps.isRealDirectory standing) hm below

end Named

theorem lacks_beside (h : Settles here ((p.join ⟨x⟩).join ⟨n⟩) content disk later) (hn : IsName n)
    (hx : IsName x) (tree : disk.IsTree) (standing : disk.IsRealDirectory here) {place : Place}
    (leads : disk.LeadsTo here p place) (hm : IsName m) (apart : m ≠ n) (apart' : m ≠ x)
    (no_link : disk.isPresent here ((p.join ⟨x⟩).join ⟨n⟩) = false →
      ¬disk.IsLink here ((p.join ⟨x⟩).join ⟨n⟩))
    (lacks : disk.Lacks here (p.join ⟨m⟩)) : later.Lacks here (p.join ⟨m⟩) := by
  have hold := (parentStepsHold_of_leadsTo leads).join hx
  refine lacks_of_prepared h hn tree standing hold hm apart no_link ?_
  rintro made (rfl | ⟨name, place, new⟩) keeps
  · exact lacks
  · exact new.lacks_beside hx hm apart' standing keeps leads lacks

end Settles

/-! ### The sample files -/

def documentName : Text := "main.xiv".toList

def folderName : Text := "templates".toList

def fragmentName : Text := "card.xiv".toList

def settingsName : Text := "xiv.toml".toList

theorem isName_documentName : IsName documentName := by decide

theorem isName_folderName : IsName folderName := by decide

theorem isName_fragmentName : IsName fragmentName := by decide

theorem isName_settingsName : IsName settingsName := by decide

theorem sampleFiles_eq (root : Path) : sampleFiles root =
    [(root.join ⟨documentName⟩, sampleDocument),
      ((root.join ⟨folderName⟩).join ⟨fragmentName⟩, sampleFragment),
      (root.join ⟨settingsName⟩, sampleSettings)] := rfl

section Project

variable {around : Surroundings} {root path : Path} {created : Bool} {out : Outcome}

/-- Each of the sample files is a name below the root, or below a folder of it. -/
theorem exists_join_of_mem_sampleFiles (listed : (path, content) ∈ sampleFiles root) :
    ∃ p n, IsName n ∧ path = p.join ⟨n⟩ ∧ ∀ disk : Disk,
      disk.ParentStepsHold here root → disk.ParentStepsHold here p := by
  rw [sampleFiles_eq, List.mem_cons, List.mem_cons, List.mem_singleton] at listed
  rcases listed with he | he | he <;> obtain ⟨rfl, -⟩ := Prod.mk.inj he
  · exact ⟨root, _, isName_documentName, rfl, fun _ hold => hold⟩
  · exact ⟨_, _, isName_fragmentName, rfl, fun _ hold => hold.join isName_folderName⟩
  · exact ⟨root, _, isName_settingsName, rfl, fun _ hold => hold⟩

/-- Creating sample files adds to the disk, however the run ends. -/
theorem gainsOnly_createMissing {files : List (Path × Text)} (sample : files ⊆ sampleFiles root)
    (tree : out.disk.IsTree) (standing : out.disk.IsRealDirectory around.here)
    (hold : out.disk.ParentStepsHold around.here root) :
    GainsOnly out.disk (createMissing around root created files out).disk around.here
      (sampleFiles root) := by
  refine createMissing_induction
    (P := fun later => GainsOnly out.disk later around.here (sampleFiles root)) ?_ (.refl _ _ _)
  · intro path content listed disk later gains step
    have listed := sample listed
    obtain ⟨p, n, hn, rfl, holds⟩ := exists_join_of_mem_sampleFiles listed
    have tree' := gains.isTree tree standing
    have standing' := gains.keeps.isRealDirectory standing
    refine gains.trans ?_
    rcases step with settled | ⟨absent, cause, failed⟩
    · exact settled.gainsOnly hn tree' standing' (holds _ (gains.keeps.parentStepsHold hold)) listed
    · exact gainsOnly_of_writeBelow_error listed absent failed

/-- A document that is there shows that the root leads to a directory. -/
theorem parentStepsHold_of_isPresent (hn : IsName n) (found : disk.isPresent here (p.join ⟨n⟩)) :
    disk.ParentStepsHold here p := by
  obtain ⟨place, located⟩ := isPresent_iff.mp found
  obtain ⟨left, place, leads, -⟩ := exists_leads_of_locate_join hn located
  exact parentStepsHold_of_leadsTo ⟨left, leads⟩

/-- An old file is written over by the document, whose path does not lead to it yet when it is
looked up: a parent step of the root is taken from a directory that is still missing then. -/
structure WritesOver (disk later : Disk) (here : Place) (root : Path) (place : Place) : Prop where
  old : ∃ content, disk.lookup place = some (.file content)
  steps : ¬disk.ParentStepsHold here root
  absent : disk.isPresent here (root.join ⟨documentName⟩) = false
  named : later.locate here (root.join ⟨documentName⟩) = .ok place
  holds : later.lookup place = some (.file (.text sampleDocument))

/-- Whatever stood on the disk stays as it is, but for an old file in the place of the document. -/
theorem lookup_createMissing_sampleFiles (tree : disk.IsTree)
    (standing : disk.IsRealDirectory around.here) {place : Place} {entry : Entry}
    (found : disk.lookup place = some entry) :
    let later := (createMissing around root created (sampleFiles root) { disk }).disk
    later.lookup place = some entry ∨ WritesOver disk later around.here root place := by
  intro later
  by_cases hold : disk.ParentStepsHold around.here root
  · exact .inl ((gainsOnly_createMissing (List.Subset.refl _) tree standing hold).lookup_eq found)
  · have absent : disk.isPresent around.here (root.join ⟨documentName⟩) = false := by
      rw [Bool.eq_false_iff]
      exact fun present => hold (parentStepsHold_of_isPresent isName_documentName present)
    have listed : (root.join ⟨documentName⟩, sampleDocument) ∈ sampleFiles root :=
      List.mem_cons_self
    rcases createMissing_cons_cases around root created (root.join ⟨documentName⟩) sampleDocument
        (sampleFiles root).tail { disk } with
      ⟨created', out', settled, -, goes_on⟩ | ⟨-, between, cause, failed, ended, -⟩
    · cases settled with
      | present found same => simp [absent] at found
      | written absent done =>
        obtain ⟨place', written⟩ := written_of_writeBelow standing done
        -- The root has its parent steps from now on, since its document is there.
        have hold' := parentStepsHold_of_isPresent isName_documentName
          (isPresent_iff.mpr ⟨place', written.named⟩)
        have gains : GainsOnly out'.disk later around.here (sampleFiles root) := by
          have gains := @gainsOnly_createMissing around root created' out' (sampleFiles root).tail
            (List.tail_subset _) (written.isTree tree standing)
            (written.keeps.isRealDirectory standing) hold'
          rwa [← goes_on] at gains
        by_cases he : place = place'
        · subst he
          refine .inr ⟨?_, hold, absent, gains.keeps.locate written.named,
            gains.lookup_eq written.holds⟩
          rcases written.free with none_left | old
          · simp [none_left] at found
          · exact old
        · rcases written.others place he with same | ⟨none_left, -⟩
          · exact .inl (gains.lookup_eq (same.trans found))
          · simp [none_left] at found
    · have gains : GainsOnly disk later around.here (sampleFiles root) := by
        have gains := gainsOnly_of_writeBelow_error listed absent failed
        rwa [← ended] at gains
      exact .inl (gains.lookup_eq found)

/-- A later run meets what the first one met: a tree, and the directory it starts in. -/
theorem keeps_createMissing {files : List (Path × Text)} (tree : out.disk.IsTree)
    (standing : out.disk.IsRealDirectory around.here) :
    out.disk.Keeps (createMissing around root created files out).disk ∧
      (createMissing around root created files out).disk.IsTree := by
  refine createMissing_induction (P := fun later => out.disk.Keeps later ∧ later.IsTree) ?_
    ⟨.refl out.disk, tree⟩
  rintro path content - disk later ⟨keeps, tree'⟩ step
  have standing' := keeps.isRealDirectory standing
  rcases step with settled | ⟨-, cause, failed⟩
  · exact ⟨keeps.trans (settled.keeps standing'), settled.isTree tree' standing'⟩
  · have grows := grows_of_writeBelow_error failed
    exact ⟨keeps.trans grows.keeps, grows.isTree tree' standing'⟩

/-- At the end of a run that is done each of the files is there. -/
theorem isPresent_createMissing_of_done {files : List (Path × Text)} (tree : out.disk.IsTree)
    (standing : out.disk.IsRealDirectory around.here) (begun : out.ending = .done)
    (done : (createMissing around root created files out).ending = .done)
    (listed : (path, content) ∈ files) :
    (createMissing around root created files out).disk.isPresent around.here path := by
  induction files generalizing created out with
  | nil => cases listed
  | cons file rest ih =>
    obtain ⟨first, sample⟩ := file
    obtain ⟨created', out', settled, begun', goes_on⟩ := exists_settles_of_done begun done
    have tree' := settled.isTree tree standing
    have standing' := (settled.keeps standing).isRealDirectory standing
    rw [goes_on] at done ⊢
    rcases List.mem_cons.mp listed with same | listed
    · obtain ⟨rfl, rfl⟩ := Prod.mk.inj same
      exact (keeps_createMissing tree' standing').1.isPresent (settled.isPresent standing)
    · exact ih tree' standing' begun' done listed

/-- Where no symbolic links stand under their paths, the files that were missing hold their
samples at the end of a run that is done. -/
theorem entryAt_createMissing_sampleFiles (tree : disk.IsTree)
    (standing : disk.IsRealDirectory around.here) (hold : disk.ParentStepsHold around.here root)
    (no_link : ∀ path content, (path, content) ∈ sampleFiles root → ¬disk.IsLink around.here path)
    (done : (createMissing around root created (sampleFiles root) { disk }).ending = .done)
    (listed : (path, content) ∈ sampleFiles root)
    (absent : disk.isPresent around.here path = false) :
    (createMissing around root created (sampleFiles root) { disk }).disk.entryAt around.here path
      = .ok (.file (.text content)) := by
  have document : (root.join ⟨documentName⟩, sampleDocument) ∈ sampleFiles root := by
    simp [sampleFiles_eq]
  have fragment :
      ((root.join ⟨folderName⟩).join ⟨fragmentName⟩, sampleFragment) ∈ sampleFiles root := by
    simp [sampleFiles_eq]
  have settings : (root.join ⟨settingsName⟩, sampleSettings) ∈ sampleFiles root := by
    simp [sampleFiles_eq]
  rw [sampleFiles_eq] at done ⊢
  obtain ⟨_, out₁, settled₁, begun₁, goes_on₁⟩ := exists_settles_of_done rfl done
  rw [goes_on₁] at done ⊢
  obtain ⟨_, out₂, settled₂, begun₂, goes_on₂⟩ := exists_settles_of_done begun₁ done
  rw [goes_on₂] at done ⊢
  obtain ⟨_, out₃, settled₃, -, goes_on₃⟩ := exists_settles_of_done begun₂ done
  rw [goes_on₃, createMissing_nil.1]
  -- The document, the fragment and the settings in turn.
  have gains₁ := settled₁.gainsOnly isName_documentName tree standing hold document
  have tree₁ := gains₁.isTree tree standing
  have standing₁ := gains₁.keeps.isRealDirectory standing
  have hold₁ := gains₁.keeps.parentStepsHold hold
  have gains₂ := settled₂.gainsOnly isName_fragmentName tree₁ standing₁
    (hold₁.join isName_folderName) fragment
  have tree₂ := gains₂.isTree tree₁ standing₁
  have standing₂ := gains₂.keeps.isRealDirectory standing₁
  have gains₃ := settled₃.gainsOnly isName_settingsName tree₂ standing₂
    (gains₂.keeps.parentStepsHold hold₁) settings
  have fragment_lacks
      (absent : disk.isPresent around.here ((root.join ⟨folderName⟩).join ⟨fragmentName⟩) = false) :
      out₁.disk.Lacks around.here ((root.join ⟨folderName⟩).join ⟨fragmentName⟩) :=
    settled₁.lacks isName_documentName tree standing hold isName_fragmentName (by decide)
      (fun _ => no_link _ _ document) (.inr ⟨folderName, isName_folderName, rfl⟩)
      ⟨absent, no_link _ _ fragment⟩
  rw [sampleFiles_eq, List.mem_cons, List.mem_cons, List.mem_singleton] at listed
  rcases listed with he | he | he <;> obtain ⟨rfl, same⟩ := Prod.mk.inj he <;> rw [same]
  · exact gains₃.entryAt_eq (gains₂.entryAt_eq (settled₁.entryAt_eq standing absent))
  · exact gains₃.entryAt_eq (settled₂.entryAt_eq standing₁ (fragment_lacks absent).absent)
  · have lacks₁ := settled₁.lacks isName_documentName tree standing hold isName_settingsName
      (by decide) (fun _ => no_link _ _ document) (.inl rfl) ⟨absent, no_link _ _ settings⟩
    obtain ⟨place, located⟩ := isPresent_iff.mp (settled₁.isPresent standing)
    obtain ⟨left, inside, leads, -⟩ := exists_leads_of_locate_join isName_documentName located
    have lacks₂ := settled₂.lacks_beside isName_fragmentName isName_folderName tree₁ standing₁
      ⟨left, leads⟩ isName_settingsName (by decide) (by decide)
      (fun absent => (fragment_lacks (gains₁.keeps.isPresent_eq_false absent)).no_link) lacks₁
    exact settled₃.entryAt_eq standing₂ lacks₂.absent

end Project

section Run

variable {around : Surroundings} {arguments : List Text} {given : Arguments}

theorem exists_createMissing_of_run (around : Surroundings)
    (understood : Arguments.read arguments = .ok given) (asked : given.task? = some .init) :
    ∃ color, ∀ disk, run disk around arguments
      = createMissing { around with color } (rootOf around.here given) false
          (sampleFiles (rootOf around.here given)) { disk } := by
  refine ⟨around.color && !given.noColor, fun disk => ?_⟩
  unfold run
  rw [understood]
  dsimp only
  rw [asked]
  rfl

/-- Creating a sample project leaves every entry of the disk as it is, but for an old file where
the root takes a parent step from a directory that is missing. Otherwise only files that were
missing are added, and directories above them, however the run ends. After a run that is done the
files are there, those that were missing hold their samples unless symbolic links stood in the
way, and another run changes nothing. -/
theorem sample_project_adds_missing_files (tree : disk.IsTree)
    (standing : disk.IsRealDirectory around.here)
    (understood : Arguments.read arguments = .ok given) (asked : given.task? = some .init) :
    let root := rootOf around.here given
    let later := (run disk around arguments).disk
    (∀ place entry, disk.lookup place = some entry →
      later.lookup place = some entry ∨ WritesOver disk later around.here root place) ∧
    (disk.ParentStepsHold around.here root →
      GainsOnly disk later around.here (sampleFiles root)) ∧
    (later.IsTree ∧ later.IsRealDirectory around.here) ∧
    ((run disk around arguments).ending = .done →
      (∀ path content, (path, content) ∈ sampleFiles root → later.isPresent around.here path) ∧
      (disk.ParentStepsHold around.here root →
        (∀ path content, (path, content) ∈ sampleFiles root →
          ¬disk.IsLink around.here path) →
        ∀ path content, (path, content) ∈ sampleFiles root →
          disk.isPresent around.here path = false →
          later.entryAt around.here path = .ok (.file (.text content))) ∧
      (run later around arguments).ending = .done ∧
      (run later around arguments).disk = later) := by
  intro root
  obtain ⟨color, ran⟩ := exists_createMissing_of_run around understood asked
  rw [ran disk]
  intro later
  obtain ⟨keeps, tree'⟩ : disk.Keeps later ∧ later.IsTree :=
    @keeps_createMissing { around with color } root false { disk } _ tree standing
  refine ⟨?_, ?_, ⟨tree', keeps.isRealDirectory standing⟩, ?_⟩
  · intro place entry found
    exact @lookup_createMissing_sampleFiles disk { around with color } root false tree standing _ _
      found
  · intro hold
    exact gainsOnly_createMissing (List.Subset.refl _) tree standing hold
  · intro done
    have present : ∀ path content, (path, content) ∈ sampleFiles root →
        later.isPresent around.here path := fun _ _ listed =>
      isPresent_createMissing_of_done tree standing rfl done listed
    obtain ⟨unchanged, ended⟩ := @createMissing_of_present { around with color } root false
      (sampleFiles root) { disk := later } present
    refine ⟨present, ?_, ?_⟩
    · intro hold no_link path content listed absent
      exact entryAt_createMissing_sampleFiles tree standing hold no_link done listed absent
    · rw [ran later]
      exact ⟨ended, unchanged⟩

/-- A site with a document and a fragment of its own. -/
def site : Disk where
  entries := [(["site".toList], .directory),
    ([documentName, "site".toList], .file (.text "mine".toList)),
    ([folderName, "site".toList], .directory),
    ([fragmentName, folderName, "site".toList], .file (.text "too".toList))]

theorem site_isTree : site.IsTree := isTree_of_entries (by decide)

theorem site_gains_its_settings :
    let arguments := ["init".toList, "--path".toList, "site".toList]
    let later := (run site { here := [] } arguments).disk
    site.IsTree ∧ (run site { here := [] } arguments).ending = .done ∧
      GainsOnly site later [] (sampleFiles (.ofString "site")) ∧
      later.entryAt [] ((Path.ofString "site").join ⟨settingsName⟩)
        = .ok (.file (.text sampleSettings)) ∧
      (run later { here := [] } arguments).disk = later := by
  have document : site.isPresent [] ((Path.ofString "site").join ⟨documentName⟩) = true := by cbv
  have fragment : site.isPresent []
      (((Path.ofString "site").join ⟨folderName⟩).join ⟨fragmentName⟩) = true := by cbv
  have absent : site.isPresent [] ((Path.ofString "site").join ⟨settingsName⟩) = false := by cbv
  have settings (content : Text) :
      writeBelow site [] ((Path.ofString "site").join ⟨settingsName⟩) content
        = .ok (site.put [settingsName, "site".toList] (.file (.text content))) := by cbv
  have no_link (p : Path) : ¬site.IsLink [] p := not_isLink_of_entries (by simp [site])
  have hold : site.ParentStepsHold [] (.ofString "site") :=
    parentStepsHold_of_not_mem (by decide)
  intro arguments later
  have understood : Arguments.read arguments
      = .ok ⟨some (.ofString "site"), false, false, some .init⟩ := rfl
  have done : (run site { here := [] } arguments).ending = .done := by
    show (createMissing { here := [] } (.ofString "site") false (sampleFiles (.ofString "site"))
      { disk := site }).ending = _
    simp only [sampleFiles_eq, createMissing, document, fragment, absent, settings, if_pos,
      Bool.false_eq_true, if_false]
  obtain ⟨-, gains, -, finished⟩ :=
    @sample_project_adds_missing_files site { here := [] } arguments _ site_isTree trivial
      understood rfl
  obtain ⟨-, samples, -, again⟩ := finished done
  refine ⟨site_isTree, done, gains hold, ?_, again⟩
  exact samples hold (fun path _ _ => no_link path) _ _ (List.mem_of_getElem? (i := 2) rfl) absent

/-- The same site by another name: the directory `new` is made only after the look at the
document, which is found missing and then written over. -/
theorem document_behind_new_directory_is_written_over :
    ¬∀ (disk : Disk) (around : Surroundings) (arguments : List Text) (given : Arguments),
      disk.IsTree → disk.IsRealDirectory around.here → Arguments.read arguments = .ok given →
      given.task? = some .init → ∀ place content, disk.lookup place = some (.file content) →
        (run disk around arguments).disk.lookup place = some (.file content) := by
  have absent : site.isPresent [] ((Path.ofString "new/../site").join ⟨documentName⟩) = false := by
    cbv
  have done (content : Text) :
      writeBelow site [] ((Path.ofString "new/../site").join ⟨documentName⟩) content
        = .ok ((site.put ["new".toList] .directory).put [documentName, "site".toList]
            (.file (.text content))) := by cbv
  obtain ⟨later, done, found⟩ : ∃ later,
      writeBelow site [] ((Path.ofString "new/../site").join ⟨documentName⟩) sampleDocument
        = .ok later ∧
      later.lookup [documentName, "site".toList] = some (.file (.text sampleDocument)) :=
    ⟨_, done _, lookup_put_self _ (List.cons_ne_nil _ _)⟩
  -- What comes after the document is added, so the document stays as it is written.
  have standing : site.IsRealDirectory [] := trivial
  obtain ⟨place, written⟩ := written_of_writeBelow standing done
  have tree := written.isTree site_isTree standing
  have hold := parentStepsHold_of_isPresent isName_documentName
    (isPresent_iff.mpr ⟨place, written.named⟩)
  have gains (out : Outcome) (he : out.disk = later) := @gainsOnly_createMissing { here := [] }
    (.ofString "new/../site") true out (sampleFiles (.ofString "new/../site")).tail
    (List.tail_subset _) (he ▸ tree) trivial (he ▸ hold)
  intro unharmed
  have kept : (createMissing { here := [] } (.ofString "new/../site") false
      (sampleFiles (.ofString "new/../site")) { disk := site }).disk.lookup
        [documentName, "site".toList] = some (.file (.text "mine".toList)) :=
    unharmed site { here := [] } ["init".toList, "--path".toList, "new/../site".toList]
      _ site_isTree trivial rfl rfl _ _ rfl
  rw [sampleFiles_eq, createMissing, if_neg (by simp [absent])] at kept
  simp only [done] at kept
  have same := ((gains _ rfl).lookup_eq found).symm.trans kept
  have differs : sampleDocument.head? = some '<' := by
    unfold sampleDocument
    simp only [String.toList_append, List.head?_append]
    rfl
  rw [Content.text.inj (Entry.file.inj (Option.some.inj same))] at differs
  exact absurd differs (by decide)

end Run

end Command

end HtmlTemplate
