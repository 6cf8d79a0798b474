import HtmlTemplate.Store

/-!
# Snapshots of plain files

The files below the root without symbolic links, as a list. The smallest file systems on
which a compilation can be followed by hand.
-/
namespace HtmlTemplate

/-- The path with those names below the root. -/
def Path.ofNames (names : List Text) : Path := .ofComponents (.root :: names.map .name)

/-- A text file, by names that a path can hold. -/
structure PlainFile where
  names : List Text
  content : Text
  components_path : (Path.ofNames names).components = .root :: names.map .name := by decide

namespace PlainFile

/-- The path of the file. -/
def path (file : PlainFile) : Path := .ofNames file.names

/-- Whether a path leads to the file. -/
def isAt (p : Path) (file : PlainFile) : Bool := file.path.components == p.components

theorem eq_path_of_isAt {file other : PlainFile} (h : isAt other.path file) :
    file.path = other.path := by
  have same : file.path.components = other.path.components := by simpa [isAt] using h
  unfold path at same
  rw [file.components_path, other.components_path] at same
  have names : file.names = other.names :=
    (List.map_inj_right fun _ _ h => Path.Component.name.inj h).mp (List.cons.inj same).2
  simp only [path, names]

end PlainFile

namespace Snapshot

/-- The snapshot with exactly those files, and the directories on the way to them. -/
def ofFiles (files : List PlainFile) : Snapshot where
  isPresent p := files.any fun file => p.isWithin file.path
  isFile p := files.any (PlainFile.isAt p)
  isDirectory p := files.any fun file => p.isWithin file.path && !PlainFile.isAt p file
  canonical p :=
    match files.find? (PlainFile.isAt p) with
    | some file => .ok file.path
    | none => .error .notFound
  read p :=
    match files.find? (PlainFile.isAt p) with
    | some file => .ok file.content
    | none => .error .notFound
  files := files.map PlainFile.path
  isPresent_of_isFile := by
    intro p h
    obtain ⟨file, hm, h⟩ := List.any_eq_true.mp h
    have same : file.path.components = p.components := by simpa [PlainFile.isAt] using h
    exact List.any_eq_true.mpr ⟨file, hm, by simp [Path.isWithin, same]⟩
  canonical_isPlain := by
    intro p q h
    split at h
    · rename_i file _
      obtain rfl := by simpa using h
      exact ⟨file.names, rfl, file.components_path⟩
    · simp at h
  canonical_canonical := by
    intro p q h
    split at h
    · rename_i file hf
      obtain rfl := by simpa using h
      have here : PlainFile.isAt file.path file := by simp [PlainFile.isAt]
      have hm := List.mem_of_find?_eq_some hf
      split
      · rename_i first hfirst
        rw [PlainFile.eq_path_of_isAt (List.find?_some hfirst)]
      · rename_i hnone
        exact absurd here (List.find?_eq_none.mp hnone file hm)
    · simp at h
  mem_files := by
    intro p _ h
    split at h
    · rename_i file hf
      obtain rfl := by simpa using h
      exact List.mem_map_of_mem (List.mem_of_find?_eq_some hf)
    · simp at h

end Snapshot

/-- A fragment of a store of plain files is the body of one of them. -/
theorem Store.exists_of_load_ofFiles {files : List PlainFile} {root path : Path} {body : Forest}
    (h : load ⟨.ofFiles files, root⟩ path = .ok body) :
    ∃ file ∈ files, body = (Forest.read file.content).markedBody Document.templateType := by
  unfold load at h
  split at h
  · split at h
    · rename_i source found
      obtain rfl := by simpa using h
      simp only [Snapshot.ofFiles] at found
      split at found
      · rename_i file hf
        obtain rfl := by simpa using found
        exact ⟨file, List.mem_of_find?_eq_some hf, rfl⟩
      · simp at found
    · simp at h
  · simp at h

end HtmlTemplate
