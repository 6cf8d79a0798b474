import HtmlTemplate.Document
import HtmlTemplate.Snapshot

/-!
# Fragment stores

The fragments below one template directory. A name becomes a path inside that
directory or is refused; symbolic links are followed before the check.
-/
namespace HtmlTemplate

/-- A template directory, by its canonical path. -/
structure Store where
  snapshot : Snapshot
  root : Path

namespace Store

/-- Opens the store of a directory. -/
def open? (snapshot : Snapshot) (path : Path) : Except Failure Store :=
  if snapshot.isDirectory path then
    match snapshot.canonical path with
    | .ok root => .ok ⟨snapshot, root⟩
    | .error e => .error (.file e)
  else if snapshot.isPresent path then
    .error (.invalidInput path.text "template root is not a directory".toList)
  else .error (.invalidInput path.text "template root does not exist".toList)

/-- Where the file of a fragment lies when it is no symbolic link. -/
def candidate (store : Store) (name : Text) : Path :=
  (store.root.join ⟨name ++ ".xiv".toList⟩).normalize

/-- The path of a fragment, canonical when there is such a file. -/
def resolve (store : Store) (name : Text) : Except Failure Path :=
  let candidate := store.candidate name
  if !store.root.isWithin candidate then .error (.invalidPath name)
  else if !store.snapshot.isPresent candidate then .ok candidate
  else
    match store.snapshot.canonical candidate with
    | .error e => .error (.file e)
    | .ok path => if store.root.isWithin path then .ok path else .error (.invalidPath name)

/-- The body of the fragment in a file. -/
def load (store : Store) (path : Path) : Except Failure Forest :=
  if store.snapshot.isFile path then
    match store.snapshot.read path with
    | .ok source => .ok ((Forest.read source).markedBody Document.templateType)
    | .error e => .error (.file e)
  else .error (.fragmentNotFound path.text)

theorem isFile_of_load {store : Store} {path : Path} {body : Forest}
    (h : store.load path = .ok body) : store.snapshot.isFile path := by
  unfold load at h
  split at h
  · assumption
  · simp at h

/-- A fragment that is resolved and loaded is one of the files of the snapshot. -/
theorem mem_files {store : Store} {name : Text} {path : Path} {body : Forest}
    (hr : store.resolve name = .ok path) (hl : store.load path = .ok body) :
    path ∈ store.snapshot.files := by
  have file := isFile_of_load hl
  unfold resolve at hr
  dsimp only at hr
  split at hr
  · simp at hr
  · split at hr
    · rename_i absent
      obtain rfl := by simpa using hr
      simp [store.snapshot.isPresent_of_isFile file] at absent
    · split at hr
      · simp at hr
      · rename_i found
        split at hr
        · obtain rfl := by simpa using hr
          exact store.snapshot.mem_files file (store.snapshot.canonical_canonical found)
        · simp at hr

end Store

end HtmlTemplate
