import HtmlTemplate.Disk

/-!
# Changing a disk

Writing files and making directories. Nothing is removed on the way: a change adds one
entry or replaces the content of one file.
-/
namespace HtmlTemplate.Disk

/-- The disk with an entry at a place. -/
def put (disk : Disk) (place : Place) (entry : Entry) : Disk :=
  ⟨(place, entry) :: disk.entries.filter (·.1 != place)⟩

/-- The disk without a place and all below it. -/
def erase (disk : Disk) (place : Place) : Disk :=
  ⟨disk.entries.filter fun (p, _) => !place.isSuffixOf p⟩

/-- The place of the directory that a path names. The empty path names where one stands. -/
def directoryAt (disk : Disk) (base : Place) (path : Path) : Except FileError Place :=
  if path.text.isEmpty then .ok base
  else
    match disk.locate base path with
    | .error e => .error e
    | .ok place =>
      match disk.lookup place with
      | some .directory => .ok place
      | _ => .error .notDirectory

/-- The place of the entry that a path names or would name. A symbolic link at the end of the
path is not followed. -/
def entryPlace (disk : Disk) (base : Place) (path : Path) : Except FileError Place :=
  match pathError? path with
  | some e => .error e
  | none =>
    match path.parent?, path.components.getLast? with
    | some parent, some (.name name) =>
      match disk.directoryAt base parent, nameError? name with
      | .error e, _ => .error e
      | .ok _, some e => .error e
      | .ok here, none => .ok (name :: here)
    | _, _ => disk.locate base path

/-- The disk with one more directory. A symbolic link of that name is in the way, wherever
it leads. -/
def makeDirectory (disk : Disk) (base : Place) (path : Path) : Except FileError Disk :=
  match disk.entryPlace base path with
  | .error e => .error e
  | .ok place =>
    match disk.lookup place with
    | some _ => .error .alreadyExists
    | none => .ok (disk.put place .directory)

/-- Makes the directory when there is none yet. -/
def ensureDirectory (disk : Disk) (base : Place) (path : Path) :
    Except (Disk × FileError) Disk :=
  match disk.makeDirectory base path with
  | .ok disk => .ok disk
  | .error e => if disk.isDirectory base path then .ok disk else .error (disk, e)

/-- Makes a directory and those above it that are missing. A failure comes with the disk as
it is by then. -/
def makeDirectories (disk : Disk) (base : Place) (path : Path) :
    Except (Disk × FileError) Disk :=
  go path.components.length path
where
  /-- Makes a path of at most so many components. -/
  go : Nat → Path → Except (Disk × FileError) Disk
    | 0, _ => .ok disk
    | n + 1, path =>
      if path.text.isEmpty then .ok disk
      else
        match disk.makeDirectory base path with
        | .error .notFound =>
          match path.parent? with
          | none => .error (disk, .notFound)
          | some parent => do (← go n parent).ensureDirectory base path
        | _ => disk.ensureDirectory base path

/-- The place of the file that writing along segments from a directory makes or changes. A
separator after the last name asks for a directory, even where nothing stands. -/
def target (disk : Disk) (links : Nat) (here : Place) : List Text → Except FileError Place
  | [] => .error .isDirectory
  | segment :: rest =>
    if segment.isEmpty || segment = ['.'] then target disk links here rest
    else if segment = ['.', '.'] then target disk links here.tail rest
    else if !rest.isEmpty && rest.all (·.isEmpty) then .error .isDirectory
    else
      match nameError? segment with
      | some e => .error e
      | none =>
        match disk.lookup (segment :: here) with
        | none => if rest.isEmpty then .ok (segment :: here) else .error .notFound
        | some .directory => target disk links (segment :: here) rest
        | some (.file _) => if rest.isEmpty then .ok (segment :: here) else .error .notDirectory
        | some (.link path) =>
          match links with
          | 0 => .error .tooManyLinks
          | links + 1 =>
            target disk links (if path.isAbsolute then [] else here) (path.segments ++ rest)
termination_by segments => (links, segments.length)

/-- Writes a file: its content is replaced, or it is made in its directory. -/
def write (disk : Disk) (base : Place) (path : Path) (content : Text) : Except FileError Disk :=
  match pathError? path with
  | some e => .error e
  | none =>
    match disk.target maxLinks (if path.isAbsolute then [] else base) path.segments with
    | .error e => .error e
    | .ok place => .ok (disk.put place (.file (.text content)))

/-- Takes away what a path names, and all below it. -/
def remove (disk : Disk) (base : Place) (path : Path) : Disk :=
  match disk.entryPlace base path with
  | .error _ => disk
  | .ok place => disk.erase place

/-- Puts an entry at a path, in place of what is there, with the directories it needs. -/
def install (disk : Disk) (base : Place) (path : Path) (entry : Entry) : Disk :=
  let cleared := disk.remove base path
  let made :=
    match (path.parent?.map (cleared.makeDirectories base)).getD (.ok cleared) with
    | .ok made => made
    | .error (made, _) => made
  match made.entryPlace base path with
  | .error _ => made
  | .ok place => made.put place entry

end HtmlTemplate.Disk
