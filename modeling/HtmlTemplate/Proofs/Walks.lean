import HtmlTemplate.Disk.Change
import HtmlTemplate.Proofs.Parents

/-!
# Walks through directories

A walk that does not end at a file passes directories and symbolic links only, so it can be cut
anywhere and goes on whatever follows. Main results: what a walk finds is still found on a disk
that keeps what the first one has, and what stands above a directory is a directory.
-/
namespace HtmlTemplate.Disk

/-! ### Steps from directory to directory -/

/-- A segment that is neither silent nor a parent step, and that can be a name. -/
structure IsStep (segment : Text) : Prop where
  not_silent : Path.isSilent segment = false
  not_parent : segment ≠ ['.', '.']
  usable : nameError? segment = none

section Equations

variable {disk : Disk} {links : Nat} {here : Place} {segment : Text} {rest : List Text}

theorem isStep_of_walk (solid : ¬(segment.isEmpty || decide (segment = ['.'])) = true)
    (other : segment ≠ ['.', '.']) (usable : nameError? segment = none) : IsStep segment :=
  ⟨by simpa [Path.isSilent] using solid, other, usable⟩

theorem IsStep.solid (h : IsStep segment) :
    ¬(segment.isEmpty || decide (segment = ['.'])) = true := by
  simpa [Path.isSilent] using h.not_silent

theorem walk_silent (h : Path.isSilent segment) :
    disk.walk links here (segment :: rest) = disk.walk links here rest := by
  rw [walk]
  exact if_pos h

theorem walk_up :
    disk.walk links here (['.', '.'] :: rest) = disk.walk links here.tail rest := by
  rw [walk, if_neg (by decide), if_pos rfl]

theorem walk_directory (h : IsStep segment)
    (found : disk.lookup (segment :: here) = some .directory) :
    disk.walk links here (segment :: rest) = disk.walk links (segment :: here) rest := by
  rw [walk, if_neg h.solid, if_neg h.not_parent, h.usable]
  simp only [found]

theorem walk_file (h : IsStep segment) {content : Content}
    (found : disk.lookup (segment :: here) = some (.file content)) :
    disk.walk links here [segment] = .ok (segment :: here) := by
  rw [walk, if_neg h.solid, if_neg h.not_parent, h.usable]
  simp only [found]
  rfl

theorem walk_link (h : IsStep segment) {target : Path}
    (found : disk.lookup (segment :: here) = some (.link target)) :
    disk.walk (links + 1) here (segment :: rest)
      = disk.walk links (if target.isAbsolute then [] else here) (target.segments ++ rest) := by
  rw [walk, if_neg h.solid, if_neg h.not_parent, h.usable]
  simp only [found]

end Equations

/-- The segments lead from one place to another through directories and symbolic links. The
numbers say how many links may be followed before and after. -/
inductive Leads (disk : Disk) : Nat → Place → List Text → Nat → Place → Prop
  | here (links : Nat) (here : Place) : Leads disk links here [] links here
  | silent {links left : Nat} {here there : Place} {segment : Text} {rest : List Text}
      (hs : Path.isSilent segment) (later : Leads disk links here rest left there) :
      Leads disk links here (segment :: rest) left there
  | up {links left : Nat} {here there : Place} {rest : List Text}
      (later : Leads disk links here.tail rest left there) :
      Leads disk links here (['.', '.'] :: rest) left there
  | down {links left : Nat} {here there : Place} {segment : Text} {rest : List Text}
      (hs : IsStep segment) (found : disk.lookup (segment :: here) = some .directory)
      (later : Leads disk links (segment :: here) rest left there) :
      Leads disk links here (segment :: rest) left there
  | follow {links between left : Nat} {here middle there : Place} {segment : Text}
      {target : Path} {rest : List Text} (hs : IsStep segment)
      (found : disk.lookup (segment :: here) = some (.link target))
      (first : Leads disk links (if target.isAbsolute then [] else here) target.segments
        between middle)
      (later : Leads disk between middle rest left there) :
      Leads disk (links + 1) here (segment :: rest) left there

section Walking

variable {disk : Disk} {links between left : Nat} {here middle there : Place}
  {segments more : List Text}

namespace Leads

theorem append (h : disk.Leads links here segments between middle)
    (hm : disk.Leads between middle more left there) :
    disk.Leads links here (segments ++ more) left there := by
  induction h with
  | here => exact hm
  | silent hs _ ih => exact .silent hs (ih hm)
  | up _ ih => exact .up (ih hm)
  | down hs found _ ih => exact .down hs found (ih hm)
  | follow hs found first _ _ ih => exact .follow hs found first (ih hm)

theorem exists_of_append (h : disk.Leads links here (segments ++ more) left there) :
    ∃ between middle, disk.Leads links here segments between middle ∧
      disk.Leads between middle more left there := by
  induction segments generalizing links here with
  | nil => exact ⟨links, here, .here links here, h⟩
  | cons segment segments ih =>
    cases h with
    | silent hs later =>
      obtain ⟨between, middle, first, last⟩ := ih later
      exact ⟨between, middle, .silent hs first, last⟩
    | up later =>
      obtain ⟨between, middle, first, last⟩ := ih later
      exact ⟨between, middle, .up first, last⟩
    | down hs found later =>
      obtain ⟨between, middle, first, last⟩ := ih later
      exact ⟨between, middle, .down hs found first, last⟩
    | follow hs found target later =>
      obtain ⟨between, middle, first, last⟩ := ih later
      exact ⟨between, middle, .follow hs found target first, last⟩

/-- Silent segments make no difference. -/
theorem filter_iff : disk.Leads links here (segments.filter (!Path.isSilent ·)) left there ↔
    disk.Leads links here segments left there := by
  constructor
  · intro h
    induction segments generalizing links here with
    | nil => exact h
    | cons segment segments ih =>
      by_cases hs : Path.isSilent segment
      · rw [List.filter_cons_of_neg (by simp [hs])] at h
        exact .silent hs (ih h)
      · rw [List.filter_cons_of_pos (by simp [hs])] at h
        cases h with
        | silent hs' => exact absurd hs' hs
        | up later => exact .up (ih later)
        | down step found later => exact .down step found (ih later)
        | follow step found first later => exact .follow step found first (ih later)
  · intro h
    induction h with
    | here => exact .here _ _
    | silent hs _ ih => rwa [List.filter_cons_of_neg (by simp [hs])]
    | up _ ih => exact .up ih
    | down hs found _ ih =>
      rw [List.filter_cons_of_pos (by simp [hs.not_silent])]
      exact .down hs found ih
    | follow hs found first _ _ ih =>
      rw [List.filter_cons_of_pos (by simp [hs.not_silent])]
      exact .follow hs found first ih

theorem walk_append (h : disk.Leads links here segments left there) (more : List Text) :
    disk.walk links here (segments ++ more) = disk.walk left there more := by
  induction h generalizing more with
  | here => rfl
  | silent hs _ ih => rw [List.cons_append, walk_silent hs, ih]
  | up _ ih => rw [List.cons_append, walk_up, ih]
  | down hs found _ ih => rw [List.cons_append, walk_directory hs found, ih]
  | follow hs found _ _ first ih => rw [List.cons_append, walk_link hs found, first, ih]

theorem walk_eq (h : disk.Leads links here segments left there) :
    disk.walk links here segments = .ok there := by
  have := h.walk_append []
  rwa [List.append_nil, walk] at this

theorem isRealDirectory (h : disk.Leads links here segments left there)
    (hs : ∀ s ∈ segments, '/' ∉ s) (hh : disk.IsRealDirectory here) :
    disk.IsRealDirectory there := by
  induction h with
  | here => exact hh
  | silent _ _ ih => exact ih (fun s m => hs s (by simp [m])) hh
  | up _ ih => exact ih (fun s m => hs s (by simp [m])) (isRealDirectory_tail hh)
  | down step found _ ih =>
    refine ih (fun s m => hs s (by simp [m])) ⟨?_, hh, found⟩
    refine isName_of_segment ?_ step.not_parent step.usable (hs _ (by simp))
    simpa [Path.isSilent] using step.not_silent
  | follow _ _ _ _ first ih =>
    refine ih (fun s m => hs s (by simp [m])) (first (fun s m => Path.no_separator m) ?_)
    split
    · trivial
    · exact hh

end Leads

/-- A walk that does not end at a file is made of steps. -/
theorem exists_leads_of_walk (h : disk.walk links here segments = .ok there)
    (no_file : ∀ content, disk.lookup there ≠ some (.file content)) :
    ∃ left, disk.Leads links here segments left there := by
  fun_induction walk disk links here segments with
  | case1 links here =>
    obtain rfl := by simpa using h
    exact ⟨links, .here links here⟩
  | case2 links here segment rest silent ih =>
    obtain ⟨left, later⟩ := ih h
    exact ⟨left, .silent silent later⟩
  | case3 links here rest _ ih =>
    obtain ⟨left, later⟩ := ih h
    exact ⟨left, .up later⟩
  | case6 links here segment rest solid other usable found ih =>
    obtain ⟨left, later⟩ := ih h
    exact ⟨left, .down (isStep_of_walk solid other usable) found later⟩
  | case7 links here segment rest solid other usable content found last =>
    obtain rfl := by simpa using h
    exact absurd found (no_file content)
  | case10 here segment rest solid other usable target found links ih =>
    -- What follows the link is walked in one go with its target, so it is cut off again here.
    obtain ⟨left, both⟩ := ih h
    obtain ⟨between, middle, first, later⟩ := both.exists_of_append
    exact ⟨left, .follow (isStep_of_walk solid other usable) found first later⟩
  | _ => simp at h

end Walking

/-! ### Disks that keep what another has -/

/-- Directories and symbolic links stay as they are, and files stay files. -/
structure Keeps (disk later : Disk) : Prop where
  directory {place : Place} :
    disk.lookup place = some .directory → later.lookup place = some .directory
  link {place : Place} {target : Path} :
    disk.lookup place = some (.link target) → later.lookup place = some (.link target)
  file {place : Place} {content : Content} :
    disk.lookup place = some (.file content) →
      ∃ content', later.lookup place = some (.file content')

namespace Keeps

variable {disk middle later : Disk}

theorem refl (disk : Disk) : disk.Keeps disk := ⟨id, id, fun found => ⟨_, found⟩⟩

theorem trans (h : disk.Keeps middle) (hm : middle.Keeps later) : disk.Keeps later where
  directory found := hm.directory (h.directory found)
  link found := hm.link (h.link found)
  file found := by
    obtain ⟨content, found'⟩ := h.file found
    exact hm.file found'

theorem leads (h : disk.Keeps later) {links left : Nat} {here there : Place}
    {segments : List Text} (hl : disk.Leads links here segments left there) :
    later.Leads links here segments left there := by
  induction hl with
  | here => exact .here _ _
  | silent hs _ ih => exact .silent hs ih
  | up _ ih => exact .up ih
  | down hs found _ ih => exact .down hs (h.directory found) ih
  | follow hs found _ _ first ih => exact .follow hs (h.link found) first ih

theorem walk (h : disk.Keeps later) {links : Nat} {here there : Place} {segments : List Text}
    (hw : disk.walk links here segments = .ok there) :
    later.walk links here segments = .ok there := by
  fun_induction Disk.walk disk links here segments with
  | case1 => rwa [Disk.walk]
  | case2 links here segment rest silent ih => rw [walk_silent silent, ih hw]
  | case3 links here rest _ ih => rw [walk_up, ih hw]
  | case6 links here segment rest solid other usable found ih =>
    rw [walk_directory (isStep_of_walk solid other usable) (h.directory found), ih hw]
  | case7 links here segment rest solid other usable content found last =>
    obtain ⟨content', found'⟩ := h.file found
    rw [List.isEmpty_iff.mp last, walk_file (isStep_of_walk solid other usable) found', hw]
  | case10 here segment rest solid other usable target found links ih =>
    rw [walk_link (isStep_of_walk solid other usable) (h.link found)]
    exact ih hw
  | _ => simp at hw

theorem isRealDirectory (h : disk.Keeps later) {place : Place}
    (real : disk.IsRealDirectory place) : later.IsRealDirectory place := by
  induction place with
  | nil => trivial
  | cons name here ih => exact ⟨real.1, ih real.2.1, h.directory real.2.2⟩

theorem locate (h : disk.Keeps later) {base place : Place} {path : Path}
    (hl : disk.locate base path = .ok place) : later.locate base path = .ok place := by
  unfold Disk.locate at hl ⊢
  split at hl
  · simp at hl
  · exact h.walk hl

end Keeps

/-! ### The place of a path -/

/-- Where a walk along a path begins. -/
def start (base : Place) (path : Path) : Place := if path.isAbsolute then [] else base

theorem start_eq {base : Place} {upper path : Path} (h : upper.IsParent path) :
    start base upper = start base path := by
  rw [start, start, h.isAbsolute]

theorem locate_eq_ok {disk : Disk} {base place : Place} {path : Path} :
    disk.locate base path = .ok place ↔
      pathError? path = none ∧ disk.walk maxLinks (start base path) path.segments = .ok place := by
  unfold locate
  cases pathError? path with
  | some e => simp
  | none => simp [start]

theorem isDirectory_iff {disk : Disk} {base : Place} {path : Path} :
    disk.isDirectory base path ↔
      ∃ place, disk.locate base path = .ok place ∧ disk.lookup place = some .directory := by
  unfold isDirectory entryAt
  cases disk.locate base path with
  | error e => simp
  | ok place =>
    cases h : disk.lookup place with
    | none => simp [h]
    | some entry => cases entry <;> simp [h]

theorem Keeps.isDirectory {disk later : Disk} (h : disk.Keeps later) {base : Place} {path : Path}
    (hd : disk.isDirectory base path) : later.isDirectory base path := by
  obtain ⟨place, located, found⟩ := isDirectory_iff.mp hd
  exact isDirectory_iff.mpr ⟨place, h.locate located, h.directory found⟩

theorem exists_leads_of_locate {disk : Disk} {base place : Place} {path : Path}
    (h : disk.locate base path = .ok place)
    (no_file : ∀ content, disk.lookup place ≠ some (.file content)) :
    ∃ left, disk.Leads maxLinks (start base path) path.steps left place := by
  obtain ⟨left, leads⟩ := exists_leads_of_walk (locate_eq_ok.mp h).2 no_file
  exact ⟨left, by rwa [Path.steps_eq, Leads.filter_iff]⟩

theorem locate_of_leads {disk : Disk} {base place : Place} {path : Path} {left : Nat}
    (usable : pathError? path = none)
    (h : disk.Leads maxLinks (start base path) path.steps left place) :
    disk.locate base path = .ok place := by
  rw [Path.steps_eq, Leads.filter_iff] at h
  exact locate_eq_ok.mpr ⟨usable, h.walk_eq⟩

theorem byteLength_append (t u : Text) : (t ++ u).byteLength = t.byteLength + u.byteLength := by
  induction t with
  | nil => exact (Nat.zero_add _).symm
  | cons c t ih => simp only [List.cons_append, Text.byteLength, ih, Nat.add_assoc]

theorem pathError?_of_begins {upper path : Path} (h : pathError? path = none)
    (begins : upper.text <+: path.text) (some_left : upper.text ≠ []) :
    pathError? upper = none := by
  obtain ⟨rest, whole⟩ := begins
  have short : upper.text.byteLength ≤ path.text.byteLength := by
    rw [← whole, byteLength_append]
    exact Nat.le_add_right _ _
  unfold pathError? at h ⊢
  split_ifs at h with empty nul long
  have inside : '\x00' ∉ upper.text := fun found => nul (whole ▸ List.mem_append_left _ found)
  rw [if_neg (by simpa using some_left), if_neg inside, if_neg (by omega)]

/-- What stands above a directory is a directory. -/
theorem isDirectory_of_isParent {disk : Disk} {base : Place} {upper path : Path}
    (standing : disk.IsRealDirectory base) (h : upper.IsParent path)
    (some_left : upper.text ≠ []) (hd : disk.isDirectory base path) :
    disk.isDirectory base upper := by
  obtain ⟨place, located, found⟩ := isDirectory_iff.mp hd
  obtain ⟨left, leads⟩ := exists_leads_of_locate located (by simp [found])
  obtain ⟨more, steps⟩ := h.steps
  rw [← steps] at leads
  obtain ⟨between, middle, first, -⟩ := leads.exists_of_append
  rw [← start_eq h] at first
  have located' : disk.locate base upper = .ok middle :=
    locate_of_leads (pathError?_of_begins (locate_eq_ok.mp located).1 h.begins some_left) first
  have real : disk.IsRealDirectory middle := by
    refine first.isRealDirectory ?_ ?_
    · intro s hs
      rw [Path.steps_eq] at hs
      exact Path.no_separator (List.mem_filter.mp hs).1
    · unfold start
      split
      · trivial
      · exact standing
  refine isDirectory_iff.mpr ⟨middle, located', ?_⟩
  cases middle with
  | nil => rfl
  | cons name middle => exact real.2.2

/-- All that stands above a directory are directories. -/
theorem isDirectory_of_isAbove {disk : Disk} {base : Place} {upper path : Path}
    (standing : disk.IsRealDirectory base) (h : upper.IsAbove path)
    (hd : disk.isDirectory base path) (some_left : upper.text ≠ []) :
    disk.isDirectory base upper := by
  induction h using Relation.TransGen.head_induction_on with
  | single found =>
    exact isDirectory_of_isParent standing (Path.isParent_of_parent? found) some_left hd
  | @head upper next found _ ih =>
    have parent := Path.isParent_of_parent? found
    exact isDirectory_of_isParent standing parent some_left (ih (parent.text_ne_nil some_left))

end HtmlTemplate.Disk
