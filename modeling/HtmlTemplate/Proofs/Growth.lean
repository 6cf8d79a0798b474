import HtmlTemplate.Proofs.Walks

/-!
# Disks that grow

Making directories and writing a file take nothing away, so what a path led to it still leads
to. Main results: directories are made only where the paths above a path lead, and a file that
is written stands where its path leads.
-/
namespace HtmlTemplate.Disk

variable {disk made later : Disk} {base : Place} {path : Path}

/-! ### One more entry -/

theorem lookup_filter_ne {entries : List (Place × Entry)} {place other : Place}
    (h : other ≠ place) :
    (entries.filter (·.1 != place)).lookup other = entries.lookup other := by
  induction entries with
  | nil => rfl
  | cons entry entries ih =>
    obtain ⟨key, entry⟩ := entry
    by_cases same : key = place
    · rw [List.filter_cons_of_neg (by simp [same]), ih, List.lookup_cons, same,
        beq_eq_false_iff_ne.mpr h]
    · rw [List.filter_cons_of_pos (by simp [same]), List.lookup_cons, List.lookup_cons, ih]

theorem lookup_put_of_ne {place other : Place} (entry : Entry) (h : other ≠ place) :
    (disk.put place entry).lookup other = disk.lookup other := by
  cases other with
  | nil => rfl
  | cons name here =>
    show ((place, entry) :: disk.entries.filter (·.1 != place)).lookup (name :: here) = _
    rw [List.lookup_cons, beq_eq_false_iff_ne.mpr h]
    exact lookup_filter_ne h

theorem lookup_put_self {place : Place} (entry : Entry) (h : place ≠ []) :
    (disk.put place entry).lookup place = some entry := by
  obtain ⟨name, here, rfl⟩ := List.exists_cons_of_ne_nil h
  exact List.lookup_cons_self

theorem ne_nil_of_lookup {place : Place} (h : disk.lookup place ≠ some .directory) :
    place ≠ [] := by
  rintro rfl
  exact h rfl

theorem keeps_put_directory {place : Place} (h : disk.lookup place = none) :
    disk.Keeps (disk.put place .directory) := by
  have same {other : Place} {entry : Entry} (found : disk.lookup other = some entry) :
      (disk.put place .directory).lookup other = some entry := by
    rw [lookup_put_of_ne, found]
    rintro rfl
    simp [h] at found
  exact ⟨same, same, fun found => ⟨_, same found⟩⟩

/-- A place where a file may be written: nothing stands there, or a file. -/
def IsFree (disk : Disk) (place : Place) : Prop :=
  disk.lookup place = none ∨ ∃ content, disk.lookup place = some (.file content)

theorem IsFree.ne_directory {place : Place} (h : disk.IsFree place) :
    disk.lookup place ≠ some .directory := by
  rcases h with h | ⟨content, h⟩ <;> simp [h]

theorem keeps_put_file {place : Place} (h : disk.IsFree place) (content : Content) :
    disk.Keeps (disk.put place (.file content)) where
  directory {other} found := by
    rw [lookup_put_of_ne, found]
    rintro rfl
    exact h.ne_directory found
  link {other} {target} found := by
    rw [lookup_put_of_ne, found]
    rintro rfl
    rcases h with h | ⟨old, h⟩ <;> simp [h] at found
  file {other} {old} found := by
    by_cases he : other = place
    · subst he
      exact ⟨content, lookup_put_self _ (ne_nil_of_lookup h.ne_directory)⟩
    · exact ⟨old, by rw [lookup_put_of_ne _ he, found]⟩

/-! ### Making directories -/

theorem exists_leads_of_directoryAt {here : Place} (h : disk.directoryAt base path = .ok here) :
    ∃ left, disk.Leads maxLinks (start base path) path.steps left here := by
  obtain ⟨text⟩ := path
  unfold directoryAt at h
  split at h
  · rename_i empty
    obtain rfl := List.isEmpty_iff.mp empty
    obtain rfl := Except.ok.inj h
    exact ⟨maxLinks, .here maxLinks base⟩
  · split at h
    · simp at h
    · rename_i place located
      split at h
      · rename_i found
        obtain rfl := Except.ok.inj h
        exact exists_leads_of_locate located (by simp [found])
      · simp at h

/-- The entry of a path is where the path leads, or a name in the directory above the path. -/
theorem entryPlace_cases {place : Place} (h : disk.entryPlace base path = .ok place) :
    disk.locate base path = .ok place ∨
      ∃ upper name here, upper.IsParent path ∧ path.components.getLast? = some (.name name) ∧
        disk.directoryAt base upper = .ok here ∧ nameError? name = none ∧
        pathError? path = none ∧ place = name :: here := by
  unfold entryPlace at h
  split at h
  · simp at h
  · rename_i usable
    split at h
    · rename_i upper name parent last
      split at h
      · simp at h
      · simp at h
      · rename_i here directory named
        exact .inr ⟨upper, name, here, Path.isParent_of_parent? parent, last, directory, named,
          usable, (Except.ok.inj h).symm⟩
    · exact .inl h

theorem locate_entryPlace {place : Place} (h : disk.entryPlace base path = .ok place)
    (absent : disk.lookup place = none) :
    (disk.put place .directory).locate base path = .ok place := by
  have keeps := keeps_put_directory absent
  rcases entryPlace_cases h with located | ⟨upper, name, here, above, last, rest⟩
  · exact keeps.locate located
  · -- The directory above is reached as before, and the new one is a step down from there.
    obtain ⟨directory, named, usable, rfl⟩ := rest
    obtain ⟨solid, other⟩ := Path.of_name_mem_components (List.mem_of_getLast? last)
    obtain ⟨left, leads⟩ := exists_leads_of_directoryAt directory
    have found : (disk.put (name :: here) .directory).lookup (name :: here) = some .directory :=
      lookup_put_self _ (List.cons_ne_nil name here)
    have down := (keeps.leads leads).append (.down ⟨solid, other, named⟩ found (.here _ _))
    apply locate_of_leads usable
    rwa [above.steps_of_name last, ← start_eq above]

/-- A directory is made where nothing stands, and its path leads to it. -/
theorem exists_place_of_makeDirectory (h : disk.makeDirectory base path = .ok made) :
    ∃ place, disk.lookup place = none ∧ made = disk.put place .directory ∧
      made.locate base path = .ok place := by
  unfold makeDirectory at h
  split at h
  · simp at h
  · rename_i place entry
    split at h
    · simp at h
    · rename_i absent
      obtain rfl := Except.ok.inj h
      exact ⟨place, absent, rfl, locate_entryPlace entry absent⟩

/-- The later disk has directories that the first one misses, each where one of the paths leads.
Nothing else is different. -/
def Grows (base : Place) (paths : Path → Prop) (disk later : Disk) : Prop :=
  ∀ place, later.lookup place = disk.lookup place ∨
    disk.lookup place = none ∧ later.lookup place = some .directory ∧
      ∃ path, paths path ∧ later.locate base path = .ok place

namespace Grows

variable {paths more : Path → Prop}

theorem refl (base : Place) (paths : Path → Prop) (disk : Disk) : Grows base paths disk disk :=
  fun _ => .inl rfl

theorem mono (h : Grows base paths disk later) (hp : ∀ path, paths path → more path) :
    Grows base more disk later := by
  intro place
  rcases h place with same | ⟨absent, found, path, named, located⟩
  · exact .inl same
  · exact .inr ⟨absent, found, path, hp path named, located⟩

theorem keeps (h : Grows base paths disk later) : disk.Keeps later := by
  have same {place : Place} {entry : Entry} (found : disk.lookup place = some entry) :
      later.lookup place = some entry := by
    rcases h place with same | ⟨absent, -⟩
    · rw [same, found]
    · simp [absent] at found
  exact ⟨same, same, fun found => ⟨_, same found⟩⟩

theorem trans (h : Grows base paths disk made) (hl : Grows base paths made later) :
    Grows base paths disk later := by
  intro place
  rcases hl place with same | ⟨absent, found, path, named, located⟩
  · rcases h place with same' | ⟨absent, found, path, named, located⟩
    · exact .inl (same.trans same')
    · exact .inr ⟨absent, same.trans found, path, named, hl.keeps.locate located⟩
  · rcases h place with same' | ⟨-, found', -⟩
    · exact .inr ⟨same'.symm.trans absent, found, path, named, located⟩
    · simp [found'] at absent

end Grows

theorem grows_of_ensureDirectory (h : disk.ensureDirectory base path = .ok made) :
    Grows base (· = path) disk made ∧ made.isDirectory base path := by
  unfold ensureDirectory at h
  split at h
  · rename_i done
    obtain rfl := Except.ok.inj h
    obtain ⟨place, absent, rfl, located⟩ := exists_place_of_makeDirectory done
    have other : disk.lookup place ≠ some .directory := by simp [absent]
    have found : (disk.put place .directory).lookup place = some .directory :=
      lookup_put_self _ (ne_nil_of_lookup other)
    refine ⟨?_, isDirectory_iff.mpr ⟨place, located, found⟩⟩
    intro other
    by_cases he : other = place
    · subst he
      exact .inr ⟨absent, found, path, rfl, located⟩
    · exact .inl (lookup_put_of_ne _ he)
  · split at h
    · rename_i directory
      obtain rfl := Except.ok.inj h
      exact ⟨.refl _ _ _, directory⟩
    · simp at h

/-- Making a path makes nothing if it is empty, makes it alone, fails, or makes those above it
first. -/
theorem go_succ_cases (disk : Disk) (base : Place) (count : Nat) (path : Path) :
    (path.text = [] ∧ makeDirectories.go disk base (count + 1) path = .ok disk) ∨
    makeDirectories.go disk base (count + 1) path = disk.ensureDirectory base path ∨
    makeDirectories.go disk base (count + 1) path = .error (disk, .notFound) ∨
    ∃ upper, path.parent? = some upper ∧ makeDirectories.go disk base (count + 1) path
      = (makeDirectories.go disk base count upper).bind (·.ensureDirectory base path) := by
  rw [makeDirectories.go]
  split
  · rename_i empty
    exact .inl ⟨List.isEmpty_iff.mp empty, rfl⟩
  · split
    · split
      · exact .inr (.inr (.inl rfl))
      · rename_i upper parent
        exact .inr (.inr (.inr ⟨upper, parent, rfl⟩))
    · exact .inr (.inl rfl)

theorem exists_of_go_succ {count : Nat}
    (h : makeDirectories.go disk base (count + 1) path = .ok made) :
    (path.text = [] ∧ made = disk) ∨ disk.ensureDirectory base path = .ok made ∨
    ∃ upper between, path.parent? = some upper ∧
      makeDirectories.go disk base count upper = .ok between ∧
      between.ensureDirectory base path = .ok made := by
  rcases go_succ_cases disk base count path with
    ⟨empty, he⟩ | he | he | ⟨upper, parent, he⟩ <;> rw [he] at h
  · exact .inl ⟨empty, (Except.ok.inj h).symm⟩
  · exact .inr (.inl h)
  · cases h
  · cases first : makeDirectories.go disk base count upper with
    | error e =>
      rw [first] at h
      cases h
    | ok between =>
      rw [first] at h
      exact .inr (.inr ⟨upper, between, parent, first, h⟩)

theorem components_length_of_parent? {upper : Path} {count : Nat}
    (parent : path.parent? = some upper) (fits : path.components.length ≤ count + 1) :
    upper.components.length ≤ count := by
  obtain ⟨c, components⟩ := (Path.isParent_of_parent? parent).components
  rw [components, List.length_append, List.length_singleton] at fits
  omega

theorem isAbove_of_parent? {upper p : Path} (parent : path.parent? = some upper)
    (h : p = upper ∨ p.IsAbove upper) : p.IsAbove path := by
  rcases h with rfl | above
  · exact .single parent
  · exact above.tail parent

theorem grows_of_go {count : Nat} (fits : path.components.length ≤ count)
    (h : makeDirectories.go disk base count path = .ok made) :
    Grows base (fun p => p = path ∨ p.IsAbove path) disk made ∧
      (path.text ≠ [] → made.isDirectory base path) := by
  induction count generalizing path made with
  | zero =>
    obtain rfl := Except.ok.inj h
    have empty := Path.text_eq_nil (List.eq_nil_of_length_eq_zero (Nat.le_zero.mp fits))
    exact ⟨.refl _ _ _, fun some_left => absurd empty some_left⟩
  | succ count ih =>
    rcases exists_of_go_succ h with ⟨empty, rfl⟩ | alone | ⟨upper, between, parent, first, last⟩
    · exact ⟨.refl _ _ _, fun some_left => absurd empty some_left⟩
    · obtain ⟨grows, directory⟩ := grows_of_ensureDirectory alone
      exact ⟨grows.mono fun p => .inl, fun _ => directory⟩
    · obtain ⟨grows, -⟩ := ih (components_length_of_parent? parent fits) first
      obtain ⟨grows', directory⟩ := grows_of_ensureDirectory last
      refine ⟨(grows.mono fun p h => ?_).trans (grows'.mono fun p => .inl), fun _ => directory⟩
      exact .inr (isAbove_of_parent? parent h)

theorem ensureDirectory_eq_error {cause : FileError}
    (h : disk.ensureDirectory base path = .error (made, cause)) : made = disk := by
  unfold ensureDirectory at h
  split at h
  · cases h
  · split at h
    · cases h
    · obtain ⟨⟩ := h
      rfl

/-- A failure leaves the directories that were made by then. -/
theorem grows_of_go_error {count : Nat} {cause : FileError}
    (fits : path.components.length ≤ count)
    (h : makeDirectories.go disk base count path = .error (made, cause)) :
    Grows base (fun p => p = path ∨ p.IsAbove path) disk made := by
  induction count generalizing path cause with
  | zero => cases h
  | succ count ih =>
    rcases go_succ_cases disk base count path with
      ⟨-, he⟩ | he | he | ⟨upper, parent, he⟩ <;> rw [he] at h
    · cases h
    · rw [ensureDirectory_eq_error h]
      exact .refl _ _ _
    · obtain ⟨⟩ := h
      exact .refl _ _ _
    · have fits' := components_length_of_parent? parent fits
      cases first : makeDirectories.go disk base count upper with
      | error failure =>
        rw [first] at h
        obtain ⟨⟩ := h
        exact (ih fits' first).mono fun p h => .inr (isAbove_of_parent? parent h)
      | ok between =>
        rw [first] at h
        rw [ensureDirectory_eq_error h]
        exact (grows_of_go fits' first).1.mono fun p h => .inr (isAbove_of_parent? parent h)

/-! ### Writing a file -/

theorem walk_put_last {links : Nat} {here : Place} {segment : Text} {rest : List Text}
    (step : IsStep segment) (last : rest.isEmpty) (content : Content) :
    (disk.put (segment :: here) (.file content)).walk links here (segment :: rest)
      = .ok (segment :: here) := by
  rw [List.isEmpty_iff.mp last]
  exact walk_file step (lookup_put_self _ (List.cons_ne_nil _ _))

/-- A file is written where one may be, and the segments lead to it then. -/
theorem walk_of_target {links : Nat} {here place : Place} {segments : List Text}
    (h : disk.target links here segments = .ok place) (content : Content) :
    disk.IsFree place ∧
      (disk.put place (.file content)).walk links here segments = .ok place := by
  -- The place is free, so what is passed on the way stands elsewhere and is kept.
  fun_induction target disk links here segments with
  | case2 links here segment rest silent ih =>
    obtain ⟨free, found⟩ := ih h
    exact ⟨free, by rw [walk_silent silent, found]⟩
  | case3 links here rest _ ih =>
    obtain ⟨free, found⟩ := ih h
    exact ⟨free, by rw [walk_up, found]⟩
  | case6 links here segment rest solid other _ usable absent last =>
    obtain rfl := Except.ok.inj h
    exact ⟨.inl absent, walk_put_last (isStep_of_walk solid other usable) last content⟩
  | case8 links here segment rest solid other _ usable directory ih =>
    obtain ⟨free, found⟩ := ih h
    have directory' := (keeps_put_file free content).directory directory
    exact ⟨free, by rw [walk_directory (isStep_of_walk solid other usable) directory', found]⟩
  | case9 links here segment rest solid other _ usable old file last =>
    obtain rfl := Except.ok.inj h
    exact ⟨.inr ⟨old, file⟩, walk_put_last (isStep_of_walk solid other usable) last content⟩
  | case12 here segment rest solid other _ usable target link links ih =>
    obtain ⟨free, found⟩ := ih h
    have link' := (keeps_put_file free content).link link
    refine ⟨free, ?_⟩
    rw [walk_link (isStep_of_walk solid other usable) link']
    exact found
  | _ => simp at h

theorem exists_place_of_write {content : Text} (h : disk.write base path content = .ok later) :
    ∃ place, disk.IsFree place ∧ later = disk.put place (.file (.text content)) ∧
      later.locate base path = .ok place := by
  unfold write at h
  split at h
  · simp at h
  · rename_i usable
    split at h
    · simp at h
    · rename_i place aimed
      obtain rfl := Except.ok.inj h
      obtain ⟨free, found⟩ := walk_of_target aimed (.text content)
      exact ⟨place, free, rfl, locate_eq_ok.mpr ⟨usable, found⟩⟩

/-- The later disk holds a text in the file that a path names, at that place, and the directories
above that path. Whatever else is different is one of them and was missing. -/
structure Written (disk later : Disk) (base : Place) (path : Path) (content : Text)
    (place : Place) : Prop where
  named : later.locate base path = .ok place
  holds : later.lookup place = some (.file (.text content))
  free : disk.IsFree place
  others : ∀ other ≠ place, later.lookup other = disk.lookup other ∨
    disk.lookup other = none ∧ later.lookup other = some .directory ∧
      ∃ upper, upper.IsAbove path ∧ later.locate base upper = .ok other
  above : ∀ upper, upper.IsAbove path → upper.text ≠ [] → later.isDirectory base upper

theorem written_of_write {content : Text} (standing : disk.IsRealDirectory base)
    (grows : Grows base (·.IsAbove path) disk made)
    (above : ∀ upper, path.parent? = some upper → upper.text ≠ [] → made.isDirectory base upper)
    (h : made.write base path content = .ok later) :
    ∃ place, Written disk later base path content place := by
  obtain ⟨place, free, rfl, located⟩ := exists_place_of_write h
  have some_left := ne_nil_of_lookup free.ne_directory
  have keeps := keeps_put_file free (.text content)
  refine ⟨place, located, lookup_put_self _ some_left, ?_, ?_, ?_⟩
  · rcases grows place with same | ⟨absent, -⟩
    · rwa [IsFree, ← same]
    · exact .inl absent
  · intro other apart
    rw [lookup_put_of_ne _ apart]
    rcases grows other with same | ⟨absent, found, upper, isAbove, located⟩
    · exact .inl same
    · exact .inr ⟨absent, found, upper, isAbove, keeps.locate located⟩
  · intro upper isAbove named
    apply keeps.isDirectory
    cases isAbove with
    | single parent => exact above upper parent named
    | tail isAbove parent =>
      have named' := Path.IsAbove.text_ne_nil isAbove named
      exact isDirectory_of_isAbove (grows.keeps.isRealDirectory standing) isAbove
        (above _ parent named') named

end HtmlTemplate.Disk
