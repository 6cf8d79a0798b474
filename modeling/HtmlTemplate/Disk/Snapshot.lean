import HtmlTemplate.Disk

/-!
# The snapshot of a disk

A walk ends at a real place: every name on the way to it is a directory. A real place
is found again under its own path, so the path is canonical.
-/
namespace HtmlTemplate.Disk

/-- A name that a walk can go down to. -/
structure IsName (name : Text) : Prop where
  not_empty : name ≠ []
  not_dot : name ≠ ['.']
  not_parent : name ≠ ['.', '.']
  no_separator : '/' ∉ name
  usable : nameError? name = none

/-- A directory that is reached without symbolic links. -/
def IsRealDirectory (disk : Disk) : Place → Prop
  | [] => True
  | name :: here =>
    IsName name ∧ disk.IsRealDirectory here ∧ disk.lookup (name :: here) = some .directory

instance (name : Text) : Decidable (IsName name) :=
  decidable_of_iff (name ≠ [] ∧ name ≠ ['.'] ∧ name ≠ ['.', '.'] ∧ '/' ∉ name ∧
      nameError? name = none)
    ⟨fun ⟨a, b, c, d, e⟩ => ⟨a, b, c, d, e⟩, fun ⟨a, b, c, d, e⟩ => ⟨a, b, c, d, e⟩⟩

instance decidableIsRealDirectory (disk : Disk) :
    (place : Place) → Decidable (disk.IsRealDirectory place)
  | [] => .isTrue trivial
  | name :: here =>
    have := decidableIsRealDirectory disk here
    inferInstanceAs (Decidable (IsName name ∧ disk.IsRealDirectory here ∧
      disk.lookup (name :: here) = some .directory))

/-- A file or directory that is reached without symbolic links. -/
def IsReal (disk : Disk) (place : Place) : Prop :=
  disk.IsRealDirectory place ∨
    ∃ name here content, place = name :: here ∧ IsName name ∧ disk.IsRealDirectory here ∧
      disk.lookup place = some (.file content)

theorem isRealDirectory_tail {disk : Disk} {place : Place} (h : disk.IsRealDirectory place) :
    disk.IsRealDirectory place.tail := by
  cases place with
  | nil => exact h
  | cons name here => exact h.2.1

theorem isName_of_segment {segment : Text}
    (h : ¬(segment.isEmpty || decide (segment = ['.'])) = true) (hp : segment ≠ ['.', '.'])
    (hn : nameError? segment = none) (hs : '/' ∉ segment) : IsName segment := by
  simp only [Bool.or_eq_true, List.isEmpty_iff, decide_eq_true_eq, not_or] at h
  exact ⟨h.1, h.2, hp, hs, hn⟩

/-- A walk from a real directory ends at a real place. -/
theorem isReal_of_walk {disk : Disk} {links : Nat} {here place : Place} {segments : List Text}
    (hh : disk.IsRealDirectory here) (hs : ∀ s ∈ segments, '/' ∉ s)
    (h : disk.walk links here segments = .ok place) : disk.IsReal place := by
  fun_induction walk disk links here segments with
  | case1 =>
    obtain rfl := by simpa using h
    exact .inl hh
  | case2 links here segment rest _ ih => exact ih hh (fun s m => hs s (by simp [m])) h
  | case3 links here rest _ ih =>
    exact ih (isRealDirectory_tail hh) (fun s m => hs s (by simp [m])) h
  | case6 links here segment rest h1 h2 h3 h4 ih =>
    exact ih ⟨isName_of_segment h1 h2 h3 (hs _ (by simp)), hh, h4⟩
      (fun s m => hs s (by simp [m])) h
  | case7 links here segment rest h1 h2 h3 content h4 h5 =>
    obtain rfl := by simpa using h
    exact .inr ⟨segment, here, content, rfl, isName_of_segment h1 h2 h3 (hs _ (by simp)), hh, h4⟩
  | case10 links here segment rest h1 h2 h3 target h4 ih =>
    refine ih ?_ ?_ h
    · split
      · trivial
      · exact hh
    · intro s m
      rcases List.mem_append.mp m with m | m
      · exact Text.not_mem_of_mem_splitOn m
      · exact hs s (by simp [m])
  | _ => simp at h

/-- The names of a real directory lead back to it, whatever comes after them. -/
theorem walk_realDirectory {disk : Disk} {links : Nat} {place : Place} (rest : List Text)
    (h : disk.IsRealDirectory place) :
    disk.walk links [] (place.reverse ++ rest) = disk.walk links place rest := by
  induction place generalizing rest with
  | nil => simp
  | cons name here ih =>
    obtain ⟨hn, hh, hd⟩ := h
    rw [List.reverse_cons, List.append_assoc, ih _ hh, List.singleton_append, walk]
    simp [hn.not_empty, hn.not_dot, hn.not_parent, hn.usable, hd]

theorem walk_real {disk : Disk} {links : Nat} {place : Place} (h : disk.IsReal place) :
    disk.walk links [] place.reverse = .ok place := by
  rcases h with h | ⟨name, here, content, rfl, hn, hh, hf⟩
  · rw [← List.append_nil place.reverse, walk_realDirectory [] h, walk]
  · rw [List.reverse_cons, walk_realDirectory _ hh, walk]
    simp [hn.not_empty, hn.not_dot, hn.not_parent, hn.usable, hf]

theorem isName_of_mem {disk : Disk} {place : Place} (h : disk.IsReal place) {name : Text}
    (hm : name ∈ place) : IsName name := by
  have directory {place : Place} (h : disk.IsRealDirectory place) (hm : name ∈ place) :
      IsName name := by
    induction place with
    | nil => simp at hm
    | cons n here ih =>
      rcases List.mem_cons.mp hm with rfl | hm
      · exact h.1
      · exact ih h.2.1 hm
  rcases h with h | ⟨n, here, content, rfl, hn, hh, -⟩
  · exact directory h hm
  · rcases List.mem_cons.mp hm with rfl | hm
    · exact hn
    · exact directory hh hm

/-- The path of a real place is the one with a separator before each name. -/
theorem text_pathOf {place : Place} (hne : place ≠ []) :
    (pathOf place).text = ['/'].intercalate ([] :: place.reverse) := by
  unfold pathOf Path.ofComponents
  have : place.reverse ≠ [] := by simpa using hne
  split
  · simp at *
  · simp_all
  · simp [Path.Component.segment, Function.comp_def]

/-- The segments of the path of a real place are an empty one and its names. -/
theorem segments_pathOf {place : Place} (h : ∀ n ∈ place, IsName n) (hne : place ≠ []) :
    (pathOf place).segments = [] :: place.reverse := by
  unfold Path.segments
  rw [text_pathOf hne]
  refine List.splitOn_intercalate _ ?_ (by simp)
  intro l hl
  rcases List.mem_cons.mp hl with rfl | hl
  · simp
  · exact (h l (by simpa using hl)).no_separator

theorem isAbsolute_pathOf (place : Place) : (pathOf place).isAbsolute := by
  cases place with
  | nil => rfl
  | cons n here =>
    rw [Path.isAbsolute, text_pathOf (by simp)]
    cases hr : (n :: here).reverse with
    | nil => simp at hr
    | cons m ms => simp

theorem components_pathOf {place : Place} (h : ∀ n ∈ place, IsName n) :
    (pathOf place).components = .root :: place.reverse.map .name := by
  by_cases hne : place = []
  · subst hne
    decide
  · unfold Path.components
    rw [segments_pathOf h hne, isAbsolute_pathOf]
    simp only [Path.Component.ofFirst?, if_true, Option.toList, List.singleton_append,
      List.cons.injEq, true_and]
    have names : ∀ ns : List Text, (∀ n ∈ ns, IsName n) →
        ns.filterMap Path.Component.ofSegment? = ns.map .name := by
      intro ns hns
      induction ns with
      | nil => rfl
      | cons n ns ih =>
        have hn := hns n (by simp)
        have : Path.Component.ofSegment? n = some (.name n) := by
          simp [Path.Component.ofSegment?, hn.not_empty, hn.not_dot, hn.not_parent]
        rw [List.filterMap_cons_some this, ih (fun m hm => hns m (by simp [hm])), List.map_cons]
    exact names _ (fun n hn => h n (by simpa using hn))

theorem walk_path_of_isReal {disk : Disk} {links : Nat} {place : Place} (h : disk.IsReal place) :
    disk.walk links [] (pathOf place).segments = .ok place := by
  by_cases hne : place = []
  · subst hne
    have : (pathOf []).segments = [[], []] := by decide
    rw [this, walk, walk, walk]
    simp
  · rw [segments_pathOf (fun n hn => isName_of_mem h hn) hne, walk]
    simpa using walk_real h

/-- A real place is found under its own path, unless the path is too long. -/
theorem locate_pathOf {disk : Disk} {base place : Place} (h : disk.IsReal place)
    (hp : pathError? (pathOf place) = none) : disk.locate base (pathOf place) = .ok place := by
  unfold locate
  rw [hp, isAbsolute_pathOf]
  exact walk_path_of_isReal h

theorem isReal_of_locate {disk : Disk} {base place : Place} {path : Path}
    (hb : disk.IsRealDirectory base) (h : disk.locate base path = .ok place) :
    disk.IsReal place := by
  unfold locate at h
  split at h
  · simp at h
  · refine isReal_of_walk ?_ (fun s hs => Text.not_mem_of_mem_splitOn hs) h
    split
    · trivial
    · exact hb

theorem canonical_eq_ok {disk : Disk} {base : Place} {p q : Path} :
    disk.canonical base p = .ok q ↔
      ∃ place, disk.locate base p = .ok place ∧ pathError? q = none ∧ pathOf place = q := by
  unfold canonical
  cases disk.locate base p with
  | error e => simp
  | ok place =>
    cases hp : pathError? (pathOf place) with
    | none =>
      constructor
      · intro h
        obtain rfl : pathOf place = q := by simpa [hp] using h
        exact ⟨place, rfl, hp, rfl⟩
      · rintro ⟨found, hf, -, rfl⟩
        obtain rfl : place = found := by simpa using hf
        simp [hp]
    | some e =>
      simp only [hp, reduceCtorEq, false_iff, not_exists, not_and]
      rintro found hf hq rfl
      obtain rfl : place = found := by simpa using hf
      simp [hp] at hq

theorem mem_files_of_lookup {disk : Disk} {place : Place} {content : Content}
    (h : disk.lookup place = some (.file content)) : pathOf place ∈ disk.files := by
  cases place with
  | nil => simp [lookup] at h
  | cons n here =>
    obtain ⟨before, after, he, -⟩ := List.lookup_eq_some_iff.mp h
    exact List.mem_filterMap.mpr ⟨(n :: here, .file content), by simp [he], rfl⟩

/-- What the disk answers to questions from a directory. -/
def snapshot (disk : Disk) (base : Place) (hb : disk.IsRealDirectory base) : Snapshot where
  isPresent := disk.isPresent base
  isFile := disk.isFile base
  isDirectory := disk.isDirectory base
  canonical := disk.canonical base
  read := disk.read base
  files := disk.files
  isPresent_of_isFile := by
    intro p h
    unfold isFile entryAt at h
    unfold isPresent
    cases hl : disk.locate base p <;> simp_all
  canonical_isPlain := by
    intro p q h
    obtain ⟨place, hl, -, rfl⟩ := canonical_eq_ok.mp h
    have real := isReal_of_locate hb hl
    exact ⟨place.reverse, rfl, components_pathOf fun n hn => isName_of_mem real hn⟩
  canonical_canonical := by
    intro p q h
    obtain ⟨place, hl, hq, rfl⟩ := canonical_eq_ok.mp h
    exact canonical_eq_ok.mpr ⟨place, locate_pathOf (isReal_of_locate hb hl) hq, hq, rfl⟩
  mem_files := by
    intro p hf hc
    obtain ⟨place, hl, -, rfl⟩ := canonical_eq_ok.mp hc
    unfold isFile entryAt at hf
    rw [hl] at hf
    dsimp only at hf
    split at hf
    · rename_i entry he
      split at he
      · rename_i found
        obtain rfl := by simpa using he
        exact mem_files_of_lookup found
      · simp at he
    · simp at hf

/-- What the disk answers from a directory, or from the root when there is none. -/
def view (disk : Disk) (base : Place) : Snapshot :=
  if h : disk.IsRealDirectory base then disk.snapshot base h else disk.snapshot [] trivial

end HtmlTemplate.Disk
