import HtmlTemplate.Proofs.Growth

/-!
# Names below a path

A path joined with a name leads one step further than the path alone. Main results: what the
disk answers for such a path is what stands under that name in the directory that the path
leads to.
-/
namespace HtmlTemplate

open Disk (IsName)

namespace Path

variable {n : Text}

/-! ### Paths joined with a name -/

theorem isSilent_eq_of_isName (h : IsName n) : isSilent n = false := by
  simp [isSilent, h.not_empty, h.not_dot]

theorem ofSegment?_of_isName (h : IsName n) : Component.ofSegment? n = some (.name n) := by
  simp [Component.ofSegment?, h.not_empty, h.not_dot, h.not_parent]

theorem isAbsolute_of_isName (h : IsName n) : isAbsolute ⟨n⟩ = false := by
  obtain ⟨c, run, rfl⟩ := List.exists_cons_of_ne_nil h.not_empty
  have other : c ≠ '/' := by
    rintro rfl
    exact h.no_separator List.mem_cons_self
  simpa [isAbsolute] using other

theorem segments_of_isName (h : IsName n) : segments ⟨n⟩ = [n] := by
  have cut := segments_intercalate (List.cons_ne_nil n []) (by simpa using h.no_separator)
  rwa [List.intercalate_singleton] at cut

/-- The name comes after the segments of the path, less an empty one at their end. -/
theorem exists_segments_join (h : IsName n) (p : Path) :
    ∃ front, front.filter (!isSilent ·) = p.steps ∧ (p.join ⟨n⟩).segments = front ++ [n] := by
  obtain ⟨t⟩ := p
  have alone := segments_of_isName h
  have split (t : Text) : segments ⟨t ++ '/' :: n⟩ = segments ⟨t⟩ ++ [n] := by
    rw [← alone]
    exact List.splitOn_append_cons_self ..
  rw [steps_eq]
  unfold join
  rw [if_neg (by simp [isAbsolute_of_isName h])]
  split
  · rename_i ends
    rw [Bool.or_eq_true, List.isEmpty_iff, decide_eq_true_eq] at ends
    rcases ends with rfl | ends
    · exact ⟨[], rfl, alone⟩
    · obtain ⟨t, rfl⟩ := List.getLast?_eq_some_iff.mp ends
      have cut : segments ⟨t ++ ['/']⟩ = segments ⟨t⟩ ++ [[]] := List.splitOn_append_cons_self ..
      refine ⟨segments ⟨t⟩, ?_, ?_⟩
      · rw [cut, List.filter_append]
        exact (List.append_nil _).symm
      · rw [List.append_assoc]
        exact split t
  · exact ⟨segments ⟨t⟩, rfl, split t⟩

theorem isAbsolute_join_name (h : IsName n) (p : Path) :
    (p.join ⟨n⟩).isAbsolute = p.isAbsolute := by
  obtain ⟨t⟩ := p
  have relative := isAbsolute_of_isName h
  unfold join
  rw [if_neg (by simp [relative])]
  cases t with
  | nil => exact relative
  | cons c t => split <;> rfl

theorem steps_join (h : IsName n) (p : Path) : (p.join ⟨n⟩).steps = p.steps ++ [n] := by
  obtain ⟨front, steps, joined⟩ := exists_segments_join h p
  rw [steps_eq, joined, List.filter_append, steps,
    List.filter_cons_of_pos (by simp [isSilent_eq_of_isName h]), List.filter_nil]

theorem getLast?_components_join (h : IsName n) (p : Path) :
    (p.join ⟨n⟩).components.getLast? = some (.name n) := by
  obtain ⟨front, -, joined⟩ := exists_segments_join h p
  cases front with
  | nil =>
    have first : Component.ofFirst? (p.join ⟨n⟩).isAbsolute n = some (.name n) := by
      have relative : (p.join ⟨n⟩).isAbsolute = false := by
        rw [Bool.eq_false_iff, ne_eq, isAbsolute_iff joined]
        simp [h.not_empty]
      rw [relative, Component.ofFirst?, if_neg Bool.false_ne_true, if_neg h.not_dot,
        ofSegment?_of_isName h]
    rw [components_eq joined, first]
    rfl
  | cons first front =>
    rw [List.cons_append] at joined
    rw [components_eq joined, List.filterMap_append,
      List.filterMap_cons_some (ofSegment?_of_isName h), List.filterMap_nil, ← List.append_assoc,
      List.getLast?_concat]

theorem exists_parent?_join (h : IsName n) (p : Path) :
    ∃ upper, (p.join ⟨n⟩).parent? = some upper := by
  obtain ⟨front, -, joined⟩ := exists_segments_join h p
  unfold parent?
  rw [joined]
  cases front with
  | nil =>
    have relative : (p.join ⟨n⟩).isAbsolute = false := by
      rw [Bool.eq_false_iff, ne_eq, isAbsolute_iff joined]
      simp [h.not_empty]
    exact ⟨⟨[]⟩, by simp [dropSilentEnd, relative, h.not_empty]⟩
  | cons first front =>
    have kept : dropSilentEnd (front ++ [n]) = front ++ [n] := by
      simp [dropSilentEnd, isSilent_eq_of_isName h]
    obtain ⟨c, names, he⟩ := List.exists_cons_of_ne_nil
      (List.append_ne_nil_of_right_ne_nil front (List.cons_ne_nil n []))
    rw [List.cons_append]
    dsimp only
    rw [kept, he]
    dsimp only
    split <;> exact ⟨_, rfl⟩

/-- The path above is written otherwise than the path that was joined, but it leads there. -/
theorem IsParent.steps_of_join (h : IsName n) {p upper : Path}
    (above : upper.IsParent (p.join ⟨n⟩)) :
    upper.steps = p.steps ∧ upper.isAbsolute = p.isAbsolute := by
  refine ⟨?_, above.isAbsolute.trans (isAbsolute_join_name h p)⟩
  have steps := above.steps_of_name (getLast?_components_join h p)
  rw [steps_join h] at steps
  exact (List.append_cancel_right steps).symm

end Path

namespace Disk

open HtmlTemplate.Path (exists_segments_join steps_join isAbsolute_join_name)

variable {disk later : Disk} {base here there place : Place} {p upper path : Path} {n : Text}

/-! ### Where paths lead -/

/-- The path leads to a directory. -/
def LeadsTo (disk : Disk) (base : Place) (path : Path) (place : Place) : Prop :=
  ∃ left, disk.Leads maxLinks (start base path) path.steps left place

theorem LeadsTo.unique (h : disk.LeadsTo base path here) (h' : disk.LeadsTo base path there) :
    here = there := by
  obtain ⟨_, leads⟩ := h
  obtain ⟨_, leads'⟩ := h'
  exact Except.ok.inj (leads.walk_eq.symm.trans leads'.walk_eq)

theorem Keeps.leadsTo (h : disk.Keeps later) (hl : disk.LeadsTo base path here) :
    later.LeadsTo base path here :=
  let ⟨left, leads⟩ := hl
  ⟨left, h.leads leads⟩

theorem isRealDirectory_start (standing : disk.IsRealDirectory base) (path : Path) :
    disk.IsRealDirectory (start base path) := by
  unfold start
  split
  · trivial
  · exact standing

theorem no_separator_of_mem_steps {segment : Text} (h : segment ∈ path.steps) :
    '/' ∉ segment := by
  rw [Path.steps_eq] at h
  exact Path.no_separator (List.mem_filter.mp h).1

theorem lookup_of_isRealDirectory (h : disk.IsRealDirectory here) :
    disk.lookup here = some .directory := by
  cases here with
  | nil => rfl
  | cons name here => exact h.2.2

theorem LeadsTo.isRealDirectory (h : disk.LeadsTo base path here)
    (standing : disk.IsRealDirectory base) : disk.IsRealDirectory here :=
  let ⟨_, leads⟩ := h
  leads.isRealDirectory (fun _ hs => no_separator_of_mem_steps hs)
    (isRealDirectory_start standing path)

theorem LeadsTo.lookup_eq (h : disk.LeadsTo base path here)
    (standing : disk.IsRealDirectory base) : disk.lookup here = some .directory :=
  lookup_of_isRealDirectory (h.isRealDirectory standing)

theorem leadsTo_of_locate (located : disk.locate base path = .ok here)
    (found : disk.lookup here = some .directory) : disk.LeadsTo base path here :=
  exists_leads_of_locate located (by simp [found])

/-- Where a path leads is told by its steps. -/
theorem leadsTo_congr (same : upper.isAbsolute = p.isAbsolute) (steps : upper.steps = p.steps) :
    disk.LeadsTo base upper here ↔ disk.LeadsTo base p here := by
  unfold LeadsTo start
  rw [same, steps]

theorem directoryAt_of_leadsTo (standing : disk.IsRealDirectory base)
    (usable : upper.text ≠ [] → pathError? upper = none)
    (h : disk.LeadsTo base upper here) : disk.directoryAt base upper = .ok here := by
  unfold directoryAt
  split
  · rename_i empty
    obtain ⟨text⟩ := upper
    obtain rfl := List.isEmpty_iff.mp empty
    rw [h.unique ⟨_, .here maxLinks base⟩]
  · rename_i some_left
    obtain ⟨left, leads⟩ := h
    rw [locate_of_leads (usable (by simpa using some_left)) leads]
    dsimp only
    rw [LeadsTo.lookup_eq ⟨left, leads⟩ standing]

/-- A walk that goes on after some segments has passed directories and symbolic links only. -/
theorem exists_leads_of_walk_append {links : Nat} {segments more : List Text} (goes_on : more ≠ [])
    (h : disk.walk links here (segments ++ more) = .ok place) :
    ∃ left middle, disk.Leads links here segments left middle ∧
      disk.walk left middle more = .ok place := by
  have stop {links : Nat} {here : Place} {all : List Text} (none_left : [] ++ more = all)
      (h : disk.walk links here all = .ok place) :
      ∃ left middle, disk.Leads links here [] left middle ∧
        disk.walk left middle more = .ok place :=
    ⟨links, here, .here links here, by rw [← h, ← none_left, List.nil_append]⟩
  generalize whole : segments ++ more = all at h
  induction links, here, all using walk.induct disk generalizing segments with
  | case1 => exact absurd (List.append_eq_nil_iff.mp whole).2 goes_on
  | case2 links here segment rest silent ih =>
    cases segments with
    | nil => exact stop whole h
    | cons s segments =>
      obtain ⟨rfl, others⟩ := List.cons.inj whole
      rw [walk_silent silent] at h
      obtain ⟨left, middle, leads, walked⟩ := ih others h
      exact ⟨left, middle, .silent silent leads, walked⟩
  | case3 links here rest _ ih =>
    cases segments with
    | nil => exact stop whole h
    | cons s segments =>
      obtain ⟨rfl, others⟩ := List.cons.inj whole
      rw [walk_up] at h
      obtain ⟨left, middle, leads, walked⟩ := ih others h
      exact ⟨left, middle, .up leads, walked⟩
  | case6 links here segment rest solid other usable found ih =>
    cases segments with
    | nil => exact stop whole h
    | cons s segments =>
      obtain ⟨rfl, others⟩ := List.cons.inj whole
      have step := isStep_of_walk solid other usable
      rw [walk_directory step found] at h
      obtain ⟨left, middle, leads, walked⟩ := ih others h
      exact ⟨left, middle, .down step found leads, walked⟩
  | case10 here segment rest solid other usable target found links ih =>
    cases segments with
    | nil => exact stop whole h
    | cons s segments =>
      obtain ⟨rfl, others⟩ := List.cons.inj whole
      have step := isStep_of_walk solid other usable
      rw [walk_link step found] at h
      -- The target and what is left of the segments are walked in one go.
      have both : (target.segments ++ segments) ++ more = target.segments ++ rest :=
        (List.append_assoc ..).trans (congrArg (target.segments ++ ·) others)
      obtain ⟨left, middle, leads, walked⟩ := ih both h
      obtain ⟨between, reached, first, later⟩ := leads.exists_of_append
      exact ⟨left, middle, .follow step found first later, walked⟩
  | case7 links here segment rest solid other usable content found last =>
    cases segments with
    | nil => exact stop whole h
    | cons s segments =>
      obtain ⟨rfl, others⟩ := List.cons.inj whole
      obtain rfl := List.isEmpty_iff.mp last
      exact absurd (List.append_eq_nil_iff.mp others).2 goes_on
  | case4 | case5 | case8 | case9 =>
    rw [walk] at h
    simp_all

/-! ### A name in a directory -/

theorem IsName.isStep (h : IsName n) : IsStep n :=
  ⟨Path.isSilent_eq_of_isName h, h.not_parent, h.usable⟩

theorem start_join (h : IsName n) (base : Place) (p : Path) :
    start base (p.join ⟨n⟩) = start base p := by
  rw [start, start, isAbsolute_join_name h]

theorem walk_name_none {links : Nat} (h : IsName n) (absent : disk.lookup (n :: here) = none) :
    disk.walk links here [n] = .error .notFound := by
  rw [walk, if_neg h.isStep.solid, if_neg h.not_parent, h.usable]
  simp only [absent]

theorem walk_name_some {links : Nat} (h : IsName n) {entry : Entry}
    (found : disk.lookup (n :: here) = some entry) (solid : ∀ target, entry ≠ .link target) :
    disk.walk links here [n] = .ok (n :: here) := by
  cases entry with
  | file content => exact walk_file h.isStep found
  | link target => exact absurd rfl (solid target)
  | directory =>
    rw [walk_directory h.isStep found, walk]

theorem locate_join {left : Nat} (h : IsName n) (usable : pathError? (p.join ⟨n⟩) = none)
    (leads : disk.Leads maxLinks (start base p) p.steps left here) :
    disk.locate base (p.join ⟨n⟩) = disk.walk left here [n] := by
  obtain ⟨front, steps, joined⟩ := exists_segments_join h p
  rw [← steps, Leads.filter_iff, ← start_join h] at leads
  unfold locate
  rw [usable, joined]
  exact leads.walk_append [n]

theorem exists_leads_of_locate_join (h : IsName n)
    (located : disk.locate base (p.join ⟨n⟩) = .ok place) :
    ∃ left here, disk.Leads maxLinks (start base p) p.steps left here ∧
      disk.walk left here [n] = .ok place := by
  obtain ⟨front, steps, joined⟩ := exists_segments_join h p
  have walked := (locate_eq_ok.mp located).2
  rw [joined, start_join h] at walked
  obtain ⟨left, here, leads, last⟩ := exists_leads_of_walk_append (List.cons_ne_nil n []) walked
  exact ⟨left, here, by rwa [← steps, Leads.filter_iff], last⟩

theorem isPresent_iff : disk.isPresent base path ↔ ∃ place, disk.locate base path = .ok place := by
  unfold isPresent
  cases disk.locate base path <;> simp

theorem Keeps.isPresent (h : disk.Keeps later) (present : disk.isPresent base path) :
    later.isPresent base path := by
  obtain ⟨place, located⟩ := isPresent_iff.mp present
  exact isPresent_iff.mpr ⟨place, h.locate located⟩

theorem Keeps.isPresent_eq_false (h : disk.Keeps later)
    (absent : later.isPresent base path = false) : disk.isPresent base path = false := by
  rw [Bool.eq_false_iff] at absent ⊢
  exact fun present => absent (h.isPresent present)

theorem entryPlace_join (h : IsName n) (standing : disk.IsRealDirectory base)
    (usable : pathError? (p.join ⟨n⟩) = none) (leads : disk.LeadsTo base p here) :
    disk.entryPlace base (p.join ⟨n⟩) = .ok (n :: here) := by
  obtain ⟨upper, parent⟩ := Path.exists_parent?_join h p
  have above := Path.isParent_of_parent? parent
  obtain ⟨steps, absolute⟩ := above.steps_of_join h
  have directory : disk.directoryAt base upper = .ok here := by
    refine directoryAt_of_leadsTo standing ?_ ((leadsTo_congr absolute steps).mpr leads)
    exact pathError?_of_begins usable above.begins
  unfold entryPlace
  rw [usable, parent, Path.getLast?_components_join h]
  simp only [directory, h.usable]

/-- A symbolic link stands under the path, wherever it leads. -/
def IsLink (disk : Disk) (base : Place) (path : Path) : Prop :=
  ∃ place target, disk.entryPlace base path = .ok place ∧
    disk.lookup place = some (.link target)

/-- Nothing stands under the path, not even a symbolic link that leads nowhere. -/
structure Lacks (disk : Disk) (base : Place) (path : Path) : Prop where
  absent : disk.isPresent base path = false
  no_link : ¬disk.IsLink base path

/-- Nothing stands under a name below a path if the directory that the path leads to does not
hold the name. -/
theorem lacks_join_iff (h : IsName n) (standing : disk.IsRealDirectory base) :
    disk.Lacks base (p.join ⟨n⟩) ↔ (pathError? (p.join ⟨n⟩) = none →
      ∀ here, disk.LeadsTo base p here → disk.lookup (n :: here) = none) := by
  constructor
  · rintro ⟨absent, no_link⟩ usable here leads
    by_contra some_left
    obtain ⟨entry, found⟩ := Option.ne_none_iff_exists'.mp some_left
    by_cases solid : ∀ target, entry ≠ .link target
    · obtain ⟨left, leads⟩ := leads
      have located := (locate_join h usable leads).trans (walk_name_some h found solid)
      exact Bool.eq_false_iff.mp absent (isPresent_iff.mpr ⟨_, located⟩)
    · obtain ⟨target, rfl⟩ : ∃ target, entry = .link target := by simpa using solid
      exact no_link ⟨n :: here, target, entryPlace_join h standing usable leads, found⟩
  · intro none_left
    have absent (place : Place) : disk.locate base (p.join ⟨n⟩) ≠ .ok place := by
      intro located
      obtain ⟨left, here, leads, walked⟩ := exists_leads_of_locate_join h located
      have nothing := none_left (locate_eq_ok.mp located).1 here ⟨left, leads⟩
      rw [walk_name_none h nothing] at walked
      cases walked
    refine ⟨?_, ?_⟩
    · rw [Bool.eq_false_iff, ne_eq, isPresent_iff]
      exact fun ⟨place, located⟩ => absent place located
    · rintro ⟨place, target, entry, link⟩
      rcases entryPlace_cases entry with located | ⟨upper, name, here, above, last, rest⟩
      · exact absent place located
      · obtain ⟨directory, -, usable, rfl⟩ := rest
        rw [Path.getLast?_components_join h] at last
        obtain ⟨⟩ := last
        obtain ⟨steps, absolute⟩ := above.steps_of_join h
        have leads := (leadsTo_congr absolute steps).mp (exists_leads_of_directoryAt directory)
        rw [none_left usable here leads] at link
        cases link

end Disk

end HtmlTemplate
