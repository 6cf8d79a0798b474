import HtmlTemplate.Proofs.Names

/-!
# Directories that are new

A directory that is made holds nothing yet, so a walk that enters it can only go on into
directories that are made too, unless it goes back. Main result: making the directories of a path
changes nothing, or the path leads to a new and empty directory, provided that every parent step
of the path is taken from a directory that was there.
-/
namespace HtmlTemplate.Disk

variable {disk made between later : Disk} {base here place : Place} {path upper : Path}
  {name : Text}

/-! ### Trees -/

/-- Whatever stands at a place stands in a directory. -/
def IsTree (disk : Disk) : Prop :=
  ∀ ⦃name here entry⦄, disk.lookup (name :: here) = some entry → disk.lookup here = some .directory

theorem isTree_of_entries
    (h : ∀ e ∈ disk.entries, disk.lookup e.1.tail = some .directory) : disk.IsTree := by
  intro name here entry found
  obtain ⟨before, after, whole, -⟩ := List.lookup_eq_some_iff.mp found
  exact h (name :: here, entry) (by simp [whole])

theorem not_isLink_of_entries
    (h : ∀ e ∈ disk.entries, ∀ target, e.2 ≠ .link target) : ¬disk.IsLink base path := by
  rintro ⟨place, target, -, link⟩
  cases place with
  | nil => cases link
  | cons name inside =>
    obtain ⟨before, after, whole, -⟩ := List.lookup_eq_some_iff.mp link
    exact h (name :: inside, .link target) (by simp [whole]) target rfl

theorem IsTree.lookup_inner (tree : disk.IsTree) (h : disk.lookup here ≠ some .directory)
    (inner : Text) : disk.lookup (inner :: here) = none := by
  by_contra some_left
  obtain ⟨entry, found⟩ := Option.ne_none_iff_exists'.mp some_left
  exact h (tree found)

theorem exists_entry_of_isReal (h : disk.IsReal place) :
    ∃ entry, disk.lookup place = some entry := by
  rcases h with directory | ⟨-, -, content, -, -, -, found⟩
  · exact ⟨_, lookup_of_isRealDirectory directory⟩
  · exact ⟨_, found⟩

theorem lookup_tail_of_isReal (h : disk.IsReal place) :
    disk.lookup place.tail = some .directory := by
  apply lookup_of_isRealDirectory
  rcases h with directory | ⟨name, here, -, rfl, -, directory, -⟩
  · exact isRealDirectory_tail directory
  · exact directory

/-- What a path leads to stands in a directory. -/
theorem lookup_tail_of_locate (standing : disk.IsRealDirectory base)
    (located : disk.locate base path = .ok place) : disk.lookup place.tail = some .directory :=
  lookup_tail_of_isReal (isReal_of_locate standing located)

/-- A disk with new directories is a tree, since paths lead to each of them. -/
theorem Grows.isTree {paths : Path → Prop} (h : Grows base paths disk made) (tree : disk.IsTree)
    (standing : disk.IsRealDirectory base) : made.IsTree := by
  intro name here entry found
  rcases h (name :: here) with same | ⟨-, -, path, -, located⟩
  · rw [same] at found
    exact h.keeps.directory (tree found)
  · exact lookup_tail_of_locate (h.keeps.isRealDirectory standing) located

/-! ### Parent steps -/

/-- Every parent step of the path is taken from a directory that is there. -/
def ParentStepsHold (disk : Disk) (base : Place) (path : Path) : Prop :=
  ∀ before after, path.steps = before ++ ['.', '.'] :: after →
    ∃ left place, disk.Leads maxLinks (start base path) before left place

theorem ParentStepsHold.of_begins (h : disk.ParentStepsHold base path)
    (same : upper.isAbsolute = path.isAbsolute) (begins : upper.steps <+: path.steps) :
    disk.ParentStepsHold base upper := by
  intro before after whole
  obtain ⟨more, steps⟩ := begins
  rw [start, same]
  refine h before (after ++ more) ?_
  rw [← steps, whole, List.append_assoc, List.cons_append]

theorem Keeps.parentStepsHold (h : disk.Keeps later) (hold : disk.ParentStepsHold base path) :
    later.ParentStepsHold base path := by
  intro before after whole
  obtain ⟨left, place, leads⟩ := hold before after whole
  exact ⟨left, place, h.leads leads⟩

theorem parentStepsHold_of_leadsTo (h : disk.LeadsTo base path here) :
    disk.ParentStepsHold base path := by
  intro before after whole
  obtain ⟨left, leads⟩ := h
  rw [whole] at leads
  obtain ⟨between, middle, first, -⟩ := leads.exists_of_append
  exact ⟨between, middle, first⟩

theorem parentStepsHold_of_not_mem (h : ['.', '.'] ∉ path.steps) :
    disk.ParentStepsHold base path := by
  intro before after whole
  exact absurd (whole ▸ List.mem_append_right before List.mem_cons_self) h

theorem ParentStepsHold.join {n : Text} (hn : IsName n) (h : disk.ParentStepsHold base path) :
    disk.ParentStepsHold base (path.join ⟨n⟩) := by
  intro before after whole
  rw [Path.steps_join hn] at whole
  rcases List.eq_nil_or_concat after with rfl | ⟨after, last, rfl⟩
  · obtain ⟨-, same⟩ := List.append_inj' whole rfl
    exact absurd (List.cons.inj same).1 hn.not_parent
  · have whole' : path.steps ++ [n] = (before ++ ['.', '.'] :: after) ++ [last] := by
      rw [whole, List.concat_eq_append, List.append_assoc, List.cons_append]
    rw [start_join hn]
    exact h before after (List.append_inj' whole' rfl).1

/-! ### A new directory -/

/-- The path leads to a directory that the first disk misses and that holds nothing. All that is
different otherwise stands above it. -/
structure IsNew (disk made : Disk) (base : Place) (path : Path) (name : Text) (here : Place) :
    Prop where
  absent : disk.lookup (name :: here) = none
  last : path.steps.getLast? = some name
  above : ∃ left, made.Leads maxLinks (start base path) path.steps.dropLast left here
  leads : made.LeadsTo base path (name :: here)
  empty : ∀ inner, made.lookup (inner :: name :: here) = none
  others : ∀ other, made.lookup other = disk.lookup other ∨ other <:+ name :: here

theorem isNew_of_makeDirectory (tree : disk.IsTree) (standing : disk.IsRealDirectory base)
    (h : disk.makeDirectory base path = .ok made) :
    ∃ name here, IsNew disk made base path name here ∧
      path.components.getLast? = some (.name name) := by
  unfold makeDirectory at h
  split at h
  · simp at h
  · rename_i place entry
    split at h
    · simp at h
    · rename_i absent
      obtain rfl := Except.ok.inj h
      rcases entryPlace_cases entry with located | ⟨upper, name, here, above, last, rest⟩
      · obtain ⟨entry, found⟩ := exists_entry_of_isReal (isReal_of_locate standing located)
        simp [absent] at found
      · obtain ⟨directory, named, usable, rfl⟩ := rest
        obtain ⟨left, leads⟩ := exists_leads_of_directoryAt directory
        obtain ⟨solid, other⟩ := Path.of_name_mem_components (List.mem_of_getLast? last)
        have steps := above.steps_of_name last
        have found : (disk.put (name :: here) .directory).lookup (name :: here)
            = some .directory := lookup_put_self _ (List.cons_ne_nil name here)
        have reached := (keeps_put_directory absent).leads leads
        rw [start_eq above] at reached
        refine ⟨name, here, ⟨absent, ?_, ⟨left, ?_⟩, ⟨left, ?_⟩, ?_, ?_⟩, last⟩
        · rw [steps, List.getLast?_concat]
        · rwa [steps, List.dropLast_concat]
        · rw [steps]
          exact reached.append (.down ⟨solid, other, named⟩ found (.here _ _))
        · intro inner
          rw [lookup_put_of_ne _ (List.cons_ne_self inner _)]
          exact tree.lookup_inner (by simp [absent]) inner
        · intro other
          by_cases same : other = name :: here
          · exact .inr (same ▸ List.suffix_refl _)
          · exact .inl (lookup_put_of_ne _ same)

theorem ensureDirectory_cases (tree : disk.IsTree) (standing : disk.IsRealDirectory base)
    (h : disk.ensureDirectory base path = .ok made) :
    made = disk ∨ ∃ name here, IsNew disk made base path name here ∧
      path.components.getLast? = some (.name name) := by
  unfold ensureDirectory at h
  split at h
  · rename_i done
    obtain rfl := Except.ok.inj h
    exact .inr (isNew_of_makeDirectory tree standing done)
  · split at h
    · exact .inl (Except.ok.inj h).symm
    · simp at h

/-- A walk cannot go down from a directory that holds nothing. -/
theorem not_leads_of_empty {links left : Nat} {there : Place} {more : List Text}
    (empty : ∀ inner, disk.lookup (inner :: here) = none) (solid : Path.isSilent name = false)
    (other : name ≠ ['.', '.']) : ¬disk.Leads links here (name :: more) left there := by
  intro leads
  cases leads with
  | silent silent => simp [solid] at silent
  | up => exact other rfl
  | down _ found => simp [empty] at found
  | follow _ found => simp [empty] at found

theorem Grows.lookup_eq_none {paths : Path → Prop} (h : Grows base paths disk made)
    (absent : made.lookup place = none) : disk.lookup place = none := by
  rcases h place with same | ⟨absent', -⟩
  · rw [← same, absent]
  · exact absent'

/-- One more directory below a new one. -/
theorem IsNew.below {paths : Path → Prop} {inner : Text} {inside : Place}
    (new : IsNew disk between base upper name here) (grows : Grows base paths disk between)
    (keeps : between.Keeps made) (parent : upper.IsParent path)
    (next : IsNew between made base path inner inside)
    (last : path.components.getLast? = some (.name inner)) :
    IsNew disk made base path inner inside := by
  have steps := parent.steps_of_name last
  obtain ⟨left, above⟩ := next.above
  obtain rfl : inside = name :: here := by
    rw [steps, List.dropLast_concat, ← start_eq parent] at above
    exact LeadsTo.unique ⟨left, above⟩ (keeps.leadsTo new.leads)
  refine ⟨grows.lookup_eq_none next.absent, next.last, ⟨left, above⟩, next.leads, next.empty, ?_⟩
  intro other
  rcases next.others other with same | inside
  · rcases new.others other with same' | inside
    · exact .inl (same.trans same')
    · exact .inr (inside.trans (List.suffix_cons _ _))
  · exact .inr inside

/-- A path that leads to a directory while the path above it is new makes no step from there. -/
theorem IsNew.same {there : Place} (new : IsNew disk made base upper name here)
    (standing : disk.IsRealDirectory base) (keeps : disk.Keeps made)
    (hold : disk.ParentStepsHold base path) (parent : upper.IsParent path)
    (leads : made.LeadsTo base path there) : IsNew disk made base path name here := by
  obtain ⟨c, components⟩ := parent.components
  have whole : path.steps = upper.steps ++ (c.step?).toList := by
    rw [Path.steps, Path.steps, components, List.filterMap_append]
    cases h : c.step? <;> simp [h]
  have same (nothing : c.step? = none) : IsNew disk made base path name here := by
    have steps : path.steps = upper.steps := by rw [whole, nothing]; exact List.append_nil _
    refine ⟨new.absent, steps ▸ new.last, ?_, ?_, new.empty, new.others⟩
    · rw [steps, ← start_eq parent]
      exact new.above
    · exact (leadsTo_congr parent.isAbsolute steps.symm).mp new.leads
  cases c with
  | root => exact same rfl
  | current => exact same rfl
  | parent =>
    -- The path above was there already, since a parent step is taken from it.
    obtain ⟨left, place, old⟩ := hold upper.steps [] whole
    rw [← start_eq parent] at old
    have there := LeadsTo.lookup_eq ⟨left, old⟩ standing
    obtain rfl := (keeps.leadsTo ⟨left, old⟩).unique new.leads
    simp [new.absent] at there
  | name n =>
    obtain ⟨solid, other⟩ := @Path.of_name_mem_components path n (by simp [components])
    obtain ⟨left, leads⟩ := leads
    rw [whole, ← start_eq parent] at leads
    obtain ⟨between, reached, first, down⟩ := leads.exists_of_append
    obtain rfl := LeadsTo.unique ⟨between, first⟩ new.leads
    exact absurd down (not_leads_of_empty new.empty solid other)

/-- Making directories changes nothing, or the path leads to a new one. -/
theorem makeDirectories_cases {count : Nat} (tree : disk.IsTree)
    (standing : disk.IsRealDirectory base) (hold : disk.ParentStepsHold base path)
    (fits : path.components.length ≤ count)
    (h : makeDirectories.go disk base count path = .ok made) :
    made = disk ∨ ∃ name here, IsNew disk made base path name here := by
  have ensure {path : Path} {made : Disk} (h : disk.ensureDirectory base path = .ok made) :
      made = disk ∨ ∃ name here, IsNew disk made base path name here :=
    (ensureDirectory_cases tree standing h).imp_right fun ⟨name, here, new, _⟩ => ⟨name, here, new⟩
  induction count generalizing path made with
  | zero => exact .inl (Except.ok.inj h).symm
  | succ count ih =>
    rcases exists_of_go_succ h with ⟨-, rfl⟩ | alone | ⟨upper, between, parent, first, last⟩
    · exact .inl rfl
    · exact ensure alone
    · have above := Path.isParent_of_parent? parent
      have fits' := components_length_of_parent? parent fits
      have hold' := hold.of_begins above.isAbsolute above.steps
      rcases ih hold' fits' first with rfl | ⟨name, here, new⟩
      · exact ensure last
      · obtain ⟨grows, -⟩ := grows_of_go fits' first
        obtain ⟨grows', directory⟩ := grows_of_ensureDirectory last
        have standing' := grows.keeps.isRealDirectory standing
        rcases ensureDirectory_cases (grows.isTree tree standing) standing' last with
          rfl | ⟨inner, inside, next, ends⟩
        · obtain ⟨there, located, found⟩ := isDirectory_iff.mp directory
          exact .inr ⟨name, here,
            new.same standing grows.keeps hold above (leadsTo_of_locate located found)⟩
        · exact .inr ⟨inner, inside, new.below grows grows'.keeps above next ends⟩

/-! ### A new file -/

/-- A file is not walked through, so it makes no difference to what a path leads to. -/
theorem leads_of_put_file {links left : Nat} {there : Place} {segments : List Text}
    {content : Content}
    (h : (disk.put place (.file content)).Leads links here segments left there) :
    disk.Leads links here segments left there := by
  have same {other : Place} {entry : Entry} (some_left : other ≠ [])
      (found : (disk.put place (.file content)).lookup other = some entry)
      (solid : entry ≠ .file content) : disk.lookup other = some entry := by
    rwa [lookup_put_of_ne] at found
    rintro rfl
    rw [lookup_put_self _ some_left] at found
    exact solid (Option.some.inj found).symm
  induction h with
  | here => exact .here _ _
  | silent silent _ ih => exact .silent silent ih
  | up _ ih => exact .up ih
  | down step found _ ih => exact .down step (same (List.cons_ne_nil _ _) found (by simp)) ih
  | follow step found _ _ first ih =>
    exact .follow step (same (List.cons_ne_nil _ _) found (by simp)) first ih

/-- What a path leads to does not depend on what a file holds. -/
theorem locate_of_put_file {content old : Content} {found : Place}
    (h : disk.lookup place = some (.file old))
    (located : (disk.put place (.file content)).locate base path = .ok found) :
    disk.locate base path = .ok found := by
  have no_directory : disk.lookup place ≠ some .directory := by simp [h]
  have some_left := ne_nil_of_lookup no_directory
  have other {other : Place} {entry : Entry}
      (found : (disk.put place (.file content)).lookup other = some entry) :
      other = place ∧ entry = .file content ∨ disk.lookup other = some entry := by
    by_cases he : other = place
    · subst he
      rw [lookup_put_self _ some_left] at found
      exact .inl ⟨rfl, (Option.some.inj found).symm⟩
    · rw [lookup_put_of_ne _ he] at found
      exact .inr found
  have keeps : (disk.put place (.file content)).Keeps disk := by
    refine ⟨fun found => ?_, fun found => ?_, fun found => ?_⟩
    · exact (other found).resolve_left (by simp)
    · exact (other found).resolve_left (by simp)
    · rcases other found with ⟨rfl, -⟩ | same
      · exact ⟨old, h⟩
      · exact ⟨_, same⟩
  exact keeps.locate located

/-! ### What is still missing -/

/-- The directories of a path were there, or the last of them is new. -/
def IsPrepared (disk made : Disk) (base : Place) (path : Path) : Prop :=
  made = disk ∨ ∃ name here, IsNew disk made base path name here

theorem IsNew.congr (new : IsNew disk made base upper name here)
    (same : upper.isAbsolute = path.isAbsolute) (steps : upper.steps = path.steps) :
    IsNew disk made base path name here := by
  refine ⟨new.absent, steps ▸ new.last, ?_, (leadsTo_congr same steps).mp new.leads, new.empty,
    new.others⟩
  have above := new.above
  rwa [start, same, steps] at above

section Names

variable {p q : Path} {n m : Text}

/-- Nothing stands under a name below a new directory, nor under one further below. -/
theorem IsNew.lacks (new : IsNew disk made base p name here) (standing : made.IsRealDirectory base)
    (hm : IsName m) (below : q = p ∨ ∃ n, IsName n ∧ q = p.join ⟨n⟩) :
    made.Lacks base (q.join ⟨m⟩) := by
  refine (lacks_join_iff hm standing).mpr fun _ there leads => ?_
  rcases below with rfl | ⟨n, hn, rfl⟩
  · obtain rfl := leads.unique new.leads
    exact new.empty m
  · obtain ⟨left, leads⟩ := leads
    rw [Path.steps_join hn, start_join hn] at leads
    obtain ⟨between, reached, first, down⟩ := leads.exists_of_append
    obtain rfl := LeadsTo.unique ⟨between, first⟩ new.leads
    exact absurd down
      (not_leads_of_empty new.empty (Path.isSilent_eq_of_isName hn) hn.not_parent)

/-- A name beside a new directory is still missing. -/
theorem IsNew.lacks_beside (new : IsNew disk made base (p.join ⟨n⟩) name here) (hn : IsName n)
    (hm : IsName m) (apart : m ≠ n) (standing : disk.IsRealDirectory base) (keeps : disk.Keeps made)
    (leads : disk.LeadsTo base p place) (lacks : disk.Lacks base (p.join ⟨m⟩)) :
    made.Lacks base (p.join ⟨m⟩) := by
  refine (lacks_join_iff hm (keeps.isRealDirectory standing)).mpr fun usable there reached => ?_
  obtain rfl := reached.unique (keeps.leadsTo leads)
  obtain rfl : n = name := by
    have last := new.last
    rw [Path.steps_join hn, List.getLast?_concat] at last
    exact Option.some.inj last
  obtain ⟨left, above⟩ := new.above
  rw [Path.steps_join hn, List.dropLast_concat, start_join hn] at above
  obtain rfl := LeadsTo.unique ⟨left, above⟩ reached
  rcases new.others (m :: here) with same | inside
  · rw [same]
    exact (lacks_join_iff hm standing).mp lacks usable here leads
  · have whole := inside.eq_of_length rfl
    exact absurd (List.cons.inj whole).1 apart

/-- A new file stands under its own name only. -/
theorem Lacks.put_file (lacks : disk.Lacks base (p.join ⟨m⟩)) (hm : IsName m) (apart : m ≠ n)
    (standing : disk.IsRealDirectory base) {content : Content}
    (keeps : disk.Keeps (disk.put (n :: here) (.file content))) :
    (disk.put (n :: here) (.file content)).Lacks base (p.join ⟨m⟩) := by
  refine (lacks_join_iff hm (keeps.isRealDirectory standing)).mpr fun usable there leads => ?_
  obtain ⟨left, leads⟩ := leads
  rw [lookup_put_of_ne _ (by simp [apart])]
  exact (lacks_join_iff hm standing).mp lacks usable there ⟨left, leads_of_put_file leads⟩

end Names

end HtmlTemplate.Disk
