import HtmlTemplate.Disk.Snapshot
import Mathlib

/-!
# Paths above a path

The path above a path has all of its components but the last. Main result: so it is whatever
separators and dots the path is written with, and it is written as that path begins.
-/
namespace HtmlTemplate.Path

/-! ### Segments and components -/

theorem no_separator {p : Path} {segment : Text} (h : segment ∈ p.segments) : '/' ∉ segment :=
  Text.not_mem_of_mem_splitOn h

theorem exists_segments (p : Path) : ∃ first rest, p.segments = first :: rest :=
  List.exists_cons_of_ne_nil (List.splitOn_ne_nil '/' p.text)

theorem segments_intercalate {segments : List Text} (some_left : segments ≠ [])
    (h : ∀ s ∈ segments, '/' ∉ s) :
    Path.segments ⟨['/'].intercalate segments⟩ = segments :=
  List.splitOn_intercalate '/' h some_left

theorem intercalate_segments (p : Path) : ['/'].intercalate p.segments = p.text :=
  List.intercalate_splitOn '/'

theorem isAbsolute_iff {p : Path} {first : Text} {rest : List Text}
    (h : p.segments = first :: rest) : p.isAbsolute ↔ first = [] ∧ rest ≠ [] := by
  obtain ⟨t⟩ := p
  rw [segments] at h
  rw [isAbsolute, beq_iff_eq]
  cases t with
  | nil =>
    obtain ⟨rfl, rfl⟩ : [] = first ∧ [] = rest := by simpa using h
    simp
  | cons c t =>
    rw [List.splitOn_cons_eq_if_modifyHead] at h
    split at h
    · rename_i slash
      obtain ⟨rfl, rfl⟩ := List.cons.inj h
      simpa using slash
    · rename_i other
      obtain ⟨run, rest', ht⟩ := List.exists_cons_of_ne_nil (List.splitOn_ne_nil '/' t)
      rw [ht, List.modifyHead_cons] at h
      obtain ⟨rfl, -⟩ := List.cons.inj h
      simpa using other

theorem components_eq {p : Path} {first : Text} {rest : List Text}
    (h : p.segments = first :: rest) : p.components =
      (Component.ofFirst? p.isAbsolute first).toList ++
        rest.filterMap Component.ofSegment? := by
  rw [components, h]

theorem ofSegment?_eq_none_iff {segment : Text} :
    Component.ofSegment? segment = none ↔ isSilent segment := by
  unfold Component.ofSegment? isSilent
  split
  · simp_all
  · split <;> simp_all

theorem filterMap_silent {segments : List Text} (h : ∀ s ∈ segments, isSilent s) :
    segments.filterMap Component.ofSegment? = [] :=
  List.filterMap_eq_nil_iff.mpr fun s hs => ofSegment?_eq_none_iff.mpr (h s hs)

theorem ofSegment?_eq_name {segment name : Text}
    (h : Component.ofSegment? segment = some (.name name)) :
    isSilent name = false ∧ name ≠ ['.', '.'] := by
  unfold Component.ofSegment? at h
  split at h
  · simp at h
  · rename_i solid
    split at h
    · simp at h
    · rename_i other
      obtain rfl : segment = name := by simpa using h
      exact ⟨by simpa [isSilent] using solid, other⟩

/-- A name among the components is neither silent nor a parent step. -/
theorem of_name_mem_components {p : Path} {name : Text} (h : .name name ∈ p.components) :
    isSilent name = false ∧ name ≠ ['.', '.'] := by
  obtain ⟨first, rest, whole⟩ := p.exists_segments
  rw [components_eq whole, List.mem_append, Option.mem_toList, List.mem_filterMap] at h
  rcases h with found | ⟨segment, -, found⟩
  · unfold Component.ofFirst? at found
    split_ifs at found
    · simp at found
    · simp at found
    · exact ofSegment?_eq_name found
  · exact ofSegment?_eq_name found

/-- Only the empty path has no component. -/
theorem text_eq_nil {p : Path} (h : p.components = []) : p.text = [] := by
  obtain ⟨first, rest, whole⟩ := p.exists_segments
  rw [components_eq whole, List.append_eq_nil_iff, Option.toList_eq_nil_iff] at h
  have begins := h.1
  unfold Component.ofFirst? at begins
  split_ifs at begins with absolute dot
  obtain rfl : first = [] := by
    have silent := ofSegment?_eq_none_iff.mp begins
    simpa [isSilent, dot] using silent
  have none_left : rest = [] := by
    by_contra some_left
    exact absolute ((isAbsolute_iff whole).mpr ⟨rfl, some_left⟩)
  rw [← intercalate_segments p, whole, none_left, List.intercalate_singleton]

/-! ### Segments less the silent ones at the end -/

theorem exists_silent_end (segments : List Text) :
    ∃ silent, segments = dropSilentEnd segments ++ silent ∧ ∀ s ∈ silent, isSilent s := by
  refine ⟨(segments.reverse.takeWhile isSilent).reverse, ?_, ?_⟩
  · rw [dropSilentEnd, ← List.reverse_append, List.takeWhile_append_dropWhile,
      List.reverse_reverse]
  · intro s hs
    exact List.all_eq_true.mp List.all_takeWhile s (List.mem_reverse.mp hs)

theorem dropSilentEnd_begins (segments : List Text) : dropSilentEnd segments <+: segments := by
  obtain ⟨silent, whole, -⟩ := exists_silent_end segments
  exact ⟨silent, whole.symm⟩

theorem filterMap_dropSilentEnd (segments : List Text) :
    (dropSilentEnd segments).filterMap Component.ofSegment?
      = segments.filterMap Component.ofSegment? := by
  obtain ⟨silent, whole, all⟩ := exists_silent_end segments
  conv_rhs => rw [whole]
  rw [List.filterMap_append, filterMap_silent all, List.append_nil]

theorem exists_last_component {segments : List Text} (h : dropSilentEnd segments ≠ []) :
    ∃ c, segments.filterMap Component.ofSegment?
      = (dropSilentEnd segments).dropLast.filterMap Component.ofSegment? ++ [c] := by
  have some_left : segments.reverse.dropWhile isSilent ≠ [] := by simpa [dropSilentEnd] using h
  have solid := List.head_dropWhile_not isSilent some_left
  have last : (dropSilentEnd segments).getLast h
      = (segments.reverse.dropWhile isSilent).head some_left := List.getLast_reverse _
  rw [← last] at solid
  obtain ⟨c, hc⟩ : ∃ c, Component.ofSegment? ((dropSilentEnd segments).getLast h) = some c := by
    rw [← Option.ne_none_iff_exists', ne_eq, ofSegment?_eq_none_iff, solid]
    decide
  refine ⟨c, ?_⟩
  rw [← filterMap_dropSilentEnd]
  conv_lhs => rw [← List.dropLast_append_getLast h]
  rw [List.filterMap_append, List.filterMap_cons_some hc, List.filterMap_nil]

theorem intercalate_begins {α : Type} {sep : List α} {xs ys : List (List α)}
    (some_left : xs ≠ []) (h : xs <+: ys) : sep.intercalate xs <+: sep.intercalate ys := by
  obtain ⟨zs, rfl⟩ := h
  induction xs with
  | nil => exact absurd rfl some_left
  | cons x xs ih =>
    cases xs with
    | nil =>
      cases zs with
      | nil => exact List.prefix_refl _
      | cons z zs =>
        rw [List.intercalate_singleton, List.singleton_append, List.intercalate_cons_cons,
          List.append_assoc]
        exact List.prefix_append _ _
    | cons x' xs =>
      rw [List.cons_append, List.cons_append, List.intercalate_cons_cons,
        List.intercalate_cons_cons]
      exact (List.prefix_append_right_inj _).mpr (ih (List.cons_ne_nil _ _))

/-! ### The path above -/

/-- The first path is the second one less its last component. -/
structure IsParent (upper p : Path) : Prop where
  components : ∃ c, p.components = upper.components ++ [c]
  isAbsolute : upper.isAbsolute = p.isAbsolute
  begins : upper.text <+: p.text

theorem isParent_empty {p : Path} {first : Text} {rest : List Text}
    (h : p.segments = first :: rest) (silent : dropSilentEnd rest = [])
    (named : ¬(p.isAbsolute || first.isEmpty)) : IsParent ⟨[]⟩ p := by
  obtain ⟨relative, not_empty⟩ : p.isAbsolute = false ∧ first ≠ [] := by simpa using named
  have nothing : rest.filterMap Component.ofSegment? = [] := by
    rw [← filterMap_dropSilentEnd, silent, List.filterMap_nil]
  refine ⟨?_, relative.symm, List.nil_prefix⟩
  rw [components_eq h, nothing, relative, List.append_nil]
  show ∃ c, (Component.ofFirst? false first).toList = [c]
  unfold Component.ofFirst? Component.ofSegment?
  split_ifs <;> simp_all

theorem isParent_first {p : Path} {first : Text} {rest : List Text}
    (h : p.segments = first :: rest) (some_left : dropSilentEnd rest ≠ [])
    (silent : dropSilentEnd (dropSilentEnd rest).dropLast = []) :
    IsParent (if p.isAbsolute then ⟨['/']⟩ else ⟨first⟩) p := by
  obtain ⟨c, last⟩ := exists_last_component some_left
  rw [← filterMap_dropSilentEnd (dropSilentEnd rest).dropLast, silent, List.filterMap_nil,
    List.nil_append] at last
  have inner : rest ≠ [] := by
    rintro rfl
    exact some_left rfl
  split
  · rename_i absolute
    refine ⟨⟨c, ?_⟩, absolute.symm, ?_⟩
    · rw [components_eq h, last, absolute]
      rfl
    · obtain ⟨t, ht⟩ := List.head?_eq_some_iff.mp (beq_iff_eq.mp absolute)
      exact ⟨t, ht.symm⟩
  · rename_i relative
    have alone : Path.segments ⟨first⟩ = [first] := by
      have := segments_intercalate (List.cons_ne_nil first []) (by
        intro s hs
        apply no_separator (p := p)
        rw [h]
        exact List.mem_cons.mpr (.inl (List.mem_singleton.mp hs)))
      rwa [List.intercalate_singleton] at this
    have relative' : Path.isAbsolute ⟨first⟩ = false := by
      rw [Bool.eq_false_iff, ne_eq, isAbsolute_iff alone]
      simp
    have same : Path.isAbsolute ⟨first⟩ = p.isAbsolute := by
      rw [relative', Bool.eq_false_iff.mpr relative]
    refine ⟨⟨c, ?_⟩, same, ?_⟩
    · rw [components_eq h, components_eq alone, same, last, List.filterMap_nil, List.append_nil]
    · rw [← intercalate_segments p, h]
      have begins : ['/'].intercalate [first] <+: ['/'].intercalate (first :: rest) :=
        intercalate_begins (List.cons_ne_nil first [])
          (List.cons_prefix_cons.mpr ⟨rfl, List.nil_prefix⟩)
      rwa [List.intercalate_singleton] at begins

theorem isParent_names {p : Path} {first : Text} {rest : List Text}
    (h : p.segments = first :: rest) (some_left : dropSilentEnd rest ≠ [])
    (inner : dropSilentEnd (dropSilentEnd rest).dropLast ≠ []) :
    IsParent ⟨['/'].intercalate (first :: dropSilentEnd (dropSilentEnd rest).dropLast)⟩ p := by
  obtain ⟨c, last⟩ := exists_last_component some_left
  rw [← filterMap_dropSilentEnd (dropSilentEnd rest).dropLast] at last
  have begins : dropSilentEnd (dropSilentEnd rest).dropLast <+: rest :=
    (dropSilentEnd_begins _).trans ((List.dropLast_prefix _).trans (dropSilentEnd_begins rest))
  have begins' := List.cons_prefix_cons.mpr ⟨Eq.refl first, begins⟩
  have cut := segments_intercalate (List.cons_ne_nil first _) fun s hs =>
    no_separator (h ▸ begins'.subset hs)
  have rest_left : rest ≠ [] := by
    rintro rfl
    exact some_left rfl
  have same : Path.isAbsolute
      ⟨['/'].intercalate (first :: dropSilentEnd (dropSilentEnd rest).dropLast)⟩
      = p.isAbsolute := by
    rw [Bool.eq_iff_iff, isAbsolute_iff cut, isAbsolute_iff h]
    simp [inner, rest_left]
  refine ⟨⟨c, ?_⟩, same, ?_⟩
  · rw [components_eq h, components_eq cut, same, last, List.append_assoc]
  · rw [← intercalate_segments p, h]
    exact intercalate_begins (List.cons_ne_nil _ _) begins'

theorem isParent_of_parent? {p upper : Path} (h : p.parent? = some upper) :
    upper.IsParent p := by
  unfold parent? at h
  split at h
  · simp at h
  · rename_i first rest segments
    split at h
    · rename_i silent
      split at h
      · simp at h
      · rename_i named
        obtain rfl := Option.some.inj h
        exact isParent_empty segments silent named
    · rename_i some_left
      split at h
      · rename_i silent
        obtain rfl := Option.some.inj h
        exact isParent_first segments some_left silent
      · rename_i inner
        obtain rfl := Option.some.inj h
        exact isParent_names segments some_left inner

/-- The first path is what is left when components are taken off the end of the second. -/
def IsAbove : Path → Path → Prop := Relation.TransGen fun upper p => p.parent? = some upper

theorem IsParent.text_ne_nil {upper p : Path} (h : upper.IsParent p) (some_left : upper.text ≠ []) :
    p.text ≠ [] := by
  intro empty
  exact some_left (List.prefix_nil.mp (empty ▸ h.begins))

theorem IsAbove.text_ne_nil {upper p : Path} (h : upper.IsAbove p) (some_left : upper.text ≠ []) :
    p.text ≠ [] := by
  induction h with
  | single found => exact (isParent_of_parent? found).text_ne_nil some_left
  | tail _ found ih => exact (isParent_of_parent? found).text_ne_nil ih

/-! ### Steps -/

/-- The segment that a walk makes a step for. -/
def Component.step? : Component → Option Text
  | root | current => none
  | parent => some ['.', '.']
  | name n => some n

/-- The steps of the path. -/
def steps (p : Path) : List Text := p.components.filterMap Component.step?

theorem step?_of_segment (segment : Text) :
    (Component.ofSegment? segment).bind Component.step?
      = Option.guard (!isSilent ·) segment := by
  unfold Component.ofSegment? isSilent Option.guard
  split_ifs <;> simp_all [Component.step?]

theorem step?_of_first {p : Path} {first : Text} {rest : List Text}
    (h : p.segments = first :: rest) :
    (Component.ofFirst? p.isAbsolute first).bind Component.step?
      = Option.guard (!isSilent ·) first := by
  unfold Component.ofFirst?
  split
  · rename_i absolute
    rw [((isAbsolute_iff h).mp absolute).1]
    rfl
  · split
    · rename_i dot
      rw [dot]
      rfl
    · exact step?_of_segment first

/-- A walk makes a step for every segment that is not silent. -/
theorem steps_eq (p : Path) : p.steps = p.segments.filter (!isSilent ·) := by
  obtain ⟨first, rest, whole⟩ := p.exists_segments
  have one (o : Option Component) :
      o.toList.filterMap Component.step? = (o.bind Component.step?).toList := by
    cases o <;> rfl
  rw [steps, components_eq whole, List.filterMap_append, one, step?_of_first whole,
    List.filterMap_filterMap, funext step?_of_segment, List.filterMap_eq_filter, whole,
    List.filter_cons]
  cases silent : isSilent first <;> simp [Option.guard, silent]

/-- The path above a path has its steps, less the last one unless the last component is none. -/
theorem IsParent.steps {upper p : Path} (h : upper.IsParent p) :
    upper.steps <+: p.steps := by
  obtain ⟨c, hc⟩ := h.components
  rw [Path.steps, Path.steps, hc, List.filterMap_append]
  exact List.prefix_append _ _

theorem IsParent.steps_of_name {upper p : Path} {name : Text} (h : upper.IsParent p)
    (last : p.components.getLast? = some (.name name)) : p.steps = upper.steps ++ [name] := by
  obtain ⟨c, hc⟩ := h.components
  rw [hc, List.getLast?_concat] at last
  obtain rfl := Option.some.inj last
  rw [Path.steps, hc, List.filterMap_append]
  rfl

end HtmlTemplate.Path
