import HtmlTemplate.Proofs.Encoded

/-!
# What a JSON text spells

Whatever a JSON text spells has the keys of its mappings in order and is nested no deeper than
the reader goes. Main result: the text of a list or a mapping is read as that value, and what a
text spells stays the same when it is written and read again.
-/
namespace HtmlTemplate

namespace Value

/-! ### Entries -/

section Entries

variable {key : Text} {value : Value} {entries : List (Text × Value)}

theorem mem_insertEntry {e : Text × Value} (h : e ∈ insertEntry key value entries) :
    e = (key, value) ∨ e ∈ entries := by
  induction entries with
  | nil => exact .inl (List.mem_singleton.mp h)
  | cons first entries ih =>
    rw [insertEntry] at h
    split_ifs at h
    · rcases List.mem_cons.mp h with same | later
      · exact .inl same
      · exact .inr (List.mem_cons_of_mem _ later)
    · exact List.mem_cons.mp h
    · rcases List.mem_cons.mp h with same | later
      · exact .inr (List.mem_cons.mpr (.inl same))
      · exact (ih later).imp_right (List.mem_cons_of_mem _)

/-- An entry is put where its key belongs, or in the place of the entry of that key. -/
theorem pairwise_insertEntry (h : (entries.map (·.1)).Pairwise (· < ·)) :
    ((insertEntry key value entries).map (·.1)).Pairwise (· < ·) := by
  induction entries with
  | nil => exact List.pairwise_singleton _ _
  | cons first entries ih =>
    obtain ⟨k, v⟩ := first
    obtain ⟨before, rest⟩ := List.pairwise_cons.mp h
    rw [insertEntry]
    split_ifs with same less
    · rw [same]
      exact List.pairwise_cons.mpr ⟨before, rest⟩
    · refine List.pairwise_cons.mpr ⟨?_, h⟩
      intro other hm
      rcases List.mem_cons.mp hm with rfl | later
      · exact less
      · exact List.lt_trans less (before other later)
    · refine List.pairwise_cons.mpr ⟨?_, ih rest⟩
      intro other hm
      obtain ⟨e, he, rfl⟩ := List.mem_map.mp hm
      rcases mem_insertEntry he with rfl | later
      · exact (List.le_iff_lt_or_eq.mp (List.not_lt.mp less)).resolve_right (Ne.symm same)
      · exact before e.1 (List.mem_map_of_mem later)

end Entries

/-! ### Nesting -/

/-- Keys in order at every depth, and no more containers in each other than the bound. -/
structure IsReadable (bound : Nat) (v : Value) : Prop where
  isOrdered : v.IsOrdered
  depth_le : v.depth ≤ bound

variable {bound : Nat}

theorem itemsDepth_le {items : List Value} (h : ∀ v ∈ items, v.depth ≤ bound) :
    itemsDepth items ≤ bound := by
  induction items with
  | nil => exact Nat.zero_le _
  | cons v vs ih =>
    obtain ⟨first, others⟩ := List.forall_mem_cons.mp h
    have := ih others
    rw [itemsDepth]
    omega

theorem entriesDepth_le {entries : List (Text × Value)} (h : ∀ e ∈ entries, e.2.depth ≤ bound) :
    entriesDepth entries ≤ bound := by
  induction entries with
  | nil => exact Nat.zero_le _
  | cons e es ih =>
    obtain ⟨first, others⟩ := List.forall_mem_cons.mp h
    have := ih others
    rw [entriesDepth]
    omega

theorem isReadable_list {items : List Value} (h : ∀ v ∈ items, v.IsReadable bound) :
    (list items).IsReadable (bound + 1) where
  isOrdered := .list fun v hv => (h v hv).isOrdered
  depth_le := by
    have := itemsDepth_le fun v hv => (h v hv).depth_le
    rw [depth]
    omega

theorem isReadable_mapping {entries : List (Text × Value)}
    (keys : (entries.map (·.1)).Pairwise (· < ·)) (h : ∀ e ∈ entries, e.2.IsReadable bound) :
    (mapping entries).IsReadable (bound + 1) where
  isOrdered := .mapping keys fun e he => (h e he).isOrdered
  depth_le := by
    have := entriesDepth_le fun e he => (h e he).depth_le
    rw [depth]
    omega

/-- Lists and mappings, the values whose textual form is JSON. -/
def isContainer : Value → Bool
  | list _ | mapping _ => true
  | _ => false

end Value

namespace Json

section Parts

variable {one : Reader Value} {P : Value → Prop}

theorem forall_mem_items (h : ∀ t v rest, one.run t = .ok (v, rest) → P v) {t rest : Text}
    {vs : List Value} (hi : items one t = .ok (vs, rest)) : ∀ v ∈ vs, P v := by
  fun_induction items one t generalizing vs rest with
  | case3 t v mid read after _ =>
    obtain ⟨rfl, -⟩ := by simpa using hi
    simpa using h _ _ _ read
  | case7 t v mid read after _ vs' after' others _ _ ih =>
    obtain ⟨rfl, -⟩ := by simpa using hi
    exact List.forall_mem_cons.mpr ⟨h _ _ _ read, ih others⟩
  | _ => simp at hi

theorem of_entry (h : ∀ t v rest, one.run t = .ok (v, rest) → P v) {t rest : Text}
    {e : Text × Value} (he : entry one t = .ok (e, rest)) : P e.2 := by
  unfold entry at he
  split at he
  · simp at he
  · split at he
    · simp at he
    · split at he
      · simp at he
      · rename_i read
        obtain ⟨rfl, -⟩ := by simpa using he
        exact h _ _ _ read
    · simp at he

theorem forall_mem_entries (h : ∀ t v rest, one.run t = .ok (v, rest) → P v) {t rest : Text}
    {es : List (Text × Value)} (hi : entries one t = .ok (es, rest)) : ∀ e ∈ es, P e.2 := by
  fun_induction entries one t generalizing es rest with
  | case3 t e mid read after _ =>
    obtain ⟨rfl, -⟩ := by simpa using hi
    simpa using of_entry h read
  | case6 t e mid read after _ key _ es' after' others ih =>
    obtain ⟨rfl, -⟩ := by simpa using hi
    exact List.forall_mem_cons.mpr ⟨of_entry h read, ih others⟩
  | _ => simp at hi

end Parts

theorem isReadable_mappingOf {bound : Nat} {es : List (Text × Value)}
    (h : ∀ e ∈ es, e.2.IsReadable bound) : (mappingOf es).IsReadable (bound + 1) := by
  have kept (acc : List (Text × Value)) (keys : (acc.map (·.1)).Pairwise (· < ·))
      (each : ∀ e ∈ acc, e.2.IsReadable bound) :
      (Value.mapping (es.foldl (fun acc e => Value.insertEntry e.1 e.2 acc) acc)).IsReadable
        (bound + 1) := by
    induction es generalizing acc with
    | nil => exact Value.isReadable_mapping keys each
    | cons e es ih =>
      obtain ⟨first, others⟩ := List.forall_mem_cons.mp h
      refine ih others _ (Value.pairwise_insertEntry keys) ?_
      intro d hd
      rcases Value.mem_insertEntry hd with rfl | earlier
      · exact first
      · exact each d earlier
  exact kept [] .nil (by simp)

section Values

variable {bound : Nat} {list mapping : Text → Except Fault (Value × Text)} {t rest : Text}
  {v : Value}

theorem of_word {letters : Text} {w : Value} (h : word letters w t = .ok (v, rest)) : v = w := by
  unfold word at h
  induction letters generalizing t with
  | nil =>
    obtain ⟨rfl, -⟩ := by simpa [word.go] using h
    rfl
  | cons l ls ih =>
    cases t with
    | nil => simp [word.go] at h
    | cons c t =>
      unfold word.go at h
      split at h
      · exact ih h
      · simp at h

/-- A value is a scalar, or what the reader of its container gives. -/
theorem isReadable_valueAt
    (hl : ∀ t v rest, list t = .ok (v, rest) → v.IsReadable bound)
    (hm : ∀ t v rest, mapping t = .ok (v, rest) → v.IsReadable bound)
    (h : valueAt list mapping t = .ok (v, rest)) : v.IsReadable bound := by
  have scalar {α : Type} {r : Except Fault (Text × α)} {s : α}
      (h : r.map (fun (s, rest) => (Value.text s, rest)) = .ok (v, s)) : v.IsReadable bound := by
    cases r with
    | error f => simp [Except.map] at h
    | ok a =>
      obtain ⟨rfl, -⟩ := by simpa [Except.map] using h
      exact ⟨.text _, Nat.zero_le _⟩
  unfold valueAt at h
  split at h
  · simp at h
  · rw [of_word h]
    exact ⟨.null, Nat.zero_le _⟩
  · rw [of_word h]
    exact ⟨.bool _, Nat.zero_le _⟩
  · rw [of_word h]
    exact ⟨.bool _, Nat.zero_le _⟩
  · exact scalar h
  · exact hl _ _ _ h
  · exact hm _ _ _ h
  · split at h
    · exact scalar h
    · simp at h

theorem isReadable_listBody {one : Reader Value}
    (ho : ∀ t v rest, one.run t = .ok (v, rest) → v.IsReadable bound)
    (h : listBody one t = .ok (v, rest)) : v.IsReadable (bound + 1) := by
  unfold listBody at h
  split at h
  · simp at h
  · obtain ⟨rfl, -⟩ := by simpa using h
    exact Value.isReadable_list (by simp)
  · cases hi : items one t with
    | error f => simp [hi, Except.map] at h
    | ok a =>
      obtain ⟨rfl, -⟩ := by simpa [hi, Except.map] using h
      exact Value.isReadable_list (forall_mem_items ho hi)

theorem isReadable_mappingBody {one : Reader Value}
    (ho : ∀ t v rest, one.run t = .ok (v, rest) → v.IsReadable bound)
    (h : mappingBody one t = .ok (v, rest)) : v.IsReadable (bound + 1) := by
  unfold mappingBody at h
  split at h
  · simp at h
  · obtain ⟨rfl, -⟩ := by simpa using h
    exact Value.isReadable_mapping .nil (by simp)
  · rename_i key _
    cases hi : entries one key with
    | error f => simp [hi, Except.map] at h
    | ok a =>
      obtain ⟨rfl, -⟩ := by simpa [hi, Except.map] using h
      exact isReadable_mappingOf (forall_mem_entries ho hi)
  · simp at h

/-- A reader gives values that it would read again. -/
theorem isReadable_of_run (h : (value bound).run t = .ok (v, rest)) : v.IsReadable bound := by
  -- Every container that the reader opens takes one from the bound.
  induction bound generalizing t v rest with
  | zero => exact isReadable_valueAt (by simp [tooDeep]) (by simp [tooDeep]) h
  | succ bound ih =>
    exact isReadable_valueAt (fun _ _ _ => isReadable_listBody fun _ _ _ => ih)
      (fun _ _ _ => isReadable_mappingBody fun _ _ _ => ih) h

theorem isReadable_of_read (h : read t = .ok v) : v.IsReadable maxDepth := by
  unfold read at h
  split at h
  · simp at h
  · rename_i run
    split at h
    · obtain rfl := by simpa using h
      exact isReadable_of_run run
    · simp at h

end Values

theorem read_container {v : Value} (container : v.isContainer) (h : v.IsReadable maxDepth) :
    read v.print = .ok v := by
  cases v with
  | list items => exact read_json h.isOrdered h.depth_le
  | mapping entries => exact read_json h.isOrdered h.depth_le
  | null | bool | text => simp [Value.isContainer] at container

/-- A list or a mapping is what its textual form is read as, whatever texts it holds, if no more
than 127 lists and mappings stand in each other; a loop over the text of a list goes over its
items. So a JSON text that spells a list or a mapping spells the same value when that is written
and read again. -/
theorem containers_are_read_back :
    (∀ v : Value, v.isContainer → v.IsOrdered → v.depth ≤ 127 → read v.print = .ok v ∧
      ∀ items, v = .list items →
        (LoopSource.ofValue? (some (.text v.print))).items = .ok items) ∧
    ∀ s v, read s = .ok v → v.isContainer → read v.print = .ok v := by
  constructor
  · intro v container ordered shallow
    refine ⟨read_container container ⟨ordered, shallow⟩, ?_⟩
    rintro items rfl
    exact Value.items_print ordered shallow
  · intro s v spelled container
    exact read_container container (isReadable_of_read spelled)

/-- Keys and items that need escapes, an empty key, and a text whose keys are in no order, one of
them twice, with numbers that are written otherwise. -/
theorem scores_are_read_back :
    let items : List Value := [.mapping [([], .null), ("\"\x01\\".toList, .bool true)],
      .list [], .text "\n𝄞\x7f".toList]
    let s := "\x7b\"b\": 1e3, \"a\": [-0, null], \"b\" : \"\\ud834\\udd1e\"\x7d".toList
    (LoopSource.ofValue? (some (.text (Value.list items).print))).items = .ok items ∧
      ∃ v, read s = .ok v ∧ v.isContainer ∧
        v.print = "\x7b\"a\":[\"-0.0\",null],\"b\":\"𝄞\"\x7d".toList ∧
        read v.print = .ok v := by
  intro items s
  have ordered : (Value.list items).IsOrdered := by
    refine .list ?_
    simp only [items, List.forall_mem_cons]
    refine ⟨.mapping (by decide) ?_, .list (by simp), .text _, by simp⟩
    simp only [List.forall_mem_cons]
    exact ⟨.null, .bool true, by simp⟩
  have spelled : (read s).map (fun v => (v.isContainer, v.print))
      = .ok (true, "\x7b\"a\":[\"-0.0\",null],\"b\":\"𝄞\"\x7d".toList) := by
    decide +kernel
  obtain ⟨back, again⟩ := containers_are_read_back
  refine ⟨(back _ rfl ordered (by decide)).2 items rfl, ?_⟩
  cases hv : read s with
  | error f => simp [hv, Except.map] at spelled
  | ok v =>
    obtain ⟨container, printed⟩ : v.isContainer = true ∧ _ := by
      simpa [hv, Except.map] using spelled
    exact ⟨v, rfl, container, printed, again s v hv container⟩

end Json

end HtmlTemplate
