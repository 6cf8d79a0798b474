import HtmlTemplate.Proofs.OnePass
import HtmlTemplate.Proofs.Sealing

/-!
# Four passes agree with one

Halfway through an expansion some elements are sealed and others still stand for work to
do. Read with every sealed element standing for itself, such a forest means the same after
each pass as before it. Main results: an expansion that succeeds gives what its template
means, and no directive is left in it.
-/
namespace HtmlTemplate

open Expansion

namespace Forest

/-- Every tag and every comment that the passes still look at satisfies a condition. -/
def Live (p : Tag → Prop) (q : Text → Prop) : Forest → Prop
  | nil => True
  | element tag false children rest => p tag ∧ children.Live p q ∧ rest.Live p q
  | element _ true _ rest => rest.Live p q
  | text _ rest => rest.Live p q
  | comment body rest => q body ∧ rest.Live p q
  | declaration _ rest => rest.Live p q

variable {p : Tag → Prop} {q : Text → Prop}

theorem Every.live {f : Forest} (h : f.Every p q) : f.Live p q := by
  induction f with
  | nil => trivial
  | element tag s children rest ihc ihr =>
    obtain ⟨ht, hc, hr⟩ := h
    cases s with
    | true => exact ihr hr
    | false => exact ⟨ht, ihc hc, ihr hr⟩
  | comment body rest ih => exact ⟨h.1, ih h.2⟩
  | text content rest ih | declaration raw rest ih => exact ih h

theorem Live.mono {p' : Tag → Prop} {q' : Text → Prop} {f : Forest} (h : f.Live p q)
    (hp : ∀ tag, p tag → p' tag) (hq : ∀ body, q body → q' body) : f.Live p' q' := by
  induction f with
  | nil => trivial
  | element tag s children rest ihc ihr =>
    cases s with
    | true => exact ihr h
    | false => exact ⟨hp tag h.1, ihc h.2.1, ihr h.2.2⟩
  | comment body rest ih => exact ⟨hq body h.1, ih h.2⟩
  | text content rest ih | declaration raw rest ih => exact ih h

theorem Live.append {f g : Forest} (hf : f.Live p q) (hg : g.Live p q) : (f ++ g).Live p q := by
  induction f with
  | nil => exact hg
  | element tag s children rest _ ih =>
    cases s with
    | true => exact ih hf
    | false => exact ⟨hf.1, hf.2.1, ih hf.2.2⟩
  | comment body rest ih => exact ⟨hf.1, ih hf.2⟩
  | text content rest ih | declaration raw rest ih => exact ih hf

theorem IsSealed.live {f : Forest} (h : f.IsSealed) : f.Live p q := by
  induction f with
  | nil => trivial
  | element tag s children rest _ ih =>
    cases s with
    | true => exact ih h
    | false => exact h.elim
  | _ => exact h.elim

theorem IsSealed.fill_eq {f : Forest} (h : f.IsSealed) (scope : Scope) : f.fill scope = f := by
  induction f with
  | nil => rfl
  | element tag s children rest _ ih =>
    cases s with
    | true => simp only [fill, ih h]
    | false => exact h.elim
  | _ => exact h.elim

theorem fill_append (scope : Scope) (f g : Forest) :
    (f ++ g).fill scope = f.fill scope ++ g.fill scope := by
  induction f with
  | nil => rfl
  | element tag s children rest _ ih =>
    cases s with
    | true => simp [fill, ih]
    | false => simp [fill, ih]
  | text content rest ih | comment body rest ih | declaration raw rest ih => simp [fill, ih]

end Forest

namespace OnePass

/-- Evaluates a forest part of which is expanded already: sealed elements stand for
themselves. -/
def resumeWith (onInclusion : Include) : Forest → Scope → Option Forest
  | .nil, _ => some .nil
  | .element tag true children rest, scope => do
    let rest ← resumeWith onInclusion rest scope
    return .element tag false children.unsealed rest
  | .element tag false children rest, scope => do
    let here ← repeated onInclusion (resumeWith onInclusion children) tag scope
    let rest ← resumeWith onInclusion rest scope
    return here ++ rest
  | .text content rest, scope => do
    let rest ← resumeWith onInclusion rest scope
    return .text (scope.fillEncoded content) rest
  | .comment body rest, scope => do
    let rest ← resumeWith onInclusion rest scope
    if hiddenCommentStart <+: body.trimStart then return rest else return .comment body rest
  | .declaration raw rest, scope => do
    let rest ← resumeWith onInclusion rest scope
    return .declaration raw rest

variable {onInclusion : Include} {scope : Scope}

/-- Where nothing is expanded yet, there is nothing to resume. -/
theorem resumeWith_eq_evaluateWith {f : Forest} (h : f.unsealed = f) :
    resumeWith onInclusion f = evaluateWith onInclusion f := by
  induction f with
  | nil => rfl
  | element tag s children rest ihc ihr =>
    obtain ⟨rfl, hc, hr⟩ := by simpa [Forest.unsealed] using h
    funext scope
    simp only [resumeWith, evaluateWith, ihc hc, ihr hr]
  | text content rest ih | comment body rest ih | declaration raw rest ih =>
    funext scope
    simp only [resumeWith, evaluateWith, ih (by simpa [Forest.unsealed] using h)]

theorem resumeWith_append (f g : Forest) :
    resumeWith onInclusion (f ++ g) scope = (do
      let f ← resumeWith onInclusion f scope
      let g ← resumeWith onInclusion g scope
      return f ++ g) := by
  induction f with
  | nil => simp [resumeWith]
  | element tag s children rest _ ih =>
    cases s with
    | true => simp [resumeWith, ih, Option.bind_assoc]
    | false => simp [resumeWith, ih, Option.bind_assoc, Forest.append_assoc]
  | text content rest ih | declaration raw rest ih => simp [resumeWith, ih, Option.bind_assoc]
  | comment body rest ih =>
    simp only [Forest.comment_append, resumeWith, ih, Option.bind_eq_bind, Option.bind_assoc]
    split <;> simp

theorem resumeWith_of_isSealed {f : Forest} (h : f.IsSealed) :
    resumeWith onInclusion f scope = some f.unsealed := by
  induction f with
  | nil => rfl
  | element tag s children rest _ ih =>
    cases s with
    | true => simp [resumeWith, ih h, Forest.unsealed]
    | false => exact h.elim
  | _ => exact h.elim

section Elements

variable {children : Scope → Option Forest} {tag : Tag}

theorem repeated_of_lacks (hl : tag.Lacks .iterate) :
    repeated onInclusion children tag scope = conditional onInclusion children tag scope := by
  unfold repeated
  rw [Tag.lacks_iff.mp hl]

theorem conditional_of_lacks (hl : tag.Lacks .condition) :
    conditional onInclusion children tag scope = plain onInclusion children tag scope := by
  unfold conditional
  rw [Tag.lacks_iff.mp hl]

/-- Without a loop the children matter in the scope around the element only. -/
theorem conditional_congr {children' : Scope → Option Forest}
    (h : children scope = children' scope) :
    conditional onInclusion children tag scope = conditional onInclusion children' tag scope := by
  unfold conditional plain
  rw [h]

end Elements

/-- The copies that a loop is replaced by are what the copies mean. -/
theorem each_of_eachItem {copy : Value → Except Failure Forest} {meaning : Value → Option Forest}
    {items : List Value} {here : Forest}
    (hc : ∀ item r, copy item = .ok r → meaning item = some r.unsealed)
    (h : eachItem copy items = .ok here) : each meaning items = some here.unsealed := by
  induction items generalizing here with
  | nil =>
    obtain rfl := Failure.pure_eq_ok.mp h
    rfl
  | cons item items ih =>
    simp only [eachItem, Failure.bind_eq_ok, Failure.pure_eq_ok] at h
    obtain ⟨first, hf, others, ho, rfl⟩ := h
    simp [each, hc item first hf, ih ho]

end OnePass

/-- What the passes after the loops find in a tag. -/
structure Tag.IsUnrolled (tag : Tag) : Prop where
  hasDistinctNames : tag.HasDistinctNames
  lacks_iterate : tag.Lacks .iterate

/-- What the passes after the conditions find in a tag. -/
structure Tag.IsDecided (tag : Tag) : Prop extends tag.IsUnrolled where
  lacks_condition : tag.Lacks .condition

namespace OnePass

variable {onInclusion : Include} {scope : Scope}

/-- The pass over the loops leaves none, and keeps what the forest means. -/
theorem resumeWith_eachLoop {onLoop : Text → Tag → Forest → Except Failure Forest} {bound : Nat}
    {f looped : Forest} (hd : f.Live Tag.HasDistinctNames fun _ => True) (hw : f.weight ≤ bound)
    (hl : ∀ tag expression tag' children here,
      tag.takeDirective? .iterate = some (expression, tag') → tag.HasDistinctNames →
      children.Live Tag.HasDistinctNames (fun _ => True) →
      (Forest.element tag' false children .nil).weight < bound →
      onLoop expression tag' children = .ok here →
      here.IsSealed ∧
        repeated onInclusion (resumeWith onInclusion children) tag scope = some here.unsealed)
    (h : eachLoop onLoop f = .ok looped) :
    looped.Live Tag.IsUnrolled (fun _ => True) ∧
      resumeWith onInclusion looped scope = resumeWith onInclusion f scope := by
  induction f generalizing looped with
  | nil =>
    obtain rfl := Failure.pure_eq_ok.mp h
    exact ⟨trivial, rfl⟩
  | element tag s children rest ihc ihr =>
    cases s with
    | true =>
      simp only [eachLoop, Failure.bind_eq_ok, Failure.pure_eq_ok] at h
      obtain ⟨rest', hr, rfl⟩ := h
      obtain ⟨rest_live, rest_same⟩ := ihr hd (Forest.weight_rest hw) hr
      refine ⟨rest_live, ?_⟩
      simp only [resumeWith, rest_same]
    | false =>
      obtain ⟨ht, hc, hr⟩ := hd
      unfold eachLoop at h
      split at h
      · rename_i expression tag' taken
        simp only [Failure.bind_eq_ok, Failure.pure_eq_ok] at h
        obtain ⟨here, hh, rest', hrest, rfl⟩ := h
        obtain ⟨rest_live, rest_same⟩ := ihr hr (Forest.weight_rest hw) hrest
        obtain ⟨here_sealed, here_means⟩ :=
          hl tag expression tag' children here taken ht hc (Forest.weight_copy taken hw) hh
        refine ⟨here_sealed.live.append rest_live, ?_⟩
        -- The copies are sealed, so the scope around the loop does not reach them.
        rw [resumeWith_append, resumeWith_of_isSealed here_sealed, rest_same, resumeWith,
          here_means]
      · rename_i taken
        have lacks := Tag.lacks_iff.mpr taken
        simp only [Failure.bind_eq_ok, Failure.pure_eq_ok] at h
        obtain ⟨children', hchildren, rest', hrest, rfl⟩ := h
        obtain ⟨rest_live, rest_same⟩ := ihr hr (Forest.weight_rest hw) hrest
        obtain ⟨children_live, children_same⟩ :=
          ihc hc (Nat.le_of_lt (Forest.weight_children hw)) hchildren
        refine ⟨⟨⟨ht, lacks⟩, children_live, rest_live⟩, ?_⟩
        rw [resumeWith, resumeWith, repeated_of_lacks lacks, repeated_of_lacks lacks,
          conditional_congr children_same, rest_same]
  | comment body rest ih =>
    simp only [eachLoop, Failure.bind_eq_ok, Failure.pure_eq_ok] at h
    obtain ⟨rest', hr, rfl⟩ := h
    obtain ⟨rest_live, rest_same⟩ := ih hd.2 hw hr
    exact ⟨⟨trivial, rest_live⟩, by simp only [resumeWith, rest_same]⟩
  | text content rest ih | declaration raw rest ih =>
    simp only [eachLoop, Failure.bind_eq_ok, Failure.pure_eq_ok] at h
    obtain ⟨rest', hr, rfl⟩ := h
    obtain ⟨rest_live, rest_same⟩ := ih hd hw hr
    exact ⟨rest_live, by simp only [resumeWith, rest_same]⟩

/-- The pass over the conditions leaves none and no hidden comment, and keeps what the
forest means. -/
theorem live_prune {f : Forest} (hf : f.Live Tag.IsUnrolled fun _ => True) :
    (prune scope f).Live Tag.IsDecided fun body => ¬hiddenCommentStart <+: body.trimStart := by
  induction f with
  | nil => trivial
  | element tag s children rest ihc ihr =>
    cases s with
    | true => exact ihr hf
    | false =>
      obtain ⟨ht, hc, hr⟩ := hf
      unfold prune
      split
      · rename_i condition tag' taken
        have decided : tag'.IsDecided :=
          ⟨⟨ht.hasDistinctNames.takeDirective? taken, ht.lacks_iterate.takeDirective? taken⟩,
            ht.hasDistinctNames.lacks_condition taken⟩
        split
        · exact ⟨decided, ihc hc, ihr hr⟩
        · exact ihr hr
      · rename_i taken
        exact ⟨⟨ht, Tag.lacks_iff.mpr taken⟩, ihc hc, ihr hr⟩
  | comment body rest ih =>
    unfold prune
    split
    · exact ih hf.2
    · rename_i shown
      refine ⟨?_, ih hf.2⟩
      simpa [isHiddenComment] using shown
  | text content rest ih | declaration raw rest ih => exact ih hf

theorem resumeWith_prune {f : Forest} (hf : f.Live Tag.IsUnrolled fun _ => True) :
    resumeWith onInclusion (prune scope f) scope = resumeWith onInclusion f scope := by
  induction f with
  | nil => rfl
  | element tag s children rest ihc ihr =>
    cases s with
    | true => simp only [prune, resumeWith, ihr hf]
    | false =>
      obtain ⟨ht, hc, hr⟩ := hf
      have inner := ihc hc
      simp only [prune, resumeWith, repeated_of_lacks ht.lacks_iterate]
      split
      · rename_i condition tag' taken
        have lacks := ht.hasDistinctNames.lacks_condition taken
        have looped := ht.lacks_iterate.takeDirective? taken
        split
        · rename_i holds
          have decided :
              conditional onInclusion (resumeWith onInclusion (prune scope children)) tag' scope
                = conditional onInclusion (resumeWith onInclusion children) tag scope := by
            rw [conditional_congr inner, conditional_of_lacks lacks, conditional, taken]
            simp only [holds, if_true]
          rw [resumeWith, repeated_of_lacks looped, decided, ihr hr]
        · rename_i fails
          rw [ihr hr, conditional, taken]
          simp [fails]
      · rw [resumeWith, repeated_of_lacks ht.lacks_iterate, conditional_congr inner, ihr hr]
  | text content rest ih | declaration raw rest ih => simp only [prune, resumeWith, ih hf]
  | comment body rest ih =>
    simp only [prune, resumeWith, isHiddenComment, List.isPrefixOf_iff_prefix]
    split
    · simp [ih hf.2]
    · rename_i shown
      simp [resumeWith, ih hf.2, shown]

/-- The passes over the inclusions and the placeholders give what the forest means. -/
theorem resumeWith_eachInclusion {expandOne : Tag → Forest → Except Failure Forest} {bound : Nat}
    {f included : Forest}
    (hf : f.Live Tag.IsDecided fun body => ¬hiddenCommentStart <+: body.trimStart)
    (hw : f.weight ≤ bound)
    (hi : ∀ tag children here, children.Live Tag.HasDistinctNames (fun _ => True) →
      children.weight < bound → expandOne tag children = .ok here →
      here.IsSealed ∧
        (do onInclusion tag (← resumeWith onInclusion children scope) scope) = some here.unsealed)
    (h : eachInclusion expandOne f = .ok included) :
    resumeWith onInclusion f scope = some (included.fill scope).unsealed := by
  induction f generalizing included with
  | nil =>
    obtain rfl := Failure.pure_eq_ok.mp h
    rfl
  | element tag s children rest ihc ihr =>
    cases s with
    | true =>
      simp only [eachInclusion, Failure.bind_eq_ok, Failure.pure_eq_ok] at h
      obtain ⟨rest', hr, rfl⟩ := h
      simp [resumeWith, ihr hf (Forest.weight_rest hw) hr, Forest.fill, Forest.unsealed]
    | false =>
      obtain ⟨ht, hc, hr⟩ := hf
      rw [resumeWith, repeated_of_lacks ht.lacks_iterate, conditional_of_lacks ht.lacks_condition]
      unfold eachInclusion at h
      split at h
      · rename_i name_eq
        simp only [Failure.bind_eq_ok, Failure.pure_eq_ok] at h
        obtain ⟨here, hh, rest', hrest, rfl⟩ := h
        have children_live := hc.mono (fun _ h => h.hasDistinctNames) (fun _ _ => trivial)
        obtain ⟨here_sealed, here_means⟩ :=
          hi tag children here children_live (Forest.weight_children hw) hh
        have placed : plain onInclusion (resumeWith onInclusion children) tag scope
            = some here.unsealed := by
          simpa only [plain, name_eq, if_true] using here_means
        rw [placed, ihr hr (Forest.weight_rest hw) hrest, Forest.fill_append,
          here_sealed.fill_eq, Forest.unsealed_append]
        rfl
      · rename_i name_ne
        simp only [Failure.bind_eq_ok, Failure.pure_eq_ok] at h
        obtain ⟨children', hchildren, rest', hrest, rfl⟩ := h
        have children_mean := ihc hc (Nat.le_of_lt (Forest.weight_children hw)) hchildren
        have placed : plain onInclusion (resumeWith onInclusion children) tag scope
            = some (.element (scope.fillTag tag) false (children'.fill scope).unsealed .nil) := by
          simp [plain, children_mean, name_ne]
        rw [placed, ihr hr (Forest.weight_rest hw) hrest]
        rfl
  | comment body rest ih =>
    simp only [eachInclusion, Failure.bind_eq_ok, Failure.pure_eq_ok] at h
    obtain ⟨rest', hr, rfl⟩ := h
    simp [resumeWith, ih hf.2 hw hr, hf.1, Forest.fill, Forest.unsealed]
  | text content rest ih | declaration raw rest ih =>
    simp only [eachInclusion, Failure.bind_eq_ok, Failure.pure_eq_ok] at h
    obtain ⟨rest', hr, rfl⟩ := h
    have rest_means := ih hf hw hr
    simp [resumeWith, rest_means, Forest.fill, Forest.unsealed]

/-- An expansion that succeeds gives what its forest means. -/
def Agrees (c : Compiler) (opened : OpenFragments) (f : Forest) : Prop :=
  ∀ label scope depth g, f.Live Tag.HasDistinctNames (fun _ => True) →
    closedFiles c opened ≤ depth → expand c opened label scope f = .ok g →
    resumeWith (includeAt c.store depth) f scope = some g.unsealed

/-- Where a loop finds items, so does its evaluation. -/
theorem items?_of_loopItems {label expression : Text} {header : LoopHeader} {items : List Value}
    (h : loopItems label scope expression = .ok (header, items)) :
    items? scope expression = some (header, items) := by
  unfold loopItems at h
  split at h
  · simp at h
  · rename_i found hr
    split at h
    · simp at h
    · rename_i listed hl
      obtain ⟨rfl, rfl⟩ := by simpa using h
      simp [items?, hr, hl, Except.toOption]

/-- The copies of a loop are what its element means, if lighter forests agree. -/
theorem loop_agrees {c : Compiler} {opened : OpenFragments} {label : Text} {scope : Scope}
    {depth bound : Nat} (hb : ∀ g : Forest, g.weight < bound → Agrees c opened g)
    (enough : closedFiles c opened ≤ depth) {tag tag' : Tag} {expression : Text}
    {children here : Forest} (taken : tag.takeDirective? .iterate = some (expression, tag'))
    (ht : tag.HasDistinctNames) (hc : children.Live Tag.HasDistinctNames fun _ => True)
    (hw : (Forest.element tag' false children .nil).weight < bound)
    (h : loop (expand c) opened label scope expression tag' children = .ok here) :
    here.IsSealed ∧ repeated (includeAt c.store depth)
      (resumeWith (includeAt c.store depth) children) tag scope = some here.unsealed := by
  have lacks := ht.lacks_iterate taken
  obtain ⟨header, items, hi, hcopies⟩ := loop_eq_ok.mp h
  have found := items?_of_loopItems hi
  refine ⟨isSealed_loop h, ?_⟩
  rw [repeated, taken]
  simp only [found, Option.bind_eq_bind, Option.bind_some]
  refine each_of_eachItem ?_ hcopies
  intro item r hr
  have means := hb _ hw label _ depth r ⟨ht.takeDirective? taken, hc, trivial⟩ enough hr
  rw [resumeWith, repeated_of_lacks lacks] at means
  simpa [resumeWith] using means

/-- The wrapper of an inclusion is what it means, if its slot content and the fragments with
fewer files closed agree. -/
theorem inclusion_agrees {c : Compiler} {opened : OpenFragments} {label : Text} {scope : Scope}
    {depth : Nat} {tag : Tag} {children here : Forest} (hs : Agrees c opened children)
    (hf : ∀ inner g, closedFiles c inner < closedFiles c opened → Agrees c inner g)
    (enough : closedFiles c opened ≤ depth)
    (hc : children.Live Tag.HasDistinctNames fun _ => True)
    (h : Expansion.inclusion c (expand c) opened label scope tag children = .ok here) :
    here.IsSealed ∧
      (do includeAt c.store depth tag (← resumeWith (includeAt c.store depth) children scope) scope)
        = some here.unsealed := by
  obtain ⟨slot, o, body, hslot, ho, hbody, rfl⟩ := inclusion_eq_ok.mp h
  refine ⟨trivial, ?_⟩
  have fewer := closedFiles_lt ho
  obtain ⟨named, resolved, -, -, loaded⟩ := openFragment_eq_ok.mp ho
  have raw := Store.isRaw_load loaded
  -- The fragment takes one level of the depth and one of the closed files.
  cases depth with
  | zero => omega
  | succ depth =>
    have slot_means := hs label scope (depth + 1) slot hc enough hslot
    have body_means := hf (o.path :: opened) o.body fewer o.path.text _ depth body
      raw.hasDistinctNames.live (by omega) hbody
    rw [resumeWith_eq_evaluateWith raw.unsealed_eq] at body_means
    rw [slot_means]
    simp [includeAt, OnePass.inclusion, named, resolved, loaded, Except.toOption, body_means, wrap,
      Forest.unsealed, Forest.unsealed_trim, Forest.unsealed_fillSlot]

/-- Every expansion that succeeds gives what its forest means. -/
theorem agrees (c : Compiler) (opened : OpenFragments) (f : Forest) : Agrees c opened f := by
  -- Copies and slot content are lighter, and below a fragment fewer files are closed.
  induction opened, f using expansion_induction c with
  | step opened f hb hf =>
    intro label scope depth g hd enough h
    obtain ⟨looped, included, hl, hi, rfl⟩ := expand_eq_ok.mp h
    obtain ⟨looped_live, looped_same⟩ : looped.Live Tag.IsUnrolled (fun _ => True) ∧
        resumeWith (includeAt c.store depth) looped scope
          = resumeWith (includeAt c.store depth) f scope := by
      refine resumeWith_eachLoop hd (Nat.le_refl _) ?_ hl
      intro tag expression tag' children here taken ht hc hw hh
      exact loop_agrees hb enough taken ht hc hw hh
    have lighter : (prune scope looped).weight ≤ f.weight :=
      Nat.le_trans (weight_prune scope looped) (weight_eachLoop hl)
    rw [← looped_same, ← resumeWith_prune looped_live]
    refine resumeWith_eachInclusion (live_prune looped_live) lighter ?_ hi
    intro tag children here hc hw hh
    exact inclusion_agrees (hb children hw) hf enough hc hh

/-- A compilation that succeeds gives what its source means, however deep fragments may
nest beyond the number of files. -/
theorem evaluate_of_compile {c : Compiler} {scope : Scope} {source : Text} {nodes : Forest}
    {depth : Nat} (enough : c.store.snapshot.files.length ≤ depth)
    (h : c.compile scope source = .ok nodes) :
    evaluate c.store depth (Forest.read source) scope = some nodes.unsealed := by
  have raw := Forest.isRaw_read source
  have closed : closedFiles c [] ≤ depth := Nat.le_trans List.countP_le_length enough
  have means := agrees c [] (Forest.read source) Compiler.mainLabel scope depth nodes
    raw.hasDistinctNames.live closed h
  rw [resumeWith_eq_evaluateWith raw.unsealed_eq] at means
  exact means

end OnePass

end HtmlTemplate
