import HtmlTemplate.Proofs.Every
import HtmlTemplate.Proofs.Grammar

/-!
# What is read

A source is cut into well-formed tokens, whatever it holds, and they grow into a forest that
is not sealed. Main results: this holds of every source and of the body of every fragment.
-/
namespace HtmlTemplate

namespace Token

/-! ### Names -/

theorem isTagNameChar_toLower {c : Char} (h : isNameChar c) : isTagNameChar c.toLower := by
  by_cases hu : c.isUpper
  · have lower : c.toLower.isLower := by simp [Char.isAlpha, hu]
    simp [isTagNameChar, lower]
  · rw [Char.toLower_eq_of_not_isUpper hu]
    exact isTagNameChar_iff.mpr ⟨h, by simpa using hu⟩

theorem isAttributeNameChar_toLower {c : Char} (h : isAttributeNameChar c) :
    isAttributeNameChar c.toLower ∧ c.toLower.isUpper = false := by
  refine ⟨?_, Char.isUpper_toLower_eq_false c⟩
  have apart : " \t\r\n\x0c\"'>/=".toList.all (!·.isLower) := by decide
  by_cases hu : c.isUpper
  · have lower : c.toLower.isLower := by simp [Char.isAlpha, hu]
    rw [isAttributeNameChar_iff, Bool.eq_false_iff]
    intro found
    have := List.all_eq_true.mp apart c.toLower (List.contains_iff_mem.mp found)
    rw [lower] at this
    exact absurd this (by decide)
  · rw [Char.toLower_eq_of_not_isUpper hu]
    exact h

/-- A run of name characters is a name once it is in lower case. -/
theorem isTagName_lowercase {c : Char} {run : Text} (first : c.isAlpha)
    (chars : ∀ d ∈ c :: run, isNameChar d) : isTagName (Text.lowercase (c :: run)) := by
  have others : ∀ d ∈ Text.lowercase run, isTagNameChar d := by
    intro d hd
    obtain ⟨e, he, rfl⟩ := List.mem_map.mp hd
    exact isTagNameChar_toLower (chars e (by simp [he]))
  show isTagName (c.toLower :: Text.lowercase run)
  rw [isTagName, Bool.and_eq_true, List.all_eq_true]
  exact ⟨by simpa using first, others⟩

theorem isAttributeName_lowercase {c : Char} {t : Text} (first : isAttributeNameChar c) :
    isAttributeName (Text.lowercase (c :: t.takeWhile isAttributeNameChar)) := by
  rw [isAttributeName_iff]
  constructor
  · exact List.cons_ne_nil _ _
  · intro d hd
    obtain ⟨e, he, rfl⟩ := List.mem_map.mp hd
    apply isAttributeNameChar_toLower
    rcases List.mem_cons.mp he with rfl | he
    · exact first
    · exact Text.of_mem_takeWhile he

/-- Every attribute of a start tag has a name, whatever the tag holds. -/
theorem isAttributeName_of_readAttributes (t : Text) :
    ∀ a ∈ (readAttributes t).attributes, isAttributeName a.name := by
  fun_induction readAttributes t with
  | case1 | case2 | case3 => simp
  | case4 _ _ ih | case5 _ ih | case6 _ ih | case7 _ ih => exact ih
  | case8 c t _ _ _ _ _ _ first _ _ _ ih | case9 c t _ _ _ _ _ _ first _ _ ih =>
    rw [TagBody.push, List.forall_mem_cons]
    exact ⟨isAttributeName_lowercase first, ih⟩
  | case10 _ _ _ _ _ _ _ _ _ ih => exact ih

theorem nodup_keepFirst (attributes : List Attribute) :
    ((keepFirst attributes).map (·.name)).Nodup := by
  induction attributes with
  | nil => exact .nil
  | cons a rest ih =>
    simp only [keepFirst, List.map_cons, List.nodup_cons]
    constructor
    · intro hm
      obtain ⟨b, hb, he⟩ := List.mem_map.mp hm
      have := (List.mem_filter.mp hb).2
      simp [he] at this
    · exact (List.filter_sublist.map _).nodup ih

theorem keepFirst_sublist (attributes : List Attribute) :
    (keepFirst attributes).Sublist attributes := by
  induction attributes with
  | nil => exact .slnil
  | cons a rest ih => exact (List.filter_sublist.trans ih).cons_cons a

/-! ### Lexemes -/

theorem isWellFormed_startTag? {t : Text} {l : Lexeme} (h : startTag? t = some l) :
    l.token.IsWellFormed := by
  unfold startTag? at h
  split at h
  · simp at h
  · rename_i c run name
    have chars : ∀ d ∈ c :: run, isNameChar d := by
      rw [← name]
      intro d hd
      exact Text.of_mem_takeWhile hd
    have tag_ok (first : c.isAlpha) : Tag.IsWellFormed ⟨Text.lowercase (c :: run),
        keepFirst (readAttributes (t.dropWhile isNameChar)).attributes⟩ := by
      refine ⟨isTagName_lowercase first chars, ?_, nodup_keepFirst _⟩
      intro a ha
      exact isAttributeName_of_readAttributes _ a ((keepFirst_sublist _).subset ha)
    dsimp only at h
    split at h
    · rename_i first
      split at h
      · obtain rfl := by simpa using h
        exact tag_ok first
      · obtain rfl := by simpa using h
        exact tag_ok first
    · simp at h

theorem isWellFormed_endTag? {t : Text} {l : Lexeme} (h : endTag? t = some l) :
    l.token.IsWellFormed := by
  unfold endTag? at h
  split at h
  · rename_i c run _ name _
    split at h
    · rename_i first
      obtain rfl := by simpa using h
      apply isTagName_lowercase first
      rw [← name]
      intro d hd
      exact Text.of_mem_takeWhile hd
    · simp at h
  · simp at h

theorem dropWhile_takeWhile_close (t : Text) :
    (t.takeWhile (· != '>') ++ ['>']).dropWhile (· != '>') = ['>'] :=
  Text.dropWhile_run (List.all_eq_true.mp List.all_takeWhile) (by simp)

theorem token_declaration? {opening t : Text} {l : Lexeme} (h : declaration? opening t = some l) :
    l.token = .declaration (opening ++ (t.takeWhile (· != '>') ++ ['>'])) := by
  unfold declaration? at h
  split at h
  · simp at h
  · obtain rfl := by simpa using h
    rfl

theorem isWellFormed_commentOf (t : Text) : (commentOf t).token.IsWellFormed := by
  unfold commentOf
  split
  · rename_i cut
    exact Text.not_infix_of_cutAt? (by decide) cut
  · rename_i cut
    exact Text.not_infix_of_cutAt?_none (by decide) cut

theorem isWellFormed_markup? {t : Text} {l : Lexeme} (h : markup? t = some l) :
    l.token.IsWellFormed := by
  unfold markup? at h
  split at h
  · obtain rfl := by simpa using h
    exact isWellFormed_commentOf _
  · rename_i c t _
    split at h
    · rename_i letter
      have hc : c ≠ '>' := by
        rintro rfl
        exact absurd letter (by decide)
      have kept : (c :: t).takeWhile (· != '>') = c :: t.takeWhile (· != '>') :=
        List.takeWhile_cons_of_pos (by simpa using hc)
      rw [token_declaration? h, kept]
      show isDeclaration ('<' :: '!' :: c :: (t.takeWhile (· != '>') ++ ['>']))
      rw [isDeclaration, dropWhile_takeWhile_close]
      simp [letter]
    · simp at h
  · rename_i t
    rw [token_declaration? h]
    show isDeclaration ('<' :: '?' :: (t.takeWhile (· != '>') ++ ['>']))
    rw [isDeclaration, dropWhile_takeWhile_close]
    rfl
  · exact isWellFormed_endTag? h
  · exact isWellFormed_startTag? h

theorem isWellFormed_prependText {t : Text} {ts : List Token}
    (h : ∀ token ∈ ts, token.IsWellFormed) : ∀ token ∈ prependText t ts, token.IsWellFormed := by
  unfold prependText
  split
  · exact h
  · rw [List.forall_mem_cons] at h ⊢
    exact ⟨trivial, h.2⟩
  · rw [List.forall_mem_cons]
    exact ⟨trivial, h⟩

theorem isWellFormed_scan (source : Text) : ∀ token ∈ scan source, token.IsWellFormed := by
  fun_induction scan source with
  | case1 => simp
  | case2 t l h ih =>
    rw [List.forall_mem_cons]
    exact ⟨isWellFormed_markup? h, isWellFormed_prependText ih⟩
  | case3 t _ ih => exact isWellFormed_prependText ih
  | case4 c t _ ih => exact isWellFormed_prependText ih

end Token

namespace Forest

/-! ### Forests -/

/-- Every name, comment and declaration is well formed, and void elements are empty. -/
def Rules.lexed : Rules where
  element tag children := tag.IsWellFormed ∧ (tag.isVoid → children = nil)
  text _ := True
  comment body := ¬commentEnd <:+: body
  declaration raw := isDeclaration raw

/-- A forest that well-formed tokens have grown into. -/
structure IsLexed (f : Forest) : Prop where
  unsealed_eq : f.unsealed = f
  obeys : f.Obeys .lexed

theorem isLexed_nil : nil.IsLexed := ⟨rfl, trivial⟩

theorem IsLexed.append {f g : Forest} (hf : f.IsLexed) (hg : g.IsLexed) : (f ++ g).IsLexed where
  unsealed_eq := by rw [unsealed_append, hf.unsealed_eq, hg.unsealed_eq]
  obeys := obeys_append.mpr ⟨hf.obeys, hg.obeys⟩

theorem isLexed_element {tag : Tag} {children : Forest} (ht : tag.IsWellFormed)
    (hv : tag.isVoid → children = nil) (hc : children.IsLexed) :
    (element tag false children nil).IsLexed where
  unsealed_eq := by rw [unsealed, hc.unsealed_eq, unsealed]
  obeys := ⟨⟨ht, hv⟩, hc.obeys, trivial⟩

/-- An open element is not void, and what stands before it is lexed. -/
structure OpenIsLexed (o : OpenElement) : Prop where
  tag_ok : o.tag.IsWellFormed
  not_void : ¬o.tag.isVoid
  before_ok : o.before.IsLexed

theorem OpenIsLexed.close {o : OpenElement} {here : Forest} (ho : OpenIsLexed o)
    (hh : here.IsLexed) : (o.before ++ element o.tag false here nil).IsLexed :=
  ho.before_ok.append (isLexed_element ho.tag_ok (fun void => absurd void ho.not_void) hh)

theorem isLexed_closeTo {name : Text} {stack : List OpenElement} {here : Forest}
    (hs : ∀ o ∈ stack, OpenIsLexed o) (hh : here.IsLexed) :
    (∀ o ∈ (closeTo name stack here).1, OpenIsLexed o) ∧ (closeTo name stack here).2.IsLexed := by
  induction stack generalizing here with
  | nil => exact ⟨hs, hh⟩
  | cons o stack ih =>
    rw [List.forall_mem_cons] at hs
    have closed := hs.1.close hh
    unfold closeTo
    split
    · exact ⟨hs.2, closed⟩
    · exact ih hs.2 closed

theorem isLexed_closeAll {stack : List OpenElement} {here : Forest}
    (hs : ∀ o ∈ stack, OpenIsLexed o) (hh : here.IsLexed) : (closeAll stack here).IsLexed := by
  induction stack generalizing here with
  | nil => exact hh
  | cons o stack ih =>
    rw [List.forall_mem_cons] at hs
    exact ih hs.2 (hs.1.close hh)

theorem isLexed_grow {tokens : List Token} {stack : List OpenElement} {here : Forest}
    (ht : ∀ token ∈ tokens, token.IsWellFormed) (hs : ∀ o ∈ stack, OpenIsLexed o)
    (hh : here.IsLexed) : (grow stack here tokens).IsLexed := by
  induction tokens generalizing stack here with
  | nil => exact isLexed_closeAll hs hh
  | cons token tokens ih =>
    obtain ⟨token_ok, later⟩ := List.forall_mem_cons.mp ht
    cases token with
    | startTag tag isClosed =>
      unfold grow
      split
      · exact ih later hs (hh.append (isLexed_element token_ok (fun _ => rfl) isLexed_nil))
      · rename_i opens
        have not_void : ¬tag.isVoid := by
          intro void
          simp [void] at opens
        refine ih later ?_ isLexed_nil
        rw [List.forall_mem_cons]
        exact ⟨⟨token_ok, not_void, hh⟩, hs⟩
    | endTag name =>
      unfold grow
      split
      · obtain ⟨stack_ok, here_ok⟩ := isLexed_closeTo hs hh
        exact ih later stack_ok here_ok
      · exact ih later hs hh
    | text content | comment body | declaration raw =>
      exact ih later hs (hh.append ⟨rfl, token_ok, trivial⟩)

/-- Every source is read as a lexed forest. -/
theorem isLexed_read (source : Text) : (read source).IsLexed :=
  isLexed_grow (Token.isWellFormed_scan source) (by simp) isLexed_nil

theorem IsLexed.children_find? {choice : Element → Bool} {f : Forest} {e : Element}
    (h : f.IsLexed) (he : f.find? choice = some e) : e.children.IsLexed where
  unsealed_eq := unsealed_children_find? h.unsealed_eq he
  obeys := h.obeys.children_find? he

theorem IsLexed.markedBody {type : Text} {f : Forest} (h : f.IsLexed) :
    (f.markedBody type).IsLexed := by
  unfold Forest.markedBody
  split
  · rename_i he
    exact h.children_find? he
  · exact h

/-- A forest no part of which is expanded yet. -/
structure IsRaw (f : Forest) : Prop where
  unsealed_eq : f.unsealed = f
  hasDistinctNames : f.Every Tag.HasDistinctNames fun _ => True

theorem IsLexed.isRaw {f : Forest} (h : f.IsLexed) : f.IsRaw where
  unsealed_eq := h.unsealed_eq
  hasDistinctNames := by
    rw [every_iff_obeys]
    refine h.obeys.mono ?_ ?_ ?_ ?_
    · intro tag children ht
      exact ht.1.hasDistinctNames
    all_goals exact fun _ _ => trivial

theorem isRaw_read (source : Text) : (read source).IsRaw := (isLexed_read source).isRaw

end Forest

/-- The body of every fragment is lexed. -/
theorem Store.isLexed_load {store : Store} {path : Path} {body : Forest}
    (h : store.load path = .ok body) : body.IsLexed := by
  unfold load at h
  split at h
  · split at h
    · obtain rfl := by simpa using h
      exact (Forest.isLexed_read _).markedBody
    · simp at h
  · simp at h

theorem Store.isRaw_load {store : Store} {path : Path} {body : Forest}
    (h : store.load path = .ok body) : body.IsRaw := (isLexed_load h).isRaw

end HtmlTemplate
