import HtmlTemplate.Proofs.Scanning

/-!
# Reading undoes writing

A written forest is cut into the tokens that it was written with, and these tokens grow into
the forest again. Main result: every well-formed forest is what its written form is read as.
-/
namespace HtmlTemplate.Forest

open Token (scan prependText IsBoundary begins_startTag begins_endTag begins_comment
  begins_declaration cutRaw_of_not cutRaw_append scan_text prependText_scan)

/-- The tokens that a forest is written with. -/
def tokens : Forest → List Token
  | nil => []
  | element tag _ children rest =>
    if tag.isVoid then .startTag tag false :: rest.tokens
    else .startTag tag false :: (children.tokens ++ .endTag tag.name :: rest.tokens)
  | text content rest => .text content :: rest.tokens
  | comment body rest => .comment body :: rest.tokens
  | declaration raw rest => .declaration raw :: rest.tokens

/-- What tokens can grow into: nothing is sealed and void elements are empty. -/
def IsBuilt : Forest → Prop
  | nil => True
  | element tag isSealed children rest =>
    isSealed = false ∧ (tag.isVoid → children = nil) ∧ children.IsBuilt ∧ rest.IsBuilt
  | text _ rest => rest.IsBuilt
  | comment _ rest => rest.IsBuilt
  | declaration _ rest => rest.IsBuilt

theorem isBuilt_ofText (content : Text) : (ofText content).IsBuilt := by
  unfold ofText
  split <;> trivial

theorem WellFormed.isBuilt {f : Forest} (h : f.WellFormed) : f.IsBuilt := by
  induction h with
  | nil => trivial
  | void _ _ _ ih => exact ⟨rfl, fun _ => rfl, trivial, ih⟩
  | raw _ hr _ _ ih =>
    have solid := Tag.isVoid_eq_false_of_holdsRawText hr
    exact ⟨rfl, fun hv => by simp [solid] at hv, isBuilt_ofText _, ih⟩
  | element _ hv _ _ _ ihc ih => exact ⟨rfl, fun void => absurd void hv, ihc, ih⟩
  | text _ _ _ _ ih | comment _ _ ih | declaration _ _ ih => exact ih

/-! ### Tokens grow into the forest -/

theorem grow_endTag (stack : List OpenElement) (tag : Tag) (before here : Forest)
    (ts : List Token) : grow (⟨tag, before⟩ :: stack) here (.endTag tag.name :: ts)
      = grow stack (before ++ element tag false here nil) ts := by
  rw [grow, if_pos (by simp), closeTo, if_pos rfl]

theorem grow_element {tag : Tag} (hv : ¬tag.isVoid) {children : Forest} {inside : List Token}
    (held : ∀ stack here more, grow stack here (inside ++ more) = grow stack (here ++ children) more)
    (stack : List OpenElement) (here : Forest) (ts : List Token) :
    grow stack here (.startTag tag false :: (inside ++ .endTag tag.name :: ts))
      = grow stack (here ++ element tag false children nil) ts := by
  rw [grow, if_neg (by simp [hv]), held, nil_append, grow_endTag]

/-- The stack below the tokens of a forest does not matter to them, for they close what
they open. -/
theorem grow_tokens {f : Forest} (h : f.IsBuilt) (stack : List OpenElement) (here : Forest)
    (ts : List Token) : grow stack here (f.tokens ++ ts) = grow stack (here ++ f) ts := by
  induction f generalizing stack here ts with
  | nil => rw [append_nil, tokens, List.nil_append]
  | element tag s children rest ihc ihr =>
    obtain ⟨rfl, void, hc, hr⟩ := h
    by_cases hv : tag.isVoid
    · obtain rfl := void hv
      rw [tokens, if_pos hv, List.cons_append, grow, if_pos (by simp [hv]), ihr hr, append_assoc]
      rfl
    · rw [tokens, if_neg hv, List.cons_append, List.append_assoc, List.cons_append,
        grow_element hv (ihc hc), ihr hr, append_assoc]
      rfl
  | text content rest ih | comment body rest ih | declaration raw rest ih =>
    rw [tokens, List.cons_append, grow, ih h, append_assoc]
    rfl

theorem ofTokens_tokens {f : Forest} (h : f.IsBuilt) : ofTokens f.tokens = f := by
  have grown := grow_tokens h [] nil []
  rwa [List.append_nil, nil_append, grow, closeAll] at grown

/-! ### The written form is cut into the tokens -/

theorem print_ofText (content : Text) : (ofText content).print = content := by
  unfold ofText
  split
  · rename_i empty
    rw [empty, print]
  · rw [print, print, List.append_nil]

theorem prependText_endTag (content name : Text) (ts : List Token) :
    prependText content (.endTag name :: ts) = (ofText content).tokens ++ .endTag name :: ts := by
  cases content <;> rfl

/-- An element is written with its start tag first. -/
theorem exists_print_element (tag : Tag) (s : Bool) (children rest : Forest) :
    ∃ after, (element tag s children rest).print = tag.print ++ after := by
  rw [print]
  split
  · exact ⟨_, rfl⟩
  · exact ⟨children.print ++ tag.printEnd ++ rest.print, by simp only [List.append_assoc]⟩

theorem print_raw {tag : Tag} (h : tag.holdsRawText) (content : Text) (rest : Forest) (s : Text) :
    (element tag false (ofText content) rest).print ++ s
      = tag.print ++ (content ++ (tag.printEnd ++ (rest.print ++ s))) := by
  have solid := Tag.isVoid_eq_false_of_holdsRawText h
  rw [print, if_neg (by simp [solid]), print_ofText]
  simp only [List.append_assoc]

theorem isBoundary_print {f : Forest} {s : Text} (h : f.WellFormed)
    (ht : f.startsWithText = false) (hs : IsBoundary s) : IsBoundary (f.print ++ s) := by
  have opened {tag : Tag} {children rest : Forest} (htag : tag.IsWellFormed) :
      IsBoundary ((element tag false children rest).print ++ s) := by
    obtain ⟨after, he⟩ := exists_print_element tag false children rest
    rw [he, List.append_assoc]
    exact (begins_startTag htag _).isBoundary rfl
  cases h with
  | nil => exact hs
  | void htag _ _ | raw htag _ _ _ | element htag _ _ _ _ => exact opened htag
  | text => exact absurd ht (by simp [startsWithText])
  | comment hb _ =>
    rw [print, List.append_assoc _ _ s]
    exact (begins_comment hb _).isBoundary rfl
  | declaration hd _ =>
    rw [print, List.append_assoc]
    exact (begins_declaration hd _).isBoundary rfl

/-- What follows a written forest does not change how it is cut, if a text may end there. -/
theorem scan_print {f : Forest} (h : f.WellFormed) {s : Text} (hs : IsBoundary s) :
    scan (f.print ++ s) = f.tokens ++ scan s := by
  induction h generalizing s with
  | nil => rfl
  | @void tag rest htag hv _ ih =>
    have hr : ¬tag.holdsRawText := by
      intro hr
      rw [Tag.isVoid_eq_false_of_holdsRawText hr] at hv
      exact absurd hv (by decide)
    rw [print, if_pos hv, List.append_assoc, (begins_startTag htag _).scan_eq, cutRaw_of_not hr,
      ih hs, tokens, if_pos hv]
    rfl
  | @raw tag content rest htag hr hc _ ih =>
    have solid := Tag.isVoid_eq_false_of_holdsRawText hr
    have ends := begins_endTag htag.name_ok (rest.print ++ s)
    rw [print_raw hr, (begins_startTag htag _).scan_eq, cutRaw_append htag.name_ok hr hc,
      ends.scan_eq, ih hs, tokens, if_neg (by simp [solid])]
    dsimp only
    rw [prependText_endTag]
    simp [prependText]
  | @element tag children rest htag hv hr _ _ ihc ih =>
    have ends := begins_endTag htag.name_ok (rest.print ++ s)
    rw [print, if_neg hv]
    simp only [List.append_assoc]
    rw [(begins_startTag htag _).scan_eq, cutRaw_of_not hr, ihc (ends.isBoundary rfl),
      ends.scan_eq, ih hs, tokens, if_neg hv]
    simp [prependText]
  | @text content rest hn ho ht hw ih =>
    have after := isBoundary_print hw ht hs
    rw [print, List.append_assoc, scan_text ho after, prependText_scan hn after, ih hs]
    rfl
  | comment hb _ ih =>
    rw [print, List.append_assoc _ _ s, ← commentEnd, (begins_comment hb _).scan_eq, ih hs]
    rfl
  | declaration hd _ ih =>
    rw [print, List.append_assoc, (begins_declaration hd _).scan_eq, ih hs]
    rfl

theorem ofTokens_scan_print {f : Forest} (h : f.WellFormed) : ofTokens (scan f.print) = f := by
  have cut := scan_print h (.inl rfl : IsBoundary [])
  rw [Token.scan_nil, List.append_nil, List.append_nil] at cut
  rw [cut]
  exact ofTokens_tokens h.isBuilt

/-- Reading undoes writing: a well-formed forest is what its written form is read as. -/
theorem read_print {f : Forest} (h : f.WellFormed) : read f.print = f := by
  rw [read]
  exact ofTokens_scan_print h

/-- A script that writes a tag, values that need references, and a text that ends in `<`. -/
theorem read_print_page :
    let image : Tag := ⟨"img".toList, [⟨"alt".toList, "\"&lt;\" & 'x' </img>".toList⟩,
      ⟨"data-a@b".toList, []⟩]⟩
    let page : Forest :=
      .declaration "<!DOCTYPE html>".toList
        (.element ⟨"script".toList, []⟩ false (.text "s = '<b></b>' // </scrip".toList .nil)
          (.text "1 < 2 &amp; <".toList
            (.element image false .nil
              (.comment " <!-- x --".toList
                (.element ⟨"x:a.b-1".toList, []⟩ false (.text "t".toList .nil) .nil)))))
    page.WellFormed ∧ read page.print = page := by
  intro image page
  have letter : WellFormed (.text "t".toList .nil) := .text (by decide) (by decide) rfl .nil
  have last := WellFormed.element (by decide : Tag.IsWellFormed ⟨"x:a.b-1".toList, []⟩)
    (by decide) (by decide) letter .nil
  have shown : WellFormed (.element image false .nil (.comment " <!-- x --".toList _)) :=
    .void (by decide +kernel) (by decide) (.comment (by decide +kernel) last)
  have script : WellFormed (.element ⟨"script".toList, []⟩ false
      (ofText "s = '<b></b>' // </scrip".toList) (.text "1 < 2 &amp; <".toList _)) :=
    .raw (by decide) (by decide) (by decide +kernel) (.text (by decide) (by decide +kernel) rfl shown)
  have well_formed : page.WellFormed := .declaration (by decide +kernel) script
  exact ⟨well_formed, read_print well_formed⟩

end HtmlTemplate.Forest
