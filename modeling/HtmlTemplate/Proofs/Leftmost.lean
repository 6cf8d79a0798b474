import HtmlTemplate.Placeholder
import HtmlTemplate.Proofs.Text

/-!
# The leftmost placeholders of a text

A placeholder begins where a text goes on with two opening braces, a body without a closing
brace, and two closing ones. Main results: a text is cut in exactly one way into placeholders
and literal parts within which no placeholder begins; those are the placeholders that are
replaced, from left to right and each by one action, and what is put in is not looked at.
-/
namespace HtmlTemplate

namespace Placeholder

/-- What the text between the braces says: a path that is not empty and, after the first bar, a
default. -/
inductive Spells : (body : Text) → Placeholder → Prop
  | path {path : Text} : path ≠ [] → '|' ∉ path → Spells path ⟨path.trim, none⟩
  | withDefault {path default : Text} : path ≠ [] → '|' ∉ path →
      Spells (path ++ '|' :: default) ⟨path.trim, some default.trim⟩

/-- A placeholder as it is written, with its braces. -/
inductive Written : Text → Placeholder → Prop
  | braces {body : Text} {p : Placeholder} : '\x7d' ∉ body → Spells body p →
      Written ("\x7b\x7b".toList ++ body ++ "\x7d\x7d".toList) p

/-- A placeholder occurs at the first position of the text. -/
def Begins (t : Text) : Prop := ∃ written p rest, Written written p ∧ t = written ++ rest

theorem Written.ne_nil {written : Text} {p : Placeholder} (h : Written written p) :
    written ≠ [] := by
  obtain ⟨-, -⟩ := h
  simp

/-! ### What is read is what is written -/

theorem ofBody?_eq_some_iff {body : Text} {p : Placeholder} :
    ofBody? body = some p ↔ Spells body p := by
  unfold ofBody?
  constructor
  · intro h
    dsimp only at h
    split at h
    · simp at h
    · rename_i named
      rw [List.isEmpty_iff] at named
      rcases Text.dropWhile_ne_cases '|' body with ⟨bare, all, none_left⟩ | ⟨default, bar, whole⟩
      · rw [none_left, all] at h
        obtain rfl := Option.some.inj h
        exact .path (all ▸ named) bare
      · rw [bar] at h
        obtain rfl := Option.some.inj h
        have spelled := @Spells.withDefault _ default named (Text.not_mem_takeWhile_ne '|' body)
        rwa [← whole] at spelled
  · intro h
    cases h with
    | path named bare =>
      rcases Text.dropWhile_ne_cases '|' body with ⟨-, all, none_left⟩ | ⟨default, -, whole⟩
      · rw [none_left, all]
        simp [named]
      · exact absurd (by rw [whole]; simp) bare
    | withDefault named bare =>
      rw [Text.takeWhile_ne_append bare, Text.dropWhile_ne_append bare]
      simp [named]

/-- The placeholder whose body begins a text, and the length of the body with its closing
braces. -/
def closed? (t : Text) : Option (Placeholder × Nat) :=
  let body := t.takeWhile (· != '\x7d')
  if "\x7d\x7d".toList.isPrefixOf (t.drop body.length) then
    (ofBody? body).map (·, body.length + 2)
  else none

theorem start?_open (t : Text) :
    start? ('\x7b' :: '\x7b' :: t) = (closed? t).map fun (p, length) => (p, t.drop length) := by
  rcases Text.dropWhile_ne_cases '\x7d' t with ⟨-, all, none_left⟩ | ⟨rest, -, whole⟩
  · rw [start?, closed?, none_left, all]
    simp
  · have outside := Text.not_mem_takeWhile_ne '\x7d' t
    generalize t.takeWhile (· != '\x7d') = body at whole outside
    subst whole
    rw [start?, closed?, Text.dropWhile_ne_append outside, Text.takeWhile_ne_append outside]
    dsimp only
    rw [List.drop_left]
    cases rest with
    | nil => rfl
    | cons c rest =>
      by_cases hc : c = '\x7d'
      · subst hc
        have left : (body ++ '\x7d' :: '\x7d' :: rest).drop (body.length + 2) = rest := by
          rw [← List.drop_drop, List.drop_left]
          rfl
        simp [Function.comp_def, left]
      · simp [hc, Ne.symm hc]

theorem start?_eq_some_iff {t rest : Text} {p : Placeholder} :
    start? t = some (p, rest) ↔ ∃ written, Written written p ∧ t = written ++ rest := by
  constructor
  · intro h
    unfold start? at h
    split at h
    · rename_i t
      split at h
      · rename_i rest' closed
        obtain ⟨q, read, he⟩ := Option.map_eq_some_iff.mp h
        obtain ⟨rfl, rfl⟩ := Prod.mk.inj he
        have whole := List.takeWhile_append_dropWhile (p := (· != '\x7d')) (l := t)
        rw [closed] at whole
        refine ⟨_, .braces (Text.not_mem_takeWhile_ne '\x7d' t) (ofBody?_eq_some_iff.mp read), ?_⟩
        simpa using congrArg (['\x7b', '\x7b'] ++ ·) whole.symm
      · simp at h
    · simp at h
  · rintro ⟨_, ⟨outside, spelled⟩, rfl⟩
    rename_i body
    have whole : "\x7b\x7b".toList ++ body ++ "\x7d\x7d".toList ++ rest
        = '\x7b' :: '\x7b' :: (body ++ '\x7d' :: '\x7d' :: rest) := by simp
    rw [whole, start?, Text.dropWhile_ne_append outside, Text.takeWhile_ne_append outside,
      ofBody?_eq_some_iff.mpr spelled]
    rfl

theorem start?_eq_none_iff {t : Text} : start? t = none ↔ ¬Begins t := by
  rw [← not_iff_not, not_not]
  cases h : start? t with
  | none =>
    simp only [not_true_eq_false, false_iff]
    rintro ⟨written, p, rest, spelled, rfl⟩
    have found : start? (written ++ rest) = some (p, rest) :=
      start?_eq_some_iff.mpr ⟨written, spelled, rfl⟩
    simp [h] at found
  | some found =>
    obtain ⟨p, rest⟩ := found
    obtain ⟨written, spelled, rfl⟩ := start?_eq_some_iff.mp h
    exact iff_of_true (by simp) ⟨written, p, rest, spelled, rfl⟩

end Placeholder

open Placeholder (Begins Written start? start?_eq_some_iff start?_eq_none_iff)

/-- No placeholder begins at any position within a part of a text, which goes on with `after`. -/
def IsLiteral (part after : Text) : Prop := ∀ t, t ≠ [] → t <:+ part → ¬Begins (t ++ after)

theorem isLiteral_nil (after : Text) : IsLiteral [] after := by
  intro t solid suffix
  exact absurd (List.suffix_nil.mp suffix) solid

theorem isLiteral_singleton {c : Char} {after : Text} (h : ¬Begins (c :: after)) :
    IsLiteral [c] after := by
  intro t solid suffix
  rcases List.suffix_cons_iff.mp suffix with rfl | nothing
  · exact h
  · exact absurd (List.suffix_nil.mp nothing) solid

theorem IsLiteral.append {a b after : Text} (ha : IsLiteral a (b ++ after))
    (hb : IsLiteral b after) : IsLiteral (a ++ b) after := by
  rintro t solid ⟨u, whole⟩
  rcases List.append_eq_append_iff.mp whole with ⟨later, rfl, rfl⟩ | ⟨late, rfl, rfl⟩
  · by_cases here : later = []
    · subst here
      exact hb _ solid (List.suffix_refl _)
    · rw [List.append_assoc]
      exact ha later here (List.suffix_append u later)
  · exact hb t solid (List.suffix_append late t)

/-- A placeholder of a text does not begin before the end of its literal part. -/
theorem IsLiteral.exists_before {part after before written rest : Text} {p : Placeholder}
    (h : IsLiteral part after) (spelled : Written written p)
    (whole : part ++ after = before ++ (written ++ rest)) :
    ∃ between, before = part ++ between ∧ after = between ++ (written ++ rest) := by
  rcases List.append_eq_append_iff.mp whole with ⟨between, rfl, rfl⟩ | ⟨inside, rfl, begins⟩
  · exact ⟨between, rfl, rfl⟩
  · by_cases here : inside = []
    · subst here
      exact ⟨[], by simp, by simpa using begins.symm⟩
    · have found : Begins (inside ++ after) := ⟨written, p, rest, spelled, begins.symm⟩
      exact absurd found (h inside here (List.suffix_append before inside))

/-- A text cut into literal parts and placeholders in turn, the placeholders with what they are
written as. -/
inductive Cut where
  | last (literal : Text)
  | hole (literal written : Text) (p : Placeholder) (after : Cut)
deriving DecidableEq, Repr

namespace Cut

/-- The text that was cut. -/
def source : Cut → Text
  | last literal => literal
  | hole literal written _ after => literal ++ (written ++ after.source)

def placeholders : Cut → List Placeholder
  | last _ => []
  | hole _ _ p after => p :: after.placeholders

/-- The placeholders are written in the text, and none begins outside of them. -/
def IsLeftmost : Cut → Prop
  | last literal => IsLiteral literal []
  | hole literal written p after =>
    IsLiteral literal (written ++ after.source) ∧ Written written p ∧ after.IsLeftmost

/-- The literal parts with what an action makes of each placeholder between them. The actions
are taken from left to right. -/
def fill {m : Type → Type} [Monad m] (replace : Placeholder → m Text) : Cut → m Text
  | last literal => return literal
  | hole literal _ p after => do
    let new ← replace p
    let rest ← after.fill replace
    return literal ++ (new ++ rest)

/-- The cut of the text with more literal text before it. -/
def prepend (more : Text) : Cut → Cut
  | last literal => last (more ++ literal)
  | hole literal written p after => hole (more ++ literal) written p after

@[simp] theorem source_prepend (more : Text) (cut : Cut) :
    (cut.prepend more).source = more ++ cut.source := by
  cases cut <;> simp [prepend, source]

@[simp] theorem placeholders_prepend (more : Text) (cut : Cut) :
    (cut.prepend more).placeholders = cut.placeholders := by
  cases cut <;> rfl

theorem fill_prepend {m : Type → Type} [Monad m] [LawfulMonad m]
    (replace : Placeholder → m Text) (more : Text) (cut : Cut) :
    (cut.prepend more).fill replace = (do return more ++ (← cut.fill replace)) := by
  cases cut <;> simp [prepend, fill]

theorem IsLeftmost.prepend {more : Text} {cut : Cut} (h : cut.IsLeftmost)
    (literal : IsLiteral more cut.source) : (cut.prepend more).IsLeftmost := by
  cases cut with
  | last part =>
    exact IsLiteral.append (by simpa [source] using literal) h
  | hole part written p after => exact ⟨literal.append h.1, h.2⟩

/-- Two cuts of one text are the same. -/
theorem eq_of_source_eq {cut other : Cut} (h : cut.IsLeftmost) (ho : other.IsLeftmost)
    (same : cut.source = other.source) : cut = other := by
  have ends {part before written rest : Text} {p : Placeholder} (h : IsLiteral part [])
      (spelled : Written written p) (whole : part = before ++ (written ++ rest)) : False := by
    obtain ⟨between, -, nothing⟩ := h.exists_before spelled (by rw [List.append_nil, whole])
    have nothing_written := (List.append_eq_nil_iff.mp nothing.symm).2
    exact spelled.ne_nil (List.append_eq_nil_iff.mp nothing_written).1
  induction cut generalizing other with
  | last part =>
    cases other with
    | last part' => exact congrArg last same
    | hole part' written' p' after' => exact (ends h ho.2.1 same).elim
  | hole part written p after ih =>
    cases other with
    | last part' => exact (ends ho h.2.1 same.symm).elim
    | hole part' written' p' after' =>
      obtain ⟨literal, spelled, left⟩ := h
      obtain ⟨literal', spelled', left'⟩ := ho
      obtain ⟨between, longer, -⟩ := literal.exists_before spelled' same
      obtain ⟨between', shorter, -⟩ := literal'.exists_before spelled same.symm
      have parts : part = part' := by
        have lengths := congrArg List.length shorter
        rw [longer, List.length_append, List.length_append] at lengths
        have none_between : between = [] := List.length_eq_zero_iff.mp (by omega)
        rw [longer, none_between, List.append_nil]
      subst parts
      have begins : written ++ after.source = written' ++ after'.source :=
        List.append_cancel_left same
      have read : start? (written ++ after.source) = some (p, after.source) :=
        start?_eq_some_iff.mpr ⟨written, spelled, rfl⟩
      have read' : start? (written ++ after.source) = some (p', after'.source) :=
        start?_eq_some_iff.mpr ⟨written', spelled', begins⟩
      rw [read] at read'
      obtain ⟨rfl, sources⟩ := Prod.mk.inj (Option.some.inj read')
      obtain rfl := ih left left' sources
      obtain rfl := List.append_cancel_right begins
      rfl

end Cut

/-- A text has a leftmost cut, the placeholders of which are those that are found, and replaced. -/
theorem Text.exists_cut (t : Text) : ∃ cut : Cut, cut.source = t ∧ cut.IsLeftmost ∧
    t.placeholders = cut.placeholders ∧
    ∀ replace, t.substitute replace = cut.fill (m := Id) replace := by
  unfold Text.placeholders Text.substitute
  fun_induction Piece.scan t with
  | case1 t p rest found ih =>
    obtain ⟨written, spelled, rfl⟩ := start?_eq_some_iff.mp found
    obtain ⟨cut, rfl, leftmost, found, replaced⟩ := ih
    refine ⟨.hole [] written p cut, rfl, ⟨isLiteral_nil _, spelled, leftmost⟩, ?_, ?_⟩
    · rw [List.filterMap_cons, found]
      rfl
    · intro replace
      rw [List.flatMap_cons, replaced]
      rfl
  | case2 => exact ⟨.last [], rfl, isLiteral_nil _, rfl, fun _ => rfl⟩
  | case3 c t plain ih =>
    obtain ⟨cut, rfl, leftmost, found, replaced⟩ := ih
    have literal : IsLiteral [c] cut.source :=
      isLiteral_singleton (start?_eq_none_iff.mp plain)
    refine ⟨cut.prepend [c], by simp, leftmost.prepend literal, ?_, ?_⟩
    · rw [List.filterMap_cons, found, Cut.placeholders_prepend]
      rfl
    · intro replace
      rw [List.flatMap_cons, replaced, Cut.fill_prepend]
      rfl

/-! ### Replacing in place -/

/-- What becomes of a text: the same text while nothing is replaced in it, or else a new one. -/
inductive Substitution where
  | same (t : Text)
  | new (t : Text)
deriving DecidableEq, Repr

namespace Text

theorem drop_of_cutAt? {mark t before after : Text} {cursor : Nat}
    (h : cutAt? mark (t.drop cursor) = some (before, after)) :
    t.drop (cursor + before.length) = mark ++ after := by
  rw [← List.drop_drop, eq_append_of_cutAt? h, List.append_assoc, List.drop_left]

theorem lt_length_of_cutAt? {mark t before after : Text} {cursor : Nat} (hm : mark ≠ [])
    (h : cutAt? mark (t.drop cursor) = some (before, after)) :
    cursor + before.length < t.length := by
  have left := congrArg List.length (drop_of_cutAt? h)
  have solid := List.length_pos_iff.mpr hm
  rw [List.length_drop, List.length_append] at left
  omega

theorem le_length_of_cutAt? {mark t before after : Text} {cursor : Nat}
    (h : cutAt? mark (t.drop cursor) = some (before, after)) : cursor ≤ t.length := by
  by_contra past
  rw [List.drop_of_length_le (by omega)] at h
  simp [cutAt?] at h

/-- Replaces the placeholders of a text from a position on. What stands before the position is
copied already up to `copied`. After an opening that begins no placeholder, the search goes on
one character later. -/
def replaceFrom {m : Type → Type} [Monad m] (replace : Placeholder → m Text) (t output : Text)
    (copied cursor : Nat) : m Substitution :=
  match _h : cutAt? "\x7b\x7b".toList (t.drop cursor) with
  | none => return if copied = 0 then .same t else .new (output ++ t.drop copied)
  | some (before, after) =>
    let start := cursor + before.length
    match Placeholder.closed? after with
    | some (p, length) => do
      let new ← replace p
      let cursor := start + 2 + length
      replaceFrom replace t (output ++ (t.take start).drop copied ++ new) cursor cursor
    | none => replaceFrom replace t output copied (start + 1)
termination_by t.length - cursor
decreasing_by
  all_goals
    have := lt_length_of_cutAt? (by simp) _h
    omega

/-- Replaces the placeholders of a text, from left to right, each by what an action gives. -/
def replaceEach {m : Type → Type} [Monad m] (replace : Placeholder → m Text) (t : Text) :
    m Substitution := replaceFrom replace t [] 0 0

theorem drop_eq_append {copied cursor : Nat} (h : copied ≤ cursor) (t : Text) :
    t.drop copied = (t.take cursor).drop copied ++ t.drop cursor := by
  have apart : cursor = copied + (cursor - copied) := by omega
  rw [List.drop_take, apart, ← List.drop_drop, ← apart, List.take_append_drop]

theorem drop_take_append {copied cursor : Nat} {t run rest : Text} (order : copied ≤ cursor)
    (inside : cursor ≤ t.length) (whole : t.drop cursor = run ++ rest) :
    (t.take (cursor + run.length)).drop copied = (t.take cursor).drop copied ++ run := by
  have fits : copied ≤ (t.take cursor).length := by
    rw [List.length_take]
    omega
  rw [List.take_add, whole, List.take_left, List.drop_append_of_le_length fits]

/-- Before the first place of a mark the mark does not begin, also not with its last characters
beyond that place. -/
theorem not_prefix_of_cutAt? {mark t before after : Text}
    (h : cutAt? mark t = some (before, after)) {u : Text} (solid : u ≠ [])
    (suffix : u <:+ before) : ¬mark <+: u ++ (mark ++ after) := by
  induction t generalizing before with
  | nil => simp [cutAt?] at h
  | cons c t ih =>
    have whole := eq_append_of_cutAt? h
    unfold cutAt? at h
    split at h
    · obtain ⟨rfl, -⟩ := by simpa using h
      exact absurd (List.suffix_nil.mp suffix) solid
    · rename_i here
      obtain ⟨⟨b, a⟩, hcut, hb⟩ := Option.map_eq_some_iff.mp h
      obtain ⟨rfl, rfl⟩ := by simpa using hb
      rcases List.suffix_cons_iff.mp suffix with rfl | later
      · rw [← List.append_assoc, ← whole, ← stripStart?_isSome, here]
        decide
      · exact ih hcut later

end Text

namespace Placeholder

theorem Begins.isPrefix {t : Text} (h : Begins t) : "\x7b\x7b".toList <+: t := by
  obtain ⟨_, p, rest, ⟨-, -⟩, rfl⟩ := h
  simp only [List.append_assoc]
  exact List.prefix_append _ _

/-- Where no opening stands, no placeholder begins. -/
theorem isLiteral_of_cutAt?_none {t : Text} (h : Text.cutAt? "\x7b\x7b".toList t = none) :
    IsLiteral t [] := by
  intro u solid suffix begins
  rw [List.append_nil] at begins
  apply Text.not_infix_of_cutAt?_none (by simp) h
  exact begins.isPrefix.isInfix.trans suffix.isInfix

theorem isLiteral_of_cutAt? {t before after : Text}
    (h : Text.cutAt? "\x7b\x7b".toList t = some (before, after)) :
    IsLiteral before ("\x7b\x7b".toList ++ after) :=
  fun _ solid suffix begins => Text.not_prefix_of_cutAt? h solid suffix begins.isPrefix

theorem closed?_eq_some {t : Text} {p : Placeholder} {length : Nat}
    (h : closed? t = some (p, length)) :
    ∃ written, Written written p ∧ "\x7b\x7b".toList ++ t = written ++ t.drop length := by
  apply start?_eq_some_iff.mp
  show start? ('\x7b' :: '\x7b' :: t) = _
  rw [start?_open, h]
  rfl

theorem not_begins_of_closed?_eq_none {t : Text} (h : closed? t = none) :
    ¬Begins ("\x7b\x7b".toList ++ t) := by
  apply start?_eq_none_iff.mp
  show start? ('\x7b' :: '\x7b' :: t) = none
  rw [start?_open, h]
  rfl

end Placeholder

namespace Cut

variable {cut : Cut} {before after : Text}

/-- A leftmost cut has its first placeholder at the first opening, if one is closed there. -/
theorem IsLeftmost.eq_hole {p : Placeholder} {length : Nat} (h : cut.IsLeftmost)
    (found : Text.cutAt? "\x7b\x7b".toList cut.source = some (before, after))
    (closed : Placeholder.closed? after = some (p, length)) :
    ∃ written rest, cut = .hole before written p rest ∧ rest.IsLeftmost ∧
      rest.source = after.drop length := by
  obtain ⟨written, spelled, begins⟩ := Placeholder.closed?_eq_some closed
  obtain ⟨rest, source, leftmost, -, -⟩ := Text.exists_cut (after.drop length)
  have literal := Placeholder.isLiteral_of_cutAt? found
  rw [begins, ← source] at literal
  have whole : cut.source = (hole before written p rest).source := by
    rw [Text.eq_append_of_cutAt? found, Cut.source, source, ← begins, List.append_assoc]
  exact ⟨written, rest, eq_of_source_eq h ⟨literal, spelled, leftmost⟩ whole, leftmost, source⟩

/-- Otherwise the first brace of that opening is literal. -/
theorem IsLeftmost.eq_prepend (h : cut.IsLeftmost)
    (found : Text.cutAt? "\x7b\x7b".toList cut.source = some (before, after))
    (closed : Placeholder.closed? after = none) :
    ∃ rest : Cut, cut = rest.prepend (before ++ ['\x7b']) ∧ rest.IsLeftmost ∧
      rest.source = '\x7b' :: after := by
  obtain ⟨rest, source, leftmost, -, -⟩ := Text.exists_cut ('\x7b' :: after)
  have opening : IsLiteral ['\x7b'] rest.source := by
    apply isLiteral_singleton
    rw [source]
    exact Placeholder.not_begins_of_closed?_eq_none closed
  have skipped : IsLiteral (before ++ ['\x7b']) rest.source := by
    apply IsLiteral.append _ opening
    rw [source]
    exact Placeholder.isLiteral_of_cutAt? found
  have whole : cut.source = (rest.prepend (before ++ ['\x7b'])).source := by
    rw [Text.eq_append_of_cutAt? found, source_prepend, source]
    simp
  exact ⟨rest, eq_of_source_eq h (leftmost.prepend skipped) whole, leftmost, source⟩

end Cut

namespace Text

variable {m : Type → Type} [Monad m] [LawfulMonad m]

/-- From any position on, the placeholders of the leftmost cut of what is left are replaced. -/
theorem replaceFrom_eq_fill (replace : Placeholder → m Text) (t output : Text)
    {copied cursor : Nat} (order : copied ≤ cursor) {cut : Cut} (leftmost : cut.IsLeftmost)
    (source : cut.source = t.drop cursor) :
    replaceFrom replace t output copied cursor = (do
      let new ← cut.fill replace
      return if copied = 0 ∧ cut.placeholders = [] then .same t
        else .new (output ++ (t.take cursor).drop copied ++ new)) := by
  fun_induction replaceFrom replace t output copied cursor generalizing cut with
  | case1 output copied cursor absent =>
    have literal : IsLiteral (t.drop cursor) [] := Placeholder.isLiteral_of_cutAt?_none absent
    obtain rfl : cut = .last (t.drop cursor) := Cut.eq_of_source_eq leftmost literal source
    rw [drop_eq_append order]
    simp [Cut.fill, Cut.placeholders]
  | case2 output copied cursor before after found start p length closed ih =>
    obtain ⟨written, rest, rfl, rest_leftmost, rest_source⟩ :=
      leftmost.eq_hole (source ▸ found) closed
    have left : rest.source = t.drop (start + 2 + length) := by
      rw [rest_source, ← List.drop_drop, ← List.drop_drop, drop_of_cutAt? found]
      rfl
    -- From here on something is copied, so the text is a new one whatever follows.
    have step (new : Text) : replaceFrom replace t (output ++ (t.take start).drop copied ++ new)
        (start + 2 + length) (start + 2 + length) = (do
          let more ← rest.fill replace
          return .new (output ++ (t.take start).drop copied ++ new ++ more)) := by
      rw [ih new (Nat.le_refl _) rest_leftmost left]
      simp
    have kept : (t.take start).drop copied = (t.take cursor).drop copied ++ before :=
      drop_take_append order (le_length_of_cutAt? found) source.symm
    rw [kept] at step ⊢
    simp only [step, Cut.fill, Cut.placeholders]
    simp
  | case3 output copied cursor before after found start closed ih =>
    obtain ⟨rest, rfl, rest_leftmost, rest_source⟩ :=
      leftmost.eq_prepend (source ▸ found) closed
    have left : rest.source = t.drop (start + 1) := by
      rw [rest_source, ← List.drop_drop, drop_of_cutAt? found]
      rfl
    have kept : (t.take (start + 1)).drop copied
        = (t.take cursor).drop copied ++ (before ++ ['\x7b']) := by
      have run : start + 1 = cursor + (before ++ ['\x7b']).length := by
        rw [List.length_append, List.length_singleton]
        omega
      rw [Cut.source_prepend] at source
      rw [run]
      exact drop_take_append order (le_length_of_cutAt? found) source.symm
    rw [ih (by omega) rest_leftmost left, kept, Cut.fill_prepend, Cut.placeholders_prepend]
    simp

theorem replaceEach_eq_fill (replace : Placeholder → m Text) {t : Text} {cut : Cut}
    (leftmost : cut.IsLeftmost) (source : cut.source = t) :
    t.replaceEach replace = (do
      let new ← cut.fill replace
      return if cut.placeholders = [] then .same t else .new new) := by
  rw [replaceEach, replaceFrom_eq_fill replace t [] (Nat.le_refl 0) leftmost source]
  simp

/-- Without effects, replacing each placeholder is substitution, which leaves a text without
placeholders as it is. -/
theorem replaceEach_eq_substitute (replace : Placeholder → Text) (t : Text) :
    t.replaceEach (m := Id) replace
      = if t.placeholders = [] then .same t else .new (t.substitute replace) := by
  obtain ⟨cut, source, leftmost, found, replaced⟩ := t.exists_cut
  rw [replaceEach_eq_fill (m := Id) replace leftmost source, found, replaced]
  rfl

/-- A text is cut in exactly one way into literal parts and placeholders such that no placeholder
begins within a literal part. Those placeholders are replaced, each by one action and in their
order, and the literal parts are kept; the text is the same text exactly when there are none.
The cut is that of the text alone, so nothing that an action gives is looked at. -/
theorem leftmost_placeholders_are_replaced (t : Text) :
    ∃ cut : Cut, cut.source = t ∧ cut.IsLeftmost ∧
      (∀ other : Cut, other.source = t → other.IsLeftmost → other = cut) ∧
      t.placeholders = cut.placeholders ∧
      (∀ replace, t.substitute replace = cut.fill (m := Id) replace) ∧
      ∀ {m : Type → Type} [Monad m] [LawfulMonad m] (replace : Placeholder → m Text),
        t.replaceEach replace = (do
          let new ← cut.fill replace
          return if cut.placeholders = [] then .same t else .new new) := by
  obtain ⟨cut, source, leftmost, found, replaced⟩ := t.exists_cut
  refine ⟨cut, source, leftmost, ?_, found, replaced, ?_⟩
  · intro other same other_leftmost
    exact Cut.eq_of_source_eq other_leftmost leftmost (same.trans source.symm)
  · intro m _ _ replace
    exact replaceEach_eq_fill replace leftmost source

/-- A run of braces, a body with a single closing brace, and one without a path. -/
example :
    Text.placeholders ("\x7b\x7b\x7b\x7bx\x7d\x7d \x7b\x7ba\x7db\x7d\x7d "
      ++ "\x7b\x7b|c\x7d\x7d \x7b\x7b d | e | f \x7d\x7d").toList
    = [⟨"\x7b\x7bx".toList, none⟩, ⟨"d".toList, some "e | f".toList⟩] := by
  decide +kernel

end Text

end HtmlTemplate
