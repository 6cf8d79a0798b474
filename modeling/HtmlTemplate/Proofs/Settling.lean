import HtmlTemplate.Proofs.Plain

/-!
# What reading leaves of the tokens

Reading drops the end tags that end nothing and adds those that are missing. The tokens that
the forest is written with can be told token by token, from the names of the elements that are
open. Main result: they are the tokens of the forest that is read.
-/
namespace HtmlTemplate

namespace Token

def isEndTag : Token → Bool
  | endTag _ => true
  | _ => false

/-- The names of the elements that an end tag ends, innermost first: none, if no open element
has its name. -/
def closing (name : Text) (opened : List Text) : List Text :=
  if opened.contains name then opened.takeWhile (· != name) ++ [name] else []

/-- The names of the open elements after a token. -/
def openAfter (opened : List Text) : Token → List Text
  | startTag tag isClosed => if isClosed || tag.isVoid then opened else tag.name :: opened
  | endTag name => opened.drop (closing name opened).length
  | _ => opened

/-- What is written for a token below the open elements. -/
def settled (opened : List Text) : Token → List Token
  | startTag tag isClosed =>
    .startTag tag false :: if isClosed && !tag.isVoid then [.endTag tag.name] else []
  | endTag name => (closing name opened).map .endTag
  | token => [token]

/-- What is written for the tokens below the open elements, which all end with the source. -/
def settle (opened : List Text) : List Token → List Token
  | [] => opened.map .endTag
  | token :: tokens => token.settled opened ++ settle (token.openAfter opened) tokens

theorem closing_cons_self (name : Text) (opened : List Text) :
    closing name (name :: opened) = [name] := by
  simp [closing]

theorem closing_cons_of_ne {name other : Text} (hn : other ≠ name) {opened : List Text}
    (h : name ∈ opened) : closing name (other :: opened) = other :: closing name opened := by
  simp [closing, h, hn]

theorem closing_of_not_mem {name : Text} {opened : List Text} (h : name ∉ opened) :
    closing name opened = [] := by
  simp [closing, h]

/-! ### How tokens are written -/

def print : Token → Text
  | startTag tag _ => tag.print
  | endTag name => Tag.printEnd ⟨name, []⟩
  | text content => content
  | comment body => ['<', '!', '-', '-'] ++ body ++ commentEnd
  | declaration raw => raw

/-- The tokens written one after the other. -/
def printAll (tokens : List Token) : Text := tokens.flatMap print

theorem printAll_cons (token : Token) (tokens : List Token) :
    printAll (token :: tokens) = token.print ++ printAll tokens := List.flatMap_cons

theorem printAll_append (tokens more : List Token) :
    printAll (tokens ++ more) = printAll tokens ++ printAll more := List.flatMap_append

/-- The tokens with neighbouring texts as one, and without empty ones. -/
def joinTexts : List Token → List Token
  | [] => []
  | text content :: tokens => prependText content (joinTexts tokens)
  | token :: tokens => token :: joinTexts tokens

theorem joinTexts_cons {token : Token} (h : token.isText = false) (tokens : List Token) :
    joinTexts (token :: tokens) = token :: joinTexts tokens := by
  cases token with
  | text content => exact absurd h (by simp [isText])
  | _ => rfl

theorem prependText_append_cons {token : Token} (h : token.isText = false) (content : Text)
    (tokens more : List Token) : prependText content (tokens ++ token :: more)
      = prependText content tokens ++ token :: more := by
  cases content with
  | nil => rfl
  | cons c content =>
    cases tokens with
    | nil => cases token <;> simp_all [prependText, isText]
    | cons t tokens => cases t <;> rfl

/-- Texts are not joined across another token. -/
theorem joinTexts_append_cons {token : Token} (h : token.isText = false)
    (tokens more : List Token) : joinTexts (tokens ++ token :: more)
      = joinTexts tokens ++ token :: joinTexts more := by
  induction tokens with
  | nil => exact joinTexts_cons h more
  | cons t tokens ih =>
    cases t with
    | text content =>
      show prependText content (joinTexts (tokens ++ token :: more)) = _
      rw [ih, prependText_append_cons h]
      rfl
    | _ => exact congrArg (List.cons _) ih

/-! ### Well-formed tokens settle as well-formed tokens -/

theorem closing_subset (name : Text) (opened : List Text) : closing name opened ⊆ opened := by
  intro n hn
  unfold closing at hn
  split at hn
  · rename_i found
    rcases List.mem_append.mp hn with before | last
    · exact (List.takeWhile_sublist _).subset before
    · rw [List.mem_singleton.mp last]
      simpa using found
  · simp at hn

variable {opened : List Text}

theorem isTagName_openAfter (names : ∀ n ∈ opened, isTagName n) {token : Token}
    (ht : token.IsWellFormed) : ∀ n ∈ token.openAfter opened, isTagName n := by
  cases token with
  | startTag tag isClosed =>
    show ∀ n ∈ if isClosed || tag.isVoid then opened else tag.name :: opened, isTagName n
    split
    · exact names
    · rw [List.forall_mem_cons]
      exact ⟨Tag.IsWellFormed.name_ok ht, names⟩
  | endTag name => exact fun n hn => names n ((List.drop_subset _ _) hn)
  | _ => exact names

theorem isWellFormed_settled (names : ∀ n ∈ opened, isTagName n) {token : Token}
    (ht : token.IsWellFormed) : ∀ t ∈ token.settled opened, t.IsWellFormed := by
  cases token with
  | startTag tag isClosed =>
    rw [settled, List.forall_mem_cons]
    refine ⟨ht, ?_⟩
    split
    · rw [List.forall_mem_singleton]
      exact Tag.IsWellFormed.name_ok ht
    · simp
  | endTag name =>
    intro t hm
    obtain ⟨n, hn, rfl⟩ := List.mem_map.mp hm
    exact names n (closing_subset name opened hn)
  | _ => exact (List.forall_mem_singleton).mpr ht

theorem isWellFormed_settle {tokens : List Token} (ht : ∀ token ∈ tokens, token.IsWellFormed)
    (names : ∀ n ∈ opened, isTagName n) : ∀ t ∈ settle opened tokens, t.IsWellFormed := by
  induction tokens generalizing opened with
  | nil =>
    intro t hm
    obtain ⟨n, hn, rfl⟩ := List.mem_map.mp hm
    exact names n hn
  | cons token tokens ih =>
    obtain ⟨token_ok, later⟩ := List.forall_mem_cons.mp ht
    rw [settle, List.forall_mem_append]
    exact ⟨isWellFormed_settled names token_ok, ih later (isTagName_openAfter names token_ok)⟩

end Token

namespace Forest

open Token (printAll joinTexts closing settle)

theorem tokens_append (f g : Forest) : (f ++ g).tokens = f.tokens ++ g.tokens := by
  induction f with
  | element tag s children rest _ ih => by_cases h : tag.isVoid <;> simp [tokens, h, ih]
  | _ => simp_all [tokens]

theorem printAll_tokens (f : Forest) : printAll f.tokens = f.print := by
  induction f with
  | nil => rfl
  | element tag s children rest ihc ihr =>
    by_cases h : tag.isVoid
    · rw [tokens, if_pos h, Token.printAll_cons, ihr, print, if_pos h]
      rfl
    · rw [tokens, if_neg h, Token.printAll_cons, Token.printAll_append, Token.printAll_cons, ihc,
        ihr, print, if_neg h]
      simp [Token.print, Tag.printEnd]
  | text content rest ih | comment body rest ih | declaration raw rest ih =>
    rw [tokens, Token.printAll_cons, ih]
    rfl

theorem tokens_prependText (t : Text) (f : Forest) :
    (prependText t f).tokens = Token.prependText t f.tokens := by
  cases t with
  | nil => rfl
  | cons c t =>
    cases f with
    | element tag s children rest =>
      show (text (c :: t) (element tag s children rest)).tokens = _
      by_cases h : tag.isVoid <;> simp [tokens, h, Token.prependText]
    | _ => rfl

theorem tokens_joined (f : Forest) : f.joined.tokens = joinTexts f.tokens := by
  induction f with
  | nil => rfl
  | element tag s children rest ihc ihr =>
    by_cases h : tag.isVoid
    · rw [joined, tokens, if_pos h, ihr, tokens, if_pos h]
      rfl
    · rw [joined, tokens, if_neg h, ihc, ihr, tokens, if_neg h, Token.joinTexts_cons rfl,
        Token.joinTexts_append_cons rfl]
  | text content rest ih =>
    rw [joined, tokens_prependText, ih]
    rfl
  | comment body rest ih | declaration raw rest ih =>
    rw [joined, tokens, ih]
    rfl

/-! ### Tokens below open elements -/

/-- The tokens that the open elements and the siblings so far are written with. -/
def openTokens : List OpenElement → Forest → List Token
  | [], here => here.tokens
  | o :: stack, here => openTokens stack o.before ++ .startTag o.tag false :: here.tokens

/-- The names of open elements, innermost first. -/
def openNames (stack : List OpenElement) : List Text := stack.map (·.tag.name)

theorem openTokens_append (stack : List OpenElement) (here f : Forest) :
    openTokens stack (here ++ f) = openTokens stack here ++ f.tokens := by
  cases stack <;> simp [openTokens, tokens_append]

theorem openTokens_close {o : OpenElement} (h : ¬o.tag.isVoid) (stack : List OpenElement)
    (here : Forest) : openTokens stack (o.before ++ element o.tag false here nil)
      = openTokens (o :: stack) here ++ [.endTag o.tag.name] := by
  rw [openTokens_append, tokens, if_neg h, tokens, openTokens, List.append_assoc,
    List.cons_append]

theorem tokens_closeAll {stack : List OpenElement} (hs : ∀ o ∈ stack, ¬o.tag.isVoid)
    (here : Forest) : (closeAll stack here).tokens
      = openTokens stack here ++ (openNames stack).map .endTag := by
  induction stack generalizing here with
  | nil => exact (List.append_nil _).symm
  | cons o stack ih =>
    rw [List.forall_mem_cons] at hs
    rw [closeAll, ih hs.2, openTokens_close hs.1, List.append_assoc]
    rfl

theorem mem_openNames_iff {name : Text} {stack : List OpenElement} :
    stack.any (·.tag.name == name) ↔ name ∈ openNames stack := by
  simp [openNames]

theorem openNames_closeTo {name : Text} {stack : List OpenElement} (h : name ∈ openNames stack)
    (here : Forest) : openNames (closeTo name stack here).1
      = (openNames stack).drop (closing name (openNames stack)).length := by
  induction stack generalizing here with
  | nil => simp [openNames] at h
  | cons o stack ih =>
    have names : openNames (o :: stack) = o.tag.name :: openNames stack := rfl
    by_cases he : o.tag.name = name
    · rw [closeTo, if_pos he, names, he, Token.closing_cons_self]
      rfl
    · have deeper : name ∈ openNames stack := by
        rw [names] at h
        exact (List.mem_cons.mp h).resolve_left (Ne.symm he)
      rw [closeTo, if_neg he, names, Token.closing_cons_of_ne he deeper, ih deeper]
      rfl

theorem openTokens_closeTo {name : Text} {stack : List OpenElement}
    (hs : ∀ o ∈ stack, ¬o.tag.isVoid) (h : name ∈ openNames stack) (here : Forest) :
    openTokens (closeTo name stack here).1 (closeTo name stack here).2
        = openTokens stack here ++ (closing name (openNames stack)).map .endTag ∧
      ∀ o ∈ (closeTo name stack here).1, ¬o.tag.isVoid := by
  induction stack generalizing here with
  | nil => simp [openNames] at h
  | cons o stack ih =>
    obtain ⟨solid, later⟩ := List.forall_mem_cons.mp hs
    have names : openNames (o :: stack) = o.tag.name :: openNames stack := rfl
    by_cases he : o.tag.name = name
    · rw [closeTo, if_pos he, names, he, Token.closing_cons_self, openTokens_close solid, he]
      exact ⟨rfl, later⟩
    · have deeper : name ∈ openNames stack := by
        rw [names] at h
        exact (List.mem_cons.mp h).resolve_left (Ne.symm he)
      obtain ⟨written, solids⟩ := ih later deeper (o.before ++ element o.tag false here nil)
      rw [closeTo, if_neg he, names, Token.closing_cons_of_ne he deeper]
      refine ⟨?_, solids⟩
      rw [written, openTokens_close solid, List.append_assoc]
      rfl

theorem tokens_grow (ts : List Token) {stack : List OpenElement}
    (hs : ∀ o ∈ stack, ¬o.tag.isVoid) (here : Forest) : (grow stack here ts).tokens
      = openTokens stack here ++ settle (openNames stack) ts := by
  induction ts generalizing stack here with
  | nil => exact tokens_closeAll hs here
  | cons token ts ih =>
    cases token with
    | startTag tag isClosed =>
      by_cases empty : isClosed || tag.isVoid
      · rw [grow, if_pos empty, ih hs, openTokens_append, List.append_assoc]
        congr 1
        by_cases void : tag.isVoid
        · simp [tokens, settle, Token.settled, Token.openAfter, void]
        · have closed : isClosed := by simpa [void] using empty
          simp [tokens, settle, Token.settled, Token.openAfter, void, closed]
      · obtain ⟨isOpen, solid⟩ : isClosed = false ∧ tag.isVoid = false := by simpa using empty
        have stack_ok : ∀ o ∈ (⟨tag, here⟩ : OpenElement) :: stack, ¬o.tag.isVoid := by
          rw [List.forall_mem_cons]
          exact ⟨by simp [solid], hs⟩
        rw [grow, if_neg empty, ih stack_ok, openTokens, tokens]
        simp [settle, Token.settled, Token.openAfter, isOpen, solid, openNames]
    | endTag name =>
      by_cases h : name ∈ openNames stack
      · obtain ⟨written, solids⟩ := openTokens_closeTo hs h here
        rw [grow, if_pos (mem_openNames_iff.mpr h)]
        dsimp only
        rw [ih solids, written, openNames_closeTo h, List.append_assoc]
        rfl
      · rw [grow, if_neg (mt mem_openNames_iff.mp h), ih hs, settle, Token.settled, Token.openAfter,
          Token.closing_of_not_mem h]
        rfl
    | text content | comment body | declaration raw =>
      rw [grow, ih hs, openTokens_append, List.append_assoc]
      rfl

/-- The tokens that a source settles as are those of the forest that it is read as. -/
theorem tokens_read (source : Text) : (read source).tokens = settle [] (Token.scan source) := by
  have none_open : ∀ o ∈ ([] : List OpenElement), ¬o.tag.isVoid := by simp
  have grown := tokens_grow (Token.scan source) none_open nil
  rwa [openTokens, tokens, List.nil_append] at grown

/-! ### What is read is built of tokens -/

theorem IsLexed.isBuilt {f : Forest} (h : f.IsLexed) : f.IsBuilt := by
  obtain ⟨unsealed, obeys⟩ := h
  induction f with
  | nil => trivial
  | element tag s children rest ihc ihr =>
    obtain ⟨-, rfl, hc, hr⟩ := element.inj unsealed
    exact ⟨rfl, obeys.1.2, ihc hc obeys.2.1, ihr hr obeys.2.2⟩
  | text content rest ih => exact ih (text.inj unsealed).2 obeys.2
  | comment body rest ih => exact ih (comment.inj unsealed).2 obeys.2
  | declaration raw rest ih => exact ih (declaration.inj unsealed).2 obeys.2

theorem IsBuilt.prependText {f : Forest} (h : f.IsBuilt) (t : Text) :
    (prependText t f).IsBuilt := by
  cases t with
  | nil => exact h
  | cons c t => cases f <;> exact h

theorem IsBuilt.joined {f : Forest} (h : f.IsBuilt) : f.joined.IsBuilt := by
  induction f with
  | nil => trivial
  | element tag s children rest ihc ihr =>
    obtain ⟨isOpen, void, hc, hr⟩ := h
    refine ⟨isOpen, ?_, ihc hc, ihr hr⟩
    intro hv
    rw [void hv]
    rfl
  | text content rest ih => exact (ih h).prependText content
  | comment body rest ih | declaration raw rest ih => exact ih h

end Forest

end HtmlTemplate
