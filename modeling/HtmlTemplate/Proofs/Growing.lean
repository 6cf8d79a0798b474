import HtmlTemplate.Proofs.Settling

/-!
# Growing a forest from tokens

Elements wait on a stack until they end, and so come into the forest later than their tokens.
Main results: the nodes of the forest stand in the order of the tokens that they are made from,
and a forest grows from its tokens also where end tags are missing at the end, stray ones stand
between the others and empty elements are closed at once.
-/
namespace HtmlTemplate

/-- A node with all it holds. -/
inductive Node where
  | element (e : Element)
  | text (content : Text)
  | comment (body : Text)
  | declaration (raw : Text)
deriving DecidableEq, Repr

/-- The text of a text node, and nothing for any other. -/
def Node.content : Node → Text
  | text content => content
  | _ => []

namespace Token

/-- The text of a text, and nothing for any other token. -/
def content : Token → Text
  | text content => content
  | _ => []

/-- The nodes that a token may be made into. An element that is closed at once or void is
empty, what any other holds is up to the tokens that follow. -/
inductive Makes : Token → Node → Prop
  | element {tag : Tag} {isClosed : Bool} {children : Forest}
      (empty : isClosed ∨ tag.isVoid → children = .nil) :
      Makes (startTag tag isClosed) (.element ⟨tag, false, children⟩)
  | text (content : Text) : Makes (text content) (.text content)
  | comment (body : Text) : Makes (comment body) (.comment body)
  | declaration (raw : Text) : Makes (declaration raw) (.declaration raw)

theorem Makes.content_eq {token : Token} {n : Node} (h : token.Makes n) :
    n.content = token.content := by
  cases h <;> rfl

theorem flatMap_content_of_makes {tokens : List Token} {nodes : List Node}
    (h : List.Forall₂ Makes tokens nodes) :
    nodes.flatMap (·.content) = tokens.flatMap content := by
  induction h with
  | nil => rfl
  | cons made _ ih => rw [List.flatMap_cons, List.flatMap_cons, made.content_eq, ih]

theorem flatMap_content_filter (tokens : List Token) :
    (tokens.filter (!·.isEndTag)).flatMap content = tokens.flatMap content := by
  induction tokens with
  | nil => rfl
  | cons token tokens ih =>
    cases token with
    | endTag name =>
      rw [List.filter_cons_of_neg (by simp [isEndTag]), ih]
      rfl
    | _ =>
      rw [List.filter_cons_of_pos rfl, List.flatMap_cons, ih]
      rfl

end Token

namespace Forest

/-! ### Document order -/

/-- The nodes at every depth in document order, every element before what it holds. -/
def walk : Forest → List Node
  | nil => []
  | element tag isSealed children rest =>
    .element ⟨tag, isSealed, children⟩ :: (children.walk ++ rest.walk)
  | text content rest => .text content :: rest.walk
  | comment body rest => .comment body :: rest.walk
  | declaration raw rest => .declaration raw :: rest.walk

@[simp] theorem walk_append (f g : Forest) : (f ++ g).walk = f.walk ++ g.walk := by
  induction f with
  | nil => rfl
  | element tag s children rest _ ih => simp [walk, ih]
  | text content rest ih | comment body rest ih | declaration raw rest ih => simp [walk, ih]

theorem textContent_eq_walk (f : Forest) : f.textContent = f.walk.flatMap (·.content) := by
  induction f with
  | nil => rfl
  | element tag s children rest ihc ihr =>
    simp [textContent, walk, Node.content, ihc, ihr]
  | text content rest ih | comment body rest ih | declaration raw rest ih =>
    simp [textContent, walk, Node.content, ih]

/-- The nodes that come before what grows below the open elements, whatever these elements hold
in the end. -/
inductive Around : List OpenElement → List Node → Prop
  | nil : Around [] []
  | cons {o : OpenElement} {stack : List OpenElement} {nodes : List Node} (children : Forest)
      (outer : Around stack nodes) :
      Around (o :: stack) (nodes ++ (o.before.walk ++ [.element ⟨o.tag, false, children⟩]))

/-- The forest has the nodes around the open elements, then those that are there already, and
then one for each token that is no end tag. -/
def GrownFrom (tokens : List Token) (stack : List OpenElement) (here f : Forest) : Prop :=
  ∃ outer grown, Around stack outer ∧
    List.Forall₂ Token.Makes (tokens.filter (!·.isEndTag)) grown ∧
    f.walk = outer ++ here.walk ++ grown

section Steps

variable {stack : List OpenElement} {here f : Forest} {token : Token} {tokens : List Token}

/-- A token makes a node at the place where the forest grows. -/
theorem GrownFrom.add {node : Forest} {n : Node} (one : node.walk = [n]) (made : token.Makes n)
    (other : token.isEndTag = false) (h : GrownFrom tokens stack (here ++ node) f) :
    GrownFrom (token :: tokens) stack here f := by
  obtain ⟨outer, grown, around, makes, whole⟩ := h
  refine ⟨outer, n :: grown, around, ?_, ?_⟩
  · rw [List.filter_cons_of_pos (by simp [other])]
    exact .cons made makes
  · rw [whole]
    simp [one]

/-- An element is opened. What it holds is known once all tokens are read. -/
theorem GrownFrom.opened {tag : Tag} (solid : ¬tag.isVoid)
    (h : GrownFrom tokens (⟨tag, here⟩ :: stack) nil f) :
    GrownFrom (.startTag tag false :: tokens) stack here f := by
  obtain ⟨_, grown, around, makes, whole⟩ := h
  cases around with
  | cons children around =>
    refine ⟨_, .element ⟨tag, false, children⟩ :: grown, around, ?_, ?_⟩
    · rw [List.filter_cons_of_pos rfl]
      exact .cons (.element fun empty => absurd empty (by simp [solid])) makes
    · rw [whole]
      simp [walk]

theorem around_closeTo {name : Text} {outer : List Node}
    (h : Around (closeTo name stack here).1 outer) :
    ∃ outer', Around stack outer' ∧
      outer ++ (closeTo name stack here).2.walk = outer' ++ here.walk := by
  induction stack generalizing here with
  | nil => exact ⟨outer, h, rfl⟩
  | cons o stack ih =>
    have closed (nodes : List Node) : nodes ++ (o.before ++ element o.tag false here nil).walk
        = nodes ++ (o.before.walk ++ [.element ⟨o.tag, false, here⟩]) ++ here.walk := by
      simp [walk]
    by_cases he : o.tag.name = name
    · rw [closeTo, if_pos he] at h ⊢
      exact ⟨_, .cons here h, closed outer⟩
    · rw [closeTo, if_neg he] at h ⊢
      obtain ⟨nodes, around, whole⟩ := ih h
      exact ⟨_, .cons here around, whole.trans (closed nodes)⟩

/-- An end tag makes no node, whatever it ends. -/
theorem GrownFrom.closed {name : Text}
    (h : GrownFrom tokens (closeTo name stack here).1 (closeTo name stack here).2 f) :
    GrownFrom (.endTag name :: tokens) stack here f := by
  obtain ⟨outer, grown, around, makes, whole⟩ := h
  obtain ⟨outer', around', same⟩ := around_closeTo around
  exact ⟨outer', grown, around', makes, by rw [whole, same]⟩

theorem grownFrom_closeAll (stack : List OpenElement) (here : Forest) :
    GrownFrom [] stack here (closeAll stack here) := by
  induction stack generalizing here with
  | nil => exact ⟨[], [], .nil, .nil, (List.append_nil _).symm⟩
  | cons o stack ih =>
    obtain ⟨outer, _, around, makes, whole⟩ := ih (o.before ++ element o.tag false here nil)
    cases makes with
    | nil =>
      refine ⟨_, [], .cons here around, .nil, ?_⟩
      rw [closeAll, whole]
      simp [walk]

end Steps

theorem grownFrom_grow (tokens : List Token) (stack : List OpenElement) (here : Forest) :
    GrownFrom tokens stack here (grow stack here tokens) := by
  induction tokens generalizing stack here with
  | nil => exact grownFrom_closeAll stack here
  | cons token tokens ih =>
    cases token with
    | startTag tag isClosed =>
      by_cases empty : isClosed || tag.isVoid
      · rw [grow, if_pos empty]
        exact (ih stack _).add (by simp [walk]) (.element fun _ => rfl) rfl
      · rw [grow, if_neg empty]
        obtain ⟨rfl, solid⟩ : isClosed = false ∧ tag.isVoid = false := by simpa using empty
        exact (ih _ nil).opened (by simp [solid])
    | endTag name =>
      by_cases ends : stack.any (·.tag.name == name)
      · rw [grow, if_pos ends]
        exact (ih _ _).closed
      · rw [grow, if_neg ends]
        exact ih stack here
    | text content => exact (ih stack _).add rfl (.text content) rfl
    | comment body => exact (ih stack _).add rfl (.comment body) rfl
    | declaration raw => exact (ih stack _).add rfl (.declaration raw) rfl

theorem makes_walk_ofTokens (tokens : List Token) :
    List.Forall₂ Token.Makes (tokens.filter (!·.isEndTag)) (ofTokens tokens).walk := by
  obtain ⟨_, grown, around, makes, whole⟩ := grownFrom_grow tokens [] nil
  cases around with
  | nil =>
    have walked : (ofTokens tokens).walk = grown := whole
    rwa [walked]

/-- The walk of a forest comes to one node for each token that is no end tag, in the order of
the tokens. So the text of the forest is that of its tokens. -/
theorem walk_ofTokens (tokens : List Token) :
    List.Forall₂ Token.Makes (tokens.filter (!·.isEndTag)) (ofTokens tokens).walk ∧
      (ofTokens tokens).textContent = tokens.flatMap (·.content) := by
  have makes := makes_walk_ofTokens tokens
  refine ⟨makes, ?_⟩
  rw [textContent_eq_walk, Token.flatMap_content_of_makes makes, Token.flatMap_content_filter]

/-! ### Lenient tokens -/

/-- The tokens that a forest may be written with: its own, where any element without children
may be closed at once instead. -/
inductive WrittenAs : Forest → List Token → Prop
  | nil : WrittenAs nil []
  | selfClosed (tag : Tag) {rest : Forest} {ts : List Token} (later : WrittenAs rest ts) :
      WrittenAs (element tag false nil rest) (.startTag tag true :: ts)
  | void {tag : Tag} (void : tag.isVoid) {rest : Forest} {ts : List Token}
      (later : WrittenAs rest ts) :
      WrittenAs (element tag false nil rest) (.startTag tag false :: ts)
  | element {tag : Tag} (solid : ¬tag.isVoid) {children rest : Forest} {inside ts : List Token}
      (held : WrittenAs children inside) (later : WrittenAs rest ts) :
      WrittenAs (element tag false children rest)
        (.startTag tag false :: (inside ++ .endTag tag.name :: ts))
  | text (content : Text) {rest : Forest} {ts : List Token} (later : WrittenAs rest ts) :
      WrittenAs (text content rest) (.text content :: ts)
  | comment (body : Text) {rest : Forest} {ts : List Token} (later : WrittenAs rest ts) :
      WrittenAs (comment body rest) (.comment body :: ts)
  | declaration (raw : Text) {rest : Forest} {ts : List Token} (later : WrittenAs rest ts) :
      WrittenAs (declaration raw rest) (.declaration raw :: ts)

/-- End tags are put between tokens, each where no element of its name is open. -/
inductive Strays : (opened : List Text) → List Token → List Token → Prop
  | nil (opened : List Text) : Strays opened [] []
  | keep {opened : List Text} (token : Token) {ts us : List Token}
      (later : Strays (token.openAfter opened) ts us) : Strays opened (token :: ts) (token :: us)
  | stray {opened : List Text} {name : Text} (h : name ∉ opened) {ts us : List Token}
      (later : Strays opened ts us) : Strays opened ts (.endTag name :: us)

theorem writtenAs_tokens {f : Forest} (h : f.IsBuilt) : f.WrittenAs f.tokens := by
  induction f with
  | nil => exact .nil
  | element tag s children rest ihc ihr =>
    obtain ⟨rfl, void, hc, hr⟩ := h
    by_cases hv : tag.isVoid
    · obtain rfl := void hv
      rw [tokens, if_pos hv]
      exact .void hv (ihr hr)
    · rw [tokens, if_neg hv]
      exact .element hv (ihc hc) (ihr hr)
  | text content rest ih => exact .text content (ih h)
  | comment body rest ih => exact .comment body (ih h)
  | declaration raw rest ih => exact .declaration raw (ih h)

theorem grow_writtenAs {f : Forest} {ts : List Token} (h : f.WrittenAs ts)
    (stack : List OpenElement) (here : Forest) (more : List Token) :
    grow stack here (ts ++ more) = grow stack (here ++ f) more := by
  induction h generalizing stack here more with
  | nil => rw [append_nil, List.nil_append]
  | selfClosed tag _ ih =>
    rw [List.cons_append, grow, if_pos (by simp), ih, append_assoc]
    rfl
  | void hv _ ih =>
    rw [List.cons_append, grow, if_pos (by simp [hv]), ih, append_assoc]
    rfl
  | element hv _ _ ihc ihr =>
    rw [List.cons_append, List.append_assoc, List.cons_append, grow_element hv ihc, ihr,
      append_assoc]
    rfl
  | text content _ ih | comment body _ ih | declaration raw _ ih =>
    rw [List.cons_append, grow, ih, append_assoc]
    rfl

theorem grow_strays {opened : List Text} {ts us : List Token} (h : Strays opened ts us)
    {stack : List OpenElement} (names : openNames stack = opened) (here : Forest) :
    grow stack here us = grow stack here ts := by
  induction h generalizing stack here with
  | nil => rfl
  | @keep opened token ts us _ ih =>
    subst names
    cases token with
    | startTag tag isClosed =>
      by_cases empty : isClosed || tag.isVoid
      · rw [grow, if_pos empty, grow, if_pos empty]
        exact ih (by simp [Token.openAfter, empty]) _
      · rw [grow, if_neg empty, grow, if_neg empty]
        exact ih (by simp [Token.openAfter, empty, openNames]) _
    | endTag name =>
      by_cases ends : name ∈ openNames stack
      · rw [grow, if_pos (mem_openNames_iff.mpr ends), grow, if_pos (mem_openNames_iff.mpr ends)]
        exact ih (openNames_closeTo ends here) _
      · rw [grow, if_neg (mt mem_openNames_iff.mp ends), grow,
          if_neg (mt mem_openNames_iff.mp ends)]
        exact ih (by simp [Token.openAfter, Token.closing_of_not_mem ends]) _
    | text content | comment body | declaration raw => exact ih rfl _
  | stray absent _ ih =>
    subst names
    rw [grow, if_neg (mt mem_openNames_iff.mp absent), ih rfl]

theorem closeAll_closeTo (name : Text) (stack : List OpenElement) (here : Forest) :
    closeAll (closeTo name stack here).1 (closeTo name stack here).2 = closeAll stack here := by
  induction stack generalizing here with
  | nil => rfl
  | cons o stack ih =>
    rw [closeTo, closeAll]
    split
    · rfl
    · exact ih _

section LastEndTags

variable {ends : List Token}

theorem grow_endTags (h : ∀ t ∈ ends, t.isEndTag) (stack : List OpenElement) (here : Forest) :
    grow stack here ends = closeAll stack here := by
  induction ends generalizing stack here with
  | nil => rfl
  | cons token ends ih =>
    obtain ⟨first, others⟩ := List.forall_mem_cons.mp h
    cases token with
    | endTag name =>
      rw [grow]
      split
      · exact (ih others _ _).trans (closeAll_closeTo name stack here)
      · exact ih others stack here
    | _ => exact absurd first (by simp [Token.isEndTag])

/-- All elements end with the tokens, so end tags at the end change nothing. -/
theorem grow_append_endTags (h : ∀ t ∈ ends, t.isEndTag) (ts : List Token)
    (stack : List OpenElement) (here : Forest) :
    grow stack here (ts ++ ends) = grow stack here ts := by
  induction ts generalizing stack here with
  | nil => exact grow_endTags h stack here
  | cons token ts ih =>
    cases token with
    | startTag tag isClosed =>
      rw [List.cons_append, grow, grow]
      split <;> exact ih _ _
    | endTag name =>
      rw [List.cons_append, grow, grow]
      split <;> exact ih _ _
    | text content | comment body | declaration raw => exact ih _ _

end LastEndTags

/-- A forest grows from its own tokens, and also where empty elements are closed at once, stray
end tags stand between the tokens and end tags are missing at the end. -/
theorem ofTokens_lenient {f : Forest} (h : f.IsBuilt) :
    ofTokens f.tokens = f ∧ f.WrittenAs f.tokens ∧
      ∀ written kept ends, f.WrittenAs written → Strays [] written (kept ++ ends) →
        (∀ t ∈ ends, t.isEndTag) → ofTokens kept = f := by
  refine ⟨ofTokens_tokens h, writtenAs_tokens h, ?_⟩
  intro written kept ends forms strays last
  calc ofTokens kept
      = grow [] nil (kept ++ ends) := (grow_append_endTags last kept [] nil).symm
    _ = grow [] nil written := grow_strays strays rfl nil
    _ = f := by
      have grown := grow_writtenAs forms [] nil []
      rwa [List.append_nil, nil_append, grow, closeAll] at grown

/-- A list in an item of a list. The inner item is closed at once, the last three end tags are
left out, and stray ones stand first, before any item is open, after a void element and last. -/
theorem nested_lists_grow :
    let ul : Tag := ⟨"ul".toList, []⟩
    let li : Tag := ⟨"li".toList, []⟩
    let br : Tag := ⟨"br".toList, []⟩
    let inner := element ul false (element li false nil nil) nil
    let f := element ul false
      (element li false (text "a".toList (element br false nil inner)) nil) nil
    let kept : List Token := [.endTag "p".toList, .startTag ul false, .endTag "li".toList,
      .startTag li false, .text "a".toList, .startTag br false, .endTag "br".toList,
      .startTag ul false, .startTag li true, .endTag "b".toList]
    f.IsBuilt ∧ ofTokens f.tokens = f ∧ ofTokens kept = f := by
  intro ul li br inner f kept
  have built : f.IsBuilt := by
    simp only [f, inner, IsBuilt]
    decide
  have forms : f.WrittenAs [.startTag ul false, .startTag li false, .text "a".toList,
      .startTag br false, .startTag ul false, .startTag li true, .endTag ul.name,
      .endTag li.name, .endTag ul.name] :=
    have inner_forms : inner.WrittenAs [.startTag ul false, .startTag li true, .endTag ul.name] :=
      .element (by decide) (.selfClosed li .nil) .nil
    .element (by decide)
      (.element (by decide) (.text _ (.void (by decide) inner_forms)) .nil) .nil
  have strays : Strays [] [.startTag ul false, .startTag li false, .text "a".toList,
      .startTag br false, .startTag ul false, .startTag li true, .endTag ul.name,
      .endTag li.name, .endTag ul.name]
      (kept ++ [.endTag ul.name, .endTag li.name, .endTag ul.name]) :=
    .stray (by decide) <| .keep _ <| .stray (by decide) <| .keep _ <| .keep _ <| .keep _ <|
      .stray (by decide) <| .keep _ <| .keep _ <| .stray (by decide) <| .keep _ <| .keep _ <|
      .keep _ <| .nil _
  obtain ⟨own, -, lenient⟩ := ofTokens_lenient built
  exact ⟨built, own, lenient _ kept _ forms strays (by decide)⟩

end Forest

end HtmlTemplate
