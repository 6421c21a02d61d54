import ClassTags.Proofs.Lexeme
import ClassTags.Proofs.Slice

/-!
# Parsers keep to the source text

A parser **keeps to** a source text when, started somewhere in the text, it stops somewhere in the
text and gives a value that is *rooted* in it: a byte at which a character begins, or a well-formed
tree. A tree is well formed over a source text when it begins at a boundary, when the text of each
name and of each escape sequence is the lexeme it was read as, and when each node has the parts that
its kind asks for.

There is one lemma for each parser that the grammar is built from, and one for each way to put
parsers together. `ClassTags.Proofs.Productions` has those for the rules of the grammar.

Main definitions:

* `SyntaxTree.WellFormed` — the trees that the grammar makes of a source text;
* `Cursor.Stands` — the cursor stands in the source text;
* `Parser.Gives` — what holds of the values of a parser;
* `Parser.Keeps` — the parser keeps to the source text.
-/

namespace ClassTags

open Grammar

-- ---------------------------------------------------------------------------
-- Well-formed trees
-- ---------------------------------------------------------------------------

/-- The parts that a node of the given kind has to have. -/
def SyntaxKind.requiredFields : SyntaxKind → List SyntaxField
  | call => [.function]
  | pair => [.key, .value]
  | methodDefinition => [.name]
  | _ => []

/-- The kinds of names are no escape sequences and have no parts. -/
theorem SyntaxKind.ne_of_isName {kind : SyntaxKind} (h : kind.isName = true) :
    kind ≠ .escapeSequence ∧ kind.requiredFields = [] := by
  cases kind <;> simp_all [isName, requiredFields]

/-- The kinds that ask nothing of a node. -/
def SyntaxKind.isFree (kind : SyntaxKind) : Bool :=
  !kind.isName && kind != .escapeSequence && kind.requiredFields.isEmpty

namespace SyntaxTree

variable {source : Text} {t : SyntaxTree} {l : SyntaxLabel} {cs : List SyntaxTree}

/-- Some child plays the part `f`. -/
def HasField (f : SyntaxField) (cs : List SyntaxTree) : Prop := ∃ c ∈ cs, c.label.field = some f

/-- A label fits its place in the source text and the children of its node. -/
structure Fits (source : Text) (l : SyntaxLabel) (cs : List SyntaxTree) : Prop where
  start : source.IsBoundary l.start
  /-- A name is a word. -/
  name : l.kind.isName = true →
    IsLexeme word? (source.slice l.start l.stop) ∨ IsLexeme privateName? (source.slice l.start l.stop)
  escape : l.kind = .escapeSequence → IsLexeme escape? (source.slice l.start l.stop)
  fields : ∀ f ∈ l.kind.requiredFields, HasField f cs

/-- Every label of a tree fits. -/
inductive WellFormed (source : Text) : SyntaxTree → Prop
  | node {l : SyntaxLabel} {cs : List SyntaxTree} (hLabel : Fits source l cs)
      (hChildren : ∀ c ∈ cs, WellFormed source c) : WellFormed source (.node l cs)

/-- The label at the root of a well-formed tree fits. -/
theorem WellFormed.fits (h : t.WellFormed source) : Fits source t.label t.children := by
  cases h with
  | node hLabel hChildren => exact hLabel

/-- The children of a well-formed tree are well formed. -/
theorem WellFormed.children (h : t.WellFormed source) : ∀ c ∈ t.children, c.WellFormed source := by
  cases h with
  | node hLabel hChildren => exact hChildren

/-- A well-formed tree begins at a boundary between characters. -/
theorem WellFormed.start (h : t.WellFormed source) : source.IsBoundary t.start := h.fits.start

/-- A label of a kind that asks nothing fits everywhere. -/
theorem Fits.of_isFree (hStart : source.IsBoundary l.start) (hKind : l.kind.isFree = true) :
    Fits source l cs := by
  simp only [SyntaxKind.isFree, Bool.and_eq_true, Bool.not_eq_true', bne_iff_ne,
    List.isEmpty_iff] at hKind
  obtain ⟨⟨hName, hEscape⟩, hFields⟩ := hKind
  refine ⟨hStart, fun h => ?_, fun h => absurd h hEscape, fun f hf => ?_⟩
  · rw [hName] at h
    exact nomatch h
  · rw [hFields] at hf
    exact nomatch hf

/-- Which part a tree plays is of no account. -/
theorem wellFormed_inField {f : SyntaxField} :
    (t.inField f).WellFormed source ↔ t.WellFormed source := by
  obtain ⟨l, cs⟩ := t
  constructor
  all_goals
    intro h
    exact .node ⟨h.fits.start, h.fits.name, h.fits.escape, h.fits.fields⟩ h.children

/-- A tree may be taken under a kind that asks nothing. -/
theorem WellFormed.ofKind {kind : SyntaxKind} (h : t.WellFormed source) (hKind : kind.isFree = true) :
    (t.ofKind kind).WellFormed source := by
  cases h with
  | node hLabel hChildren => exact .node (.of_isFree hLabel.start hKind) hChildren

-- Comments are woven in between: labels stay, and no part gets lost.

/-- A comment that is woven in displaces no part. -/
theorem HasField.weave {comment : SyntaxTree} {f : SyntaxField} (h : HasField f cs) :
    HasField f (weaveBeside.go comment cs) := by
  induction cs using weaveBeside.go.induct comment with
  | case1 => exact absurd h (by simp [HasField])
  | case2 l cs ts hInside ih =>
    rw [weaveBeside.go, if_pos hInside]
    obtain ⟨c, hc, hField⟩ := h
    rcases List.mem_cons.mp hc with rfl | hc
    · exact ⟨_, List.mem_cons_self, hField⟩
    · exact ⟨c, List.mem_cons_of_mem _ hc, hField⟩
  | case3 l cs ts hInside hBefore =>
    rw [weaveBeside.go, if_neg hInside, if_pos hBefore]
    obtain ⟨c, hc, hField⟩ := h
    exact ⟨c, List.mem_cons_of_mem _ hc, hField⟩
  | case4 l cs ts hInside hBefore ih =>
    rw [weaveBeside.go, if_neg hInside, if_neg hBefore]
    obtain ⟨c, hc, hField⟩ := h
    rcases List.mem_cons.mp hc with rfl | hc
    · exact ⟨_, List.mem_cons_self, hField⟩
    · obtain ⟨d, hd, hField⟩ := ih ⟨c, hc, hField⟩
      exact ⟨d, List.mem_cons_of_mem _ hd, hField⟩

/-- A label fits with a comment among the children. -/
theorem Fits.weave {comment : SyntaxTree} (h : Fits source l cs) :
    Fits source l (weaveBeside.go comment cs) :=
  ⟨h.start, h.name, h.escape, fun f hf => (h.fields f hf).weave⟩

/-- Children with a well-formed comment among them are well formed. -/
theorem wellFormed_go {comment : SyntaxTree} (hComment : comment.WellFormed source)
    (h : ∀ c ∈ cs, c.WellFormed source) :
    ∀ c ∈ weaveBeside.go comment cs, c.WellFormed source := by
  induction cs using weaveBeside.go.induct comment with
  | case1 =>
    rw [weaveBeside.go]
    exact List.forall_mem_singleton.mpr hComment
  | case2 l cs ts hInside ih =>
    obtain ⟨hFirst, hRest⟩ := List.forall_mem_cons.mp h
    rw [weaveBeside.go, if_pos hInside]
    exact List.forall_mem_cons.mpr ⟨.node hFirst.fits.weave (ih hFirst.children), hRest⟩
  | case3 l cs ts hInside hBefore =>
    rw [weaveBeside.go, if_neg hInside, if_pos hBefore]
    exact List.forall_mem_cons.mpr ⟨hComment, h⟩
  | case4 l cs ts hInside hBefore ih =>
    obtain ⟨hFirst, hRest⟩ := List.forall_mem_cons.mp h
    rw [weaveBeside.go, if_neg hInside, if_neg hBefore]
    exact List.forall_mem_cons.mpr ⟨hFirst, ih hRest⟩

/-- A well-formed tree stays so with well-formed comments woven in. -/
theorem WellFormed.weave {comments : List SyntaxTree} (h : t.WellFormed source)
    (hComments : ∀ c ∈ comments, c.WellFormed source) : (t.weave comments).WellFormed source := by
  unfold SyntaxTree.weave
  induction comments generalizing t with
  | nil => exact h
  | cons comment comments ih =>
    obtain ⟨hFirst, hRest⟩ := List.forall_mem_cons.mp hComments
    refine ih ?_ hRest
    cases h with
    | node hLabel hChildren => exact .node hLabel.weave (wellFormed_go hFirst hChildren)

end SyntaxTree

-- ---------------------------------------------------------------------------
-- What a kind asks for
-- ---------------------------------------------------------------------------

namespace Grammar

theorem field_inField (t : SyntaxTree) (f : SyntaxField) : (t.inField f).label.field = some f := by
  cases t
  rfl

/-- Trees that the children of a node of the given kind can be. -/
def Takes (kind : SyntaxKind) (cs : List SyntaxTree) : Prop :=
  kind.isName = false ∧ kind ≠ .escapeSequence ∧
    ∀ f ∈ kind.requiredFields, SyntaxTree.HasField f cs

/-- A kind without a constructor of its own takes any children. -/
theorem takes_other (name : Text) (cs : List SyntaxTree) : Takes (.other name) cs :=
  ⟨rfl, nofun, nofun⟩

/-- A call has the function that is called. -/
theorem takes_call (t : SyntaxTree) (cs : List SyntaxTree) :
    Takes .call (t.inField .function :: cs) :=
  ⟨rfl, nofun, List.forall_mem_singleton.mpr ⟨_, List.mem_cons_self, field_inField _ _⟩⟩

/-- An entry of an object has a key and a value. -/
theorem takes_pair (t u : SyntaxTree) : Takes .pair [t.inField .key, u.inField .value] := by
  refine ⟨rfl, nofun, List.forall_mem_cons.mpr ⟨⟨_, List.mem_cons_self, field_inField _ _⟩, ?_⟩⟩
  exact List.forall_mem_singleton.mpr
    ⟨_, List.mem_cons_of_mem _ List.mem_cons_self, field_inField _ _⟩

theorem takes_methodDefinition (t : SyntaxTree) (cs : List SyntaxTree) :
    Takes .methodDefinition (t.inField .name :: cs) :=
  ⟨rfl, nofun, List.forall_mem_singleton.mpr ⟨_, List.mem_cons_self, field_inField _ _⟩⟩

/-- A kind that asks nothing takes any children. -/
theorem takes_of_isFree {kind : SyntaxKind} (h : kind.isFree = true) (cs : List SyntaxTree) :
    Takes kind cs := by
  simp only [SyntaxKind.isFree, Bool.and_eq_true, Bool.not_eq_true', bne_iff_ne,
    List.isEmpty_iff] at h
  exact ⟨h.1.1, h.1.2, fun f hf => nomatch h.2 ▸ hf⟩

/-- How the leaves of a kind are read: names are words. -/
def ReadBy (kind : SyntaxKind) (read? : Text → Option Split) : Prop :=
  Splits read? ∧ (kind.isFree = true ∨ kind.isName = true ∧ (read? = word? ∨ read? = privateName?))

end Grammar

-- ---------------------------------------------------------------------------
-- Results of parsers
-- ---------------------------------------------------------------------------

namespace Grammar.Parser

variable {α β : Type}

/-- A sequence of two parsers gives what the second one gives where the first one stops. -/
theorem bind_eq_ok {p : Parser α} {f : α → Parser β} {c : Cursor} {r : β × Cursor} :
    (p >>= f) c = .ok r ↔ ∃ a c₁, p c = .ok (a, c₁) ∧ f a c₁ = .ok r := by
  show (p c >>= fun x => f x.1 x.2) = .ok r ↔ _
  cases p c with
  | error e => exact iff_of_false nofun fun ⟨_, _, h, _⟩ => nomatch h
  | ok x =>
    refine ⟨fun h => ⟨x.1, x.2, rfl, h⟩, ?_⟩
    rintro ⟨a, c₁, h, hf⟩
    obtain rfl := Except.ok.inj h
    exact hf

/-- A word that is not there is not passed. -/
theorem wordIf_eq_false {w : Text} {c c' : Cursor} (h : wordIf w c = .ok (false, c')) : c' = c := by
  unfold wordIf at h
  split at h
  · exact nomatch h
  · exact (Prod.mk.inj (Except.ok.inj h)).2.symm

/-- A punctuator that is not there is not passed. -/
theorem punctuatorIf_eq_false {p : Text} {c c' : Cursor} (h : punctuatorIf p c = .ok (false, c')) :
    c' = c := by
  unfold punctuatorIf at h
  split at h
  · exact nomatch h
  · exact (Prod.mk.inj (Except.ok.inj h)).2.symm

theorem pure_eq_ok {α : Type} {a b : α} {c c' : Cursor}
    (h : (pure a : Parser α) c = .ok (b, c')) : b = a ∧ c' = c := by
  obtain ⟨rfl, rfl⟩ := Prod.mk.inj (Except.ok.inj h)
  exact ⟨rfl, rfl⟩

/-- A leaf is the lexeme at the next token. -/
theorem leaf_eq_ok {kind : SyntaxKind} {read? : Text → Option Split} {c c' : Cursor} {t : SyntaxTree}
    (h : leaf kind read? c = .ok (t, c')) :
    ∃ s, read? (c.passTrivia true).rest = some s ∧ c' = (c.passTrivia true).passToken s ∧
      t = .node { kind, start := (c.passTrivia true).offset, stop := c'.stop } [] := by
  obtain ⟨start, c₁, hMark, hBehind⟩ := bind_eq_ok.mp h
  obtain ⟨w, c₂, hLexeme, hNode⟩ := bind_eq_ok.mp hBehind
  obtain ⟨rfl, rfl⟩ := Prod.mk.inj (Except.ok.inj hMark)
  obtain ⟨rfl, rfl⟩ := Prod.mk.inj (Except.ok.inj hNode)
  unfold lexeme at hLexeme
  dsimp only at hLexeme
  split at hLexeme
  case h_1 s hRead =>
    obtain ⟨rfl, rfl⟩ := Prod.mk.inj (Except.ok.inj hLexeme)
    exact ⟨s, hRead, rfl, rfl⟩
  case h_2 => exact nomatch hLexeme

end Grammar.Parser

-- ---------------------------------------------------------------------------
-- Cursors
-- ---------------------------------------------------------------------------

namespace Grammar

/-- The source text that is being read. -/
class Source where
  text : Text

variable [Source]

namespace Cursor

variable {c : Cursor} {s : Split}

/-- The cursor stands in the source text, and has passed well-formed comments. -/
structure Stands (c : Cursor) : Prop where
  place : ∃ before, Source.text = before ++ c.rest ∧ c.offset = Text.byteLength before
  comments : ∀ t ∈ c.comments, t.WellFormed Source.text

namespace Stands

/-- A cursor at the beginning of the text stands in it. -/
theorem start : Stands { rest := Source.text } := ⟨⟨[], rfl, rfl⟩, nofun⟩

/-- A cursor stands between two characters. -/
theorem boundary (h : c.Stands) : Source.text.IsBoundary c.offset := by
  obtain ⟨before, hSource, hOffset⟩ := h.place
  exact ⟨before, c.rest, hSource, hOffset⟩

/-- A cursor that stands in the text does so after a piece of the rest. -/
theorem advance (h : c.Stands) (hSplit : c.rest = s.1 ++ s.2) : (c.advance s).Stands := by
  obtain ⟨before, hSource, hOffset⟩ := h.place
  refine ⟨⟨before ++ s.1, ?_, ?_⟩, h.comments⟩
  · rw [hSource, hSplit, List.append_assoc]
    rfl
  · rw [Text.byteLength_append, ← hOffset]
    rfl

/-- What is passed is what stands between the two places. -/
theorem slice_advance (h : c.Stands) (hSplit : c.rest = s.1 ++ s.2) :
    Source.text.slice c.offset (c.advance s).offset = s.1 := by
  obtain ⟨before, hSource, hOffset⟩ := h.place
  rw [hSource, hSplit]
  show Text.slice _ c.offset (c.offset + Text.byteLength s.1) = s.1
  rw [hOffset]
  exact Text.slice_append before s.1 s.2

theorem passSpace (h : c.Stands) : c.passSpace.Stands :=
  h.advance (spanWhile_append isSpace c.rest).symm

theorem passToken (h : c.Stands) (hSplit : c.rest = s.1 ++ s.2) : (c.passToken s).Stands :=
  ⟨(h.advance hSplit).place, h.comments⟩

/-- A comment can be passed, since its node is well formed. -/
theorem passComment {kind : SyntaxKind} (h : c.Stands) (hSplit : c.rest = s.1 ++ s.2)
    (hKind : kind.isFree = true) : (c.passComment kind s).Stands := by
  refine ⟨(h.advance hSplit).place, List.forall_mem_cons.mpr ⟨?_, h.comments⟩⟩
  exact .node (.of_isFree h.boundary hKind) nofun

/-- A comment can be passed if there is one. -/
theorem passComment? {markup : Bool} {after : Cursor} (h : c.Stands)
    (hAfter : c.passComment? markup = some after) : after.Stands := by
  unfold Cursor.passComment? at hAfter
  split at hAfter
  case h_1 s hComment =>
    obtain rfl := Option.some.inj hAfter
    exact h.passComment (splits_comment _ _ _ hComment) rfl
  case h_2 =>
    split at hAfter
    · obtain ⟨s, hComment, rfl⟩ := Option.map_eq_some_iff.mp hAfter
      exact h.passComment (splits_htmlComment _ _ _ hComment) rfl
    · exact nomatch hAfter

/-- Any number of comments can be passed, by induction on their number. -/
theorem passTriviaWithin (h : c.Stands) (markup : Bool) (fuel : Nat) :
    (c.passTriviaWithin markup fuel).Stands := by
  induction fuel generalizing c with
  | zero => exact h.passSpace
  | succ fuel ih =>
    unfold Cursor.passTriviaWithin
    split
    case h_1 after hAfter => exact ih (h.passSpace.passComment? hAfter)
    case h_2 => exact h.passSpace

/-- The cursor at the next token stands in the text. -/
theorem passTrivia (h : c.Stands) (markup : Bool) : (c.passTrivia markup).Stands :=
  h.passTriviaWithin markup _

/-- The cursor at the end of a statement stands in the text. -/
theorem statementEnd? {orFollows : Bool} {here : Cursor} (h : c.Stands)
    (hEnd : c.statementEnd? orFollows = some here) : here.Stands := by
  unfold Cursor.statementEnd? at hEnd
  generalize c.rest.length + 1 = fuel at hEnd
  induction fuel generalizing c with
  | zero => exact nomatch hEnd
  | succ fuel ih =>
    unfold Cursor.statementEndWithin? at hEnd
    split at hEnd
    · exact Option.some.inj hEnd ▸ h
    · obtain ⟨after, hAfter, hEnd⟩ := Option.bind_eq_some_iff.mp hEnd
      exact ih (h.passSpace.passComment? hAfter) hEnd

end Stands

end Cursor

-- ---------------------------------------------------------------------------
-- Values that are rooted in the source text
-- ---------------------------------------------------------------------------

/-- The values that parsers give, and what it takes to be rooted in a source text. -/
class Rootable (α : Type) where
  rooted : Text → α → Prop

/-- The value is rooted in the source text. -/
def Rooted {α : Type} [Rootable α] (a : α) : Prop := Rootable.rooted Source.text a

/-- A tree is rooted if it is well formed. -/
instance : Rootable SyntaxTree := ⟨fun source t => t.WellFormed source⟩

/-- A byte is rooted if a character begins there. -/
instance : Rootable Nat := ⟨Text.IsBoundary⟩

instance : Rootable Unit := ⟨fun _ _ => True⟩

instance : Rootable Bool := ⟨fun _ _ => True⟩

instance : Rootable Char := ⟨fun _ _ => True⟩

instance : Rootable String := ⟨fun _ _ => True⟩

instance : Rootable Token := ⟨fun _ _ => True⟩

instance {α : Type} [Rootable α] : Rootable (Option α) :=
  ⟨fun source o => ∀ a ∈ o, Rootable.rooted source a⟩

instance {α : Type} [Rootable α] : Rootable (List α) :=
  ⟨fun source as => ∀ a ∈ as, Rootable.rooted source a⟩

instance {α β : Type} [Rootable α] [Rootable β] : Rootable (α × β) :=
  ⟨fun source p => Rootable.rooted source p.1 ∧ Rootable.rooted source p.2⟩

section Values

variable {α β : Type} [Rootable α] [Rootable β] {t : SyntaxTree}

theorem rooted_unit (u : Unit) : Rooted u := trivial

theorem rooted_bool (b : Bool) : Rooted b := trivial

theorem rooted_token (t : Token) : Rooted t := trivial

theorem rooted_string (t : String) : Rooted t := trivial

theorem rooted_text (t : Text) : Rooted t := fun _ _ => trivial

theorem rooted_none : Rooted (none : Option α) := nofun

theorem rooted_some {a : α} : Rooted (some a) ↔ Rooted a := by
  simp [Rooted, Rootable.rooted]

theorem rooted_nil : Rooted ([] : List α) := nofun

theorem rooted_cons {a : α} {as : List α} :
    Rooted (a :: as) ↔ Rooted a ∧ Rooted as := List.forall_mem_cons

theorem rooted_single {a : α} (ha : Rooted a) : Rooted [a] := List.forall_mem_singleton.mpr ha

theorem rooted_two {a b : α} (ha : Rooted a) (hb : Rooted b) : Rooted [a, b] :=
  rooted_cons.mpr ⟨ha, rooted_single hb⟩

theorem rooted_append {as bs : List α} :
    Rooted (as ++ bs) ↔ Rooted as ∧ Rooted bs := List.forall_mem_append

theorem rooted_pair {a : α} {b : β} :
    Rooted (a, b) ↔ Rooted a ∧ Rooted b := Iff.rfl

theorem rooted_start (h : Rooted t) : Rooted t.start := h.start

theorem rooted_children (h : Rooted t) : Rooted t.children := h.children

/-- A tree is as rooted in one part as in another. -/
theorem rooted_inField {f : SyntaxField} : Rooted (t.inField f) ↔ Rooted t :=
  SyntaxTree.wellFormed_inField

/-- The trees of a list are as rooted in one part as in another. -/
theorem rooted_map_inField {ts : List SyntaxTree} {f : SyntaxField} :
    Rooted (ts.map (·.inField f)) ↔ Rooted ts := by
  refine List.forall_mem_map.trans ?_
  exact forall₂_congr fun _ _ => rooted_inField

/-- Of a list of rooted pairs the second components are rooted. -/
theorem rooted_map_snd {ps : List (α × β)} (h : Rooted ps) : Rooted (ps.map (·.2)) :=
  List.forall_mem_map.mpr fun p hp => (h p hp).2

end Values

-- ---------------------------------------------------------------------------
-- Parsers that keep to the source text
-- ---------------------------------------------------------------------------

variable {α β : Type}

/-- Started in the source text the parser stops in the text, and what it gives satisfies `Q`. -/
def Parser.Gives (p : Parser α) (Q : α → Prop) : Prop :=
  ∀ c, c.Stands → ∀ a c', p c = .ok (a, c') → Q a ∧ c'.Stands

/-- **The parser keeps to the source text**: started in the text it stops in the text, and what it
gives is rooted there. -/
abbrev Parser.Keeps [Rootable α] (p : Parser α) : Prop := p.Gives Rooted

namespace Parser

section Combining

variable {p q : Parser α} {f : α → Parser β} {P P' : α → Prop} {Q : β → Prop} {b : Prop} [Decidable b]

/-- A parser gives what follows from what it gives. -/
theorem Gives.mono (hp : p.Gives P) (h : ∀ a, P a → P' a) : p.Gives P' := by
  intro c hc a c' hResult
  obtain ⟨ha, hc'⟩ := hp c hc a c' hResult
  exact ⟨h a ha, hc'⟩

/-- A value that is given without reading. -/
theorem pure_keeps {a : α} (ha : P a) : (pure a : Parser α).Gives P := by
  intro c hc a' c' hResult
  obtain ⟨rfl, rfl⟩ := pure_eq_ok hResult
  exact ⟨ha, hc⟩

/-- A parser that fails gives nothing at all. -/
theorem unexpected_keeps : (unexpected : Parser α).Gives P :=
  fun _ _ _ _ hResult => nomatch hResult

/-- What the first parser gives is at the disposal of the second one. -/
theorem bind_keeps (hp : p.Gives P) (hf : ∀ a, P a → (f a).Gives Q) : (p >>= f).Gives Q := by
  intro c hc a c' hResult
  obtain ⟨x, c₁, hFirst, hSecond⟩ := bind_eq_ok.mp hResult
  obtain ⟨hx, hc₁⟩ := hp c hc x c₁ hFirst
  exact hf x hx c₁ hc₁ a c' hSecond

/-- A choice between two parsers that give the same. -/
theorem ite_keeps (hp : p.Gives P) (hq : q.Gives P) : (if b then p else q).Gives P := by
  split
  · exact hp
  · exact hq

/-- Two parsers that are followed by the same one. -/
theorem join_keeps (hp : p.Gives P) (hq : q.Gives P) (hf : ∀ a, P a → (f a).Gives Q) :
    (if b then p >>= f else q >>= f).Gives Q :=
  ite_keeps (bind_keeps hp hf) (bind_keeps hq hf)

/-- A parser that is left out in one case. -/
theorem skip_keeps {p : Parser Unit} {f : Unit → Parser β} {P : Unit → Prop} (hp : p.Gives P)
    (hf : ∀ u, (f u).Gives Q) : (if b then f () else p >>= f).Gives Q :=
  ite_keeps (hf ()) (bind_keeps hp fun u _ => hf u)

/-- A function of what a parser gives. -/
theorem map_keeps {g : α → β} (hp : p.Gives P) (hg : ∀ a, P a → Q (g a)) : (g <$> p).Gives Q :=
  bind_keeps (f := fun a => pure (g a)) hp fun a ha => pure_keeps (hg a ha)

end Combining

variable [Rootable α]

/-- The parser of a step that goes on. -/
theorem some_keeps {p : Parser α} (hp : p.Keeps) : (p >>= fun a => pure (some a)).Keeps :=
  bind_keeps hp fun _ ha => pure_keeps (rooted_some.mpr ha)

theorem none_keeps : (pure none : Parser (Option α)).Keeps := pure_keeps rooted_none

/-- A look ahead takes nothing. -/
theorem keeps_of_look {p : Parser α} (h : ∀ c, c.Stands → ∃ a, p c = .ok (a, c) ∧ Rooted a) :
    p.Keeps := by
  intro c hc a c' hp
  obtain ⟨b, hb, hIn⟩ := h c hc
  obtain ⟨rfl, rfl⟩ := Prod.mk.inj (Except.ok.inj (hb.symm.trans hp))
  exact ⟨hIn, hc⟩

/-- To look at the next token takes nothing, and so do the other looks ahead. -/
theorem operand_keeps : operand.Keeps :=
  keeps_of_look fun _ _ => ⟨_, rfl, rooted_token _⟩

theorem operator_keeps : operator.Keeps :=
  keeps_of_look fun _ _ => ⟨_, rfl, rooted_token _⟩

theorem second_keeps : second.Keeps :=
  keeps_of_look fun _ _ => ⟨_, rfl, rooted_token _⟩

/-- The next token begins between two characters. -/
theorem mark_keeps : mark.Keeps :=
  keeps_of_look fun _ hc => ⟨_, rfl, (hc.passTrivia true).boundary⟩

theorem atStatementEnd_keeps (orFollows : Bool) : (atStatementEnd orFollows).Keeps :=
  keeps_of_look fun _ _ => ⟨_, rfl, rooted_bool _⟩

/-- What a parser would give is rooted as what it gives. -/
theorem peek_keeps {p : Parser α} (hp : p.Keeps) : (peek p).Keeps := by
  refine keeps_of_look fun c hc => ?_
  unfold peek
  split
  case h_1 a c' hResult => exact ⟨_, rfl, rooted_some.mpr (hp c hc a c' hResult).1⟩
  case h_2 => exact ⟨_, rfl, rooted_none⟩

/-- Either alternative starts at the same place. -/
theorem orElse_keeps {p q : Parser α} (hp : p.Keeps) (hq : q.Keeps) :
    (orElse p q).Keeps := by
  intro c hc a c' hResult
  unfold orElse at hResult
  split at hResult
  case h_1 r hFirst =>
    obtain rfl := Except.ok.inj hResult
    exact hp c hc a c' hFirst
  case h_2 =>
    split at hResult
    case h_1 r hSecond =>
      obtain rfl := Except.ok.inj hResult
      exact hq c hc a c' hSecond
    case h_2 => exact nomatch hResult

/-- A lexeme is split off from the text at the next token. -/
theorem lexeme_keeps {read? : Text → Option Split} (hSplits : Splits read?) :
    (lexeme read?).Keeps := by
  intro c hc a c' hResult
  unfold lexeme at hResult
  dsimp only at hResult
  split at hResult
  case h_1 s hRead =>
    obtain ⟨rfl, rfl⟩ := Prod.mk.inj (Except.ok.inj hResult)
    exact ⟨rooted_text _, (hc.passTrivia true).passToken (hSplits _ _ _ hRead)⟩
  case h_2 => exact nomatch hResult

/-- A lexeme is split off from the text at the cursor. -/
theorem immediate_keeps {read? : Text → Option Split} (hSplits : Splits read?) :
    (immediate read?).Keeps := by
  intro c hc a c' hResult
  unfold immediate at hResult
  split at hResult
  case h_1 s hRead =>
    obtain ⟨rfl, rfl⟩ := Prod.mk.inj (Except.ok.inj hResult)
    exact ⟨rooted_text _, hc.passToken (hSplits _ _ _ hRead)⟩
  case h_2 => exact nomatch hResult

/-- A punctuator is a lexeme. -/
theorem punctuator_keeps (p : Text) : (punctuator p).Keeps := by
  intro c hc a c' hResult
  unfold punctuator at hResult
  dsimp only at hResult
  split at hResult
  case h_1 s hRead =>
    split at hResult
    · obtain ⟨rfl, rfl⟩ := Prod.mk.inj (Except.ok.inj hResult)
      exact ⟨rooted_unit _, (hc.passTrivia false).passToken (splits_punctuator _ _ _ hRead)⟩
    · exact nomatch hResult
  case h_2 => exact nomatch hResult

/-- A word is a lexeme. -/
theorem word_keeps (w : Text) : (word w).Keeps := by
  intro c hc a c' hResult
  unfold word at hResult
  dsimp only at hResult
  split at hResult
  case h_1 s hRead =>
    split at hResult
    · obtain ⟨rfl, rfl⟩ := Prod.mk.inj (Except.ok.inj hResult)
      exact ⟨rooted_unit _, (hc.passTrivia true).passToken (splits_word _ _ _ hRead)⟩
    · exact nomatch hResult
  case h_2 => exact nomatch hResult

/-- A punctuator that is not there leaves the cursor where it is. -/
theorem punctuatorIf_keeps (p : Text) : (punctuatorIf p).Keeps := by
  intro c hc a c' hResult
  unfold punctuatorIf at hResult
  split at hResult
  case h_1 after hTaken =>
    obtain ⟨rfl, rfl⟩ := Prod.mk.inj (Except.ok.inj hResult)
    exact ⟨rooted_bool _, (punctuator_keeps p c hc _ _ hTaken).2⟩
  case h_2 =>
    obtain ⟨rfl, rfl⟩ := Prod.mk.inj (Except.ok.inj hResult)
    exact ⟨rooted_bool _, hc⟩

/-- A word that is not there leaves the cursor where it is. -/
theorem wordIf_keeps (w : Text) : (wordIf w).Keeps := by
  intro c hc a c' hResult
  unfold wordIf at hResult
  split at hResult
  case h_1 after hTaken =>
    obtain ⟨rfl, rfl⟩ := Prod.mk.inj (Except.ok.inj hResult)
    exact ⟨rooted_bool _, (word_keeps w c hc _ _ hTaken).2⟩
  case h_2 =>
    obtain ⟨rfl, rfl⟩ := Prod.mk.inj (Except.ok.inj hResult)
    exact ⟨rooted_bool _, hc⟩

theorem atPunctuator_keeps (p : Text) : (atPunctuator p).Keeps :=
  bind_keeps operator_keeps fun _ _ => pure_keeps (rooted_bool _)

/-- A statement that ends without a semicolon ends before white space and comments. -/
theorem omittedSemicolon_keeps (orFollows : Bool) : (omittedSemicolon orFollows).Keeps := by
  intro c hc a c' hResult
  unfold omittedSemicolon at hResult
  split at hResult
  case h_1 here hEnd =>
    obtain ⟨rfl, rfl⟩ := Prod.mk.inj (Except.ok.inj hResult)
    exact ⟨rooted_bool _, (hc.statementEnd? hEnd).place, (hc.statementEnd? hEnd).comments⟩
  case h_2 =>
    obtain ⟨rfl, rfl⟩ := Prod.mk.inj (Except.ok.inj hResult)
    exact ⟨rooted_bool _, hc⟩

/-- A statement ends with a semicolon or without. -/
theorem semicolon_keeps (orFollows : Bool) : (semicolon orFollows).Keeps := by
  refine bind_keeps (omittedSemicolon_keeps orFollows) fun omitted _ => ?_
  exact ite_keeps (pure_keeps (rooted_unit ())) (punctuator_keeps ";")

theorem single_keeps {p : Parser α} (hp : p.Keeps) : (single p).Keeps :=
  bind_keeps hp fun _ ha => pure_keeps (rooted_single ha)

/-- Steps of a repetition keep to the text one after the other. -/
theorem manyWithin_keeps {step : Parser (Option α)} (hStep : step.Keeps) (fuel : Nat) :
    (manyWithin step fuel).Keeps := by
  induction fuel with
  | zero => exact pure_keeps rooted_nil
  | succ fuel ih =>
    refine bind_keeps hStep fun o ho => ?_
    cases o with
    | none => exact pure_keeps rooted_nil
    | some a =>
      refine bind_keeps ih fun others hOthers => ?_
      exact pure_keeps (rooted_cons.mpr ⟨rooted_some.mp ho, hOthers⟩)

/-- A repetition makes as many steps as there are characters left, at most. -/
theorem many_keeps {step : Parser (Option α)} (hStep : step.Keeps) : (many step).Keeps :=
  fun c hc => manyWithin_keeps hStep (c.rest.length + 1) c hc

/-- Steps that extend a value keep to the text one after the other. -/
theorem extendWithin_keeps {step : α → Parser (Option α)}
    (hStep : ∀ a, Rooted a → (step a).Keeps) (fuel : Nat) {a : α} (ha : Rooted a) :
    (extendWithin step fuel a).Keeps := by
  induction fuel generalizing a with
  | zero => exact pure_keeps ha
  | succ fuel ih =>
    refine bind_keeps (hStep a ha) fun o ho => ?_
    cases o with
    | none => exact pure_keeps ha
    | some b => exact ih (rooted_some.mp ho)

/-- The extension of a value makes as many steps as there are characters left, at most. -/
theorem extend_keeps {step : α → Parser (Option α)} {a : α} (ha : Rooted a)
    (hStep : ∀ b, Rooted b → (step b).Keeps) : (extend step a).Keeps :=
  fun c hc => extendWithin_keeps hStep (c.rest.length + 1) ha c hc

/-- A node is rooted if its kind takes its children, and it is of its kind. -/
theorem node_gives {kind : SyntaxKind} {start : Nat} {children : List SyntaxTree}
    (hStart : Rooted start) (hTakes : Takes kind children) (hChildren : Rooted children) :
    (node kind start children).Gives fun t => Rooted t ∧ t.kind = kind := by
  intro c hc t c' hResult
  obtain ⟨rfl, rfl⟩ := Prod.mk.inj (Except.ok.inj hResult)
  refine ⟨⟨.node ⟨hStart, ?_, fun h => absurd h hTakes.2.1, hTakes.2.2⟩ hChildren, rfl⟩, hc⟩
  intro hName
  rw [hTakes.1] at hName
  exact nomatch hName

/-- A node is rooted if its kind takes its children. -/
theorem node_keeps {kind : SyntaxKind} {start : Nat} {children : List SyntaxTree}
    (hStart : Rooted start) (hTakes : Takes kind children) (hChildren : Rooted children) :
    (node kind start children).Keeps :=
  (node_gives hStart hTakes hChildren).mono fun _ h => h.1

/-- Most kinds ask nothing of a node. -/
theorem other_keeps {name : Text} {start : Nat} {children : List SyntaxTree}
    (hStart : Rooted start) (hChildren : Rooted children) :
    (node (.other name) start children).Keeps :=
  node_keeps hStart (takes_other name children) hChildren

/-- A leaf spans its lexeme. -/
theorem rawText_leaf {kind : SyntaxKind} {read? : Text → Option Split} (hSplits : Splits read?)
    {c c' : Cursor} {t : SyntaxTree} (hc : c.Stands) (h : leaf kind read? c = .ok (t, c')) :
    IsLexeme read? (Source.text.slice t.start t.stop) := by
  obtain ⟨s, hRead, rfl, rfl⟩ := leaf_eq_ok h
  have hSlice := (hc.passTrivia true).slice_advance (hSplits _ _ _ hRead)
  exact hSlice.symm ▸ hSplits.isLexeme hRead

/-- A leaf is rooted: it spans its lexeme, which is what the kinds of names ask. -/
theorem leaf_keeps {kind : SyntaxKind} {read? : Text → Option Split} (hRead : ReadBy kind read?) :
    (leaf kind read?).Keeps := by
  intro c hc t c' hResult
  have hRaw := rawText_leaf hRead.1 hc hResult
  obtain ⟨s, hSplit, hCursor, hTree⟩ := leaf_eq_ok hResult
  refine ⟨?_, hCursor ▸ (hc.passTrivia true).passToken (hRead.1 _ _ _ hSplit)⟩
  rw [hTree] at hRaw ⊢
  have hStart := (hc.passTrivia true).boundary
  refine .node ?_ nofun
  rcases hRead.2 with hFree | ⟨hName, hWord⟩
  · exact .of_isFree hStart hFree
  · refine ⟨hStart, fun _ => ?_, fun h => absurd h (SyntaxKind.ne_of_isName hName).1, fun f hf => ?_⟩
    · rcases hWord with rfl | rfl
      · exact Or.inl hRaw
      · exact Or.inr hRaw
    · exact nomatch (SyntaxKind.ne_of_isName hName).2 ▸ hf

end Parser

-- ---------------------------------------------------------------------------
-- Rules
-- ---------------------------------------------------------------------------

open ClassTags.Grammar.Parser

/-- All rules keep to the source text. -/
structure Rules.Keep (r : Rules) : Prop where
  climb : ∀ ctx least, (r.climb ctx least).Keeps
  unary : ∀ ctx, (r.unary ctx).Keeps
  creation : r.creation.Keeps
  pattern : r.pattern.Keeps
  statement : r.statement.Keeps

/-- An expression is what operators of any rank join. -/
theorem Rules.Keep.expression {r : Rules} (hr : r.Keep) (ctx : Context) : (r.expression ctx).Keeps :=
  hr.climb ctx 0

end Grammar

end ClassTags
