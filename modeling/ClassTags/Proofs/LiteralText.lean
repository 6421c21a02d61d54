import ClassTags.Proofs.Statements
import ClassTags.Proofs.TagText

/-!
# Where tabs and line feeds come from

The text of a tree is put on one line: outside of literals every run of blanks becomes one space.
Names are words and have no blanks, and numbers are written in digits. So a tab or a line feed has
only two ways into what is read from a source text. The text of a tree keeps the literals in it as
they are written, and a string literal names things by its value.

Main definitions:

* `SyntaxTree.Holds` — a tree somewhere in a tree;
* `ShowsLiteral` — a literal with a tab or a line feed shows in a text;
* `IsStringValue` — a text is the value of a string literal.

Main results:

* `SyntaxTree.exists_literal_of_mem_text` — the first way, for one tree;
* `Program.traced_ofSource` — both ways, for all nodes of a program.
-/

namespace ClassTags

-- ---------------------------------------------------------------------------
-- Texts on one line
-- ---------------------------------------------------------------------------

namespace Text

/-- The characters that end a field or a line of a tag file. -/
def breaks : List Char := ['\t', '\n']

/-- A text is plain if no character that breaks a tag file is in it. -/
theorem plain_iff {t : Text} : t.Plain ↔ ∀ c ∈ breaks, c ∉ t := by
  simp [Plain, breaks]

theorem not_plain_iff {t : Text} : ¬ t.Plain ↔ ∃ c ∈ breaks, c ∈ t := by
  simp [plain_iff]

theorem Plain.of_subset {s t : Text} (ht : t.Plain) (h : s ⊆ t) : s.Plain :=
  ⟨fun hMem => ht.1 (h hMem), fun hMem => ht.2 (h hMem)⟩

/-- Runs of white space are collapsed to a space, which breaks nothing. -/
theorem plain_collapseFrom (inRun : Bool) (t : Text) : (collapseFrom inRun t).Plain := by
  induction t generalizing inRun with
  | nil => exact plain_nil
  | cons c t ih =>
    unfold collapseFrom
    split
    case isTrue =>
      split
      · exact ih true
      · exact plain_cons.mpr ⟨by decide, ih true⟩
    case isFalse hBlank =>
      refine plain_cons.mpr ⟨⟨?_, ?_⟩, ih false⟩
      · rintro rfl
        exact hBlank rfl
      · rintro rfl
        exact hBlank rfl

/-- A text whose blanks are collapsed has no other blanks than spaces. -/
theorem plain_collapse (t : Text) : (collapse t).Plain := plain_collapseFrom false t

theorem strip_subset (t : Text) : strip t ⊆ t := by
  intro c hc
  have hStart : c ∈ stripStart t :=
    List.mem_reverse.mp ((List.dropWhile_suffix _).subset (List.mem_reverse.mp hc))
  exact (List.dropWhile_suffix _).subset hStart

end Text

-- ---------------------------------------------------------------------------
-- The text of a tree
-- ---------------------------------------------------------------------------

namespace SyntaxTree

variable {source : Text} {t u c : SyntaxTree} {ts : List SyntaxTree} {b : Char}

/-- A tree is another one, or stands somewhere in it. -/
inductive Holds : SyntaxTree → SyntaxTree → Prop
  | self (t : SyntaxTree) : Holds t t
  | child {t c u : SyntaxTree} (hChild : c ∈ t.children) (h : Holds c u) : Holds t u

/-- A tree holds the children of the trees that it holds. -/
theorem Holds.snoc (h : t.Holds u) (hChild : c ∈ u.children) : t.Holds c := by
  induction h with
  | self t => exact .child hChild (.self c)
  | child hFirst _ ih => exact .child hFirst (ih hChild)

/-- What passes down a tree holds of all trees that it holds. -/
theorem Hereditary.holds {T : SyntaxTree → Prop} (hT : Hereditary T) (h : t.Holds u) (ht : T t) :
    T u := by
  induction h with
  | self t => exact ht
  | child hChild _ ih => exact ih (hT _ ht _ hChild)

/-- The literals in trees are those in each of them. -/
theorem mem_literalSpansIn {span : Nat × Nat} :
    span ∈ literalSpansIn ts ↔ ∃ t ∈ ts, span ∈ t.literalSpans := by
  induction ts with
  | nil => simp [literalSpansIn]
  | cons t ts ih => simp [literalSpansIn, ih]

/-- What holds of a tree as soon as it holds of its children holds of every tree. -/
theorem children_induction {motive : SyntaxTree → Prop}
    (step : ∀ t, (∀ c ∈ t.children, motive c) → motive t) (t : SyntaxTree) : motive t :=
  step t fun c _ => children_induction step c
termination_by sizeOf t
decreasing_by exact sizeOf_lt_of_mem_children ‹_›

/-- The spans of literals are those of literals in the tree. -/
theorem exists_literal {span : Nat × Nat} (h : span ∈ t.literalSpans) :
    ∃ u, t.Holds u ∧ u.kind.isLiteral = true ∧ span = (u.start, u.stop) := by
  induction t using children_induction with
  | step t ih =>
    obtain ⟨l, cs⟩ := t
    rw [literalSpans] at h
    split at h
    case isTrue hLiteral => exact ⟨_, .self _, hLiteral, List.mem_singleton.mp h⟩
    case isFalse =>
      obtain ⟨c, hc, hSpan⟩ := mem_literalSpansIn.mp h
      obtain ⟨u, hu, hLiteral⟩ := ih c hc hSpan
      exact ⟨u, .child hc hu, hLiteral⟩

/-- What is put on one line has tabs and line feeds only in the spans that are kept as written. -/
theorem mem_flatten {own : Text} {base pos : Nat} {spans : List (Nat × Nat)} (hb : b ∈ Text.breaks)
    (h : b ∈ flatten own base pos spans) :
    ∃ span ∈ spans, b ∈ own.slice (span.1 - base) (span.2 - base) := by
  have hCollapse : ∀ piece, b ∉ Text.collapse piece := fun piece =>
    Text.plain_iff.mp (Text.plain_collapse piece) b hb
  induction spans generalizing pos with
  | nil => exact absurd h (hCollapse _)
  | cons span spans ih =>
    rw [flatten, List.mem_append, List.mem_append] at h
    rcases h with (h | h) | h
    · exact absurd h (hCollapse _)
    · exact ⟨span, List.mem_cons_self, h⟩
    · obtain ⟨other, hOther, hMem⟩ := ih h
      exact ⟨other, List.mem_cons_of_mem span hOther, hMem⟩

/-- **A tab or a line feed in the text of a tree stands in a literal.** -/
theorem exists_literal_of_mem_text (ht : t.WellFormed source) (hb : b ∈ Text.breaks)
    (h : b ∈ t.text source) :
    ∃ u, t.Holds u ∧ u.kind.isLiteral = true ∧ b ∈ u.rawText source := by
  obtain ⟨span, hSpan, hSlice⟩ := mem_flatten hb (Text.strip_subset _ h)
  obtain ⟨u, hu, hLiteral, rfl⟩ := exists_literal hSpan
  have hStart : u.WellFormed source := (hereditary_wellFormed source).holds hu ht
  exact ⟨u, hu, hLiteral, Text.slice_slice_subset ht.start hStart.start hSlice⟩

/-- A name is a word, and so it has neither tabs nor line feeds. -/
theorem plain_rawText_of_isName (ht : t.WellFormed source) (hName : t.kind.isName = true) :
    (t.rawText source).Plain := by
  have hSpace : ∀ c ∈ t.rawText source, Grammar.isSpace c = false := by
    rcases ht.fits.name hName with ⟨rest, hWord⟩ | ⟨rest, hPrivate⟩
    · exact Grammar.not_isSpace_of_mem_word hWord
    · exact Grammar.not_isSpace_of_mem_privateName hPrivate
  rw [Text.plain_iff]
  intro c hc hMem
  have hNone := hSpace c hMem
  rcases List.mem_cons.mp hc with rfl | hc
  · exact nomatch hNone
  · rw [List.mem_singleton.mp hc] at hNone
    exact nomatch hNone

end SyntaxTree

-- ---------------------------------------------------------------------------
-- Numbers
-- ---------------------------------------------------------------------------

namespace Number

/-- Signs and digits break nothing. -/
theorem plain_integerText (i : Int) : (integerText i).Plain := by
  cases i with
  | ofNat n => exact Text.plain_decimal n
  | negSucc n => exact Text.plain_cons.mpr ⟨by decide, Text.plain_decimal _⟩

theorem plain_replicate_zero (n : Nat) : Text.Plain (List.replicate n '0') := by
  induction n with
  | zero => exact Text.plain_nil
  | succ n ih => exact Text.plain_cons.mpr ⟨by decide, ih⟩

theorem plain_significant (d : Decimal) : d.significant.Plain := by
  refine (Text.plain_decimal d.digits).of_subset fun c hc => ?_
  exact List.mem_reverse.mp ((List.dropWhile_suffix _).subset (List.mem_reverse.mp hc))

/-- A decimal breaks nothing, whichever way it is written. -/
theorem plain_decimalText (d : Decimal) : d.text.Plain := by
  have hTake : ∀ n, Text.Plain (d.significant.take n) := fun n =>
    (plain_significant d).of_subset (List.take_subset n _)
  have hDrop : ∀ n, Text.Plain (d.significant.drop n) := fun n =>
    (plain_significant d).of_subset (List.drop_subset n _)
  unfold Decimal.text
  dsimp only
  split
  · split
    · exact Text.plain_append.mpr ⟨Text.plain_append.mpr ⟨by decide, plain_replicate_zero _⟩,
        plain_significant d⟩
    · refine Text.plain_append.mpr ⟨Text.plain_append.mpr ⟨hTake _, plain_replicate_zero _⟩,
        Text.plain_cons.mpr ⟨by decide, ?_⟩⟩
      split
      · decide
      · exact hDrop _
  · refine Text.plain_append.mpr ⟨Text.plain_append.mpr ⟨hTake 1, ?_⟩,
      Text.plain_cons.mpr ⟨by decide, Text.plain_cons.mpr ⟨?_, ?_⟩⟩⟩
    · split
      · exact Text.plain_nil
      · exact Text.plain_cons.mpr ⟨by decide, hDrop 1⟩
    · split <;> decide
    · split
      · exact Text.plain_cons.mpr ⟨by decide, Text.plain_decimal _⟩
      · exact Text.plain_decimal _

/-- So does the text of a quantity. -/
theorem plain_quantityText (q : Quantity) : q.text.Plain := by
  unfold Quantity.text
  split
  · decide
  · split <;> decide
  · split
    · exact plain_integerText _
    · refine Text.plain_append.mpr ⟨?_, plain_decimalText _⟩
      split <;> decide

end Number

/-- The value of a number is written in digits, or the number is kept as it is written. -/
theorem Literal.plain_or_eq_of_numberValue {t value : Text} (h : numberValue t = .ok value) :
    value.Plain ∨ value = t := by
  have hLimited : ∀ {i : Int}, Number.limitedText? i = some value → value.Plain := by
    intro i hi
    unfold Number.limitedText? at hi
    split at hi
    · exact Option.some.inj hi ▸ Number.plain_integerText i
    · exact nomatch hi
  unfold numberValue at h
  dsimp only at h
  split at h
  · split at h
    case h_1 hValue =>
      obtain ⟨n, -, hn⟩ := Option.bind_eq_some_iff.mp hValue
      exact .inl (hLimited (Except.ok.inj h ▸ hn))
    case h_2 => exact nomatch h
  · split at h
    case h_1 hValue =>
      obtain ⟨n, -, hn⟩ := Option.bind_eq_some_iff.mp hValue
      exact .inl (hLimited (Except.ok.inj h ▸ hn))
    case h_2 =>
      split at h
      · exact .inl (Except.ok.inj h ▸ Number.plain_quantityText _)
      · exact .inr (Except.ok.inj h).symm

-- ---------------------------------------------------------------------------
-- The two ways
-- ---------------------------------------------------------------------------

/-- A literal with a tab or a line feed shows in a text: it stands in a tree whose own text, with
that tab or line feed, is a part of the text. -/
def ShowsLiteral (source x : Text) : Prop :=
  ∃ t u b, (SyntaxTree.ofSource source).Holds t ∧ t.Holds u ∧ u.kind.isLiteral = true ∧
    b ∈ Text.breaks ∧ b ∈ u.rawText source ∧ b ∈ t.text source ∧ t.text source <:+: x

/-- The text is the value of a string literal. -/
def IsStringValue (source x : Text) : Prop :=
  ∃ t, (SyntaxTree.ofSource source).Holds t ∧ t.kind = .string ∧
    SyntaxTree.stringValue source t.children = .ok x

/-- A text that is not plain has a tab or a line feed from a literal. -/
def Traced (source x : Text) : Prop := ¬ x.Plain → IsStringValue source x ∨ ShowsLiteral source x

/-- What shows a literal does so as a part of more. -/
theorem ShowsLiteral.mono {source x y : Text} (h : ShowsLiteral source x) (hPart : x <:+: y) :
    ShowsLiteral source y := by
  obtain ⟨t, u, b, ht, hu, hLiteral, hb, hRaw, hText, hInfix⟩ := h
  exact ⟨t, u, b, ht, hu, hLiteral, hb, hRaw, hText, hInfix.trans hPart⟩

/-- The texts of a node are traced. Its own text can only show literals. -/
structure Node.Traced (source : Text) (n : Node) : Prop where
  text : ¬ n.text.Plain → ShowsLiteral source n.text
  keyName : ClassTags.Traced source n.keyName

namespace SyntaxTree

variable {source : Text} {t : SyntaxTree}

/-- If the text of a tree breaks a tag file then it shows a literal. -/
theorem showsLiteral_text (ht : t.WellFormed source) (hHeld : (ofSource source).Holds t)
    (h : ¬ (t.text source).Plain) : ShowsLiteral source (t.text source) := by
  obtain ⟨b, hb, hText⟩ := Text.not_plain_iff.mp h
  obtain ⟨u, hu, hLiteral, hRaw⟩ := exists_literal_of_mem_text ht hb hText
  exact ⟨t, u, b, hHeld, hu, hLiteral, hb, hRaw, hText, List.infix_rfl⟩

/-- A key is traced to where it was read. -/
theorem KeyOf.traced {name : Text} (h : t.KeyOf source name) (ht : t.WellFormed source)
    (hHeld : (ofSource source).Holds t) : Traced source name := by
  intro hPlain
  cases h with
  | name hKind => exact absurd (plain_rawText_of_isName ht hKind) hPlain
  | string hKind hValue => exact .inl ⟨t, hHeld, hKind, hValue⟩
  | number hKind hValue =>
    rcases Literal.plain_or_eq_of_numberValue hValue with hDigits | rfl
    · exact absurd hDigits hPlain
    · exact .inr (showsLiteral_text ht hHeld hPlain)
  | text => exact .inr (showsLiteral_text ht hHeld hPlain)

end SyntaxTree

theorem Node.All.mono {P Q : Node → Prop} (hPQ : ∀ n, P n → Q n) {n : Node} (h : n.All P) :
    n.All Q := by
  induction h with
  | intro hSelf _ ih => exact .intro (hPQ _ hSelf) ih

/-- **The texts of all nodes of a program are traced.** -/
theorem Program.traced_ofSource {path source : Text} {p : Program}
    (h : (ofSource path source).result = .ok p) : ∀ n ∈ p.body, n.All (Node.Traced source) := by
  let T (t : SyntaxTree) : Prop := t.WellFormed source ∧ (SyntaxTree.ofSource source).Holds t
  have hT : SyntaxTree.Hereditary T := fun t ht c hc =>
    ⟨SyntaxTree.hereditary_wellFormed source t ht.1 c hc, ht.2.snoc hc⟩
  have hBody : ∀ n ∈ p.body, SyntaxTree.ReadNode source T n := by
    refine (ofTree_within hT fun hClear t ht => ?_).value p h
    exact ⟨(SyntaxTree.wellFormed_of_errorLine? hClear).children t ht, .child ht (.self t)⟩
  intro n hn
  refine (hBody n hn).mono ?_
  rintro m ⟨t, ⟨ht, hHeld⟩, hPlace, hKey⟩
  have hText : m.text = t.text source := congrArg Place.text hPlace
  exact ⟨hText ▸ SyntaxTree.showsLiteral_text ht hHeld, hKey.traced ht hHeld⟩

end ClassTags
