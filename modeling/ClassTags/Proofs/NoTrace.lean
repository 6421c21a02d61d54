import ClassTags.ClassRecord.Extraction
import ClassTags.Proofs.LiteralText
import Mathlib.Logic.Relation

/-!
# Comments and parentheses leave no trace

A comment may stand among the children of any node, and parentheses may be put around an expression
wherever one is read. Neither can be seen in the program: if a tree is tidied up by taking comments
away and by putting the inside of parentheses in their place, the same is read from it, with the
same notices.

The children of a node are read in several ways: as expressions, by the part that they play, as
entries of an object, as statements, and for the spans of their literals. Which of them counts
depends on the kind of the node, and it is only for the right kinds that parentheses and their
inside are read alike. Two things are seen of parentheses nevertheless. A literal in a comment
beside the expression is kept as it is written in every text around it, and the children of the root
are read as statements, whatever the root is.

Main definitions:

* `SyntaxTree.Tidied` — one comment or one pair of parentheses is taken away somewhere in a tree;
* `SyntaxTree.TidiedInside` — the same, but no parentheses that are children of the root;
* `SyntaxTree.ReadsAlike` — the same is read from two lists of children;
* `SyntaxTree.Alike` — the same is read from two trees, wherever they stand.

Main results:

* `SyntaxTree.Tidied.alike` — what one step keeps;
* `Program.ofTree_tidied` — tidying up keeps the program, the notices and the classes.
-/

namespace ClassTags

namespace SyntaxTree

-- ---------------------------------------------------------------------------
-- Tidying up
-- ---------------------------------------------------------------------------

/-- A tree that plays another part in its parent. -/
def withField (f : Option SyntaxField) : SyntaxTree → SyntaxTree
  | node l cs => node { l with field := f } cs

/-- Comments and punctuation, which may stand in parentheses beside an expression. -/
def isFiller (t : SyntaxTree) : Bool := t.kind = .comment || (!t.label.named && t.children.isEmpty)

/-- A comment or a punctuation that is no literal and has none in it. -/
def isPlainFiller (t : SyntaxTree) : Bool := t.isFiller && t.literalSpans.isEmpty

/-- Whether a child that plays the part `f` in a node is an argument, an element of an array, the
expression of a statement, what is called, or the value of a pair. -/
def takesExpression (parent : SyntaxKind) (f : Option SyntaxField) : Bool :=
  match parent with
  | .arguments | .array | .expressionStatement => true
  | .call => f = some .function
  | .pair => f = some .value
  | _ => false

/-- A comment that plays no part and has no children. -/
structure IsComment (t : SyntaxTree) : Prop where
  kind : t.kind = .comment
  field : t.label.field = none
  children : t.children = []

/-- **One comment or one pair of parentheses is taken away, somewhere in a tree.** -/
inductive Tidied (filler : SyntaxTree → Bool) : SyntaxTree → SyntaxTree → Prop
  /-- In a string, comments are pieces of its value. -/
  | comment {l : SyntaxLabel} (before after : List SyntaxTree) {c : SyntaxTree}
      (hParent : l.kind ≠ .string) (hComment : c.IsComment) :
      Tidied filler (node l (before ++ c :: after)) (node l (before ++ after))
  /-- The inside of parentheses plays the part that they have played. -/
  | parentheses {l lp : SyntaxLabel} (before left right after : List SyntaxTree) {part : SyntaxTree}
      (hKind : lp.kind = .parenthesized) (hNamed : lp.named = true)
      (hPlace : takesExpression l.kind lp.field = true) (hPart : part.isPart = true)
      (hFiller : ∀ t ∈ left ++ right, filler t = true) :
      Tidied filler (node l (before ++ node lp (left ++ part :: right) :: after))
        (node l (before ++ part.withField lp.field :: after))
  | within {l : SyntaxLabel} (before after : List SyntaxTree) {c c' : SyntaxTree}
      (h : Tidied filler c c') :
      Tidied filler (node l (before ++ c :: after)) (node l (before ++ c' :: after))

/-- One comment or one pair of parentheses is taken away, and the parentheses are not among the
children of the root. -/
inductive TidiedInside (filler : SyntaxTree → Bool) : SyntaxTree → SyntaxTree → Prop
  | comment {l : SyntaxLabel} (before after : List SyntaxTree) {c : SyntaxTree}
      (hParent : l.kind ≠ .string) (hComment : c.IsComment) :
      TidiedInside filler (node l (before ++ c :: after)) (node l (before ++ after))
  | within {l : SyntaxLabel} (before after : List SyntaxTree) {c c' : SyntaxTree}
      (h : Tidied filler c c') :
      TidiedInside filler (node l (before ++ c :: after)) (node l (before ++ c' :: after))

variable {source : Text} {filler : SyntaxTree → Bool} {t t' c c' p part : SyntaxTree}
  {cs cs' ts left right : List SyntaxTree} {l lp : SyntaxLabel} {k : SyntaxKind}
  {f : Option SyntaxField}

-- ---------------------------------------------------------------------------
-- Trees without errors
-- ---------------------------------------------------------------------------

/-- Nothing went wrong anywhere in a tree. -/
def ErrorFree (t : SyntaxTree) : Prop := ∀ u, t.Holds u → u.hasError = false

theorem anyError_eq_false (h : ∀ c ∈ cs, c.hasError = false) : anyError cs = false := by
  induction cs with
  | nil => rfl
  | cons c cs ih =>
    obtain ⟨hFirst, hOthers⟩ := List.forall_mem_cons.mp h
    rw [anyError, hFirst, ih hOthers, Bool.or_false]

/-- Whether a tree is free of errors can be read off the labels of its nodes. -/
theorem errorFree_node :
    (node l cs).ErrorFree ↔ l.flag.getD (node l cs).isFault = false ∧ ∀ c ∈ cs, c.ErrorFree := by
  constructor
  · intro h
    refine ⟨?_, fun c hc u hu => h u (.child hc hu)⟩
    have hSelf := h _ (.self _)
    rw [hasError] at hSelf
    cases hFlag : l.flag with
    | some b => simpa [hFlag] using hSelf
    | none =>
      rw [hFlag, Option.getD_none, Bool.or_eq_false_iff] at hSelf
      exact hSelf.1
  · rintro ⟨hLabel, hChildren⟩ u hu
    cases hu with
    | self =>
      have hNone : anyError cs = false :=
        anyError_eq_false fun c hc => hChildren c hc c (.self c)
      rw [hasError, hNone, Bool.or_false]
      exact hLabel
    | child hc hu => exact hChildren _ hc u hu

/-- Which part a tree plays is of no account for its errors. -/
theorem ErrorFree.withField (h : t.ErrorFree) (f : Option SyntaxField) :
    (t.withField f).ErrorFree := by
  obtain ⟨l, cs⟩ := t
  obtain ⟨hLabel, hChildren⟩ := errorFree_node.mp h
  exact errorFree_node.mpr ⟨hLabel, hChildren⟩

/-- Tidying up makes no errors. -/
theorem Tidied.errorFree (h : Tidied filler t t') (hFree : t.ErrorFree) : t'.ErrorFree := by
  induction h with
  | comment before after =>
    obtain ⟨hLabel, hChildren⟩ := errorFree_node.mp hFree
    refine errorFree_node.mpr ⟨hLabel, fun u hu => hChildren u ?_⟩
    exact (List.Sublist.append_left (List.sublist_cons_self _ _) before).subset hu
  | parentheses before left right after =>
    rw [errorFree_node, List.forall_mem_append, List.forall_mem_cons] at hFree ⊢
    obtain ⟨hLabel, hBefore, hParentheses, hAfter⟩ := hFree
    have hPart := (errorFree_node.mp hParentheses).2 _ (List.mem_append_right left List.mem_cons_self)
    exact ⟨hLabel, hBefore, hPart.withField _, hAfter⟩
  | within before after _ ih =>
    rw [errorFree_node, List.forall_mem_append, List.forall_mem_cons] at hFree ⊢
    obtain ⟨hLabel, hBefore, hChild, hAfter⟩ := hFree
    exact ⟨hLabel, hBefore, ih hChild, hAfter⟩

-- ---------------------------------------------------------------------------
-- What is read of children
-- ---------------------------------------------------------------------------

/-- The same is read from two lists of children of a node of the kind `k`. -/
structure ReadsAlike (source : Text) (k : SyntaxKind) (cs cs' : List SyntaxTree) : Prop where
  spans : literalSpansIn cs' = literalSpansIn cs
  first : firstExpression? source cs' = firstExpression? source cs
  parts : partExpressions source cs' = partExpressions source cs
  count : (cs'.filter isPart).length = (cs.filter isPart).length
  field : ∀ f, fieldExpression? source f cs' = fieldExpression? source f cs
  arguments : k = .call → callArguments source cs' = callArguments source cs
  params : k.isFunction = true ∨ k = .methodDefinition →
    listedParams? source cs' = listedParams? source cs
  entries : k = .object → objectEntries source cs' = objectEntries source cs
  pieces : k = .string → piecesValue source cs' = piecesValue source cs

/-- The same is read from two trees, wherever they stand. -/
structure Alike (source : Text) (t t' : SyntaxTree) : Prop where
  label : t'.label = t.label
  spans : t'.literalSpans = t.literalSpans
  expression : t'.expression source = t.expression source
  parts : partExpressions source t'.children = partExpressions source t.children
  entry : ∀ ts, objectEntries source (t' :: ts) = objectEntries source (t :: ts)
  statement : t'.statement source = t.statement source

/-- One more child before those that read alike changes nothing. -/
theorem ReadsAlike.cons (h : ReadsAlike source k cs cs') (t : SyntaxTree) :
    ReadsAlike source k (t :: cs) (t :: cs') where
  spans := by rw [literalSpansIn, literalSpansIn, h.spans]
  first := by rw [firstExpression?, firstExpression?, h.first]
  parts := by rw [partExpressions, partExpressions, h.parts]
  count := by
    rw [List.filter_cons, List.filter_cons]
    split
    · rw [List.length_cons, List.length_cons, h.count]
    · exact h.count
  field f := by rw [fieldExpression?, fieldExpression?, h.field]
  arguments hk := by
    obtain ⟨l, us⟩ := t
    rw [callArguments, callArguments, h.arguments hk]
  params hk := by
    obtain ⟨l, us⟩ := t
    rw [listedParams?, listedParams?, h.params hk]
  entries hk := by
    obtain ⟨l, us⟩ := t
    rw [objectEntries, objectEntries, h.entries hk]
  pieces hk := by rw [piecesValue, piecesValue, h.pieces hk]

/-- What comes before is read in the same way. -/
theorem ReadsAlike.append (h : ReadsAlike source k cs cs') (before : List SyntaxTree) :
    ReadsAlike source k (before ++ cs) (before ++ cs') := by
  induction before with
  | nil => exact h
  | cons t before ih => exact ih.cons t

-- ---------------------------------------------------------------------------
-- A comment
-- ---------------------------------------------------------------------------

theorem IsComment.not_part (h : c.IsComment) : c.isPart = false := by simp [isPart, h.kind]

/-- A tree that is no literal has the literals of its children. -/
theorem literalSpans_of_kind (h : t.kind.isLiteral = false) :
    t.literalSpans = literalSpansIn t.children := by
  obtain ⟨l, cs⟩ := t
  have hKind : l.kind.isLiteral = false := h
  rw [literalSpans, hKind, if_neg Bool.false_ne_true]
  rfl

theorem IsComment.literalSpans (h : c.IsComment) : c.literalSpans = [] := by
  rw [literalSpans_of_kind (by rw [h.kind]; rfl), h.children]
  rfl

/-- A comment is not seen by any way of reading, but for the value of a string. -/
theorem IsComment.readsAlike (h : c.IsComment) (hk : k ≠ .string) :
    ReadsAlike source k (c :: cs) cs where
  spans := by rw [literalSpansIn, h.literalSpans, List.nil_append]
  first := by rw [firstExpression?, if_neg (ne_true_of_eq_false h.not_part)]
  parts := by rw [partExpressions, if_neg (ne_true_of_eq_false h.not_part)]
  count := by rw [List.filter_cons_of_neg (ne_true_of_eq_false h.not_part)]
  field f := by rw [fieldExpression?, h.field, if_neg (by simp)]
  arguments _ := by
    obtain ⟨l, us⟩ := c
    have hField : l.field = none := h.field
    rw [callArguments, hField, if_neg (by simp)]
  params _ := by
    obtain ⟨l, us⟩ := c
    have hField : l.field = none := h.field
    rw [listedParams?, hField, if_neg (by simp)]
  entries _ := (objectEntries_cons_of_not_part h.not_part).symm
  pieces hString := absurd hString hk

-- ---------------------------------------------------------------------------
-- Parentheses
-- ---------------------------------------------------------------------------

/-- What fills the space between parts is no part. -/
theorem not_part_of_isFiller (h : t.isFiller = true) : t.isPart = false := by
  simp only [isFiller, Bool.or_eq_true, decide_eq_true_eq, Bool.and_eq_true, Bool.not_eq_true'] at h
  rcases h with hKind | ⟨hNamed, -⟩
  · simp [isPart, hKind]
  · simp [isPart, hNamed]

/-- Among fillers there is just the one part. -/
theorem parts_of_fillers (hPart : part.isPart = true)
    (hFiller : ∀ t ∈ left ++ right, t.isFiller = true) :
    (left ++ part :: right).filter isPart = [part] := by
  have hNone : ∀ t ∈ left ++ right, ¬ t.isPart = true := fun t ht =>
    ne_true_of_eq_false (not_part_of_isFiller (hFiller t ht))
  obtain ⟨hLeft, hRight⟩ := List.forall_mem_append.mp hNone
  rw [List.filter_append, List.filter_cons_of_pos hPart, List.filter_eq_nil_iff.mpr hLeft,
    List.filter_eq_nil_iff.mpr hRight, List.nil_append]

/-- Parentheses around a single part are read as that part. -/
theorem expression_parentheses (hKind : l.kind = .parenthesized) (hParts : cs.filter isPart = [part]) :
    expression source (node l cs) = expression source part := by
  rw [expression]
  simp only [hKind, hParts]
  rw [firstExpression?_eq, ← List.head?_filter, hParts]
  rfl

/-- An expression reads alike in any part. -/
theorem expression_withField : expression source (t.withField f) = expression source t := by
  obtain ⟨l, cs⟩ := t
  rfl

/-- A tree has the same literals in any part. -/
theorem literalSpans_withField : (t.withField f).literalSpans = t.literalSpans := by
  obtain ⟨l, cs⟩ := t
  rfl

theorem isPart_withField : (t.withField f).isPart = t.isPart := by
  obtain ⟨l, cs⟩ := t
  rfl

/-- The literals of two lists of trees come one after the other. -/
theorem literalSpansIn_append : literalSpansIn (ts ++ cs) = literalSpansIn ts ++ literalSpansIn cs := by
  induction ts with
  | nil => rfl
  | cons t ts ih => rw [List.cons_append, literalSpansIn, literalSpansIn, ih, List.append_assoc]

theorem isPlainFiller_iff : t.isPlainFiller = true ↔ t.isFiller = true ∧ t.literalSpans = [] := by
  rw [isPlainFiller, Bool.and_eq_true, List.isEmpty_iff]

/-- Plain fillers have no literals. -/
theorem literalSpansIn_of_plain (h : ∀ t ∈ ts, t.isPlainFiller = true) : literalSpansIn ts = [] := by
  induction ts with
  | nil => rfl
  | cons t ts ih =>
    obtain ⟨hFirst, hOthers⟩ := List.forall_mem_cons.mp h
    rw [literalSpansIn, (isPlainFiller_iff.mp hFirst).2, ih hOthers, List.nil_append]

/-- Parentheses with plain fillers have the literals of what is in them. -/
theorem literalSpans_parentheses (hKind : lp.kind = .parenthesized)
    (hFiller : ∀ t ∈ left ++ right, t.isPlainFiller = true) :
    (node lp (left ++ part :: right)).literalSpans = part.literalSpans := by
  obtain ⟨hLeft, hRight⟩ := List.forall_mem_append.mp hFiller
  have hOpen : (node lp (left ++ part :: right)).kind.isLiteral = false := by
    rw [kind, label, hKind]
    rfl
  rw [literalSpans_of_kind hOpen, children, literalSpansIn_append, literalSpansIn,
    literalSpansIn_of_plain hLeft, literalSpansIn_of_plain hRight, List.nil_append, List.append_nil]

/-- Parentheses and their inside are read alike where an expression is read. -/
theorem readsAlike_parentheses (hKind : lp.kind = .parenthesized) (hNamed : lp.named = true)
    (hPlace : takesExpression k lp.field = true) (hPart : part.isPart = true)
    (hFiller : ∀ t ∈ left ++ right, t.isPlainFiller = true) :
    ReadsAlike source k (node lp (left ++ part :: right) :: cs)
      (part.withField lp.field :: cs) := by
  have hParts : (left ++ part :: right).filter isPart = [part] :=
    parts_of_fillers hPart fun t ht => (isPlainFiller_iff.mp (hFiller t ht)).1
  have hSelf : (node lp (left ++ part :: right)).isPart = true := by
    simp [isPart, kind, label, hKind, hNamed]
  have hInside : (part.withField lp.field).isPart = true := isPart_withField.trans hPart
  have hField : (part.withField lp.field).label.field = lp.field := by cases part; rfl
  have hRead : expression source (part.withField lp.field) =
      expression source (node lp (left ++ part :: right)) :=
    expression_withField.trans (expression_parentheses hKind hParts).symm
  -- all that a reader can ask about the children has the same answer
  constructor
  case spans =>
    rw [literalSpansIn, literalSpansIn, literalSpans_parentheses hKind hFiller, literalSpans_withField]
  case first => rw [firstExpression?, firstExpression?, if_pos hSelf, if_pos hInside, hRead]
  case parts => rw [partExpressions, partExpressions, if_pos hSelf, if_pos hInside, hRead]
  case count =>
    rw [List.filter_cons_of_pos hSelf, List.filter_cons_of_pos hInside, List.length_cons,
      List.length_cons]
  case field =>
    intro f
    rw [fieldExpression?, fieldExpression?, hField, hRead, label]
  case arguments =>
    rintro rfl
    have hCallee : lp.field = some .function := by simpa [takesExpression] using hPlace
    obtain ⟨lq, us⟩ := part
    rw [withField, callArguments, callArguments, hCallee, if_neg (by simp), if_neg (by simp)]
  case params =>
    rintro (hFunction | rfl)
    · cases k <;> simp [takesExpression, SyntaxKind.isFunction] at hPlace hFunction
    · simp [takesExpression] at hPlace
  case entries =>
    rintro rfl
    simp [takesExpression] at hPlace
  case pieces =>
    rintro rfl
    simp [takesExpression] at hPlace

-- ---------------------------------------------------------------------------
-- What is read of a tree
-- ---------------------------------------------------------------------------

/-- Trees whose children read alike have the same literals. -/
theorem ReadsAlike.literalSpans_eq (h : ReadsAlike source l.kind cs cs') :
    (node l cs').literalSpans = (node l cs).literalSpans := by
  rw [literalSpans, literalSpans, h.spans]

/-- Trees whose children read alike have the same text. -/
theorem ReadsAlike.place_eq (h : ReadsAlike source l.kind cs cs') :
    (node l cs').place source = (node l cs).place source := by
  unfold place line text rawText
  rw [h.literalSpans_eq]
  rfl

/-- **Trees whose children read alike read alike**, whatever their kind. -/
theorem ReadsAlike.expression_eq (h : ReadsAlike source l.kind cs cs') :
    expression source (node l cs') = expression source (node l cs) := by
  rw [expression, expression, h.place_eq, h.parts, h.count, h.first, h.field, h.field]
  split
  case h_5 hKind => rw [stringValue, stringValue, h.pieces hKind]
  case h_7 hKind => rw [h.arguments hKind]
  case h_8 hKind => rw [h.entries hKind]
  case h_10 hKind | h_11 hKind | h_12 hKind | h_13 hKind =>
    rw [h.params (.inl (by rw [hKind]; rfl))]
  all_goals rfl

/-- Entries whose children read alike read alike. -/
theorem ReadsAlike.entry_eq (h : ReadsAlike source l.kind cs cs') (ts : List SyntaxTree) :
    objectEntries source (node l cs' :: ts) = objectEntries source (node l cs :: ts) := by
  have hPart : (node l cs').isPart = (node l cs).isPart := rfl
  rw [objectEntries, objectEntries, h.place_eq, hPart, h.field, h.field, h.field, h.field]
  split
  case isTrue =>
    split
    case h_3 hKind => rw [h.params (.inr hKind)]
    all_goals rfl
  case isFalse => rfl

/-- If the same is read from the children of two trees with one label, the trees are alike. -/
theorem ReadsAlike.alike (h : ReadsAlike source l.kind cs cs') :
    Alike source (node l cs) (node l cs') where
  label := rfl
  spans := h.literalSpans_eq
  expression := h.expression_eq
  parts := h.parts
  entry := h.entry_eq
  statement := by
    rw [statement, statement, h.place_eq, children, h.first]
    rfl

theorem Alike.isPart_eq (h : Alike source c c') : c'.isPart = c.isPart := by
  rw [isPart, isPart, kind, kind, h.label]

/-- Alike trees are read alike among the children of every node. -/
theorem Alike.readsAlike (h : Alike source c c') : ReadsAlike source k (c :: cs) (c' :: cs) := by
  have hEntry := h.entry cs
  have hPart := h.isPart_eq
  have hRead := h.expression
  obtain ⟨l, us⟩ := c
  obtain ⟨l', us'⟩ := c'
  obtain rfl : l' = l := h.label
  have hParts : partExpressions source us' = partExpressions source us := h.parts
  constructor
  case spans => rw [literalSpansIn, literalSpansIn, h.spans]
  case first => rw [firstExpression?, firstExpression?, hPart, hRead]
  case parts => rw [partExpressions, partExpressions, hPart, hRead]
  case count =>
    rw [List.filter_cons, List.filter_cons, hPart]
    split <;> rfl
  case field =>
    intro f
    rw [fieldExpression?, fieldExpression?, hRead, h.label]
  case arguments =>
    intro _
    rw [callArguments, callArguments, hParts]
  case params =>
    intro _
    rw [listedParams?, listedParams?, hParts]
  case entries => exact fun _ => hEntry
  case pieces =>
    intro _
    rw [piecesValue, piecesValue]
    rfl

/-- **What one step keeps.** -/
theorem Tidied.alike (h : Tidied isPlainFiller t t') : Alike source t t' := by
  induction h with
  | comment before after hParent hComment =>
    exact ((hComment.readsAlike hParent).append before).alike
  | parentheses before left right after hKind hNamed hPlace hPart hFiller =>
    exact ((readsAlike_parentheses hKind hNamed hPlace hPart hFiller).append before).alike
  | within before after _ ih => exact (ih.readsAlike.append before).alike

-- ---------------------------------------------------------------------------
-- The children of the root
-- ---------------------------------------------------------------------------

/-- Statements that read alike do so behind others. -/
theorem statements_append (h : statements source cs' = statements source cs)
    (before : List SyntaxTree) :
    statements source (before ++ cs') = statements source (before ++ cs) := by
  induction before with
  | nil => exact h
  | cons t before ih => rw [List.cons_append, List.cons_append, statements, statements, ih]

/-- A comment between statements is passed over. -/
theorem IsComment.statements_cons (h : c.IsComment) (cs : List SyntaxTree) :
    statements source (c :: cs) = statements source cs := by
  rw [statements, if_neg (ne_true_of_eq_false h.not_part)]

/-- A statement may be replaced by one that reads alike. -/
theorem Alike.statements_cons (h : Alike source c c') (cs : List SyntaxTree) :
    statements source (c' :: cs) = statements source (c :: cs) := by
  rw [statements, statements, h.isPart_eq, h.statement]

/-- What is tidied inside a program leaves its statements as they read. -/
theorem TidiedInside.statements_eq (h : TidiedInside isPlainFiller t t') :
    statements source t'.children = statements source t.children := by
  cases h with
  | comment before after _ hComment =>
    exact statements_append (hComment.statements_cons after).symm before
  | within before after h => exact statements_append (h.alike.statements_cons after) before

theorem TidiedInside.tidied (h : TidiedInside filler t t') : Tidied filler t t' := by
  cases h with
  | comment before after hParent hComment => exact .comment before after hParent hComment
  | within before after h => exact .within before after h

end SyntaxTree

namespace Program

open SyntaxTree

variable {filler : SyntaxTree → Bool} {tree tree' : SyntaxTree}

/-- A tree without errors is read by its statements. -/
theorem ofTree_of_errorFree (hFree : tree.ErrorFree) (path source : Text) :
    ofTree path source tree = (statements source tree.children >>= fun body => pure ⟨body⟩) := by
  have hLine : tree.errorLine? source = none := by
    rw [errorLine?, hFree tree (.self tree), if_neg Bool.false_ne_true]
  rw [ofTree, hLine]

/-- **Comments and parentheses around a single expression leave no trace**: the program, the notices
and the classes of a tree without errors stay the same if it is tidied up in any number of steps. -/
theorem ofTree_tidied (path source : Text) (hFree : tree.ErrorFree)
    (h : Relation.ReflTransGen (TidiedInside isPlainFiller) tree tree') :
    ofTree path source tree' = ofTree path source tree ∧
    ∀ (defineCalls : List Text) (path' : Text),
      (ofTree path source tree' >>= extract defineCalls path') =
        (ofTree path source tree >>= extract defineCalls path') := by
  have hBoth : tree'.ErrorFree ∧ ofTree path source tree' = ofTree path source tree := by
    induction h with
    | refl => exact ⟨hFree, rfl⟩
    | tail _ hStep ih =>
      have hFree' := hStep.tidied.errorFree ih.1
      refine ⟨hFree', Eq.trans ?_ ih.2⟩
      rw [ofTree_of_errorFree hFree', ofTree_of_errorFree ih.1, hStep.statements_eq]
  exact ⟨hBoth.2, fun defineCalls path' => by rw [hBoth.2]⟩

/-- A named tree without children. -/
def parcelLeaf (kind : SyntaxKind) (start stop : Nat) : SyntaxTree := .node { kind, start, stop } []

/-- Parentheses that play the part `f`. -/
def parcelled (f : Option SyntaxField) (start stop : Nat) (inside : List SyntaxTree) : SyntaxTree :=
  .node { kind := .parenthesized, start, stop, field := f }
    (.node { kind := .other "(", start, stop := start + 1, named := false } [] :: inside ++
      [.node { kind := .other ")", start := stop - 1, stop, named := false } []])

theorem parcelled_fillers (a b c d : Nat) :
    ∀ t ∈ [SyntaxTree.node { kind := .other "(", start := a, stop := b, named := false } []] ++
      [.node { kind := .other ")", start := c, stop := d, named := false } []],
      t.isPlainFiller = true := by
  simp [isPlainFiller, isFiller, kind, label, children, literalSpans, literalSpansIn,
    SyntaxKind.isLiteral]

/-- A class with parentheses around what is called, around its body and around a value, and with a
comment. -/
def parcel : Text := "(d)(\"a\",/*c*/(\x7bb:(1)\x7d));"

/-- The body of the class. -/
def parcelBody (value : SyntaxTree) : SyntaxTree :=
  .node { kind := .object, start := 14, stop := 21 }
    [.node { kind := .pair, start := 15, stop := 20 }
      [(parcelLeaf .propertyIdentifier 15 16).withField (some .key), value]]

/-- The tree of the class. -/
def parcelTree (callee : SyntaxTree) (others : List SyntaxTree) : SyntaxTree :=
  .node { kind := .program, start := 0, stop := 24 }
    [.node { kind := .expressionStatement, start := 0, stop := 24 }
      [.node { kind := .call, start := 0, stop := 23 }
        [callee, .node { kind := .arguments, start := 3, stop := 23, field := some .arguments }
          (.node { kind := .string, start := 4, stop := 7 }
            [parcelLeaf (.other "string_fragment") 5 6] :: others)]]]

/-- The class as it is written. -/
def packedParcel : SyntaxTree :=
  parcelTree (parcelled (some .function) 0 3 [parcelLeaf .identifier 1 2])
    [parcelLeaf .comment 8 13,
      parcelled none 13 22 [parcelBody (parcelled (some .value) 17 20 [parcelLeaf .number 18 19])]]

/-- The class without parentheses and without the comment. -/
def unpackedParcel : SyntaxTree :=
  parcelTree ((parcelLeaf .identifier 1 2).withField (some .function))
    [parcelBody ((parcelLeaf .number 18 19).withField (some .value))]

/-- A definition with a comment and parentheses in it reads like the one without. -/
theorem ofTree_tidied_of_parcel :
    packedParcel.ErrorFree ∧
    Relation.ReflTransGen (TidiedInside isPlainFiller) packedParcel unpackedParcel ∧
    ((ofTree [] parcel packedParcel).result.map fun p =>
      (p.classes ["d"] []).map fun r => (r.name, r.body.text)) =
        .ok [(("a" : Text), ("\x7bb:(1)\x7d" : Text))] ∧
    ofTree [] parcel unpackedParcel = ofTree [] parcel packedParcel := by
  have hFree : packedParcel.ErrorFree := by
    simp [packedParcel, parcelTree, parcelled, parcelBody, parcelLeaf, withField, errorFree_node,
      isFault, kind, label]
  have hIsComment : (parcelLeaf .comment 8 13).IsComment := ⟨rfl, rfl, rfl⟩
  let bare := parcelTree ((parcelLeaf .identifier 1 2).withField (some .function))
  let body := parcelBody (parcelled (some .value) 17 20 [parcelLeaf .number 18 19])
  -- one step for each pair of parentheses, and one for the comment
  have hCallee : TidiedInside isPlainFiller packedParcel
      (bare [parcelLeaf .comment 8 13, parcelled none 13 22 [body]]) :=
    .within [] [] (.within [] []
      (.parentheses [] [_] [_] [_] rfl rfl rfl rfl (parcelled_fillers 0 1 2 3)))
  have hComment : TidiedInside isPlainFiller
      (bare [parcelLeaf .comment 8 13, parcelled none 13 22 [body]])
      (bare [parcelled none 13 22 [body]]) :=
    .within [] [] (.within [] [] (.within [_] [] (.comment [_] [_] (by simp) hIsComment)))
  have hArgument : TidiedInside isPlainFiller (bare [parcelled none 13 22 [body]]) (bare [body]) :=
    .within [] [] (.within [] [] (.within [_] []
      (.parentheses [_] [_] [_] [] rfl rfl rfl rfl (parcelled_fillers 13 14 21 22))))
  have hValue : TidiedInside isPlainFiller (bare [body]) unpackedParcel :=
    .within [] [] (.within [] [] (.within [_] [] (.within [_] [] (.within [] []
      (.parentheses [_] [_] [_] [] rfl rfl rfl rfl (parcelled_fillers 17 18 19 20))))))
  have hSteps : Relation.ReflTransGen (TidiedInside isPlainFiller) packedParcel unpackedParcel :=
    .head hCallee (.head hComment (.head hArgument (.single hValue)))
  exact ⟨hFree, hSteps, by decide +kernel, (ofTree_tidied [] parcel hFree hSteps).1⟩

/-- A remark with a string in it beside an expression in parentheses, in a statement. -/
def remark : Text := "(/*\"  \"*/x)"

/-- The parentheses of the statement. -/
def remarkParentheses : SyntaxTree :=
  parcelled none 0 11
    [.node { kind := .comment, start := 1, stop := 9 } [parcelLeaf .string 3 7],
      parcelLeaf .identifier 9 10]

/-- The tree of the statement, by its expression. -/
def remarkTree (expression : SyntaxTree) : SyntaxTree :=
  .node { kind := .program, start := 0, stop := 11 }
    [.node { kind := .expressionStatement, start := 0, stop := 11 } [expression]]

/-- A statement that is the root of a tree, by its expression. -/
def loneStatement (expression : SyntaxTree) : SyntaxTree :=
  .node { kind := .expressionStatement, start := 0, stop := 3 } [expression]

/-- The texts of the statements that are read from a tree. -/
def statementTexts (source : Text) (tree : SyntaxTree) : Except SourceFailure (List Text) :=
  (ofTree [] source tree).result.map fun p => p.body.map Node.text

/-- Two ways to see parentheses: a literal in a comment beside the expression, and a statement that
is the root. -/
theorem ofTree_shows_parentheses :
    ((remarkTree remarkParentheses).ErrorFree ∧
      TidiedInside isFiller (remarkTree remarkParentheses) (remarkTree (parcelLeaf .identifier 9 10)) ∧
      statementTexts remark (remarkTree remarkParentheses) = .ok [("(/*\"  \"*/x)" : Text)] ∧
      statementTexts remark (remarkTree (parcelLeaf .identifier 9 10)) =
        .ok [("(/*\" \"*/x)" : Text)]) ∧
    (loneStatement (parcelled none 0 3 [parcelLeaf .identifier 1 2])).ErrorFree ∧
      Tidied isPlainFiller (loneStatement (parcelled none 0 3 [parcelLeaf .identifier 1 2]))
        (loneStatement (parcelLeaf .identifier 1 2)) ∧
      statementTexts "(x)" (loneStatement (parcelled none 0 3 [parcelLeaf .identifier 1 2])) =
        .ok [("(x)" : Text)] ∧
      statementTexts "(x)" (loneStatement (parcelLeaf .identifier 1 2)) = .ok [("x" : Text)] := by
  refine ⟨⟨?_, ?_, by decide +kernel, by decide +kernel⟩, ?_, ?_, by decide +kernel, by decide +kernel⟩
  · simp [remarkTree, remarkParentheses, parcelled, parcelLeaf, errorFree_node, isFault, kind, label]
  · refine .within [] [] (.parentheses [] [_, _] [_] [] rfl rfl rfl rfl ?_)
    simp [isFiller, kind, label, children]
  · simp [loneStatement, parcelled, parcelLeaf, errorFree_node, isFault, kind, label]
  · exact .parentheses [] [_] [_] [] rfl rfl rfl rfl (parcelled_fillers 0 1 2 3)

end Program

end ClassTags
