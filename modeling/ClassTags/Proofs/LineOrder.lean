import ClassTags.Proofs.ClosedForm
import ClassTags.Proofs.TagLayout

/-!
# The order of lines

If the spans of a syntax tree are nested, and the children of every node come one after the other,
then what is read from the tree keeps that order: a node does not begin before the node it is part
of, and of two nodes in a list all lines of the first come before all lines of the second. This has
to be carried through every form of node, since reading drops trees, puts the inside of parentheses
in their place and places the function of a method at the start of its entry. Class records are made
of such lists, so their members are in order too.

Main definitions:

* `SyntaxTree.isNested` — children lie in the span of their parent, one after the other;
* `Node.Before` — all lines of a node come before all lines of another one;
* `Node.Between` — a node whose lines are in order and lie between two lines;
* `Node.Drawn` — members that are taken from a node, in order;
* `Node.Aligned` — a node whose children of one kind come one after the other.

Main results:

* `SyntaxTree.between_expression`, `SyntaxTree.row_statements` — what is read from nested trees;
* `ClassRecord.drawn_ofKind` — the members of a class are in order;
* `Program.lines_in_order` — the lines of a program and of its classes.
-/

namespace ClassTags

-- ---------------------------------------------------------------------------
-- Lines of a text
-- ---------------------------------------------------------------------------

namespace Text

/-- Fewer bytes of a text are less text. -/
theorem takeBytes_isPrefix {m n : Nat} (h : m ≤ n) (t : Text) : takeBytes m t <+: takeBytes n t := by
  induction t generalizing m n with
  | nil => rw [takeBytes_nil, takeBytes_nil]
  | cons c t ih =>
    cases m with
    | zero => simp
    | succ m =>
      obtain ⟨k, rfl⟩ : ∃ k, n = k + 1 := ⟨n - 1, by omega⟩
      exact List.cons_prefix_cons.mpr ⟨rfl, ih (by omega)⟩

/-- Later bytes are on later lines, or on the same one. -/
theorem lineAt_mono {m n : Nat} (h : m ≤ n) (t : Text) : t.lineAt m ≤ t.lineAt n :=
  Nat.succ_le_succ ((takeBytes_isPrefix h t).sublist.count_le '\n')

theorem one_le_lineAt (t : Text) (n : Nat) : 1 ≤ t.lineAt n := Nat.le_add_left 1 _

/-- A text has one line more than line feeds. -/
theorem lineAt_le (t : Text) (n : Nat) : t.lineAt n ≤ 1 + t.count '\n' := by
  have hCount := (takeBytes_prefix_self n t).sublist.count_le '\n'
  unfold lineAt
  omega

end Text

-- ---------------------------------------------------------------------------
-- Nested trees
-- ---------------------------------------------------------------------------

namespace SyntaxTree

mutual

/-- Whether the children of every node lie in its span, one after the other. -/
def isNested : SyntaxTree → Bool
  | node l cs => areNested l.start l.stop cs

/-- Whether trees are nested and lie between two bytes, one after the other. -/
def areNested : (start stop : Nat) → List SyntaxTree → Bool
  | start, stop, [] => decide (start ≤ stop)
  | start, stop, t :: ts =>
    decide (start ≤ t.start) && t.isNested && areNested t.stop stop ts

end

variable {t c : SyntaxTree} {cs ts : List SyntaxTree} {start stop : Nat}

/-- A tree is nested if its children are, within its span. -/
theorem isNested_iff : t.isNested = true ↔ areNested t.start t.stop t.children = true := by
  obtain ⟨l, cs⟩ := t
  rw [isNested]
  rfl

/-- Trees are nested if the first one is, and the others are behind it. -/
theorem areNested_cons :
    areNested start stop (t :: ts) = true ↔
      start ≤ t.start ∧ t.isNested = true ∧ areNested t.stop stop ts = true := by
  rw [areNested, Bool.and_eq_true, Bool.and_eq_true, decide_eq_true_eq, and_assoc]

theorem areNested_nil : areNested start stop [] = true ↔ start ≤ stop := by
  rw [areNested, decide_eq_true_eq]

mutual

theorem le_of_isNested : ∀ {t : SyntaxTree}, t.isNested = true → t.start ≤ t.stop
  | node _ _, h => le_of_areNested (isNested_iff.mp h)

theorem le_of_areNested : ∀ {start stop : Nat} {ts : List SyntaxTree},
    areNested start stop ts = true → start ≤ stop
  | _, _, [], h => areNested_nil.mp h
  | _, _, _ :: _, h => by
    obtain ⟨hStart, hFirst, hRest⟩ := areNested_cons.mp h
    exact hStart.trans ((le_of_isNested hFirst).trans (le_of_areNested hRest))

end

/-- Nested trees may be seen in a wider span. -/
theorem areNested_widen {lo hi : Nat} (h : areNested start stop ts = true) (hLo : lo ≤ start)
    (hHi : stop ≤ hi) : areNested lo hi ts = true := by
  induction ts generalizing start lo with
  | nil => exact areNested_nil.mpr (hLo.trans ((le_of_areNested h).trans hHi))
  | cons t ts ih =>
    obtain ⟨hStart, hFirst, hRest⟩ := areNested_cons.mp h
    exact areNested_cons.mpr ⟨hLo.trans hStart, hFirst, ih hRest le_rfl⟩

/-- Trees that are kept of nested ones are nested. -/
theorem areNested_filter (h : areNested start stop ts = true) (keep : SyntaxTree → Bool) :
    areNested start stop (ts.filter keep) = true := by
  induction ts generalizing start with
  | nil => exact h
  | cons t ts ih =>
    obtain ⟨hStart, hFirst, hRest⟩ := areNested_cons.mp h
    rw [List.filter_cons]
    split
    · exact areNested_cons.mpr ⟨hStart, hFirst, ih hRest⟩
    · exact areNested_widen (ih hRest) (hStart.trans (le_of_isNested hFirst)) le_rfl

/-- A tree among nested ones lies in their span. -/
theorem nested_of_mem (h : areNested start stop ts = true) (ht : t ∈ ts) :
    t.isNested = true ∧ start ≤ t.start ∧ t.stop ≤ stop := by
  induction ts generalizing start with
  | nil => exact absurd ht List.not_mem_nil
  | cons u ts ih =>
    obtain ⟨hStart, hFirst, hRest⟩ := areNested_cons.mp h
    rcases List.mem_cons.mp ht with rfl | ht
    · exact ⟨hFirst, hStart, le_of_areNested hRest⟩
    · obtain ⟨hNested, hLo, hHi⟩ := ih hRest ht
      exact ⟨hNested, hStart.trans ((le_of_isNested hFirst).trans hLo), hHi⟩

/-- Comments can be left out. -/
theorem areNested_parts (h : t.isNested = true) : areNested t.start t.stop t.parts = true :=
  areNested_filter (isNested_iff.mp h) isPart

/-- The parts of a tree among nested ones are nested in the same span. -/
theorem areNested_parts_of_mem (h : areNested start stop cs = true) (hc : c ∈ cs) :
    areNested start stop c.parts = true := by
  obtain ⟨hNested, hLo, hHi⟩ := nested_of_mem h hc
  exact areNested_widen (areNested_parts hNested) hLo hHi

/-- One of the children is within the span. -/
theorem areNested_toList {o : Option SyntaxTree} (h : areNested start stop cs = true)
    (ho : ∀ c ∈ o, c ∈ cs) : areNested start stop o.toList = true := by
  cases o with
  | none => exact areNested_nil.mpr (le_of_areNested h)
  | some c =>
    obtain ⟨hNested, hLo, hHi⟩ := nested_of_mem h (ho c rfl)
    exact areNested_cons.mpr ⟨hLo, hNested, areNested_nil.mpr hHi⟩

/-- The arguments of a call are nested within its span. -/
theorem areNested_argumentParts (h : areNested start stop cs = true) :
    areNested start stop (argumentParts cs) = true := by
  have hNone : areNested start stop [] = true := areNested_nil.mpr (le_of_areNested h)
  unfold argumentParts
  split
  case h_1 arguments hArguments =>
    split
    case isTrue => exact areNested_parts_of_mem h (mem_of_fieldChild? hArguments)
    case isFalse => exact hNone
  case h_2 => exact hNone

/-- The parameters of a function are nested within its span. -/
theorem areNested_paramParts (h : areNested start stop cs = true) :
    areNested start stop (paramParts cs) = true := by
  unfold paramParts
  split
  case h_1 params hParams => exact areNested_parts_of_mem h (mem_of_fieldChild? hParams)
  case h_2 => exact areNested_toList h fun c hc => mem_of_fieldChild? hc

end SyntaxTree

-- ---------------------------------------------------------------------------
-- Nodes in order
-- ---------------------------------------------------------------------------

namespace Node

variable {P Q : Node → Prop} {a b c d n : Node} {ns : List Node} {lo mid hi : Nat}

theorem All.imp (h : n.All P) (hPQ : ∀ m, P m → Q m) : n.All Q := by
  induction h with
  | intro hSelf _ ih => exact .intro (hPQ _ hSelf) ih

/-- The parts of a node that stand in a list. -/
def items : Node → List Node
  | function _ params => params
  | array _ elements => elements
  | object _ entries => entries
  | call _ _ arguments => arguments
  | program body => body
  | _ => []

/-- All lines of a node come before all lines of another one, or are the same. -/
def Before (a b : Node) : Prop := a.All fun m => b.All fun k => m.line ≤ k.line

theorem Before.line_le (h : a.Before b) : a.line ≤ b.line := h.self.self

/-- The children of two nodes come in the order of the nodes. -/
theorem Before.children (h : a.Before b) (hc : c ∈ a.children) (hd : d ∈ b.children) :
    c.Before d :=
  (All.children h c hc).imp fun _ hm => hm.children d hd

/-- A node does not begin after its parts, and those in a list come one after the other. -/
structure Ordered (n : Node) : Prop where
  line_le : ∀ c ∈ n.children, n.line ≤ c.line
  items_before : n.items.Pairwise Before

/-- A node does not begin after anything that it is made of. -/
theorem All.line_le (h : n.All Ordered) : n.All fun m => n.line ≤ m.line := by
  induction h with
  | intro hSelf _ ih =>
    exact .intro le_rfl fun c hc => (ih c hc).imp fun _ hm => (hSelf.line_le c hc).trans hm

/-- The lines of a node are in order and lie between two lines. -/
def Between (lo hi : Nat) (n : Node) : Prop :=
  n.All fun m => m.Ordered ∧ lo ≤ m.line ∧ m.line ≤ hi

/-- Nodes between two lines, one after the other. -/
structure Row (lo hi : Nat) (ns : List Node) : Prop where
  before : ns.Pairwise Before
  between : ∀ n ∈ ns, n.Between lo hi

theorem Between.widen {lo' hi' : Nat} (h : n.Between lo hi) (hLo : lo' ≤ lo) (hHi : hi ≤ hi') :
    n.Between lo' hi' :=
  All.imp h fun _ hm => ⟨hm.1, hLo.trans hm.2.1, hm.2.2.trans hHi⟩

/-- A node up to a line comes before the nodes from that line on. -/
theorem Between.before (ha : a.Between lo mid) (hb : b.Between mid hi) : a.Before b :=
  All.imp ha fun _ hm => All.imp hb fun _ hk => hm.2.2.trans hk.2.1

/-- A node at the first of the lines is in order, if its parts are. -/
theorem Between.of_parts (hLine : n.line = lo) (hHi : lo ≤ hi)
    (hParts : ∀ c ∈ n.children, c.Between lo hi) (hItems : n.items.Pairwise Before) :
    n.Between lo hi := by
  refine .intro ⟨⟨fun c hc => ?_, hItems⟩, hLine.ge, hLine.trans_le hHi⟩ hParts
  rw [hLine]
  exact (All.self (hParts c hc)).2.1

theorem Row.nil : Row lo hi [] := ⟨.nil, List.forall_mem_nil _⟩

/-- A node up to a line comes first in a row from that line on. -/
theorem Row.cons (hn : n.Between lo mid) (hns : Row mid hi ns) (hHi : mid ≤ hi) :
    Row lo hi (n :: ns) := by
  have hLo : lo ≤ mid := (All.self hn).2.1.trans (All.self hn).2.2
  refine ⟨List.pairwise_cons.mpr ⟨fun m hm => hn.before (hns.between m hm), hns.before⟩, ?_⟩
  exact List.forall_mem_cons.mpr
    ⟨hn.widen le_rfl hHi, fun m hm => (hns.between m hm).widen hLo le_rfl⟩

theorem Row.widen {lo' hi' : Nat} (h : Row lo hi ns) (hLo : lo' ≤ lo) (hHi : hi ≤ hi') :
    Row lo' hi' ns :=
  ⟨h.before, fun n hn => (h.between n hn).widen hLo hHi⟩

end Node

-- ---------------------------------------------------------------------------
-- What is read from nested trees
-- ---------------------------------------------------------------------------

namespace SyntaxTree

/-- What a reading gives, if it gives anything. -/
abbrev Gives {α : Type} (V : α → Prop) (x : Reading α) : Prop :=
  x.Within (fun _ => True) (fun _ => True) V

theorem Gives.any {α : Type} (x : Reading α) : Gives (fun _ => True) x :=
  ⟨fun _ _ => trivial, fun _ _ => trivial, fun _ _ => trivial⟩

variable {source : Text} {t c : SyntaxTree} {cs ts : List SyntaxTree} {start stop : Nat}

/-- An expression gives a node whose lines are those of its span. -/
abbrev InSpan (source : Text) (t : SyntaxTree) : Prop :=
  Gives (Node.Between (t.line source) (source.lineAt t.stop)) (expression source t)

/-- The lines of an expression among nested trees lie in their span. -/
theorem InSpan.of_mem (hNested : areNested start stop cs = true) (hc : c ∈ cs)
    (h : c.isNested = true → c.InSpan source) :
    Gives (Node.Between (source.lineAt start) (source.lineAt stop)) (expression source c) := by
  obtain ⟨hOwn, hLo, hHi⟩ := nested_of_mem hNested hc
  exact (h hOwn).imp fun n hn =>
    hn.widen (Text.lineAt_mono hLo source) (Text.lineAt_mono hHi source)

/-- Nodes that come from nested trees, each on the lines of its tree, are in a row. -/
theorem InOrder.row {ns : List Node}
    (h : InOrder (fun t => Node.Between (t.line source) (source.lineAt t.stop)) ts ns)
    (hNested : areNested start stop ts = true) :
    Node.Row (source.lineAt start) (source.lineAt stop) ns := by
  induction h generalizing start with
  | nil => exact .nil
  | cons hFirst _ ih =>
    obtain ⟨hStart, -, hRest⟩ := areNested_cons.mp hNested
    exact .cons (Node.Between.widen hFirst (Text.lineAt_mono hStart source) le_rfl) (ih hRest)
      (Text.lineAt_mono (le_of_areNested hRest) source)
  | cons_right _ ih =>
    obtain ⟨hStart, hFirst, hRest⟩ := areNested_cons.mp hNested
    exact (ih hRest).widen (Text.lineAt_mono (hStart.trans (le_of_isNested hFirst)) source) le_rfl

/-- Nested trees are read as a row. -/
theorem row_readAll (hNested : areNested start stop ts = true)
    (h : ∀ t ∈ ts, t.isNested = true → t.InSpan source) :
    Gives (Node.Row (source.lineAt start) (source.lineAt stop)) (readAll source ts) :=
  (inOrder_readAll fun t ht => h t ht (nested_of_mem hNested ht).1).imp fun _ hns => hns.row hNested

/-- A required part is read as a node within the span. -/
theorem between_required {f : SyntaxField} (hNested : areNested start stop cs = true)
    (h : ∀ t ∈ (fieldChild? f cs).toList, t.isNested = true → t.InSpan source) :
    Gives (Node.Between (source.lineAt start) (source.lineAt stop))
      (Reading.required ((fieldChild? f cs).map (expression source))) := by
  refine (within_required (fun t ht => ?_) fun _ => trivial).imp fun _ ⟨_, _, hn⟩ => hn
  exact InSpan.of_mem hNested (mem_of_fieldChild? (Option.mem_toList.mp ht)) (h t ht)

/-- A property stands in the place of its entry, whatever its key and value are. -/
theorem between_entryNode (hNested : t.isNested = true)
    (h : ∀ part ∈ t.entryParts, part.isNested = true → part.InSpan source) :
    Gives (fun o => ∀ n ∈ o, n.Between (t.line source) (source.lineAt t.stop))
      (entryNode source t) := by
  have hOwn := Text.lineAt_mono (le_of_isNested hNested) source
  have hChildren := isNested_iff.mp hNested
  -- every entry but the last kind becomes a property with a key and a value in the span
  have hProperty : ∀ {key value},
      key.Between (t.line source) (source.lineAt t.stop) →
      value.Between (t.line source) (source.lineAt t.stop) →
      ∀ n ∈ some (Node.property (t.place source) key value),
        n.Between (t.line source) (source.lineAt t.stop) := by
    rintro key value hKey hValue _ ⟨⟩
    exact .of_parts rfl hOwn
      (List.forall_mem_cons.mpr ⟨hKey, List.forall_mem_singleton.mpr hValue⟩) .nil
  unfold entryNode
  unfold entryParts at h
  split
  case h_1 hKind =>
    simp only [hKind, List.forall_mem_append] at h
    exact .bind (between_required hChildren h.1) fun _ hKey =>
      .bind (between_required hChildren h.2) fun _ hValue => .pure (hProperty hKey hValue)
  case h_2 =>
    have hName : (Node.identifier (t.place source) (t.rawText source)).Between _ _ :=
      .of_parts rfl hOwn (List.forall_mem_nil _) .nil
    exact .pure (hProperty hName hName)
  case h_3 hKind =>
    simp only [hKind, List.forall_mem_append] at h
    refine .bind (between_required hChildren h.1) fun _ hKey =>
      .bind (row_readAll (areNested_paramParts hChildren) h.2) fun params hParams =>
      .pure (hProperty hKey ?_)
    exact .of_parts rfl hOwn hParams.between hParams.before
  case h_4 => exact .bind (.note trivial) fun _ _ => .pure nofun

/-- The entries of an object are read as a row. -/
theorem row_objectEntries (hNested : areNested start stop ts = true)
    (h : ∀ entry ∈ ts.filter isPart, ∀ part ∈ entry.entryParts,
      part.isNested = true → part.InSpan source) :
    Gives (Node.Row (source.lineAt start) (source.lineAt stop)) (objectEntries source ts) := by
  refine (inOrder_objectEntries fun entry hEntry => ?_).imp fun _ hns => hns.row hNested
  exact between_entryNode (nested_of_mem hNested (List.mem_filter.mp hEntry).1).1 (h entry hEntry)

/-- **What is read from a nested expression.** -/
theorem between_expression (t : SyntaxTree) (hNested : t.isNested = true) : t.InSpan source := by
  induction t using read_induction with
  | step t ih =>
    -- a node begins on the line of its tree, and its children are nested in the span
    have hOwn := Text.lineAt_mono (le_of_isNested hNested) source
    have hChildren := isNested_iff.mp hNested
    unfold InSpan
    generalize hRead : expression source t = read
    cases hRead ▸ expression_cases source t with
    | name | closed => exact .pure (.of_parts rfl hOwn (List.forall_mem_nil _) .nil)
    | string | number =>
      exact .bind (Gives.any _) fun _ _ => .pure (.of_parts rfl hOwn (List.forall_mem_nil _) .nil)
    | call hKind =>
      simp only [readParts, hKind, List.forall_mem_append] at ih
      refine .bind (row_readAll (areNested_argumentParts hChildren) ih.1) fun arguments hArguments =>
        .bind (between_required hChildren ih.2) fun callee hCallee => .pure ?_
      exact .of_parts rfl hOwn (List.forall_mem_cons.mpr ⟨hCallee, hArguments.between⟩)
        hArguments.before
    | object hKind =>
      simp only [readParts, hKind, List.mem_flatMap, forall_exists_index, and_imp] at ih
      refine .bind (row_objectEntries hChildren fun entry hEntry part hPart =>
        ih part entry hEntry hPart) fun entries hEntries => .pure ?_
      exact .of_parts rfl hOwn hEntries.between hEntries.before
    | array hKind =>
      simp only [readParts, hKind] at ih
      refine .bind (row_readAll (areNested_parts hNested) ih) fun elements hElements => .pure ?_
      exact .of_parts rfl hOwn hElements.between hElements.before
    | function hKind =>
      rw [readParts_of_isFunction hKind] at ih
      refine .bind (row_readAll (areNested_paramParts hChildren) ih) fun params hParams => .pure ?_
      exact .of_parts rfl hOwn hParams.between hParams.before
    | inner hKind part hPart =>
      have hMem : part ∈ t.children := mem_children_of_mem_parts (by simp [hPart])
      exact InSpan.of_mem hChildren hMem (ih part (by simp [readParts, hKind, hPart]))

/-- A statement is read as a node within its span. -/
theorem between_statement (hNested : t.isNested = true) :
    Gives (Node.Between (t.line source) (source.lineAt t.stop)) (statement source t) := by
  have hOwn := Text.lineAt_mono (le_of_isNested hNested) source
  have hStatement : ∀ {e}, e.Between (t.line source) (source.lineAt t.stop) →
      (Node.expressionStatement (t.place source) e).Between (t.line source) (source.lineAt t.stop) :=
    fun he => .of_parts rfl hOwn (List.forall_mem_singleton.mpr he) .nil
  rw [statement_eq]
  split
  case isTrue =>
    cases hHead : t.parts.head? with
    | some part =>
      have hMem : part ∈ t.children := mem_children_of_mem_parts (List.mem_of_head? hHead)
      have hPart : Gives _ (expression source part) :=
        InSpan.of_mem (isNested_iff.mp hNested) hMem (between_expression part)
      exact .bind hPart fun e he => .pure (hStatement he)
    | none => exact .pure (hStatement (.of_parts rfl hOwn (List.forall_mem_nil _) .nil))
  case isFalse => exact .pure (.of_parts rfl hOwn (List.forall_mem_nil _) .nil)

/-- **What is read from nested statements.** -/
theorem row_statements (hNested : areNested start stop ts = true) :
    Gives (Node.Row (source.lineAt start) (source.lineAt stop)) (statements source ts) := by
  refine (inOrder_statements fun t ht => ?_).imp fun _ hns => hns.row hNested
  exact between_statement (nested_of_mem hNested (List.mem_filter.mp ht).1).1

end SyntaxTree

/-- What is read from a nested tree is in order. -/
theorem Program.between_ofTree {path source : Text} {tree : SyntaxTree} {p : Program}
    (hNested : tree.isNested = true) (hOk : (ofTree path source tree).result = .ok p) :
    p.node.Between 1 (1 + source.count '\n') := by
  have hRead : SyntaxTree.Gives (fun p : Program => p.node.Between 1 (1 + source.count '\n'))
      (ofTree path source tree) := by
    unfold ofTree
    split
    case h_1 => exact .fail trivial
    case h_2 =>
      refine .bind (SyntaxTree.row_statements (SyntaxTree.isNested_iff.mp hNested)) fun body hBody =>
        .pure ?_
      have hRow := hBody.widen (Text.one_le_lineAt source _) (Text.lineAt_le source _)
      exact .of_parts rfl (Nat.le_add_right 1 _) hRow.between hRow.before
  exact hRead.value p hOk

-- ---------------------------------------------------------------------------
-- Members of classes
-- ---------------------------------------------------------------------------

namespace Node

variable {n : Node} {ms : List MemberEntry}

/-- The members stand for nodes that a node is made of, and are in order. -/
structure Drawn (n : Node) (ms : List MemberEntry) : Prop where
  inside : ∀ P : Node → Prop, n.All P → ∀ m ∈ ms, P m.node
  inOrder : ms.Pairwise fun a b => a.line ≤ b.line

theorem Drawn.nil : n.Drawn [] := ⟨fun _ _ => List.forall_mem_nil _, .nil⟩

theorem Drawn.single {m : MemberEntry} (h : m.node = n) : n.Drawn [m] :=
  ⟨fun _ hn => List.forall_mem_singleton.mpr (h ▸ hn.self), List.pairwise_singleton _ _⟩

theorem Drawn.sublist {ms' : List MemberEntry} (h : n.Drawn ms) (hSub : ms'.Sublist ms) :
    n.Drawn ms' :=
  ⟨fun P hn m hm => h.inside P hn m (hSub.subset hm), h.inOrder.sublist hSub⟩

/-- What is drawn from a value of an object literal is drawn from the literal. -/
theorem Drawn.of_entry {entry : Node × Node} (h : entry.2.Drawn ms) (hEntry : entry ∈ n.entries) :
    n.Drawn ms :=
  ⟨fun P hn => h.inside P (hn.entries hEntry).2, h.inOrder⟩

/-- The values of an object literal come one after the other. -/
theorem pairwise_entries (h : n.Ordered) : n.entries.Pairwise fun e f => e.2.Before f.2 := by
  cases n with
  | object place entries =>
    refine List.Pairwise.filterMap _ ?_ h.items_before
    intro a b hBefore e he f hf
    cases a with
    | property _ key value =>
      cases b with
      | property _ key' value' =>
        obtain rfl := Option.some.inj he
        obtain rfl := Option.some.inj hf
        exact hBefore.children (by simp [children]) (by simp [children])
      | _ => cases hf
    | _ => cases he
  | _ => exact .nil

/-- **Members from all entries of an object literal**, each drawn from the value of its entry. -/
theorem drawn_flatMap_entries (h : n.Ordered) {f : Node × Node → List MemberEntry}
    (hf : ∀ e ∈ n.entries, e.2.Drawn (f e)) : n.Drawn (n.entries.flatMap f) := by
  constructor
  case inside =>
    intro P hn m hm
    obtain ⟨e, he, hm⟩ := List.mem_flatMap.mp hm
    exact (hf e he).inside P (hn.entries he).2 m hm
  case inOrder =>
    refine List.pairwise_flatMap.mpr ⟨fun e he => (hf e he).inOrder, ?_⟩
    refine (pairwise_entries h).imp_of_mem fun {e e'} he he' hBefore a ha b hb => ?_
    have hLater : e'.2.All fun k => a.line ≤ k.line := (hf e he).inside _ hBefore a ha
    exact (hf e' he').inside _ hLater b hb

/-- One member for each entry is drawn from an object in order. -/
theorem drawn_map_entries (h : n.Ordered) {f : Node × Node → MemberEntry}
    (hf : ∀ e, (f e).node = e.2) : n.Drawn (n.entries.map f) := by
  rw [List.map_eq_flatMap]
  exact drawn_flatMap_entries h fun e _ => .single (hf e)

/-- References are drawn from their list in order. -/
theorem drawn_references (h : n.Ordered) : n.Drawn (MemberEntry.references n) := by
  cases n with
  | array place elements =>
    constructor
    case inside =>
      intro P hn m hm
      obtain ⟨element, hElement, rfl⟩ := List.mem_map.mp hm
      exact (hn.children element hElement).self
    case inOrder => exact List.pairwise_map.mpr (h.items_before.imp Before.line_le)
  | _ => exact .single rfl

end Node

namespace ClassRecord

variable {body : Node} {r : ClassRecord}

/-- Methods are drawn from the entry they stand in. -/
theorem drawn_methodsAt {e : Node × Node} (h : e.2.Ordered) : e.2.Drawn (methodsAt e) := by
  unfold methodsAt
  split
  case isTrue => exact .single rfl
  case isFalse =>
    split
    case isTrue => exact .single rfl
    case isFalse =>
      split
      case isTrue =>
        exact (Node.drawn_map_entries h fun _ => rfl).sublist (List.filter_sublist.map _)
      case isFalse => exact .nil

/-- Properties are drawn from the entry they stand in. -/
theorem drawn_propertiesAt {e : Node × Node} (h : e.2.Ordered) : e.2.Drawn (propertiesAt e) := by
  unfold propertiesAt
  split
  case isTrue => exact (Node.drawn_map_entries h fun _ => rfl).sublist (List.filter_sublist.map _)
  case isFalse =>
    split
    case isTrue => exact Node.drawn_map_entries h fun _ => rfl
    case isFalse => exact .nil

/-- What the values at a key give comes in the order of the entries. -/
theorem flatMap_valuesAt {α : Type} (f : Node → List α) (key : Text)
    (entries : List (Node × Node)) :
    (valuesAt key entries).flatMap f =
      entries.flatMap fun entry => if entry.1.keyName = key then f entry.2 else [] := by
  induction entries using List.reverseRecOn with
  | nil => rfl
  | append_singleton entries entry ih =>
    rw [flatMap_valuesAt_snoc, List.flatMap_append, List.flatMap_singleton, ih]

/-- Members from the values under a key. -/
theorem drawn_flatMap_valuesAt (h : body.All Node.Ordered) (key : Text) {f : Node → List MemberEntry}
    (hf : ∀ v : Node, v.Ordered → v.Drawn (f v)) :
    body.Drawn ((valuesAt key body.entries).flatMap f) := by
  rw [flatMap_valuesAt]
  refine Node.drawn_flatMap_entries h.self fun e he => ?_
  split
  case isTrue => exact hf e.2 (h.entries he).2.self
  case isFalse => exact .nil

/-- Members from the last value under a key. -/
theorem drawn_getLast?_valuesAt (h : body.All Node.Ordered) (key : Text)
    {f : Node → List MemberEntry} (hf : ∀ v : Node, v.Ordered → v.Drawn (f v)) :
    body.Drawn (((valuesAt key body.entries).getLast?.map f).getD []) := by
  cases hLast : (valuesAt key body.entries).getLast? with
  | none => exact .nil
  | some v =>
    obtain ⟨e, he, hValue⟩ := List.mem_filterMap.mp (List.mem_of_getLast? hLast)
    obtain rfl : e.2 = v := Option.some.inj (Option.ite_none_right_eq_some.mp hValue).2
    exact (hf e.2 (h.entries he).2.self).of_entry he

/-- **The members of a class are drawn from its body.** -/
theorem drawn_ofKind (h : body.All Node.Ordered) (hr : Gathers body.entries r) (kind : MemberKind) :
    body.Drawn (r.ofKind kind) := by
  have hPlain : ∀ v : Node, v.Ordered →
      v.Drawn (v.entries.map fun m => { name := m.1.keyName, node := m.2 }) :=
    fun v hv => Node.drawn_map_entries hv fun _ => rfl
  -- each kind of members is a list of its own, with its own closed form
  cases kind with
  | definition => exact .nil
  | parent =>
    have hParent := drawn_getLast?_valuesAt h "extend" (f := fun v => [.reference v])
      fun v _ => .single rfl
    show body.Drawn r.parent.toList
    rw [hr.parent]
    cases hLast : (valuesAt "extend" body.entries).getLast? with
    | none => exact .nil
    | some v => rwa [hLast] at hParent
  | mixin =>
    show body.Drawn r.mixins
    rw [hr.mixins]
    exact drawn_getLast?_valuesAt h _ fun _ => Node.drawn_references
  | interface =>
    show body.Drawn r.interfaces
    rw [hr.interfaces]
    exact drawn_getLast?_valuesAt h _ fun _ => Node.drawn_references
  | method =>
    show body.Drawn r.methods
    rw [hr.methods]
    exact Node.drawn_flatMap_entries h.self fun e he => drawn_methodsAt (h.entries he).2.self
  | property =>
    show body.Drawn r.properties
    rw [hr.properties]
    exact Node.drawn_flatMap_entries h.self fun e he => drawn_propertiesAt (h.entries he).2.self
  | static =>
    show body.Drawn r.statics
    rw [hr.statics]
    exact drawn_flatMap_valuesAt h _ hPlain
  | event =>
    show body.Drawn r.events
    rw [hr.events]
    exact drawn_flatMap_valuesAt h _ hPlain

end ClassRecord

-- ---------------------------------------------------------------------------
-- Classes of a program
-- ---------------------------------------------------------------------------

namespace Node

/-- Children of one kind come one after the other. -/
def Aligned (n : Node) : Prop := n.children.Pairwise fun a b => a.kind = b.kind → a.Before b

/-- A node whose children come in order is aligned. -/
theorem aligned_of_before {n : Node} (h : n.children.Pairwise Before) : n.Aligned := by
  refine h.imp ?_
  intro a b hBefore _
  exact hBefore

/-- The children along a step of a query come in order. -/
theorem before_childrenOfKind {ns : List Node} (step : Text) (h : ns.Pairwise Before)
    (hChildren : ∀ n ∈ ns, n.Aligned) : (childrenOfKind step ns).Pairwise Before := by
  refine List.pairwise_flatMap.mpr ⟨fun n hn => ?_, h.imp ?_⟩
  · refine ((hChildren n hn).filter _).imp_of_mem fun ha hb hBefore => hBefore ?_
    rw [eq_of_beq (List.mem_filter.mp ha).2, eq_of_beq (List.mem_filter.mp hb).2]
  · intro a b hBefore c hc d hd
    exact hBefore.children (List.mem_of_mem_filter hc) (List.mem_of_mem_filter hd)

/-- A statement that is an expression has one child, and so is aligned. -/
theorem aligned_of_kind {n : Node} (h : n.kind = "ExpressionStatement") : n.Aligned := by
  cases n with
  | expressionStatement place e => exact List.pairwise_singleton _ _
  | _ => exact absurd (String.toList_inj.mp h) (by decide)

/-- The record of a class is made from an argument of the call that defines it. -/
theorem gathers_class? {n : Node} {path : Text} {r : ClassRecord} (h : n.class? path = some r) :
    r.body ∈ n.children ∧ ClassRecord.Gathers r.body.entries r := by
  obtain ⟨⟨name, body⟩, hDefinition, rfl⟩ := Option.map_eq_some_iff.mp h
  have hGathers := ClassRecord.gathers_ofDefinition path name body
  dsimp only
  rw [(ClassRecord.ofDefinition_fixed path name body).2.2]
  refine ⟨?_, hGathers⟩
  unfold definition? at hDefinition
  split at hDefinition
  case h_1 =>
    obtain ⟨rfl, rfl⟩ := Prod.mk.inj (Option.some.inj hDefinition)
    simp [children]
  case h_2 => cases hDefinition

end Node

namespace Program

variable {path source : Text} {tree : SyntaxTree} {p : Program}

/-- The definitions of classes come one after the other. -/
theorem before_definitions (h : p.node.Ordered) (defineCalls : List Text) :
    (p.definitions defineCalls).Pairwise Node.Before := by
  have hSteps : patternSteps definitionPattern =
      ["Program", "ExpressionStatement", "CallExpression"] := by decide
  have hSelect : p.select definitionPattern =
      Node.childrenOfKind "CallExpression" (Node.childrenOfKind "ExpressionStatement" [p.node]) := by
    unfold select
    rw [hSteps]
    exact if_pos rfl
  refine List.Pairwise.filter _ ?_
  rw [hSelect]
  refine Node.before_childrenOfKind _ (Node.before_childrenOfKind _ (List.pairwise_singleton _ _) ?_) ?_
  · exact List.forall_mem_singleton.mpr (Node.aligned_of_before h.items_before)
  · intro n hn
    obtain ⟨_, _, hKind⟩ := List.mem_flatMap.mp hn
    exact Node.aligned_of_kind (eq_of_beq (List.mem_filter.mp hKind).2)

/-- **Lines are in order.** Nodes do not begin before the nodes that they are part of, the classes
of a program come one after the other, and so do the members of every kind, after the beginning of
their class. -/
theorem lines_in_order (hNested : tree.isNested = true)
    (hOk : (ofTree path source tree).result = .ok p) :
    p.node.All (fun n =>
      1 ≤ n.line ∧ n.line ≤ 1 + source.count '\n' ∧ ∀ c ∈ n.children, n.line ≤ c.line) ∧
    ∀ defineCalls path',
      (p.classes defineCalls path').Pairwise (fun r r' => r.line ≤ r'.line) ∧
      ∀ r ∈ p.classes defineCalls path', ∀ kind,
        (∀ m ∈ r.ofKind kind, r.line ≤ m.line) ∧
        (r.ofKind kind).Pairwise fun m m' => m.line ≤ m'.line := by
  have hBetween := between_ofTree hNested hOk
  have hOrdered : p.node.All Node.Ordered := Node.All.imp hBetween fun _ hn => hn.1
  refine ⟨Node.All.imp hBetween fun n hn => ⟨hn.2.1, hn.2.2, hn.1.line_le⟩, ?_⟩
  intro defineCalls path'
  constructor
  · refine List.Pairwise.filterMap _ ?_ (before_definitions hOrdered.self defineCalls)
    intro n n' hBefore r hr r' hr'
    exact (hBefore.children (Node.gathers_class? hr).1 (Node.gathers_class? hr').1).line_le
  · intro r hr kind
    obtain ⟨n, hn, hClass⟩ := List.mem_filterMap.mp hr
    obtain ⟨hBody, hGathers⟩ := Node.gathers_class? hClass
    have hCall : n.All Node.Ordered :=
      all_select hOrdered definitionPattern n (List.mem_of_mem_filter hn)
    have hBodyOrdered : r.body.All Node.Ordered := hCall.children r.body hBody
    have hDrawn := ClassRecord.drawn_ofKind hBodyOrdered hGathers kind
    exact ⟨hDrawn.inside _ hBodyOrdered.line_le, hDrawn.inOrder⟩

/-- Two classes. In the first one, a method and a function in parentheses come before and after
other entries. -/
def aviary : Text :=
  "d('a',\n\x7bconstruct(b)\x7b\x7d,\nmembers:\x7b\nc:1,\nf:(()=>1)\x7d\n\x7d);\nd('e',\x7b\x7d);"

/-- Two classes on the lines 2 and 7, the first one with methods on the lines 2 and 5. -/
theorem lines_in_order_of_aviary :
    (SyntaxTree.ofSource aviary).isNested = true ∧
    ∃ p, (ofTree [] aviary (.ofSource aviary)).result = .ok p ∧
      ((p.classes ["d"] []).map fun r => (r.line, r.methods.map MemberEntry.line)) =
        [(2, [2, 5]), (7, [])] ∧
      p.node.All (fun n => 1 ≤ n.line ∧ n.line ≤ 7 ∧ ∀ c ∈ n.children, n.line ≤ c.line) ∧
      (p.classes ["d"] []).Pairwise (fun r r' => r.line ≤ r'.line) ∧
      ∀ r ∈ p.classes ["d"] [],
        (∀ m ∈ r.ofKind .method, r.line ≤ m.line) ∧
        (r.ofKind .method).Pairwise fun m m' => m.line ≤ m'.line := by
  have hNested : (SyntaxTree.ofSource aviary).isNested = true := by decide +kernel
  have hLines : ((ofTree [] aviary (.ofSource aviary)).result.map fun p =>
      (p.classes ["d"] []).map fun r => (r.line, r.methods.map MemberEntry.line)) =
        .ok [(2, [2, 5]), (7, [])] := by decide +kernel
  have hCount : 1 + aviary.count '\n' = 7 := by decide +kernel
  refine ⟨hNested, ?_⟩
  cases hResult : (ofTree [] aviary (.ofSource aviary)).result with
  | error e =>
    rw [hResult] at hLines
    cases hLines
  | ok p =>
    rw [hResult] at hLines
    obtain ⟨hNodes, hClasses⟩ := lines_in_order hNested hResult
    rw [hCount] at hNodes
    obtain ⟨hOrder, hMembers⟩ := hClasses ["d"] []
    exact ⟨p, rfl, Except.ok.inj hLines, hNodes, hOrder, fun r hr => hMembers r hr .method⟩

end Program

end ClassTags
