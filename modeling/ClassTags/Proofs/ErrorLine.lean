import ClassTags.Proofs.OneLine

/-!
# The line of a syntax error

A tree that says of itself that it has an error is refused, and the line to blame is that of its
first fault. The search for it goes only into nodes that say that they have an error, and so it
depends on what the nodes say of themselves. If every node speaks the truth, that is, if it has an
error just when it is a fault or one of its children has an error, then the search leaves out
nothing that matters: it gives the first fault among all nodes in preorder, and it always finds one.

Main definitions:

* `SyntaxTree.Truthful` — a node has an error just when it is a fault or a child has an error;
* `SyntaxTree.faultByStack?` — the search with a stack in place of recursion.

Main results:

* `SyntaxTree.faultByStack?_cons` — with a stack the same fault is found;
* `SyntaxTree.Truthful.hasError_iff` — truthful trees have an error just if there is a fault in them;
* `SyntaxTree.Truthful.firstError?_eq` — the search finds the first of all faults;
* `Program.ofTree_error_line` — which trees are refused, and with which line.
-/

namespace ClassTags

namespace SyntaxTree

variable {t u c : SyntaxTree} {ts : List SyntaxTree}

-- ---------------------------------------------------------------------------
-- All nodes of a tree
-- ---------------------------------------------------------------------------

/-- The nodes below a list of trees, without the trees above them. -/
theorem map_nodesBelowIn (h : ∀ t ∈ ts, ∀ above, (t.nodesBelow above).map Prod.snd = t.nodes)
    (above : List SyntaxTree) : (nodesBelowIn above ts).map Prod.snd = ts.flatMap nodes := by
  induction ts with
  | nil => rfl
  | cons t ts ih =>
    obtain ⟨hFirst, hOthers⟩ := List.forall_mem_cons.mp h
    rw [nodesBelowIn, List.map_append, hFirst, ih hOthers, List.flatMap_cons]

/-- A tree comes before the nodes below it. -/
theorem map_nodesBelow (t : SyntaxTree) (above : List SyntaxTree) :
    (t.nodesBelow above).map Prod.snd = t :: t.children.flatMap nodes := by
  induction t using children_induction generalizing above with
  | step t ih =>
    obtain ⟨l, cs⟩ := t
    rw [nodesBelow, List.map_cons, map_nodesBelowIn fun c hc above => ?_]
    · rfl
    · rw [ih c hc above, nodes, ih c hc []]

/-- In preorder a node comes first, and then come the nodes of its children, one child after the
other. -/
theorem nodes_eq (t : SyntaxTree) : t.nodes = t :: t.children.flatMap nodes := map_nodesBelow t []

/-- The nodes of a tree are those that it holds. -/
theorem mem_nodes_iff : u ∈ t.nodes ↔ t.Holds u := by
  constructor
  · intro h
    induction t using children_induction with
    | step t ih =>
      rw [nodes_eq, List.mem_cons, List.mem_flatMap] at h
      rcases h with rfl | ⟨c, hc, hu⟩
      · exact .self u
      · exact .child hc (ih c hc hu)
  · exact fun h => h.mem_nodesBelow []

-- ---------------------------------------------------------------------------
-- The search with a stack
-- ---------------------------------------------------------------------------

/-- Puts trees on a stack, one after the other. -/
def pushAll (ts stack : List SyntaxTree) : List SyntaxTree :=
  ts.foldl (fun stack t => t :: stack) stack

/-- Trees that are pushed in reverse are popped in order. -/
theorem pushAll_reverse (ts stack : List SyntaxTree) : pushAll ts.reverse stack = ts ++ stack := by
  unfold pushAll
  rw [List.foldl_reverse, List.foldr_cons_eq_append, List.map_id']

/-- The first node that is an error by itself, searched with a stack of trees that are still to be
visited. The children of a tree with an error are pushed in reverse; other trees are passed over. -/
def faultByStack? : (stack : List SyntaxTree) → Option SyntaxTree
  | [] => none
  | t :: stack =>
    if t.isFault then some t
    else if t.hasError then faultByStack? (pushAll t.children.reverse stack)
    else faultByStack? stack
termination_by stack => (stack.map sizeOf).sum
decreasing_by
  all_goals
    obtain ⟨l, cs⟩ := t
    have hLe := sum_sizeOf_le cs
    simp only [pushAll_reverse, children, List.map_cons, List.map_append, List.sum_cons,
      List.sum_append, node.sizeOf_spec]
    omega

/-- A search by stack goes through the trees on it in order. -/
theorem faultByStack?_append
    (h : ∀ t ∈ ts, ∀ stack, faultByStack? (t :: stack) = t.firstError?.or (faultByStack? stack))
    (stack : List SyntaxTree) :
    faultByStack? (ts ++ stack) = (firstErrorIn? ts).or (faultByStack? stack) := by
  induction ts with
  | nil => rfl
  | cons t ts ih =>
    obtain ⟨hFirst, hOthers⟩ := List.forall_mem_cons.mp h
    rw [List.cons_append, hFirst, ih hOthers, firstErrorIn?, Option.or_assoc]

/-- **With a stack the same fault is found**, whatever the nodes say of themselves. -/
theorem faultByStack?_cons (t : SyntaxTree) (stack : List SyntaxTree) :
    faultByStack? (t :: stack) = t.firstError?.or (faultByStack? stack) := by
  induction t using children_induction generalizing stack with
  | step t ih =>
    obtain ⟨l, cs⟩ := t
    rw [faultByStack?, firstError?]
    split
    · rfl
    · split
      · rw [pushAll_reverse]
        exact faultByStack?_append ih stack
      · rfl

/-- A search by stack finds the first fault of a tree. -/
theorem faultByStack?_singleton (t : SyntaxTree) : faultByStack? [t] = t.firstError? := by
  rw [faultByStack?_cons, faultByStack?, Option.or_none]

-- ---------------------------------------------------------------------------
-- Truthful trees
-- ---------------------------------------------------------------------------

/-- Every node of a tree has an error just when it is an error, stands for something missing, or has
a child with an error. -/
def Truthful (t : SyntaxTree) : Prop :=
  ∀ u, t.Holds u → (u.hasError = true ↔
    u.kind = .error ∨ u.label.missing = true ∨ ∃ c ∈ u.children, c.hasError = true)

/-- A fault is an error or something that is missing. -/
theorem isFault_iff : t.isFault = true ↔ t.kind = .error ∨ t.label.missing = true := by
  rw [isFault, Bool.or_eq_true, decide_eq_true_eq]

/-- The first fault in trees is the first one among their nodes. -/
theorem firstErrorIn?_eq (h : ∀ t ∈ ts, t.firstError? = t.nodes.find? isFault) :
    firstErrorIn? ts = (ts.flatMap nodes).find? isFault := by
  induction ts with
  | nil => rfl
  | cons t ts ih =>
    obtain ⟨hFirst, hOthers⟩ := List.forall_mem_cons.mp h
    rw [firstErrorIn?, hFirst, ih hOthers, List.flatMap_cons, List.find?_append]

namespace Truthful

theorem of_nodes (h : ∀ u ∈ t.nodes, (u.hasError = true ↔
    u.kind = .error ∨ u.label.missing = true ∨ ∃ c ∈ u.children, c.hasError = true)) : t.Truthful :=
  fun u hu => h u (mem_nodes_iff.mpr hu)

theorem child (h : t.Truthful) (hc : c ∈ t.children) : c.Truthful :=
  fun u hu => h u (.child hc hu)

/-- A truthful tree says that it has an error just when one of its nodes is a fault. -/
theorem hasError_iff (h : t.Truthful) : t.hasError = true ↔ ∃ u ∈ t.nodes, u.isFault = true := by
  induction t using children_induction with
  | step t ih =>
    rw [h t (.self t), ← or_assoc, ← isFault_iff, nodes_eq]
    simp only [List.mem_cons, List.mem_flatMap]
    constructor
    · rintro (hSelf | ⟨c, hc, hError⟩)
      · exact ⟨t, .inl rfl, hSelf⟩
      · obtain ⟨u, hu, hFault⟩ := (ih c hc (h.child hc)).mp hError
        exact ⟨u, .inr ⟨c, hc, hu⟩, hFault⟩
    · rintro ⟨u, rfl | ⟨c, hc, hu⟩, hFault⟩
      · exact .inl hFault
      · exact .inr ⟨c, hc, (ih c hc (h.child hc)).mpr ⟨u, hu, hFault⟩⟩

/-- **The search finds the first of all faults.** -/
theorem firstError?_eq (h : t.Truthful) : t.firstError? = t.nodes.find? isFault := by
  induction t using children_induction with
  | step t ih =>
    have hError := h.hasError_iff
    have hChildren : ∀ c ∈ t.children, c.firstError? = c.nodes.find? isFault :=
      fun c hc => ih c hc (h.child hc)
    rw [nodes_eq] at hError ⊢
    obtain ⟨l, cs⟩ := t
    rw [firstError?]
    split
    case isTrue hFault => rw [List.find?_cons_of_pos hFault]
    case isFalse hFault =>
      rw [List.find?_cons_of_neg hFault]
      split
      case isTrue => exact firstErrorIn?_eq hChildren
      case isFalse hNone =>
        -- a tree that is passed over has no fault in it
        refine (List.find?_eq_none.mpr fun u hu hBad => hNone ?_).symm
        exact hError.mpr ⟨u, List.mem_cons_of_mem _ hu, hBad⟩

/-- There is always a node to blame. -/
theorem exists_firstError (h : t.Truthful) (hError : t.hasError = true) :
    ∃ u, t.firstError? = some u := by
  rw [h.firstError?_eq]
  exact Option.isSome_iff_exists.mp (List.find?_isSome.mpr (h.hasError_iff.mp hError))

/-- The line that is reported is that of the first fault. -/
theorem errorLine?_eq (h : t.Truthful) (source : Text) :
    t.errorLine? source = (t.nodes.find? isFault).map fun u => u.line source := by
  unfold errorLine?
  rw [← h.firstError?_eq]
  split
  case isTrue hError =>
    obtain ⟨u, hu⟩ := h.exists_firstError hError
    rw [hu]
    rfl
  case isFalse hNone =>
    have hClean : t.firstError? = none := by
      rw [h.firstError?_eq, List.find?_eq_none]
      exact fun u hu hBad => hNone (h.hasError_iff.mpr ⟨u, hu, hBad⟩)
    rw [hClean]
    rfl

end Truthful

end SyntaxTree

namespace Program

variable {path source : Text} {tree : SyntaxTree}

/-- A tree is refused as malformed just if it has a line to blame. -/
theorem ofTree_malformed_iff {path' : Text} {line : Nat} :
    (ofTree path source tree).result = .error (.malformed path' line) ↔
      path' = path ∧ tree.errorLine? source = some line := by
  constructor
  · intro h
    have hWithin : (ofTree path source tree).Within _ (Refused path source tree) _ :=
      ofTree_within (T := fun _ => True) (fun _ _ _ _ => trivial) fun _ _ _ => trivial
    cases hWithin.failure _ h with
    | malformed hLine => exact ⟨rfl, hLine⟩
    | unread _ hCause => cases hCause
  · rintro ⟨rfl, hLine⟩
    unfold ofTree
    rw [hLine]
    rfl

/-- **Where a syntax error is.** A truthful tree is refused as malformed just if one of its nodes is
an error or missing, and then the line is that of the first such node in preorder. The search that
passes over trees without errors, with a stack or by recursion, finds this node, and it finds one
whenever the tree has an error. -/
theorem ofTree_error_line (h : tree.Truthful) (path source : Text) :
    ((∃ path' line, (ofTree path source tree).result = .error (.malformed path' line)) ↔
      ∃ u ∈ tree.nodes, u.kind = .error ∨ u.label.missing = true) ∧
    (∀ u, tree.nodes.find? SyntaxTree.isFault = some u →
      ofTree path source tree = .fail (.malformed path (u.line source))) ∧
    SyntaxTree.faultByStack? [tree] = tree.nodes.find? SyntaxTree.isFault ∧
    tree.firstError? = tree.nodes.find? SyntaxTree.isFault ∧
    (tree.hasError = true → SyntaxTree.faultByStack? [tree] ≠ none) := by
  have hFirst := h.firstError?_eq
  refine ⟨?_, fun u hu => ?_, by rw [SyntaxTree.faultByStack?_singleton, hFirst], hFirst, ?_⟩
  · simp only [ofTree_malformed_iff, h.errorLine?_eq, Option.map_eq_some_iff, ← SyntaxTree.isFault_iff]
    constructor
    · rintro ⟨_, _, _, u, hu, _⟩
      exact ⟨u, List.mem_of_find?_eq_some hu, List.find?_some hu⟩
    · rintro ⟨u, hu, hFault⟩
      obtain ⟨first, hFound⟩ := Option.isSome_iff_exists.mp (List.find?_isSome.mpr ⟨u, hu, hFault⟩)
      exact ⟨path, first.line source, rfl, first, hFound, rfl⟩
  · unfold ofTree
    rw [h.errorLine?_eq, hu]
    rfl
  · intro hError
    obtain ⟨u, hu⟩ := h.exists_firstError hError
    rw [SyntaxTree.faultByStack?_singleton, hu]
    exact Option.some_ne_none u

/-- A call that is not closed, and something unreadable on the line after it. -/
def torn : Text := "a;\nf(\n%%"

/-- The tree of `torn`. A closing parenthesis is missing deep in the second statement, and there is
an error in an error behind it. Some nodes say outright whether they have an error. -/
def tornTree : SyntaxTree :=
  .node { kind := .program, start := 0, stop := 8 } [
    .node { kind := .expressionStatement, start := 0, stop := 2, flag := some false } [
      .node { kind := .identifier, start := 0, stop := 1 } [],
      .node { kind := .other ";", start := 1, stop := 2, named := false } []],
    .node { kind := .expressionStatement, start := 3, stop := 5 } [
      .node { kind := .call, start := 3, stop := 5, flag := some true } [
        .node { kind := .identifier, start := 3, stop := 4, field := some .function } [],
        .node { kind := .arguments, start := 4, stop := 5, field := some .arguments } [
          .node { kind := .other "(", start := 4, stop := 5, named := false } [],
          .node { kind := .other ")", start := 5, stop := 5, named := false, missing := true } []]]],
    .node { kind := .error, start := 6, stop := 8 } [
      .node { kind := .error, start := 7, stop := 8 } []]]

/-- A text with three faults, of which the first one is reported. -/
theorem ofTree_error_line_of_torn :
    tornTree.Truthful ∧ (tornTree.nodes.filter SyntaxTree.isFault).length = 3 ∧
    ofTree [] torn tornTree = .fail (.malformed [] 2) ∧
    SyntaxTree.faultByStack? [tornTree] = tornTree.nodes.find? SyntaxTree.isFault := by
  have hTruthful : tornTree.Truthful := .of_nodes (by decide +kernel)
  have hLine : (tornTree.nodes.find? SyntaxTree.isFault).map (fun u => u.line torn) = some 2 := by
    decide +kernel
  obtain ⟨-, hRefused, hStack, -⟩ := ofTree_error_line hTruthful [] torn
  refine ⟨hTruthful, by decide +kernel, ?_, hStack⟩
  obtain ⟨u, hFirst, hu⟩ := Option.map_eq_some_iff.mp hLine
  rw [hRefused u hFirst, hu]

end Program

end ClassTags
