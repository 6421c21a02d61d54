import ClassTags.Proofs.OneLine

/-!
# What a pattern selects

A pattern is followed level by level: from all nodes of a level to all their children of the next
kind. What comes out is the same as if every chain of children were followed by itself, the chains
in the order of the positions that they pass through, the first step first. So every chain whose
kinds are those of the pattern gives one node, and no other node is selected.

In a program that is read from a well laid out tree the lines of the selected nodes do not decrease.
The children of a node need not be in the order of their lines, since the function of a method
begins before the name of the method. But then they are of different kinds, and a step takes only
one kind.

Main definitions:

* `Node.Chain` — a chain of children with given kinds and positions;
* `Node.chains` — all chains with given kinds, depth first;
* `SyntaxTree.LaidOut` — keys come before values and functions before arguments, and methods have plain
  names.

Main results:

* `Node.mem_chains_iff`, `Node.pairwise_chains`, `Node.follow_eq` — level by level is chain by chain;
* `SyntaxTree.seated_expression` — what is read from a tree that is laid out well;
* `Program.select_chains` — what a pattern selects, and in which order.
-/

namespace ClassTags

namespace Node

variable {P Q : Node → Prop} {n m c : Node} {ns : List Node} {kinds : List Text} {positions : List Nat}

-- ---------------------------------------------------------------------------
-- Chains
-- ---------------------------------------------------------------------------

/-- A chain of children: at every step the child at the next position, which is of the next kind. -/
inductive Chain : Node → List Text → List Nat → Node → Prop
  | nil (n : Node) : Chain n [] [] n
  | cons {n c m : Node} {kinds : List Text} {i : Nat} {positions : List Nat}
      (hChild : n.children[i]? = some c) (h : Chain c kinds positions m) :
    Chain n (c.kind :: kinds) (i :: positions) m

/-- The chains that begin with a child, given the chains from there. -/
def extend (chains : Node → List (List Nat × Node)) (child : Node × Nat) : List (List Nat × Node) :=
  (chains child.1).map fun chain => (child.2 :: chain.1, chain.2)

/-- All chains of children with the given kinds, with the positions that they pass through and the
node at their end, depth first. -/
def chains (n : Node) : List Text → List (List Nat × Node)
  | [] => [([], n)]
  | kind :: kinds =>
    (n.children.zipIdx.filter fun child => child.1.kind == kind).flatMap (extend fun c => chains c kinds)

/-- The chains that are listed are the chains there are. -/
theorem mem_chains_iff : (positions, m) ∈ n.chains kinds ↔ n.Chain kinds positions m := by
  induction kinds generalizing n positions with
  | nil =>
    rw [chains, List.mem_singleton, Prod.mk.injEq]
    constructor
    · rintro ⟨rfl, rfl⟩
      exact .nil m
    · rintro ⟨⟩
      exact ⟨rfl, rfl⟩
  | cons kind kinds ih =>
    simp only [chains, extend, List.mem_flatMap, List.mem_filter, List.mem_map, beq_iff_eq, Prod.mk.injEq]
    constructor
    · rintro ⟨⟨c, i⟩, ⟨hChild, rfl⟩, ⟨rest, m⟩, hRest, rfl, rfl⟩
      exact .cons (List.mem_zipIdx_iff_getElem?.mp hChild) (ih.mp hRest)
    · rintro ⟨⟩
      rename_i c i rest hChild hRest
      exact ⟨(c, i), ⟨List.mem_zipIdx_iff_getElem?.mpr hChild, rfl⟩, (rest, m), ih.mpr hRest, rfl, rfl⟩

/-- The chains are listed in the order of their positions, the first step first. -/
theorem pairwise_chains (n : Node) (kinds : List Text) :
    (n.chains kinds).Pairwise fun a b => a.1 < b.1 := by
  induction kinds generalizing n with
  | nil => exact List.pairwise_singleton _ _
  | cons kind kinds ih =>
    have hPositions : n.children.zipIdx.Pairwise fun a b => a.2 < b.2 := by
      rw [← List.pairwise_map (f := Prod.snd), List.zipIdx_map_snd]
      exact List.pairwise_lt_range'
    refine List.pairwise_flatMap.mpr ⟨fun child _ => ?_, (hPositions.filter _).imp ?_⟩
    · -- chains through one child differ later on
      exact List.pairwise_map.mpr ((ih child.1).imp fun h => List.cons_lt_cons_iff.mpr (.inr ⟨rfl, h⟩))
    · -- chains through two children differ at once
      intro first second hLess a ha b hb
      obtain ⟨_, _, rfl⟩ := List.mem_map.mp ha
      obtain ⟨_, _, rfl⟩ := List.mem_map.mp hb
      exact List.cons_lt_cons_iff.mpr (.inl hLess)

/-- The ends of the chains that begin with a step. -/
theorem map_snd_chains (n : Node) (kind : Text) (kinds : List Text) :
    (n.chains (kind :: kinds)).map Prod.snd =
      (n.children.filter (·.kind == kind)).flatMap fun c => (c.chains kinds).map Prod.snd := by
  have hChildren : n.children.filter (·.kind == kind) =
      (n.children.zipIdx.filter fun child => child.1.kind == kind).map Prod.fst := by
    conv_lhs => rw [← List.zipIdx_map_fst 0 n.children, List.filter_map]
    rfl
  rw [hChildren, chains, List.map_flatMap, List.flatMap_map]
  simp only [extend, List.map_map]
  rfl

/-- **Level by level is chain by chain.** -/
theorem follow_eq (ns : List Node) (kinds : List Text) :
    follow ns kinds = ns.flatMap fun n => (n.chains kinds).map Prod.snd := by
  induction kinds generalizing ns with
  | nil => simp [follow, chains]
  | cons kind kinds ih =>
    rw [follow, ih, childrenOfKind, List.flatMap_assoc]
    exact List.flatMap_congr fun n _ => (map_snd_chains n kind kinds).symm

-- ---------------------------------------------------------------------------
-- Children of one kind
-- ---------------------------------------------------------------------------

theorem All.and (hP : n.All P) (hQ : n.All Q) : n.All fun m => P m ∧ Q m := by
  induction hP with
  | intro hSelf _ ih => exact .intro ⟨hSelf, hQ.self⟩ fun c hc => ih c hc (hQ.children c hc)

/-- What is called comes before the arguments, and a key before a value of the same kind. -/
def Facing : Node → Prop
  | call _ callee arguments => ∀ argument ∈ arguments, callee.Before argument
  | property _ key value => key.kind = value.kind → key.Before value
  | _ => True

/-- A node whose children face each other in order is aligned. -/
theorem aligned_of_facing (h : n.Ordered) (hFacing : n.Facing) : n.Aligned := by
  cases n with
  | call place callee arguments =>
    refine List.pairwise_cons.mpr ⟨fun argument hArgument _ => hFacing argument hArgument, ?_⟩
    exact aligned_of_before (n := .array place arguments) h.items_before
  | property place key value =>
    exact List.pairwise_pair.mpr hFacing
  | expressionStatement place e => exact List.pairwise_singleton _ _
  | identifier | string | number | expression | statement => exact .nil
  | function | array | object | program => exact aligned_of_before h.items_before

/-- In a node whose children of one kind come one after the other, so do the nodes that are
selected. -/
theorem before_follow (hns : ∀ n ∈ ns, n.All Aligned) (h : ns.Pairwise Before) (kinds : List Text) :
    (follow ns kinds).Pairwise Before := by
  induction kinds generalizing ns with
  | nil => exact h
  | cons kind kinds ih =>
    refine ih (fun c hc => ?_) (before_childrenOfKind kind h fun n hn => (hns n hn).self)
    obtain ⟨n, hn, hChild⟩ := List.mem_flatMap.mp hc
    exact (hns n hn).children c (List.mem_of_mem_filter hChild)

end Node

-- ---------------------------------------------------------------------------
-- Trees that are laid out well
-- ---------------------------------------------------------------------------

/-- The kinds that name an entry by themselves: names, strings, numbers and computed names. -/
def SyntaxKind.isPlainKey (k : SyntaxKind) : Bool :=
  k.isName || k = .string || k = .number || k = .computedPropertyName

namespace SyntaxTree

/-- The spans of a tree are nested and come one after the other, a key ends before its value, what
is called ends before the arguments, and a method is named by a name, a string, a number or a
computed name. -/
structure LaidOut (t : SyntaxTree) : Prop where
  nested : t.isNested = true
  pair : ∀ u, t.Holds u → u.kind = .pair →
    ∀ key ∈ fieldChild? .key u.children, ∀ value ∈ fieldChild? .value u.children,
      key.stop ≤ value.start
  call : ∀ u, t.Holds u → u.kind = .call →
    ∀ callee ∈ fieldChild? .function u.children, ∀ arguments ∈ fieldChild? .arguments u.children,
      callee.stop ≤ arguments.start
  method : ∀ u, t.Holds u → u.kind = .methodDefinition →
    ∀ name ∈ fieldChild? .name u.children, name.kind.isPlainKey = true

variable {source : Text} {t c : SyntaxTree} {ts : List SyntaxTree} {o : Option SyntaxTree}

theorem LaidOut.child (h : t.LaidOut) (hc : c ∈ t.children) : c.LaidOut where
  nested := (nested_of_mem (isNested_iff.mp h.nested) hc).1
  pair u hu := h.pair u (.child hc hu)
  call u hu := h.call u (.child hc hu)
  method u hu := h.method u (.child hc hu)

/-- A tree is laid out well if its spans are nested and each of its nodes is all right. -/
theorem LaidOut.of_nodes (h : t.isNested = true ∧ ∀ u ∈ t.nodes,
    (u.kind = .pair → ∀ key ∈ fieldChild? .key u.children, ∀ value ∈ fieldChild? .value u.children,
      key.stop ≤ value.start) ∧
    (u.kind = .call → ∀ callee ∈ fieldChild? .function u.children,
      ∀ arguments ∈ fieldChild? .arguments u.children, callee.stop ≤ arguments.start) ∧
    (u.kind = .methodDefinition → ∀ name ∈ fieldChild? .name u.children,
      name.kind.isPlainKey = true)) : t.LaidOut where
  nested := h.1
  pair u hu := (h.2 u (hu.mem_nodesBelow [])).1
  call u hu := (h.2 u (hu.mem_nodesBelow [])).2.1
  method u hu := (h.2 u (hu.mem_nodesBelow [])).2.2

theorem hereditary_laidOut : Hereditary LaidOut := fun _ h _ hc => h.child hc

-- ---------------------------------------------------------------------------
-- What is read from them
-- ---------------------------------------------------------------------------

theorem Gives.and {α : Type} {V W : α → Prop} {x : Reading α} (hV : Gives V x) (hW : Gives W x) :
    Gives (fun a => V a ∧ W a) x :=
  ⟨hV.notices, hV.failure, fun a ha => ⟨hV.value a ha, hW.value a ha⟩⟩

/-- A node with all its parts facing the right way, at the lines of a tree. -/
structure Seated (source : Text) (t : SyntaxTree) (n : Node) : Prop where
  facing : n.All Node.Facing
  between : n.Between (t.line source) (source.lineAt t.stop)

/-- What is read from two trees comes in the order of the trees. -/
theorem Seated.before {u : SyntaxTree} {n m : Node} (hn : Seated source t n) (hm : Seated source u m)
    (h : t.stop ≤ u.start) : n.Before m :=
  (hn.between.widen le_rfl (Text.lineAt_mono h source)).before hm.between

/-- A plain key is no function. -/
theorem kind_ne_of_isPlainKey (h : t.kind.isPlainKey = true) :
    Gives (fun n : Node => n.kind ≠ "FunctionExpression") (expression source t) := by
  generalize hRead : expression source t = read
  cases hRead ▸ expression_cases source t with
  | name | closed => exact .pure fun hSame => absurd (String.toList_inj.mp hSame) (by decide)
  | string | number =>
    exact .bind (Gives.any _) fun _ _ => .pure fun hSame =>
      absurd (String.toList_inj.mp hSame) (by decide)
  | call hKind | object hKind | array hKind | inner hKind =>
    simp [SyntaxKind.isPlainKey, SyntaxKind.isName, hKind] at h
  | function hKind =>
    revert h hKind
    cases t.kind <;> simp [SyntaxKind.isPlainKey, SyntaxKind.isName, SyntaxKind.isFunction]

/-- Nodes that are seated face each other. -/
theorem facing_of_seated {ns : List Node} (h : InOrder (Seated source) ts ns) :
    ∀ n ∈ ns, n.All Node.Facing :=
  h.forall_mem fun _ _ hn => hn.facing

/-- What is called comes before everything that stands among the arguments. -/
theorem LaidOut.callee_before (h : t.LaidOut) (hKind : t.kind = .call) {callee argument : SyntaxTree}
    (hCallee : callee ∈ fieldChild? .function t.children)
    (hArgument : argument ∈ argumentParts t.children) : callee.stop ≤ argument.start := by
  unfold argumentParts at hArgument
  split at hArgument
  case h_1 arguments hArguments =>
    split at hArgument
    case isTrue =>
      have hMem := mem_children_of_mem_parts hArgument
      have hNested := (h.child (mem_of_fieldChild? hArguments)).nested
      exact (h.call t (.self t) hKind callee hCallee arguments hArguments).trans
        (nested_of_mem (isNested_iff.mp hNested) hMem).2.1
    case isFalse => exact absurd hArgument List.not_mem_nil
  case h_2 => exact absurd hArgument List.not_mem_nil

/-- The node of an entry faces its neighbours if its parts are seated. -/
theorem facing_entryNode (h : t.LaidOut)
    (hParts : ∀ part ∈ t.entryParts, Gives (Seated source part) (expression source part)) :
    Gives (fun o => ∀ n ∈ o, n.All Node.Facing) (entryNode source t) := by
  have hProperty : ∀ {key value}, key.All Node.Facing → value.All Node.Facing →
      (key.kind = value.kind → key.Before value) →
      ∀ n ∈ some (Node.property (t.place source) key value), n.All Node.Facing := by
    rintro key value hKey hValue hOrder _ ⟨⟩
    exact .intro hOrder (List.forall_mem_cons.mpr ⟨hKey, List.forall_mem_singleton.mpr hValue⟩)
  unfold entryNode
  unfold entryParts at hParts
  split
  case h_1 hKind =>
    simp only [hKind, List.forall_mem_append] at hParts
    refine .bind (within_required hParts.1 fun _ => trivial) fun key hKey =>
      .bind (within_required hParts.2 fun _ => trivial) fun value hValue => .pure ?_
    obtain ⟨keyTree, hKeyTree, hKey⟩ := hKey
    obtain ⟨valueTree, hValueTree, hValue⟩ := hValue
    have hOrder := h.pair t (.self t) hKind keyTree hKeyTree valueTree hValueTree
    exact hProperty hKey.facing hValue.facing fun _ => hKey.before hValue hOrder
  case h_2 =>
    have hName : (Node.identifier (t.place source) (t.rawText source)).All Node.Facing :=
      .intro trivial (List.forall_mem_nil _)
    refine .pure (hProperty hName hName fun _ => ?_)
    -- the name stands for both, on one line
    exact .intro (.intro le_rfl (List.forall_mem_nil _)) (List.forall_mem_nil _)
  case h_3 hKind =>
    simp only [hKind, List.forall_mem_append] at hParts
    have hPlain : ∀ name ∈ (fieldChild? .name t.children).toList,
        Gives (fun n => Seated source name n ∧ n.kind ≠ "FunctionExpression")
          (expression source name) := fun name hName =>
      (hParts.1 name hName).and <| kind_ne_of_isPlainKey <|
        h.method t (.self t) hKind name (Option.mem_toList.mp hName)
    refine .bind (within_required hPlain fun _ => trivial) fun key hKey =>
      .bind (inOrder_readAll hParts.2) fun params hParams => .pure ?_
    obtain ⟨_, -, hKey, hNoFunction⟩ := hKey
    -- the function begins before its name, but the name is no function
    exact hProperty hKey.facing (.intro trivial (facing_of_seated hParams))
      fun hKinds => absurd hKinds hNoFunction
  case h_4 => exact .bind (.note trivial) fun _ _ => .pure nofun

/-- **What is read from an expression that is laid out well.** -/
theorem seated_expression (t : SyntaxTree) (h : t.LaidOut) :
    Gives (Seated source t) (expression source t) := by
  induction t using read_induction with
  | step t ih =>
    have hLaidOut := readParts_keep hereditary_laidOut fun c hc => h.child hc
    have hParts : ∀ part ∈ t.readParts, Gives (Seated source part) (expression source part) :=
      fun part hPart => ih part hPart (hLaidOut part hPart)
    -- where the node is comes from its span, so only how its children face is left
    suffices hFacing : Gives (Node.All Node.Facing) (expression source t) from
      (hFacing.and (between_expression t h.nested)).imp fun n hn => ⟨hn.1, hn.2⟩
    generalize hRead : expression source t = read
    cases hRead ▸ expression_cases source t with
    | name | closed => exact .pure (.intro trivial (List.forall_mem_nil _))
    | string | number =>
      exact .bind (Gives.any _) fun _ _ => .pure (.intro trivial (List.forall_mem_nil _))
    | call hKind =>
      simp only [readParts, hKind, List.forall_mem_append] at hParts
      refine .bind (inOrder_readAll hParts.1) fun arguments hArguments =>
        .bind (within_required hParts.2 fun _ => trivial) fun callee hCallee => .pure ?_
      obtain ⟨calleeTree, hCalleeTree, hCallee⟩ := hCallee
      refine .intro (fun argument hMem => ?_)
        (List.forall_mem_cons.mpr ⟨hCallee.facing, facing_of_seated hArguments⟩)
      obtain ⟨argumentTree, hArgumentTree, hArgument⟩ := hArguments.exists_mem argument hMem
      exact hCallee.before hArgument (h.callee_before hKind hCalleeTree hArgumentTree)
    | object hKind =>
      simp only [readParts, hKind, List.mem_flatMap, forall_exists_index, and_imp] at hParts
      refine .bind (inOrder_objectEntries fun entry hEntry => facing_entryNode
        (h.child (mem_children_of_mem_parts hEntry)) fun part hPart => hParts part entry hEntry hPart)
        fun entries hEntries => .pure (.intro trivial (hEntries.forall_mem fun _ _ hn => hn))
    | array hKind =>
      simp only [readParts, hKind] at hParts
      exact .bind (inOrder_readAll hParts) fun elements hElements =>
        .pure (.intro trivial (facing_of_seated hElements))
    | function hKind =>
      rw [readParts_of_isFunction hKind] at hParts
      exact .bind (inOrder_readAll hParts) fun params hParams =>
        .pure (.intro trivial (facing_of_seated hParams))
    | inner hKind part hPart =>
      have hMem : part ∈ t.readParts := by simp [readParts, hKind, hPart]
      exact (hParts part hMem).imp fun n hn => hn.facing

/-- The node of a statement faces its neighbours. -/
theorem facing_statement (h : t.LaidOut) : Gives (Node.All Node.Facing) (statement source t) := by
  rw [statement_eq]
  split
  case isTrue =>
    cases hHead : t.parts.head? with
    | some part =>
      have hMem : part ∈ t.children := mem_children_of_mem_parts (List.mem_of_head? hHead)
      exact .bind (seated_expression part (h.child hMem)) fun e he =>
        .pure (.intro trivial (List.forall_mem_singleton.mpr he.facing))
    | none =>
      refine .pure (.intro trivial (List.forall_mem_singleton.mpr ?_))
      exact .intro trivial (List.forall_mem_nil _)
  case isFalse => exact .pure (.intro trivial (List.forall_mem_nil _))

/-- So do those of statements in order. -/
theorem facing_statements (h : ∀ t ∈ ts, t.LaidOut) :
    Gives (fun ns => ∀ n ∈ ns, n.All Node.Facing) (statements source ts) :=
  (inOrder_statements fun t ht => facing_statement (h t (List.mem_filter.mp ht).1)).imp
    fun _ hns => hns.forall_mem fun _ _ hn => hn

end SyntaxTree

-- ---------------------------------------------------------------------------
-- Programs
-- ---------------------------------------------------------------------------

namespace Program

variable {path source : Text} {tree : SyntaxTree} {p : Program}

/-- In what is read from a tree that is laid out well, children of one kind come in order. -/
theorem aligned_ofTree (h : tree.LaidOut) (hOk : (ofTree path source tree).result = .ok p) :
    p.node.All Node.Aligned := by
  have hFacing : SyntaxTree.Gives (fun p : Program => p.node.All Node.Facing)
      (ofTree path source tree) := by
    unfold ofTree
    split
    case h_1 => exact .fail trivial
    case h_2 =>
      exact .bind (SyntaxTree.facing_statements fun c hc => h.child hc) fun body hBody =>
        .pure (.intro trivial hBody)
  have hBoth := Node.All.and (between_ofTree h.nested hOk) (hFacing.value p hOk)
  exact hBoth.imp fun n hn => Node.aligned_of_facing hn.1.1 hn.2

/-- **What a pattern selects.** Each chain of children whose kinds are those of the pattern gives
one node, in the order of the positions that the chains pass through. In what is read from a tree
that is laid out well, that is also the order of the lines. -/
theorem select_chains (p : Program) (pattern : Text) :
    (∀ kinds : List Text, patternSteps pattern = ("Program" : Text) :: kinds →
      ∃ chains : List (List Nat × Node), chains.Pairwise (fun a b => a.1 < b.1) ∧
        (∀ positions n, (positions, n) ∈ chains ↔ p.node.Chain kinds positions n) ∧
        p.select pattern = chains.map Prod.snd) ∧
    ((patternSteps pattern).head? ≠ some ("Program" : Text) → p.select pattern = []) ∧
    (∀ path source tree, tree.LaidOut → (ofTree path source tree).result = .ok p →
      (p.select pattern).Pairwise fun a b => a.line ≤ b.line) := by
  refine ⟨fun kinds hSteps => ?_, fun hFirst => ?_, fun path source tree hTree hOk => ?_⟩
  · refine ⟨p.node.chains kinds, p.node.pairwise_chains kinds, fun _ _ => Node.mem_chains_iff, ?_⟩
    rw [select, hSteps]
    exact (if_pos rfl).trans ((Node.follow_eq [p.node] kinds).trans (List.flatMap_singleton ..))
  · unfold select
    split
    case h_1 => rfl
    case h_2 first kinds hSteps =>
      refine if_neg fun hSame => hFirst ?_
      rw [hSteps, hSame]
      rfl
  · have hAligned := aligned_ofTree hTree hOk
    have hSelected : ∀ kinds, (Node.follow [p.node] kinds).Pairwise Node.Before :=
      Node.before_follow (List.forall_mem_singleton.mpr hAligned) (List.pairwise_singleton _ _)
    unfold select
    split
    case h_1 => exact .nil
    case h_2 first kinds _ =>
      split
      case isTrue => exact (hSelected kinds).imp Node.Before.line_le
      case isFalse => exact .nil

/-- An object literal with a method whose name stands on a later line than its beginning, and with a
name that is both key and value. -/
def menu : Text := "f(\x7bget\na(b)\x7b\x7d,\nc:[1,d],e\x7d);"

/-- The lines and texts of the names in `menu`. -/
def menuNames : List (Nat × Text) := [(2, "a"), (3, "c"), (3, "e"), (3, "e")]

/-- The path to the names in an object literal. -/
def menuPattern : Text :=
  "Program > ExpressionStatement > CallExpression > ObjectExpression > Property > Identifier"

/-- A pattern of four steps selects the names of the properties, in the order of their positions. -/
theorem select_chains_of_menu :
    (SyntaxTree.ofSource menu).LaidOut ∧
    ∃ p, (ofTree [] menu (.ofSource menu)).result = .ok p ∧
      ((p.select menuPattern).map fun n => (n.line, n.text)) = menuNames ∧
      (∃ chains : List (List Nat × Node), chains.Pairwise (fun a b => a.1 < b.1) ∧
        (∀ positions n, (positions, n) ∈ chains ↔ p.node.Chain
          ["ExpressionStatement", "CallExpression", "ObjectExpression", "Property", "Identifier"]
          positions n) ∧
        p.select menuPattern = chains.map Prod.snd) ∧
      (p.select menuPattern).Pairwise (fun a b => a.line ≤ b.line) ∧
      p.select "Property > Identifier" = [] := by
  have hLaidOut : (SyntaxTree.ofSource menu).LaidOut := .of_nodes (by decide +kernel)
  have hLines : ((ofTree [] menu (.ofSource menu)).result.map fun p =>
      (p.select menuPattern).map fun n => (n.line, n.text)) = .ok menuNames := by decide +kernel
  refine ⟨hLaidOut, ?_⟩
  cases hResult : (ofTree [] menu (.ofSource menu)).result with
  | error e =>
    rw [hResult] at hLines
    cases hLines
  | ok p =>
    rw [hResult] at hLines
    obtain ⟨hChains, -, hOrder⟩ := select_chains p menuPattern
    obtain ⟨-, hNothing, -⟩ := select_chains p "Property > Identifier"
    exact ⟨p, rfl, Except.ok.inj hLines, hChains _ (by decide +kernel), hOrder [] menu _ hLaidOut hResult,
      hNothing (by decide +kernel)⟩

end Program

end ClassTags
