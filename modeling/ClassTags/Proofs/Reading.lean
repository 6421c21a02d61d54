import ClassTags.ClassRecord.Extraction
import Mathlib.Data.List.Forall2
import Mathlib.Tactic.Tauto

/-!
# What reading a syntax tree does

Reading an expression reads some of the trees below it in turn, its **read parts**: the arguments of
a call and what is called, the keys and values of an object literal, the parameters of a function.
All else stays closed. So reading succeeds just when every literal that it comes to has a value and
no part is absent.

Lists are read in three places: expressions, entries of an object literal, and statements. Each of
them gives nodes **in the order** of the trees, so that a property of such a list is told tree by
tree.

Main definitions:

* `SyntaxTree.readParts` — the trees that are read when an expression is read;
* `SyntaxTree.entryNode` — the node of an entry of an object literal;
* `SyntaxTree.InOrder` — nodes that come from trees, in their order;
* `SyntaxTree.ComesTo` — the trees that reading a program comes to;
* `Node.ReadFrom` — where the place and the name of a node come from.

Main results:

* `SyntaxTree.expression_cases` — all that reading an expression can do;
* `SyntaxTree.faithful_expression` — what reading an expression gives, and why it fails;
* `Program.ofTree_within` — the same for a whole tree;
* `Program.succeeds_ofTree` — when a tree has a program.
-/

namespace ClassTags

-- ---------------------------------------------------------------------------
-- Computations with notices
-- ---------------------------------------------------------------------------

namespace Logged

variable {ε α β : Type} {N : Notice → Prop} {E : ε → Prop} {V : α → Prop} {W : β → Prop}

/-- To give back the result of a computation adds nothing. -/
theorem bind_done (x : Logged ε α) : (x >>= fun a => pure a) = x := by
  obtain ⟨notices, result⟩ := x
  cases result with
  | error e => rfl
  | ok a => exact congrArg (Logged.mk · (.ok a)) (List.append_nil notices)

/-- Sequences of computations can be bracketed either way. -/
theorem bind_assoc {γ : Type} (x : Logged ε α) (f : α → Logged ε β) (g : β → Logged ε γ) :
    (x >>= f >>= g) = x >>= fun a => f a >>= g := by
  obtain ⟨notices, result⟩ := x
  cases result with
  | error e => rfl
  | ok a =>
    show Logged.bind ⟨notices ++ (f a).notices, (f a).result⟩ g =
      ⟨notices ++ (Logged.bind (f a) g).notices, (Logged.bind (f a) g).result⟩
    unfold Logged.bind
    cases (f a).result with
    | error e => rfl
    | ok b => exact congrArg (Logged.mk · (g b).result) (List.append_assoc _ _ _)

/-- The notices, the failure and the result of a computation have the given properties. -/
structure Within (N : Notice → Prop) (E : ε → Prop) (V : α → Prop) (x : Logged ε α) : Prop where
  notices : ∀ n ∈ x.notices, N n
  failure : ∀ e, x.result = .error e → E e
  value : ∀ a, x.result = .ok a → V a

namespace Within

theorem pure {a : α} (h : V a) : Within N E V (pure a) :=
  ⟨nofun, nofun, fun _ hb => Except.ok.inj hb ▸ h⟩

theorem fail {e : ε} (h : E e) : Within N E V (fail e) :=
  ⟨nofun, fun _ he => Except.error.inj he ▸ h, nofun⟩

theorem note {n : Notice} (h : N n) : Within N E (fun _ => True) (note n) :=
  ⟨fun _ hm => List.mem_singleton.mp hm ▸ h, nofun, fun _ _ => trivial⟩

/-- In a sequence the second computation may rely on the value of the first. -/
theorem bind {x : Logged ε α} {f : α → Logged ε β} (hx : Within N E V x)
    (hf : ∀ a, V a → Within N E W (f a)) : Within N E W (x >>= f) := by
  show Within N E W (Logged.bind x f)
  unfold Logged.bind
  cases hResult : x.result with
  | error e => exact ⟨hx.notices, fun _ h => hx.failure _ (Except.error.inj h ▸ hResult), nofun⟩
  | ok a =>
    have hSecond := hf a (hx.value a hResult)
    refine ⟨fun n hn => ?_, hSecond.failure, hSecond.value⟩
    rcases List.mem_append.mp hn with hFirst | hRest
    · exact hx.notices n hFirst
    · exact hSecond.notices n hRest

theorem weaken {E' : ε → Prop} {x : Logged ε α} (hx : Within N E V x) (hE : ∀ e, E e → E' e) :
    Within N E' V x :=
  ⟨hx.notices, fun e he => hE e (hx.failure e he), hx.value⟩

theorem imp {V' : α → Prop} {x : Logged ε α} (hx : Within N E V x) (hV : ∀ a, V a → V' a) :
    Within N E V' x :=
  ⟨hx.notices, hx.failure, fun a ha => hV a (hx.value a ha)⟩

end Within

/-- The computation gives a result. -/
def Succeeds (x : Logged ε α) : Prop := ∃ a, x.result = .ok a

theorem succeeds_pure (a : α) : Succeeds (pure a : Logged ε α) := ⟨a, rfl⟩

theorem not_succeeds_fail (e : ε) : ¬ Succeeds (fail e : Logged ε α) := nofun

/-- A sequence succeeds just when both of its parts do, if the first result does not matter. -/
theorem succeeds_bind {x : Logged ε α} {f : α → Logged ε β} {Q : Prop}
    (hf : ∀ a, (f a).Succeeds ↔ Q) : (x >>= f).Succeeds ↔ x.Succeeds ∧ Q := by
  show (Logged.bind x f).Succeeds ↔ _
  unfold Logged.bind Succeeds
  cases hResult : x.result with
  | error e => simp
  | ok a => simpa [Succeeds] using hf a

/-- A function of the result does not make a computation fail. -/
theorem succeeds_bind_pure {x : Logged ε α} {f : α → β} :
    (x >>= fun a => (pure (f a) : Logged ε β)).Succeeds ↔ x.Succeeds := by
  rw [succeeds_bind (Q := True) fun a => iff_true_intro (succeeds_pure (f a)), and_true]

end Logged

-- ---------------------------------------------------------------------------
-- The parts that are read
-- ---------------------------------------------------------------------------

namespace SyntaxTree

/-- The first of the given trees that plays the part `f`. -/
def fieldChild? (f : SyntaxField) (cs : List SyntaxTree) : Option SyntaxTree :=
  cs.find? fun t => t.label.field = some f

/-- The arguments of a call, given its children. -/
def argumentParts (cs : List SyntaxTree) : List SyntaxTree :=
  match fieldChild? .arguments cs with
  | some t => if t.kind = .arguments then t.parts else []
  | none => []

/-- The parameters of a function, given its children. -/
def paramParts (cs : List SyntaxTree) : List SyntaxTree :=
  match fieldChild? .parameters cs with
  | some t => t.parts
  | none => (fieldChild? .parameter cs).toList

/-- What is read of an entry of an object literal. -/
def entryParts (t : SyntaxTree) : List SyntaxTree :=
  match t.kind with
  | .pair => (fieldChild? .key t.children).toList ++ (fieldChild? .value t.children).toList
  | .methodDefinition => (fieldChild? .name t.children).toList ++ paramParts t.children
  | _ => []

/-- The trees that are read when an expression is read. -/
def readParts (t : SyntaxTree) : List SyntaxTree :=
  match t.kind with
  | .call => argumentParts t.children ++ (fieldChild? .function t.children).toList
  | .object => t.parts.flatMap entryParts
  | .array => t.parts
  | .function | .functionExpression | .arrowFunction | .generatorFunction => paramParts t.children
  | .parenthesized => if t.parts.length = 1 then t.parts else []
  | _ => []

variable {source : Text} {t : SyntaxTree} {l : SyntaxLabel} {cs ts : List SyntaxTree}

/-- Of a function the parameters are read, and not the body. -/
theorem readParts_of_isFunction (h : t.kind.isFunction = true) :
    t.readParts = paramParts t.children := by
  revert h
  unfold readParts
  cases t.kind <;> simp [SyntaxKind.isFunction]

/-- The expression of a part is that of the first child that plays it. -/
theorem fieldExpression?_eq (f : SyntaxField) (cs : List SyntaxTree) :
    fieldExpression? source f cs = (fieldChild? f cs).map (expression source) := by
  unfold fieldChild?
  induction cs with
  | nil => rfl
  | cons t ts ih =>
    rw [fieldExpression?, List.find?_cons]
    by_cases h : t.label.field = some f <;> simp [h, ih]

/-- The first expression is that of the first child that is no comment. -/
theorem firstExpression?_eq (cs : List SyntaxTree) :
    firstExpression? source cs = (cs.find? isPart).map (expression source) := by
  induction cs with
  | nil => rfl
  | cons t ts ih =>
    rw [firstExpression?, List.find?_cons]
    cases h : t.isPart <;> simp [ih]

/-- Reads all of the given trees, in order. -/
def readAll (source : Text) : List SyntaxTree → Reading (List Node)
  | [] => pure []
  | t :: ts => do
    let first ← expression source t
    let others ← readAll source ts
    pure (first :: others)

/-- The expressions of children are read in order, comments left out. -/
theorem partExpressions_eq (ts : List SyntaxTree) :
    partExpressions source ts = readAll source (ts.filter isPart) := by
  induction ts with
  | nil => rfl
  | cons t ts ih =>
    rw [partExpressions]
    cases h : t.isPart with
    | true =>
      rw [List.filter_cons_of_pos h, ih]
      rfl
    | false =>
      rw [List.filter_cons_of_neg (by simp [h]), ih]
      rfl

/-- The arguments of a call are its argument parts, read in order. -/
theorem callArguments_eq (cs : List SyntaxTree) :
    callArguments source cs = readAll source (argumentParts cs) := by
  unfold argumentParts fieldChild?
  induction cs with
  | nil => rfl
  | cons t ts ih =>
    obtain ⟨l, cs⟩ := t
    rw [callArguments, List.find?_cons]
    by_cases h : l.field = some .arguments
    · simp only [h, label, decide_true, if_true, partExpressions_eq]
      by_cases hKind : l.kind = .arguments
      · simp only [hKind, kind, label, if_true]
        rfl
      · simp only [hKind, kind, label, if_false]
        rfl
    · simp only [h, label, decide_false, if_false, ih]

/-- Parameters in parentheses are read in order, comments left out. -/
theorem listedParams?_eq (cs : List SyntaxTree) :
    listedParams? source cs =
      (fieldChild? .parameters cs).map fun t => readAll source t.parts := by
  unfold fieldChild?
  induction cs with
  | nil => rfl
  | cons t ts ih =>
    obtain ⟨l, cs⟩ := t
    rw [listedParams?, List.find?_cons, partExpressions_eq]
    by_cases h : l.field = some .parameters <;> simp [h, ih, label, parts, children]

/-- The parameters of a function are its parameter parts, read in order. -/
theorem functionParams_eq (cs : List SyntaxTree) :
    functionParams (listedParams? source cs) (fieldExpression? source .parameter cs) =
      readAll source (paramParts cs) := by
  rw [listedParams?_eq, fieldExpression?_eq, paramParts]
  cases fieldChild? .parameters cs with
  | some t => rfl
  | none =>
    cases fieldChild? .parameter cs with
    | some t => rfl
    | none => rfl

/-- **All that reading an expression can do.** -/
inductive ExpressionRead (source : Text) (t : SyntaxTree) : Reading Node → Prop
  | name (hKind : t.kind.isName = true) :
    ExpressionRead source t (pure (.identifier (t.place source) (t.rawText source)))
  | string (hKind : t.kind = .string) :
    ExpressionRead source t do
      let value ← Reading.ofLiteral (stringValue source t.children)
      pure (.string (t.place source) value)
  | number (hKind : t.kind = .number) :
    ExpressionRead source t do
      let value ← Reading.ofLiteral (Literal.numberValue (t.text source))
      pure (.number (t.place source) value)
  | call (hKind : t.kind = .call) :
    ExpressionRead source t do
      let arguments ← readAll source (argumentParts t.children)
      let callee ← Reading.required ((fieldChild? .function t.children).map (expression source))
      pure (.call (t.place source) callee arguments)
  | object (hKind : t.kind = .object) :
    ExpressionRead source t do
      let entries ← objectEntries source t.children
      pure (.object (t.place source) entries)
  | array (hKind : t.kind = .array) :
    ExpressionRead source t do
      let elements ← readAll source t.parts
      pure (.array (t.place source) elements)
  | function (hKind : t.kind.isFunction = true) :
    ExpressionRead source t do
      let params ← readAll source (paramParts t.children)
      pure (.function (t.place source) params)
  /-- Parentheses around a single expression leave no trace. -/
  | inner (hKind : t.kind = .parenthesized) (part : SyntaxTree) (hParts : t.parts = [part]) :
    ExpressionRead source t (expression source part)
  | closed (hKind : t.kind ∉ [.string, .number, .call, .object]) (hParts : t.readParts = []) :
    ExpressionRead source t (pure (.expression (t.place source) t.kind.name))

/-- **All that reading an expression can do**, one case for each way to read it. -/
theorem expression_cases (source : Text) (t : SyntaxTree) :
    ExpressionRead source t (expression source t) := by
  obtain ⟨l, cs⟩ := t
  unfold expression
  simp only [callArguments_eq, functionParams_eq, partExpressions_eq]
  split
  case h_1 hKind | h_2 hKind | h_3 hKind | h_4 hKind =>
    exact .name (by simp [kind, label, hKind, SyntaxKind.isName])
  case h_5 hKind => exact .string hKind
  case h_6 hKind => exact .number hKind
  case h_7 hKind => rw [fieldExpression?_eq]; exact .call hKind
  case h_8 hKind => exact .object hKind
  case h_9 hKind => exact .array hKind
  case h_10 hKind | h_11 hKind | h_12 hKind | h_13 hKind =>
    exact .function (by simp [kind, label, hKind, SyntaxKind.isFunction])
  case h_14 hKind =>
    split
    case isTrue hOne =>
      obtain ⟨part, hPart⟩ := List.length_eq_one_iff.mp hOne
      rw [firstExpression?_eq, ← List.head?_filter, hPart]
      exact ExpressionRead.inner (t := node l cs) hKind part hPart
    case isFalse hOne =>
      refine .closed ?_ ?_ <;> simp [kind, label, hKind, readParts, parts, children, hOne]
  case h_15 =>
    refine .closed ?_ ?_ <;> simp_all [kind, label, readParts]

/-- The node of an entry of an object literal. An entry without a key has none. -/
def entryNode (source : Text) (t : SyntaxTree) : Reading (Option Node) :=
  match t.kind with
  | .pair => do
    let key ← Reading.required ((fieldChild? .key t.children).map (expression source))
    let value ← Reading.required ((fieldChild? .value t.children).map (expression source))
    pure (some (.property (t.place source) key value))
  | .shorthandPropertyIdentifier =>
    let name := Node.identifier (t.place source) (t.rawText source)
    pure (some (.property (t.place source) name name))
  | .methodDefinition => do
    let key ← Reading.required ((fieldChild? .name t.children).map (expression source))
    let params ← readAll source (paramParts t.children)
    pure (some (.property (t.place source) key (.function (t.place source) params)))
  | _ => do
    Logged.note (.skippedEntry t.kind.name (t.place source).line)
    pure none

/-- Entries are read one after the other. -/
theorem objectEntries_cons_of_part (h : t.isPart = true) :
    objectEntries source (t :: ts) =
      (do
        let first ← entryNode source t
        let others ← objectEntries source ts
        pure (first.toList ++ others)) := by
  obtain ⟨l, cs⟩ := t
  rw [objectEntries, if_pos h, functionParams_eq, fieldExpression?_eq, fieldExpression?_eq,
    fieldExpression?_eq, entryNode]
  split
  case h_1 hKind | h_3 hKind =>
    simp only [kind, label, hKind, Logged.bind_assoc]
    rfl
  case h_2 hKind =>
    simp only [kind, label, hKind]
    rfl
  case h_4 hPair hShorthand hMethod =>
    split
    case h_1 hKind => exact absurd hKind hPair
    case h_2 hKind => exact absurd hKind hShorthand
    case h_3 hKind => exact absurd hKind hMethod
    case h_4 =>
      rw [Logged.bind_assoc]
      exact congrArg (Logged.note _ >>= ·) (funext fun _ => (Logged.bind_done _).symm)

/-- A comment between entries is passed over. -/
theorem objectEntries_cons_of_not_part (h : t.isPart = false) :
    objectEntries source (t :: ts) = objectEntries source ts := by
  obtain ⟨l, cs⟩ := t
  rw [objectEntries, if_neg (by simp [h])]

-- ---------------------------------------------------------------------------
-- Induction over the parts that are read
-- ---------------------------------------------------------------------------

/-- A property of trees that passes to their children. -/
def Hereditary (T : SyntaxTree → Prop) : Prop := ∀ t, T t → ∀ c ∈ t.children, T c

variable {T : SyntaxTree → Prop}

theorem mem_of_fieldChild? {f : SyntaxField} (h : t ∈ fieldChild? f cs) : t ∈ cs :=
  List.mem_of_find?_eq_some h

/-- Parts are children that are no comments. -/
theorem mem_children_of_mem_parts {part : SyntaxTree} (h : part ∈ t.parts) : part ∈ t.children :=
  (List.mem_filter.mp h).1

/-- What passes down a tree holds of the arguments of a call. -/
theorem argumentParts_keep (hT : Hereditary T) (hChildren : ∀ c ∈ cs, T c) :
    ∀ t ∈ argumentParts cs, T t := by
  intro t ht
  unfold argumentParts at ht
  split at ht
  case h_1 arguments hArguments =>
    split at ht
    case isTrue =>
      have hWhole := hChildren _ (mem_of_fieldChild? hArguments)
      exact hT _ hWhole t (mem_children_of_mem_parts ht)
    case isFalse => simp at ht
  case h_2 => simp at ht

/-- What passes down a tree holds of the parameters of a function. -/
theorem paramParts_keep (hT : Hereditary T) (hChildren : ∀ c ∈ cs, T c) :
    ∀ t ∈ paramParts cs, T t := by
  intro t ht
  unfold paramParts at ht
  split at ht
  case h_1 params hParams =>
    have hWhole := hChildren _ (mem_of_fieldChild? hParams)
    exact hT _ hWhole t (mem_children_of_mem_parts ht)
  case h_2 => exact hChildren t (mem_of_fieldChild? (Option.mem_toList.mp ht))

/-- What passes down a tree holds of the key and value of an entry. -/
theorem entryParts_keep (hT : Hereditary T) (hChildren : ∀ c ∈ t.children, T c) :
    ∀ part ∈ t.entryParts, T part := by
  intro part hPart
  have hField : ∀ f, part ∈ (fieldChild? f t.children).toList → T part := fun f h =>
    hChildren part (mem_of_fieldChild? (Option.mem_toList.mp h))
  unfold entryParts at hPart
  split at hPart
  case h_1 => exact (List.mem_append.mp hPart).elim (hField .key) (hField .value)
  case h_2 =>
    exact (List.mem_append.mp hPart).elim (hField .name) (paramParts_keep hT hChildren part)
  case h_3 => simp at hPart

/-- What passes down a tree holds of all parts that are read. -/
theorem readParts_keep (hT : Hereditary T) (hChildren : ∀ c ∈ t.children, T c) :
    ∀ part ∈ t.readParts, T part := by
  intro part hPart
  unfold readParts at hPart
  split at hPart
  case h_1 =>
    rcases List.mem_append.mp hPart with hArgument | hCallee
    · exact argumentParts_keep hT hChildren part hArgument
    · exact hChildren part (mem_of_fieldChild? (Option.mem_toList.mp hCallee))
  case h_2 =>
    obtain ⟨entry, hEntry, hPart⟩ := List.mem_flatMap.mp hPart
    have hEntry := hChildren entry (mem_children_of_mem_parts hEntry)
    exact entryParts_keep hT (hT entry hEntry) part hPart
  case h_3 => exact hChildren part (mem_children_of_mem_parts hPart)
  case h_4 | h_5 | h_6 | h_7 => exact paramParts_keep hT hChildren part hPart
  case h_8 =>
    split at hPart
    case isTrue => exact hChildren part (mem_children_of_mem_parts hPart)
    case isFalse => simp at hPart
  case h_9 => simp at hPart

/-- A child is smaller than its tree. -/
theorem sizeOf_lt_of_mem_children {c : SyntaxTree} (h : c ∈ t.children) : sizeOf c < sizeOf t := by
  obtain ⟨l, cs⟩ := t
  have hMem : sizeOf c < sizeOf cs := List.sizeOf_lt_of_mem h
  simp only [node.sizeOf_spec]
  omega

/-- So is a part that is read, since it lies below the tree. -/
theorem sizeOf_lt_of_mem_readParts {part : SyntaxTree} (h : part ∈ t.readParts) :
    sizeOf part < sizeOf t :=
  readParts_keep (T := fun s => sizeOf s < sizeOf t)
    (fun _ hs _ hc => Nat.lt_trans (sizeOf_lt_of_mem_children hc) hs)
    (fun _ hc => sizeOf_lt_of_mem_children hc) part h

/-- What holds of a tree as soon as it holds of its read parts holds of every tree. -/
theorem read_induction {motive : SyntaxTree → Prop}
    (step : ∀ t, (∀ part ∈ t.readParts, motive part) → motive t) (t : SyntaxTree) : motive t :=
  step t fun part _ => read_induction step part
termination_by sizeOf t
decreasing_by exact sizeOf_lt_of_mem_readParts ‹_›

-- ---------------------------------------------------------------------------
-- When reading succeeds
-- ---------------------------------------------------------------------------

/-- A literal has a value. Everything that is no literal does not need one. -/
def HasValue (source : Text) (t : SyntaxTree) : Prop :=
  (t.kind = .string → ∃ value, stringValue source t.children = .ok value) ∧
    (t.kind = .number → ∃ value, Literal.numberValue (t.text source) = .ok value)

/-- An entry of an object literal has the parts that its kind should have. -/
def EntryComplete (t : SyntaxTree) : Prop :=
  (t.kind = .pair → fieldChild? .key t.children ≠ none ∧ fieldChild? .value t.children ≠ none) ∧
    (t.kind = .methodDefinition → fieldChild? .name t.children ≠ none)

/-- An expression has the parts that its kind should have. -/
def Complete (t : SyntaxTree) : Prop :=
  (t.kind = .call → fieldChild? .function t.children ≠ none) ∧
    (t.kind = .object → ∀ entry ∈ t.parts, entry.EntryComplete)

/-- Reading a literal succeeds if the literal has a value. -/
theorem succeeds_ofLiteral {α : Type} {r : Except Literal.Failure α} :
    (Reading.ofLiteral r).Succeeds ↔ ∃ value, r = .ok value := by
  cases r with
  | ok value => exact iff_of_true ⟨value, rfl⟩ ⟨value, rfl⟩
  | error e => exact iff_of_false (Logged.not_succeeds_fail _) nofun

/-- Trees can be read in order if each of them can. -/
theorem succeeds_readAll :
    (readAll source ts).Succeeds ↔ ∀ t ∈ ts, (expression source t).Succeeds := by
  induction ts with
  | nil => exact iff_of_true (Logged.succeeds_pure _) nofun
  | cons t ts ih =>
    rw [readAll, Logged.succeeds_bind fun _ => Logged.succeeds_bind_pure, ih, List.forall_mem_cons]

/-- A required part has to be there, and to be read. -/
theorem succeeds_required {o : Option SyntaxTree} :
    (Reading.required (o.map (expression source))).Succeeds ↔
      o ≠ none ∧ ∀ t ∈ o.toList, (expression source t).Succeeds := by
  cases o with
  | none => exact iff_of_false (Logged.not_succeeds_fail _) fun h => h.1 rfl
  | some t => simp [Reading.required]

/-- An entry can be read if it is complete and its parts can be read. -/
theorem succeeds_entryNode (t : SyntaxTree) :
    (entryNode source t).Succeeds ↔
      t.EntryComplete ∧ ∀ part ∈ t.entryParts, (expression source part).Succeeds := by
  unfold entryNode EntryComplete entryParts
  split
  case h_1 hKind =>
    rw [Logged.succeeds_bind fun _ => Logged.succeeds_bind_pure, succeeds_required, succeeds_required]
    simp only [hKind, List.forall_mem_append]
    tauto
  case h_2 hKind => simp [hKind, Logged.succeeds_pure]
  case h_3 hKind =>
    rw [Logged.succeeds_bind fun _ => Logged.succeeds_bind_pure, succeeds_required, succeeds_readAll]
    simp only [hKind, List.forall_mem_append]
    tauto
  case h_4 hPair _ hMethod =>
    rw [Logged.succeeds_bind_pure]
    simp_all [Logged.Succeeds, Logged.note]

/-- An object can be read if each of its entries can. -/
theorem succeeds_objectEntries :
    (objectEntries source ts).Succeeds ↔
      ∀ entry ∈ ts.filter isPart,
        entry.EntryComplete ∧ ∀ part ∈ entry.entryParts, (expression source part).Succeeds := by
  induction ts with
  | nil => exact iff_of_true (Logged.succeeds_pure _) nofun
  | cons t ts ih =>
    cases hPart : t.isPart with
    | false => rw [objectEntries_cons_of_not_part hPart, ih, List.filter_cons_of_neg (by simp [hPart])]
    | true =>
      rw [objectEntries_cons_of_part hPart, Logged.succeeds_bind fun _ => Logged.succeeds_bind_pure,
        ih, succeeds_entryNode, List.filter_cons_of_pos hPart, List.forall_mem_cons]

/-- An expression can be read if its literal has a value, no part is absent, and its parts can be
read. -/
theorem succeeds_expression_iff (t : SyntaxTree) :
    (expression source t).Succeeds ↔
      t.HasValue source ∧ t.Complete ∧
        ∀ part ∈ t.readParts, (expression source part).Succeeds := by
  generalize hRead : expression source t = read
  -- one case for each way to read a tree; names and closed trees always succeed
  cases hRead ▸ expression_cases source t with
  | name hKind =>
    refine iff_of_true (Logged.succeeds_pure _) ?_
    revert hKind
    simp only [HasValue, Complete, readParts]
    cases t.kind <;> simp [SyntaxKind.isName]
  | string hKind =>
    rw [Logged.succeeds_bind_pure, succeeds_ofLiteral]
    simp [HasValue, Complete, readParts, hKind]
  | number hKind =>
    rw [Logged.succeeds_bind_pure, succeeds_ofLiteral]
    simp [HasValue, Complete, readParts, hKind]
  | call hKind =>
    rw [Logged.succeeds_bind fun _ => Logged.succeeds_bind_pure, succeeds_readAll, succeeds_required]
    simp only [HasValue, Complete, readParts, hKind, List.forall_mem_append]
    tauto
  | object hKind =>
    rw [Logged.succeeds_bind_pure, succeeds_objectEntries]
    simp only [HasValue, Complete, readParts, hKind, List.mem_flatMap]
    constructor
    · intro h
      refine ⟨by simp, ⟨by simp, fun _ entry hEntry => (h entry hEntry).1⟩, ?_⟩
      rintro part ⟨entry, hEntry, hPart⟩
      exact (h entry hEntry).2 part hPart
    · rintro ⟨-, ⟨-, hComplete⟩, hParts⟩ entry hEntry
      exact ⟨hComplete trivial entry hEntry, fun part hPart => hParts part ⟨entry, hEntry, hPart⟩⟩
  | array hKind =>
    rw [Logged.succeeds_bind_pure, succeeds_readAll]
    simp [HasValue, Complete, readParts, hKind]
  | function hKind =>
    rw [Logged.succeeds_bind_pure, succeeds_readAll]
    revert hKind
    simp only [HasValue, Complete, readParts]
    cases t.kind <;> simp [SyntaxKind.isFunction]
  | inner hKind part hParts =>
    simp [HasValue, Complete, readParts, hKind, hParts]
  | closed hKind hParts =>
    refine iff_of_true (Logged.succeeds_pure _) ?_
    simp_all [HasValue, Complete]

/-- The trees that reading an expression comes to: the expression, its read parts, theirs, and so
on. -/
inductive Visits : SyntaxTree → SyntaxTree → Prop
  | self (t : SyntaxTree) : Visits t t
  | part {t part u : SyntaxTree} (hPart : part ∈ t.readParts) (hRest : Visits part u) : Visits t u

/-- What holds of every tree that is come to holds of the tree and of what its parts come to. -/
theorem forall_visits_iff {P : SyntaxTree → Prop} :
    (∀ u, t.Visits u → P u) ↔ P t ∧ ∀ part ∈ t.readParts, ∀ u, part.Visits u → P u :=
  ⟨fun h => ⟨h t (.self t), fun _ hPart u hu => h u (.part hPart hu)⟩,
    fun ⟨hSelf, hParts⟩ u hu => match hu with
      | .self _ => hSelf
      | .part hPart hRest => hParts _ hPart u hRest⟩

/-- The same for all trees that reading comes to, by induction on the size of the tree. -/
theorem succeeds_expression (t : SyntaxTree) :
    (expression source t).Succeeds ↔ ∀ u, t.Visits u → u.HasValue source ∧ u.Complete := by
  induction t using read_induction with
  | step t ih =>
    rw [succeeds_expression_iff, forall_visits_iff, and_assoc]
    exact and_congr_right fun _ => and_congr_right fun _ => forall₂_congr ih

/-- What is read of a statement. -/
def statementParts (t : SyntaxTree) : List SyntaxTree :=
  if t.kind = .expressionStatement then t.parts.head?.toList else []

/-- Of a statement only the expression that it is gets read. -/
theorem statement_eq (t : SyntaxTree) :
    statement source t =
      if t.kind = .expressionStatement then
        match t.parts.head? with
        | some part => do
          let inner ← expression source part
          pure (.expressionStatement (t.place source) inner)
        | none =>
          pure (.expressionStatement (t.place source) (.expression (t.place source) t.kind.name))
      else pure (.statement (t.place source) t.kind.name) := by
  rw [statement, firstExpression?_eq, parts, List.head?_filter]
  cases t.children.find? isPart with
  | some part => rfl
  | none => rfl

/-- A statement can be read if the expression that it is can be. -/
theorem succeeds_statement (t : SyntaxTree) :
    (statement source t).Succeeds ↔ ∀ part ∈ t.statementParts, (expression source part).Succeeds := by
  rw [statement_eq, statementParts]
  by_cases hKind : t.kind = .expressionStatement
  · rw [if_pos hKind, if_pos hKind]
    cases t.parts.head? with
    | some part => simp [Logged.succeeds_bind_pure]
    | none => exact iff_of_true (Logged.succeeds_pure _) nofun
  · rw [if_neg hKind, if_neg hKind]
    exact iff_of_true (Logged.succeeds_pure _) nofun

/-- Statements can be read in order if each of them can. -/
theorem succeeds_statements (ts : List SyntaxTree) :
    (statements source ts).Succeeds ↔
      ∀ t ∈ ts.filter isPart, ∀ part ∈ t.statementParts, (expression source part).Succeeds := by
  induction ts with
  | nil => exact iff_of_true (Logged.succeeds_pure _) nofun
  | cons t ts ih =>
    rw [statements]
    cases hPart : t.isPart with
    | true =>
      rw [if_pos rfl, Logged.succeeds_bind fun _ => Logged.succeeds_bind_pure, ih,
        succeeds_statement, List.filter_cons_of_pos hPart, List.forall_mem_cons]
    | false =>
      rw [if_neg (by simp), ih, List.filter_cons_of_neg (by simp [hPart])]

/-- Reading the program of a tree comes to the tree `u`. -/
def ComesTo (tree u : SyntaxTree) : Prop :=
  ∃ t ∈ tree.parts, ∃ part ∈ t.statementParts, part.Visits u

/-- A property of trees that passes to their read parts. -/
def PassesOn (U : SyntaxTree → Prop) : Prop := ∀ t, U t → ∀ part ∈ t.readParts, U part

/-- Reading that comes to a tree comes to the parts of that tree. -/
theorem Visits.snoc {u part : SyntaxTree} (h : t.Visits u) (hPart : part ∈ u.readParts) :
    t.Visits part := by
  induction h with
  | self t => exact .part hPart (.self part)
  | part hFirst _ ih => exact .part hFirst (ih hPart)

/-- What passes down to children passes on to parts that are read. -/
theorem Hereditary.passesOn {T : SyntaxTree → Prop} (hT : Hereditary T) : PassesOn T :=
  fun t h => readParts_keep hT (hT t h)

/-- What passes on to parts that are read holds wherever reading comes to. -/
theorem PassesOn.visits {U : SyntaxTree → Prop} {u : SyntaxTree} (hU : PassesOn U)
    (hVisits : t.Visits u) (h : U t) : U u := by
  induction hVisits with
  | self t => exact h
  | part hPart _ ih => exact ih (hU _ h _ hPart)

/-- What holds of the children of a tree and passes to theirs holds of all that reading comes to. -/
theorem Hereditary.comesTo {T : SyntaxTree → Prop} {u : SyntaxTree} (hT : Hereditary T)
    (h : ∀ c ∈ t.children, T c) (hu : t.ComesTo u) : T u := by
  obtain ⟨s, hs, part, hPart, hVisits⟩ := hu
  refine hT.passesOn.visits hVisits ?_
  unfold statementParts at hPart
  split at hPart
  · have hMem := List.mem_of_head? (Option.mem_toList.mp hPart)
    exact hT s (h s (mem_children_of_mem_parts hs)) part (mem_children_of_mem_parts hMem)
  · exact nomatch hPart

/-- To be come to passes on to parts that are read. -/
theorem passesOn_comesTo (tree : SyntaxTree) : PassesOn tree.ComesTo := by
  rintro u ⟨t, ht, first, hFirst, hVisits⟩ part hPart
  exact ⟨t, ht, first, hFirst, hVisits.snoc hPart⟩

-- ---------------------------------------------------------------------------
-- What reading gives
-- ---------------------------------------------------------------------------

/-- The nodes come from the trees, in their order. A tree may be passed over. -/
abbrev InOrder (V : SyntaxTree → Node → Prop) (ts : List SyntaxTree) (ns : List Node) : Prop :=
  List.SublistForall₂ (flip V) ns ts

/-- Every node of the list comes from one of the trees. -/
theorem InOrder.exists_mem {V : SyntaxTree → Node → Prop} {ns : List Node} (h : InOrder V ts ns) :
    ∀ n ∈ ns, ∃ t ∈ ts, V t n := by
  induction h with
  | nil => exact nofun
  | @cons n t ns ts hFirst _ ih =>
    refine List.forall_mem_cons.mpr ⟨⟨t, List.mem_cons_self, hFirst⟩, fun m hm => ?_⟩
    obtain ⟨u, hu, hm⟩ := ih m hm
    exact ⟨u, List.mem_cons_of_mem t hu, hm⟩
  | @cons_right t ns ts _ ih =>
    intro n hn
    obtain ⟨u, hu, hn⟩ := ih n hn
    exact ⟨u, List.mem_cons_of_mem t hu, hn⟩

/-- What holds of the node of any tree holds of all nodes of the list. -/
theorem InOrder.forall_mem {V : SyntaxTree → Node → Prop} {P : Node → Prop} {ns : List Node}
    (h : InOrder V ts ns) (hV : ∀ t n, V t n → P n) : ∀ n ∈ ns, P n := by
  intro n hn
  obtain ⟨t, -, hn⟩ := h.exists_mem n hn
  exact hV t n hn

section InOrder

variable {N : Notice → Prop} {E : SourceFailure → Prop} {V : SyntaxTree → Node → Prop}

/-- Expressions give nodes in the order of their trees. -/
theorem inOrder_readAll (h : ∀ t ∈ ts, (expression source t).Within N E (V t)) :
    (readAll source ts).Within N E (InOrder V ts) := by
  induction ts with
  | nil => exact .pure .nil
  | cons t ts ih =>
    obtain ⟨hFirst, hOthers⟩ := List.forall_mem_cons.mp h
    exact .bind hFirst fun n hn => .bind (ih hOthers) fun ns hns => .pure (.cons hn hns)

/-- Entries of an object give nodes in the order of their trees. -/
theorem inOrder_objectEntries
    (h : ∀ t ∈ ts.filter isPart, (entryNode source t).Within N E fun o => ∀ n ∈ o, V t n) :
    (objectEntries source ts).Within N E (InOrder V ts) := by
  induction ts with
  | nil => exact .pure .nil
  | cons t ts ih =>
    cases hPart : t.isPart with
    | false =>
      rw [List.filter_cons_of_neg (by simp [hPart])] at h
      rw [objectEntries_cons_of_not_part hPart]
      exact (ih h).imp fun ns hns => .cons_right hns
    | true =>
      rw [List.filter_cons_of_pos hPart, List.forall_mem_cons] at h
      rw [objectEntries_cons_of_part hPart]
      refine .bind h.1 fun o ho => .bind (ih h.2) fun ns hns => .pure ?_
      cases o with
      | none => exact .cons_right hns
      | some n => exact .cons (ho n rfl) hns

/-- Statements give nodes in the order of their trees. -/
theorem inOrder_statements
    (h : ∀ t ∈ ts.filter isPart, (statement source t).Within N E (V t)) :
    (statements source ts).Within N E (InOrder V ts) := by
  induction ts with
  | nil => exact .pure .nil
  | cons t ts ih =>
    rw [statements]
    split
    case isTrue hPart =>
      rw [List.filter_cons_of_pos hPart, List.forall_mem_cons] at h
      exact .bind h.1 fun n hn => .bind (ih h.2) fun ns hns => .pure (.cons hn hns)
    case isFalse hPart =>
      rw [List.filter_cons_of_neg hPart] at h
      exact (ih h).imp fun ns hns => .cons_right hns

/-- What is required comes from the tree that is there. -/
theorem within_required {o : Option SyntaxTree}
    (h : ∀ t ∈ o.toList, (expression source t).Within N E (V t)) (hNone : o = none → E .absentPart) :
    (Reading.required (o.map (expression source))).Within N E fun n => ∃ t ∈ o, V t n := by
  cases o with
  | none => exact .fail (hNone rfl)
  | some t => exact (h t List.mem_cons_self).imp fun n hn => ⟨t, rfl, hn⟩

end InOrder

/-- How the name that a node gives to an entry of an object literal comes from the tree that the
node is read from. -/
inductive KeyOf (source : Text) (t : SyntaxTree) : Text → Prop
  | name (hKind : t.kind.isName = true) : KeyOf source t (t.rawText source)
  | string {value : Text} (hKind : t.kind = .string)
      (hValue : stringValue source t.children = .ok value) : KeyOf source t value
  | number {value : Text} (hKind : t.kind = .number)
      (hValue : Literal.numberValue (t.text source) = .ok value) : KeyOf source t value
  | text : KeyOf source t (t.text source)

/-- Why reading fails at one of the trees with `U`. -/
inductive Cause (source : Text) (U : SyntaxTree → Prop) : SourceFailure → Prop
  | string {t : SyntaxTree} {e : Literal.Failure} (hU : U t) (hKind : t.kind = .string)
      (hValue : stringValue source t.children = .error e) : Cause source U (.literal e)
  | number {t : SyntaxTree} {e : Literal.Failure} (hU : U t) (hKind : t.kind = .number)
      (hValue : Literal.numberValue (t.text source) = .error e) : Cause source U (.literal e)
  | absent {t : SyntaxTree} (hU : U t) (hComplete : ¬ t.Complete) : Cause source U .absentPart

end SyntaxTree

/-- A property holds of a node and of everything that it is made of. -/
inductive Node.All (P : Node → Prop) : Node → Prop
  | intro {n : Node} (hSelf : P n) (hChildren : ∀ c ∈ n.children, Node.All P c) : Node.All P n

/-- A node stands in the place of one of the trees with `T`, and names entries after it. -/
def Node.ReadFrom (source : Text) (T : SyntaxTree → Prop) (n : Node) : Prop :=
  ∃ t, T t ∧ n.place = t.place source ∧ t.KeyOf source n.keyName

/-- The notice says that an entry of an object literal has been passed over. -/
def Notice.IsSkippedEntry (n : Notice) : Prop := ∃ form line, n = .skippedEntry form line

namespace SyntaxTree

/-- Reading fails only at the trees with `U`, and says of nothing else than of entries that it has
passed them over. -/
abbrev Faithful {α : Type} (source : Text) (U : SyntaxTree → Prop) (V : α → Prop) (x : Reading α) :
    Prop :=
  x.Within Notice.IsSkippedEntry (Cause source U) V

/-- A node that is read from the trees with `T`, with everything that it is made of. -/
abbrev ReadNode (source : Text) (T : SyntaxTree → Prop) : Node → Prop :=
  Node.All (Node.ReadFrom source T)

variable {U : SyntaxTree → Prop}

/-- Every node but a literal or a name names entries by its text. -/
theorem readNode_of_parts {n : Node} (hT : T t) (hPlace : n.place = t.place source)
    (hKey : n.keyName = n.text) (hParts : ∀ c ∈ n.children, ReadNode source T c) :
    ReadNode source T n := by
  refine .intro ⟨t, hT, hPlace, ?_⟩ hParts
  have hText : n.text = t.text source := congrArg Place.text hPlace
  rw [hKey, hText]
  exact .text

/-- A faithful reading of trees in order gives nodes that were read. -/
theorem faithful_list {x : Reading (List Node)}
    (h : Faithful source U (InOrder (fun _ => ReadNode source T) ts) x) :
    Faithful source U (fun ns => ∀ n ∈ ns, ReadNode source T n) x :=
  h.imp fun _ hns => hns.forall_mem fun _ _ hRead => hRead

/-- Expressions are read faithfully if each of them is. -/
theorem faithful_readAll
    (h : ∀ t ∈ ts, Faithful source U (ReadNode source T) (expression source t)) :
    Faithful source U (fun ns => ∀ n ∈ ns, ReadNode source T n) (readAll source ts) :=
  faithful_list (inOrder_readAll h)

/-- A required part is read faithfully, and its absence is a cause to fail. -/
theorem faithful_required {o : Option SyntaxTree}
    (h : ∀ t ∈ o.toList, Faithful source U (ReadNode source T) (expression source t))
    (hNone : o = none → Cause source U .absentPart) :
    Faithful source U (ReadNode source T) (Reading.required (o.map (expression source))) :=
  (within_required h hNone).imp fun _ ⟨_, _, hRead⟩ => hRead

/-- A literal fails for a cause of its own. -/
theorem faithful_ofLiteral {α : Type} {r : Except Literal.Failure α}
    (h : ∀ e, r = .error e → Cause source U (.literal e)) :
    Faithful source U (fun value => r = .ok value) (Reading.ofLiteral r) := by
  cases r with
  | ok value => exact .pure rfl
  | error e => exact .fail (h e rfl)

/-- An entry of an object is read faithfully if its parts are. -/
theorem faithful_entryNode (hT : T t) (hAbsent : ¬ t.EntryComplete → Cause source U .absentPart)
    (hParts : ∀ part ∈ t.entryParts,
      Faithful source U (ReadNode source T) (expression source part)) :
    Faithful source U (fun o => ∀ n ∈ o, ReadNode source T n) (entryNode source t) := by
  -- an entry stands in the place of `t`, and is made of nodes that have been read
  have hProperty : ∀ {key value}, ReadNode source T key → ReadNode source T value →
      ∀ n ∈ some (Node.property (t.place source) key value), ReadNode source T n := by
    rintro key value hKey hValue _ ⟨⟩
    exact readNode_of_parts hT rfl rfl (by simp [Node.children, hKey, hValue])
  unfold entryNode
  unfold entryParts at hParts
  split
  case h_1 hKind =>
    simp only [hKind, List.forall_mem_append] at hParts
    refine .bind (faithful_required hParts.1 fun h => hAbsent ?_) fun _ hKey =>
      .bind (faithful_required hParts.2 fun h => hAbsent ?_) fun _ hValue =>
      .pure (hProperty hKey hValue)
    · exact fun hComplete => (hComplete.1 hKind).1 h
    · exact fun hComplete => (hComplete.1 hKind).2 h
  case h_2 hKind =>
    have hName : ReadNode source T (.identifier (t.place source) (t.rawText source)) :=
      .intro ⟨t, hT, rfl, .name (by rw [hKind]; rfl)⟩ nofun
    exact .pure (hProperty hName hName)
  case h_3 hKind =>
    simp only [hKind, List.forall_mem_append] at hParts
    refine .bind (faithful_required hParts.1 fun h => hAbsent ?_) fun _ hKey =>
      .bind (faithful_readAll hParts.2) fun _ hParams => .pure ?_
    · exact fun hComplete => hComplete.2 hKind h
    · exact hProperty hKey (readNode_of_parts hT rfl rfl hParams)
  case h_4 => exact .bind (.note ⟨_, _, rfl⟩) fun _ _ => .pure nofun

/-- **Reading an expression gives nodes of the tree**, and fails only at a tree that it comes to. -/
theorem faithful_expression (hT : Hereditary T) (hU : PassesOn U) (t : SyntaxTree) (h : T t)
    (hVisited : U t) : Faithful source U (ReadNode source T) (expression source t) := by
  induction t using read_induction with
  | step t ih =>
    have hChildren := hT t h
    -- the induction is on the parts that are read, which are smaller than the tree
    have hParts : ∀ part ∈ t.readParts,
        Faithful source U (ReadNode source T) (expression source part) := fun part hPart =>
      ih part hPart (readParts_keep hT hChildren part hPart) (hU t hVisited part hPart)
    generalize hRead : expression source t = read
    cases hRead ▸ expression_cases source t with
    | name hKind => exact .pure (.intro ⟨t, h, rfl, .name hKind⟩ nofun)
    | string hKind =>
      refine .bind (faithful_ofLiteral fun _ => .string hVisited hKind) fun _ hValue => .pure ?_
      exact .intro ⟨t, h, rfl, .string hKind hValue⟩ nofun
    | number hKind =>
      refine .bind (faithful_ofLiteral fun _ => .number hVisited hKind) fun _ hValue => .pure ?_
      exact .intro ⟨t, h, rfl, .number hKind hValue⟩ nofun
    | call hKind =>
      simp only [readParts, hKind, List.forall_mem_append] at hParts
      refine .bind (faithful_readAll hParts.1) fun _ hArguments =>
        .bind (faithful_required hParts.2 fun hNone => .absent hVisited ?_) fun _ hCallee => .pure ?_
      · exact fun hComplete => hComplete.1 hKind hNone
      · exact readNode_of_parts h rfl rfl (List.forall_mem_cons.mpr ⟨hCallee, hArguments⟩)
    | object hKind =>
      simp only [readParts, hKind, List.mem_flatMap, forall_exists_index, and_imp] at hParts
      refine .bind (faithful_list (inOrder_objectEntries fun entry hEntry =>
        faithful_entryNode ?_ ?_ ?_)) fun _ hEntries => .pure (readNode_of_parts h rfl rfl hEntries)
      · exact hChildren entry (mem_children_of_mem_parts hEntry)
      · exact fun hAbsent =>
          .absent hVisited fun hComplete => hAbsent (hComplete.2 hKind entry hEntry)
      · exact fun part hPart => hParts part entry hEntry hPart
    | array hKind =>
      simp only [readParts, hKind] at hParts
      exact .bind (faithful_readAll hParts) fun _ hElements =>
        .pure (readNode_of_parts h rfl rfl hElements)
    | function hKind =>
      rw [readParts_of_isFunction hKind] at hParts
      exact .bind (faithful_readAll hParts) fun _ hParams =>
        .pure (readNode_of_parts h rfl rfl hParams)
    | inner hKind part hPart => exact hParts part (by simp [readParts, hKind, hPart])
    | closed => exact .pure (readNode_of_parts h rfl rfl nofun)

/-- A statement is read as faithfully as the expression that it is. -/
theorem faithful_statement (hT : Hereditary T) (hU : PassesOn U) (t : SyntaxTree) (h : T t)
    (hVisited : ∀ part ∈ t.statementParts, U part) :
    Faithful source U (ReadNode source T) (statement source t) := by
  rw [statement_eq]
  unfold statementParts at hVisited
  by_cases hKind : t.kind = .expressionStatement
  · rw [if_pos hKind] at hVisited ⊢
    cases hHead : t.parts.head? with
    | some part =>
      have hPart : T part := hT t h part (mem_children_of_mem_parts (List.mem_of_head? hHead))
      have hPartVisited : U part := hVisited part (by rw [hHead]; exact List.mem_singleton_self part)
      refine .bind (faithful_expression hT hU part hPart hPartVisited) fun _ hInner => .pure ?_
      exact readNode_of_parts h rfl rfl (List.forall_mem_singleton.mpr hInner)
    | none =>
      refine .pure (readNode_of_parts h rfl rfl (List.forall_mem_singleton.mpr ?_))
      exact readNode_of_parts h rfl rfl nofun
  · rw [if_neg hKind]
    exact .pure (readNode_of_parts h rfl rfl nofun)

/-- Statements are read faithfully, one after the other. -/
theorem faithful_statements (hT : Hereditary T) (hU : PassesOn U) (ts : List SyntaxTree)
    (h : ∀ t ∈ ts, T t) (hVisited : ∀ t ∈ ts.filter isPart, ∀ part ∈ t.statementParts, U part) :
    Faithful source U (fun ns => ∀ n ∈ ns, ReadNode source T n) (statements source ts) :=
  faithful_list <| inOrder_statements fun t ht =>
    faithful_statement hT hU t (h t (List.mem_filter.mp ht).1) (hVisited t ht)

end SyntaxTree

-- ---------------------------------------------------------------------------
-- Programs
-- ---------------------------------------------------------------------------

namespace Program

variable {path source : Text} {tree : SyntaxTree} {T : SyntaxTree → Prop}

/-- **Why a tree has no program**: the tree has an error, or reading fails at a tree that it comes
to. -/
inductive Refused (path source : Text) (tree : SyntaxTree) : SourceFailure → Prop
  | malformed {line : Nat} (h : tree.errorLine? source = some line) :
    Refused path source tree (.malformed path line)
  | unread {e : SourceFailure} (hNone : tree.errorLine? source = none)
      (hCause : SyntaxTree.Cause source tree.ComesTo e) : Refused path source tree e

/-- **What reading a tree gives**, if its parts have a property that passes to their children. -/
theorem ofTree_within (hT : SyntaxTree.Hereditary T)
    (h : tree.errorLine? source = none → ∀ t ∈ tree.children, T t) :
    (ofTree path source tree).Within Notice.IsSkippedEntry (Refused path source tree)
      fun p => ∀ n ∈ p.body, SyntaxTree.ReadNode source T n := by
  unfold ofTree
  split
  case h_1 line hLine => exact .fail (.malformed hLine)
  case h_2 hLine =>
    have hRead : SyntaxTree.Faithful source tree.ComesTo _
        (SyntaxTree.statements source tree.children) :=
      SyntaxTree.faithful_statements hT (SyntaxTree.passesOn_comesTo tree) tree.children (h hLine)
        fun t ht part hPart => ⟨t, ht, part, hPart, .self part⟩
    exact .bind (hRead.weaken fun _ => .unread hLine) fun _ hBody => .pure hBody

/-- A tree has a program if it has no error, and all literals that reading comes to have values and
no part of theirs is absent. -/
theorem succeeds_ofTree :
    (ofTree path source tree).Succeeds ↔
      tree.errorLine? source = none ∧
        ∀ u, tree.ComesTo u → u.HasValue source ∧ u.Complete := by
  unfold ofTree
  split
  case h_1 line hLine => simp [hLine, Logged.not_succeeds_fail]
  case h_2 hLine =>
    rw [Logged.succeeds_bind_pure, SyntaxTree.succeeds_statements]
    simp only [SyntaxTree.succeeds_expression, hLine, true_and, SyntaxTree.ComesTo]
    exact ⟨fun h u ⟨t, ht, part, hPart, hu⟩ => h t ht part hPart u hu,
      fun h t ht part hPart u hu => h u ⟨t, ht, part, hPart, hu⟩⟩

end Program

end ClassTags
