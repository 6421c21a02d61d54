import ClassTags.Proofs.Productions
import ClassTags.Proofs.Reading

/-!
# The tree of a source text is well formed

The rules for declarations and statements keep to the source text, as those for expressions do
(`ClassTags.Proofs.Productions`). So the grammar keeps to it at every depth, by induction on the
depth, and a source text without syntax errors has a well-formed tree.

Main results:

* `Grammar.rules_keep` — the rules of every depth keep to the source text;
* `SyntaxTree.wellFormed_ofSource` — the tree of a source text without syntax errors is well formed.
-/

namespace ClassTags

namespace Grammar

open ClassTags.Grammar.Parser

variable [Source] {r : Rules}

-- ---------------------------------------------------------------------------
-- Variables
-- ---------------------------------------------------------------------------

/-- A variable begins where its name or pattern does. -/
theorem declarator_keeps (hr : r.Keep) (ctx : Context) : (declarator r ctx).Keeps := by
  refine bind_keeps (binding_keeps hr) fun b hb => ?_
  refine bind_keeps (punctuatorIf_keeps "=") fun _ _ => ite_keeps ?_ ?_
  · refine bind_keeps (hr.expression ctx) fun value hValue => ?_
    refine bind_keeps (other_keeps (rooted_start hb) (rooted_two hb hValue)) fun d hd => ?_
    exact pure_keeps (rooted_pair.mpr ⟨rooted_bool true, hd⟩)
  · refine bind_keeps (other_keeps (rooted_start hb) (rooted_single hb)) fun d hd => ?_
    exact pure_keeps (rooted_pair.mpr ⟨rooted_bool false, hd⟩)

/-- A declaration has one variable or more. -/
theorem variableDeclaration_keeps (hr : r.Keep) (ctx : Context) :
    (variableDeclaration r ctx).Keeps := by
  refine bind_keeps mark_keeps fun start hStart => ?_
  refine bind_keeps (lexeme_keeps splits_word) fun keyword _ => ?_
  refine bind_keeps (declarator_keeps hr ctx) fun first hFirst => ?_
  refine bind_keeps (many_keeps ?_) fun others hOthers => ?_
  · refine bind_keeps (punctuatorIf_keeps ",") fun _ _ => ?_
    exact ite_keeps (some_keeps (declarator_keeps hr ctx)) none_keeps
  · refine bind_keeps (semicolon_keeps _) fun _ _ => ?_
    exact other_keeps hStart (rooted_map_snd (rooted_cons.mpr ⟨hFirst, hOthers⟩))

/-- To look behind the word `let` takes nothing. -/
theorem letDeclares_keeps : letDeclares.Keeps := by
  refine bind_keeps (peek_keeps ?_) fun declares _ => pure_keeps (rooted_bool _)
  refine bind_keeps (word_keeps "let") fun _ _ => ?_
  refine bind_keeps (atStatementEnd_keeps true) fun _ _ => ite_keeps unexpected_keeps ?_
  refine bind_keeps operand_keeps fun next _ => ?_
  exact ite_keeps (pure_keeps (rooted_unit ())) unexpected_keeps

/-- To look for a declaration takes nothing. -/
theorem variablesAhead_keeps : variablesAhead.Keeps := by
  refine bind_keeps operand_keeps fun next _ => ?_
  exact ite_keeps letDeclares_keeps (pure_keeps (rooted_bool _))

-- ---------------------------------------------------------------------------
-- Functions and classes
-- ---------------------------------------------------------------------------

/-- The statement that an expression is begins where the expression does. -/
theorem expressionStatementFrom_keeps {e : SyntaxTree} (he : Rooted e) :
    (expressionStatementFrom e).Keeps := by
  refine bind_keeps (semicolon_keeps true) fun _ _ => ?_
  exact node_keeps (rooted_start he) (takes_of_isFree rfl [e]) (rooted_single he)

/-- An expression may end at the end of a line. -/
theorem expressionStatement_keeps (hr : r.Keep) : (expressionStatement r).Keeps :=
  bind_keeps (expressions_keeps hr _) fun _ he => expressionStatementFrom_keeps he

/-- As an operand a tree is as well formed as before. -/
theorem rooted_ofKind {t : SyntaxTree} (h : Rooted t) : Rooted (t.ofKind (operandKind t.kind)) := by
  unfold operandKind
  split
  · exact h.ofKind rfl
  split
  · exact h.ofKind rfl
  split
  · exact h.ofKind rfl
  · cases t
    exact h

/-- A function or class that has been read is a declaration, or an operand of what follows. -/
theorem declarationFrom_keeps (hr : r.Keep) (named : Bool) {t : SyntaxTree} (ht : Rooted t) :
    (declarationFrom r named t).Keeps := by
  refine bind_keeps operator_keeps fun next _ => ite_keeps (pure_keeps ht) ?_
  refine bind_keeps (expressionsFrom_keeps hr _ (rooted_ofKind ht)) fun e he => ?_
  exact expressionStatementFrom_keeps he

/-- To look for a function takes nothing. -/
theorem functionAhead_keeps : functionAhead.Keeps := by
  refine bind_keeps operand_keeps fun next _ => ite_keeps ?_ (pure_keeps (rooted_bool _))
  refine bind_keeps (peek_keeps ?_) fun follows _ => pure_keeps (rooted_bool _)
  refine bind_keeps (word_keeps "async") fun _ _ => ?_
  refine bind_keeps (atStatementEnd_keeps true) fun _ _ => ?_
  exact ite_keeps unexpected_keeps (word_keeps "function")

/-- The word `async` belongs to the function behind it. -/
theorem functionStatement_keeps (hr : r.Keep) (orFollows : Bool) :
    (functionStatement r orFollows).Keeps := by
  refine bind_keeps mark_keeps fun start hStart => ?_
  refine bind_keeps (wordIf_keeps "async") fun _ _ => ?_
  exact functionFrom_keeps hr hStart true orFollows

/-- A class that ends without a semicolon is made again with its new end. -/
theorem classStatement_keeps (hr : r.Keep) (orFollows : Bool) :
    (classStatement r orFollows).Keeps := by
  refine bind_keeps (classFrom_gives hr true) fun a ⟨ha, hFree⟩ => ?_
  obtain ⟨named, c⟩ := a
  obtain ⟨hNamed, hc⟩ := rooted_pair.mp ha
  refine bind_keeps (omittedSemicolon_keeps orFollows) fun omitted _ => ite_keeps ?_ (pure_keeps ha)
  have hNode := node_keeps (rooted_start hc) (takes_of_isFree hFree c.children) (rooted_children hc)
  exact bind_keeps hNode fun c' hc' => pure_keeps (rooted_pair.mpr ⟨hNamed, hc'⟩)

-- ---------------------------------------------------------------------------
-- Imports and exports
-- ---------------------------------------------------------------------------

/-- A name in an import or export is a string or a word. -/
theorem exchangedName_keeps : exchangedName.Keeps := by
  refine bind_keeps operand_keeps fun t _ => ?_
  split
  case h_1 => exact stringLiteral_keeps
  case h_2 => exact ite_keeps (leaf_keeps readBy_identifier) variableName_keeps

/-- A name with another one behind `as` begins where the first one does. -/
theorem renamed_keeps : renamed.Keeps := by
  refine bind_keeps exchangedName_keeps fun name hName => ?_
  refine bind_keeps (wordIf_keeps "as") fun _ _ => ite_keeps ?_ (pure_keeps hName)
  refine bind_keeps exchangedName_keeps fun newName hNewName => ?_
  exact other_keeps (rooted_start hName) (rooted_two hName hNewName)

/-- Names in braces have commas between them. -/
theorem exchangedNames_keeps : exchangedNames.Keeps := by
  refine bind_keeps mark_keeps fun start hStart => ?_
  refine bind_keeps (punctuator_keeps leftBrace) fun _ _ => ?_
  refine bind_keeps (many_keeps ?_) fun names hNames => ?_
  · refine bind_keeps operand_keeps fun t _ => ite_keeps none_keeps ?_
    refine bind_keeps renamed_keeps fun n hn => ?_
    refine bind_keeps (atPunctuator_keeps rightBrace) fun _ _ => ?_
    exact skip_keeps (punctuator_keeps ",") fun _ => pure_keeps (rooted_some.mpr hn)
  · exact bind_keeps (punctuator_keeps rightBrace) fun _ _ => other_keeps hStart hNames

theorem fromClause_keeps : fromClause.Keeps :=
  bind_keeps (word_keeps "from") fun _ _ => stringLiteral_keeps

theorem importAttributes_keeps (hr : r.Keep) : (importAttributes r).Keeps := by
  refine bind_keeps (wordIf_keeps "with") fun _ _ => ?_
  exact ite_keeps (single_keeps (objectLiteral_keeps hr)) (pure_keeps rooted_nil)

theorem namespaceImport_keeps : namespaceImport.Keeps := by
  refine bind_keeps mark_keeps fun start hStart => ?_
  refine bind_keeps (punctuator_keeps "*") fun _ _ => ?_
  refine bind_keeps (word_keeps "as") fun _ _ => ?_
  exact bind_keeps variableName_keeps fun n hn => other_keeps hStart (rooted_single hn)

theorem importedGroup_keeps : importedGroup.Keeps :=
  bind_keeps operand_keeps fun _ _ => ite_keeps namespaceImport_keeps exchangedNames_keeps

/-- An import takes a name, a group, or a name and a group. -/
theorem importClause_keeps : importClause.Keeps := by
  refine bind_keeps operand_keeps fun t _ => ite_keeps ?_ (single_keeps importedGroup_keeps)
  refine bind_keeps variableName_keeps fun name hName => ?_
  refine bind_keeps (punctuatorIf_keeps ",") fun _ _ => ite_keeps ?_ (pure_keeps (rooted_single hName))
  exact bind_keeps importedGroup_keeps fun g hg => pure_keeps (rooted_two hName hg)

/-- An import without names is the string of its module. -/
theorem importStatement_keeps (hr : r.Keep) : (importStatement r).Keeps := by
  refine bind_keeps mark_keeps fun start hStart => ?_
  refine bind_keeps (word_keeps "import") fun _ _ => ?_
  have hEnd (parts : List SyntaxTree) (hParts : Rooted parts) : (do
      let attributes ← importAttributes r
      semicolon false
      node (.other "import_statement") start (parts ++ attributes) : Parser SyntaxTree).Keeps := by
    refine bind_keeps (importAttributes_keeps hr) fun attributes hAttributes => ?_
    refine bind_keeps (semicolon_keeps false) fun _ _ => ?_
    exact other_keeps hStart (rooted_append.mpr ⟨hParts, hAttributes⟩)
  refine bind_keeps operand_keeps fun t _ => ?_
  split
  case h_1 => exact bind_keeps (single_keeps stringLiteral_keeps) hEnd
  case h_2 =>
    refine bind_keeps importClause_keeps fun clause hClause => ?_
    refine bind_keeps fromClause_keeps fun source hSource => ?_
    exact bind_keeps (pure_keeps (rooted_append.mpr ⟨hClause, rooted_single hSource⟩)) hEnd

theorem importDeclares_keeps : importDeclares.Keeps :=
  bind_keeps second_keeps fun _ _ => pure_keeps (rooted_bool _)

theorem exportDeclares_keeps : exportDeclares.Keeps :=
  bind_keeps second_keeps fun _ _ => pure_keeps (rooted_bool _)

/-- A function or class by default may be the first operand of an expression. -/
theorem exportedDefault_keeps (hr : r.Keep) : (exportedDefault r).Keeps := by
  -- a function or class, or the expression whose first operand it is
  have hWhole (t : Bool × SyntaxTree) (ht : Rooted t) : (do
      if t.1 && !(← operator).continuesExpression then pure t.2
      else
        let e ← leftHandSideFrom r { lineEnds := true } (t.2.ofKind (operandKind t.2.kind))
        let e ← operationsFrom r { lineEnds := true } 0 e
        semicolon true
        pure e : Parser SyntaxTree).Keeps := by
    refine bind_keeps operator_keeps fun next _ => ite_keeps (pure_keeps ht.2) ?_
    refine bind_keeps (leftHandSideFrom_keeps hr _ (rooted_ofKind ht.2)) fun e he => ?_
    refine bind_keeps (operationsFrom_keeps hr _ 0 he) fun e' he' => ?_
    exact bind_keeps (semicolon_keeps true) fun _ _ => pure_keeps he'
  refine bind_keeps functionAhead_keeps fun _ _ => ite_keeps ?_ ?_
  · exact bind_keeps (functionStatement_keeps hr true) hWhole
  refine bind_keeps operand_keeps fun t _ => ite_keeps ?_ ?_
  · exact bind_keeps (classStatement_keeps hr true) hWhole
  · refine bind_keeps (hr.expression _) fun e he => ?_
    exact bind_keeps (semicolon_keeps true) fun _ _ => pure_keeps he

/-- An export is one of six things, told apart by what comes first. -/
theorem exported_keeps (hr : r.Keep) : (exported r).Keeps := by
  refine bind_keeps mark_keeps fun start hStart => ?_
  refine bind_keeps (wordIf_keeps "default") fun _ _ => ite_keeps (exportedDefault_keeps hr) ?_
  refine bind_keeps variablesAhead_keeps fun _ _ => ite_keeps (variableDeclaration_keeps hr _) ?_
  refine bind_keeps functionAhead_keeps fun _ _ => ite_keeps ?_ ?_
  · refine bind_keeps (functionStatement_keeps hr false) fun f hf => ?_
    exact ite_keeps (pure_keeps hf.2) unexpected_keeps
  refine bind_keeps operand_keeps fun t _ => ite_keeps ?_ ?_
  · refine bind_keeps (classStatement_keeps hr false) fun c hc => ?_
    exact ite_keeps (pure_keeps hc.2) unexpected_keeps
  refine bind_keeps (punctuatorIf_keeps "*") fun _ _ => ite_keeps ?_ ?_
  · refine bind_keeps (wordIf_keeps "as") fun _ _ => ?_
    refine join_keeps (single_keeps exchangedName_keeps) (pure_keeps rooted_nil) fun name hName => ?_
    refine bind_keeps fromClause_keeps fun source hSource => ?_
    refine bind_keeps (semicolon_keeps false) fun _ _ => ?_
    exact other_keeps hStart (rooted_append.mpr ⟨hName, rooted_single hSource⟩)
  · refine bind_keeps exchangedNames_keeps fun names hNames => ?_
    refine bind_keeps operator_keeps fun t _ => ?_
    refine join_keeps (single_keeps fromClause_keeps) (pure_keeps rooted_nil) fun source hSource => ?_
    refine bind_keeps (semicolon_keeps false) fun _ _ => ?_
    exact other_keeps hStart (rooted_cons.mpr ⟨hNames, hSource⟩)

theorem exportStatement_keeps (hr : r.Keep) : (exportStatement r).Keeps := by
  refine bind_keeps mark_keeps fun start hStart => ?_
  refine bind_keeps (word_keeps "export") fun _ _ => ?_
  exact bind_keeps (exported_keeps hr) fun e he => other_keeps hStart (rooted_single he)

-- ---------------------------------------------------------------------------
-- Blocks and branches
-- ---------------------------------------------------------------------------

/-- Braces are read as an object literal only if no block can begin there. -/
theorem braced_keeps (hr : r.Keep) : (braced r).Keeps := by
  refine bind_keeps (peek_keeps ?_) fun inside _ => ?_
  · refine bind_keeps (punctuator_keeps leftBrace) fun _ _ => ?_
    refine bind_keeps operand_keeps fun first hFirst => ?_
    exact bind_keeps second_keeps fun next hNext => pure_keeps (rooted_pair.mpr ⟨hFirst, hNext⟩)
  split
  case h_1 => exact unexpected_keeps
  case h_2 =>
    refine ite_keeps (block_keeps hr true) (ite_keeps (block_keeps hr false) ?_)
    refine ite_keeps (block_keeps hr false) ?_
    exact orElse_keeps (expressionStatement_keeps hr) (block_keeps hr false)

/-- A condition has one alternative at most. -/
theorem ifStatement_keeps (hr : r.Keep) : (ifStatement r).Keeps := by
  refine bind_keeps mark_keeps fun start hStart => ?_
  refine bind_keeps (word_keeps "if") fun _ _ => ?_
  refine bind_keeps (parenthesized_keeps hr) fun condition hCondition => ?_
  refine bind_keeps hr.statement fun consequence hConsequence => ?_
  refine bind_keeps (wordIf_keeps "else") fun _ _ => ?_
  refine join_keeps (single_keeps hr.statement) (pure_keeps rooted_nil) fun other hOther => ?_
  exact other_keeps hStart (rooted_cons.mpr ⟨hCondition, rooted_cons.mpr ⟨hConsequence, hOther⟩⟩)

/-- The statements of a branch end before the next one. -/
theorem branchBody_keeps (hr : r.Keep) : (branchBody r).Keeps := by
  refine many_keeps (bind_keeps operand_keeps fun next _ => ?_)
  exact ite_keeps none_keeps (some_keeps hr.statement)

/-- A branch has a value, or is the default. -/
theorem branch_keeps (hr : r.Keep) : (branch r).Keeps := by
  refine bind_keeps mark_keeps fun start hStart => ?_
  refine bind_keeps (wordIf_keeps "default") fun _ _ => ite_keeps ?_ ?_
  · refine bind_keeps (punctuator_keeps ":") fun _ _ => ?_
    exact bind_keeps (branchBody_keeps hr) fun body hBody => other_keeps hStart hBody
  · refine bind_keeps (word_keeps "case") fun _ _ => ?_
    refine bind_keeps (expressions_keeps hr {}) fun value hValue => ?_
    refine bind_keeps (punctuator_keeps ":") fun _ _ => ?_
    refine bind_keeps (branchBody_keeps hr) fun body hBody => ?_
    exact other_keeps hStart (rooted_cons.mpr ⟨hValue, hBody⟩)

/-- A choice is made of branches in braces. -/
theorem switchStatement_keeps (hr : r.Keep) : (switchStatement r).Keeps := by
  refine bind_keeps mark_keeps fun start hStart => ?_
  refine bind_keeps (word_keeps "switch") fun _ _ => ?_
  refine bind_keeps (parenthesized_keeps hr) fun value hValue => ?_
  refine bind_keeps (punctuator_keeps leftBrace) fun _ _ => ?_
  refine bind_keeps (many_keeps ?_) fun branches hBranches => ?_
  · refine bind_keeps operand_keeps fun t _ => ?_
    exact ite_keeps none_keeps (some_keeps (branch_keeps hr))
  · refine bind_keeps (punctuator_keeps rightBrace) fun _ _ => ?_
    exact other_keeps hStart (rooted_cons.mpr ⟨hValue, hBranches⟩)

/-- The handler and the block at the end may both be missing. -/
theorem tryStatement_keeps (hr : r.Keep) : (tryStatement r).Keeps := by
  refine bind_keeps mark_keeps fun start hStart => ?_
  refine bind_keeps (word_keeps "try") fun _ _ => ?_
  refine bind_keeps (block_keeps hr false) fun body hBody => ?_
  have hFinally (handler : List SyntaxTree) (hHandler : Rooted handler) : (do
      let finalizer ← if ← wordIf "finally" then single (block r false) else pure []
      node (.other "try_statement") start (body :: handler ++ finalizer) :
        Parser SyntaxTree).Keeps := by
    refine bind_keeps (wordIf_keeps "finally") fun _ _ => ?_
    refine join_keeps (single_keeps (block_keeps hr false)) (pure_keeps rooted_nil) fun last hLast => ?_
    exact other_keeps hStart (rooted_append.mpr ⟨rooted_cons.mpr ⟨hBody, hHandler⟩, hLast⟩)
  refine bind_keeps (wordIf_keeps "catch") fun _ _ => ?_
  refine ite_keeps ?_ (bind_keeps (pure_keeps rooted_nil) hFinally)
  refine bind_keeps (punctuatorIf_keeps "(") fun _ _ => ite_keeps ?_ ?_
  · refine bind_keeps (binding_keeps hr) fun b hb => ?_
    refine bind_keeps (punctuator_keeps ")") fun _ _ => ?_
    refine bind_keeps (pure_keeps (rooted_single hb)) fun caught hCaught => ?_
    refine bind_keeps (block_keeps hr false) fun handling hHandling => ?_
    exact bind_keeps (pure_keeps (rooted_append.mpr ⟨hCaught, rooted_single hHandling⟩)) hFinally
  · refine bind_keeps (pure_keeps rooted_nil) fun caught hCaught => ?_
    refine bind_keeps (block_keeps hr false) fun handling hHandling => ?_
    exact bind_keeps (pure_keeps (rooted_append.mpr ⟨hCaught, rooted_single hHandling⟩)) hFinally

-- ---------------------------------------------------------------------------
-- Loops
-- ---------------------------------------------------------------------------

/-- The header of a loop over elements has a pattern and the value that it runs over. -/
theorem eachHeader_keeps (hr : r.Keep) : (eachHeader r).Keeps := by
  have hDeclared : (do
      let keyword ← lexeme word?
      let b ← binding r
      if keyword = ("var" : Text) then
        if ← punctuatorIf "=" then
          let _ ← r.expression { inAllowed := false }
          pure b
        else pure b
      else
        let _ ← omittedSemicolon false
        pure b : Parser SyntaxTree).Keeps := by
    refine bind_keeps (lexeme_keeps splits_word) fun keyword _ => ?_
    refine bind_keeps (binding_keeps hr) fun b hb => ite_keeps ?_ ?_
    · refine bind_keeps (punctuatorIf_keeps "=") fun _ _ => ite_keeps ?_ (pure_keeps hb)
      exact bind_keeps (hr.expression _) fun _ _ => pure_keeps hb
    · exact bind_keeps (omittedSemicolon_keeps false) fun _ _ => pure_keeps hb
  have hPattern := orElse_keeps hr.pattern (parenthesized_keeps hr)
  refine bind_keeps variablesAhead_keeps fun _ _ => ?_
  refine join_keeps hDeclared hPattern fun element hElement => ?_
  refine bind_keeps (wordIf_keeps "in") fun _ _ => skip_keeps (word_keeps "of") fun _ => ?_
  refine bind_keeps (expressions_keeps hr {}) fun value hValue => ?_
  refine bind_keeps (punctuator_keeps ")") fun _ _ => ?_
  exact pure_keeps (rooted_pair.mpr ⟨rooted_string _, rooted_two hElement hValue⟩)

/-- A clause in the header of a loop may be empty. -/
theorem clause_keeps (hr : r.Keep) : (clause r).Keeps := by
  refine bind_keeps (punctuatorIf_keeps ";") fun _ _ => ite_keeps (pure_keeps rooted_nil) ?_
  refine bind_keeps (expressions_keeps hr {}) fun e he => ?_
  exact bind_keeps (punctuator_keeps ";") fun _ _ => pure_keeps (rooted_single he)

/-- The header of a loop that counts has three clauses. -/
theorem countingHeader_keeps (hr : r.Keep) : (countingHeader r).Keeps := by
  have hVariables := single_keeps (variableDeclaration_keeps hr {})
  have hStep := single_keeps (expressions_keeps hr {})
  refine bind_keeps variablesAhead_keeps fun _ _ => ?_
  refine join_keeps hVariables (clause_keeps hr) fun initial hInitial => ?_
  refine bind_keeps (clause_keeps hr) fun condition hCondition => ?_
  refine bind_keeps operand_keeps fun t _ => ?_
  refine join_keeps (pure_keeps rooted_nil) hStep fun step hStep => ?_
  refine bind_keeps (punctuator_keeps ")") fun _ _ => ?_
  refine pure_keeps (rooted_pair.mpr ⟨rooted_string _, ?_⟩)
  exact rooted_append.mpr ⟨rooted_append.mpr ⟨hInitial, hCondition⟩, hStep⟩

/-- Which loop it is depends on its header. -/
theorem forStatement_keeps (hr : r.Keep) : (forStatement r).Keeps := by
  have hHeader := orElse_keeps (eachHeader_keeps hr) (countingHeader_keeps hr)
  refine bind_keeps mark_keeps fun start hStart => ?_
  refine bind_keeps (word_keeps "for") fun _ _ => ?_
  refine bind_keeps (wordIf_keeps "await") fun awaits _ => ?_
  refine bind_keeps (punctuator_keeps "(") fun _ _ => ?_
  refine join_keeps (eachHeader_keeps hr) hHeader fun header hHeader => ?_
  refine bind_keeps hr.statement fun body hBody => ?_
  exact other_keeps hStart (rooted_append.mpr ⟨hHeader.2, rooted_single hBody⟩)

/-- A loop with its condition in front. -/
theorem whileStatement_keeps (hr : r.Keep) : (whileStatement r).Keeps := by
  refine bind_keeps mark_keeps fun start hStart => ?_
  refine bind_keeps (word_keeps "while") fun _ _ => ?_
  refine bind_keeps (parenthesized_keeps hr) fun condition hCondition => ?_
  exact bind_keeps hr.statement fun body hBody => other_keeps hStart (rooted_two hCondition hBody)

/-- A loop with its condition behind, and perhaps a semicolon after it. -/
theorem doStatement_keeps (hr : r.Keep) : (doStatement r).Keeps := by
  refine bind_keeps mark_keeps fun start hStart => ?_
  refine bind_keeps (word_keeps "do") fun _ _ => ?_
  refine bind_keeps hr.statement fun body hBody => ?_
  refine bind_keeps (word_keeps "while") fun _ _ => ?_
  refine bind_keeps (parenthesized_keeps hr) fun condition hCondition => ?_
  have hNode : (node (.other "do_statement") start [body, condition]).Keeps :=
    other_keeps hStart (rooted_two hBody hCondition)
  refine bind_keeps (omittedSemicolon_keeps false) fun _ _ => ite_keeps hNode ?_
  exact bind_keeps (punctuatorIf_keeps ";") fun _ _ => hNode

theorem withStatement_keeps (hr : r.Keep) : (withStatement r).Keeps := by
  refine bind_keeps mark_keeps fun start hStart => ?_
  refine bind_keeps (word_keeps "with") fun _ _ => ?_
  refine bind_keeps (parenthesized_keeps hr) fun object hObject => ?_
  exact bind_keeps hr.statement fun body hBody => other_keeps hStart (rooted_two hObject hBody)

-- ---------------------------------------------------------------------------
-- Jumps
-- ---------------------------------------------------------------------------

/-- A jump ends with its word if a statement may end there. -/
theorem jump_keeps (keyword kind : String) {part : Parser SyntaxTree} (hPart : part.Keeps)
    (orFollows : Bool) : (jump keyword kind part orFollows).Keeps := by
  refine bind_keeps mark_keeps fun start hStart => ?_
  have hBare : (node (.other kind) start []).Keeps := other_keeps hStart rooted_nil
  refine bind_keeps (word_keeps keyword) fun _ _ => ?_
  refine bind_keeps (omittedSemicolon_keeps false) fun _ _ => ite_keeps hBare ?_
  refine bind_keeps (punctuatorIf_keeps ";") fun _ _ => ite_keeps hBare ?_
  refine bind_keeps hPart fun p hp => ?_
  exact bind_keeps (semicolon_keeps orFollows) fun _ _ => other_keeps hStart (rooted_single hp)

theorem throwStatement_keeps (hr : r.Keep) : (throwStatement r).Keeps := by
  refine bind_keeps mark_keeps fun start hStart => ?_
  refine bind_keeps (word_keeps "throw") fun _ _ => ?_
  refine bind_keeps (expressions_keeps hr _) fun e he => ?_
  exact bind_keeps (semicolon_keeps true) fun _ _ => other_keeps hStart (rooted_single he)

theorem debuggerStatement_keeps : debuggerStatement.Keeps := by
  refine bind_keeps mark_keeps fun start hStart => ?_
  refine bind_keeps (word_keeps "debugger") fun _ _ => ?_
  exact bind_keeps (semicolon_keeps false) fun _ _ => other_keeps hStart rooted_nil

/-- A labeled statement begins where its label does. -/
theorem labeledStatement_keeps (hr : r.Keep) : (labeledStatement r).Keeps := by
  refine bind_keeps variableName_keeps fun label hLabel => ?_
  refine bind_keeps (punctuator_keeps ":") fun _ _ => ?_
  refine bind_keeps hr.statement fun body hBody => ?_
  exact other_keeps (rooted_start hLabel) (rooted_two hLabel hBody)

-- ---------------------------------------------------------------------------
-- All statements
-- ---------------------------------------------------------------------------

/-- All statements in the table of keywords keep to the text. -/
theorem keywordStatements_keep (hr : r.Keep) :
    ∀ s ∈ keywordStatements r, s.2.Keeps := by
  simp only [keywordStatements, List.forall_mem_cons]
  exact ⟨ifStatement_keeps hr, switchStatement_keeps hr, tryStatement_keeps hr,
    forStatement_keeps hr, whileStatement_keeps hr, doStatement_keeps hr, withStatement_keeps hr,
    jump_keeps _ _ (expressions_keeps hr _) _, jump_keeps _ _ variableName_keeps _,
    jump_keeps _ _ variableName_keeps _, throwStatement_keeps hr, debuggerStatement_keeps, nofun⟩

/-- A statement that begins with a word is looked up in the table, and is one of the others if it is
not there. -/
theorem wordStatement_keeps (hr : r.Keep) (w : Text) : (wordStatement r w).Keeps := by
  unfold wordStatement
  split
  case h_1 s hLookup =>
    obtain ⟨before, after, hSplit, -⟩ := List.lookup_eq_some_iff.mp hLookup
    refine keywordStatements_keep hr (String.ofList w, s) ?_
    rw [hSplit]
    exact List.mem_append_right before List.mem_cons_self
  case h_2 =>
    refine bind_keeps variablesAhead_keeps fun _ _ => ite_keeps (variableDeclaration_keeps hr _) ?_
    refine bind_keeps functionAhead_keeps fun _ _ => ite_keeps ?_ (ite_keeps ?_ ?_)
    · refine bind_keeps (functionStatement_keeps hr true) fun f hf => ?_
      exact declarationFrom_keeps hr f.1 hf.2
    · refine bind_keeps (classStatement_keeps hr true) fun c hc => ?_
      exact declarationFrom_keeps hr c.1 hc.2
    refine bind_keeps importDeclares_keeps fun _ _ => ite_keeps (importStatement_keeps hr) ?_
    refine bind_keeps exportDeclares_keeps fun _ _ => ite_keeps (exportStatement_keeps hr) ?_
    refine bind_keeps second_keeps fun t _ => ?_
    exact ite_keeps (labeledStatement_keeps hr) (expressionStatement_keeps hr)

/-- A statement, by its first token. -/
theorem statement_keeps (hr : r.Keep) : (statement r).Keeps := by
  refine bind_keeps mark_keeps fun start hStart => ?_
  refine bind_keeps operand_keeps fun t _ => ?_
  split
  case h_1 w _ => exact wordStatement_keeps hr w
  case h_2 =>
    refine ite_keeps (braced_keeps hr) (ite_keeps ?_ (expressionStatement_keeps hr))
    exact bind_keeps (punctuator_keeps ";") fun _ _ => other_keeps hStart rooted_nil

-- ---------------------------------------------------------------------------
-- Programs
-- ---------------------------------------------------------------------------

/-- Rules over rules that keep to the text do so too, which is the step of the induction. -/
theorem rulesOver_keep (hr : r.Keep) : (rulesOver r).Keep where
  climb := climb_keeps hr
  unary := unary_keeps hr
  creation := creation_keeps hr
  pattern := pattern_keeps hr
  statement := statement_keeps hr

/-- Rules that take nothing keep to the text. -/
theorem exhausted_keep : Rules.exhausted.Keep where
  climb _ _ := unexpected_keeps
  unary _ := unexpected_keeps
  creation := unexpected_keeps
  pattern := unexpected_keeps
  statement := unexpected_keeps

/-- The rules of every depth keep to the source text. -/
theorem rules_keep (depth : Nat) : (rules depth).Keep := by
  induction depth with
  | zero => exact exhausted_keep
  | succ depth ih => exact rulesOver_keep ih

/-- The line that names an interpreter is a leaf. -/
theorem hashBangLine_keeps : hashBangLine.Keeps := by
  refine bind_keeps (peek_keeps (lexeme_keeps splits_hashBang)) fun line _ => ?_
  refine ite_keeps (single_keeps (leaf_keeps ?_)) (pure_keeps rooted_nil)
  exact readBy_other splits_hashBang _

/-- Where a statement fails is of no account. -/
theorem statementFrom_keeps (hr : r.Keep) (finish : Nat) : (statementFrom r finish).Keeps := by
  intro c hc t c' hResult
  unfold statementFrom at hResult
  split at hResult
  case h_1 s hStatement =>
    obtain rfl := Except.ok.inj hResult
    exact hr.statement c hc t c' hStatement
  case h_2 =>
    split at hResult
    · exact nomatch hResult
    · exact nomatch hResult

/-- A program is made of statements behind the line that names an interpreter. -/
theorem program_keeps (hr : r.Keep) (finish : Nat) : (program r finish).Keeps := by
  refine bind_keeps hashBangLine_keeps fun first hFirst => ?_
  refine bind_keeps (many_keeps ?_) fun statements hStatements => ?_
  · refine bind_keeps operand_keeps fun t _ => ?_
    exact ite_keeps none_keeps (some_keeps (statementFrom_keeps hr finish))
  · exact pure_keeps (rooted_append.mpr ⟨hFirst, hStatements⟩)

end Grammar

namespace SyntaxTree

/-- The tree of a text that cannot be read has an error. -/
theorem hasError_failed (l : SyntaxLabel) (start stop : Nat) (hFlag : l.flag = none) :
    (node l [node { kind := .error, start, stop } []]).hasError = true := by
  simp [hasError, anyError, isFault, hFlag, SyntaxTree.kind, SyntaxTree.label]

/-- The tree of a source text without syntax errors is well formed. -/
theorem wellFormed_ofSource {source : Text} (h : (ofSource source).hasError = false) :
    (ofSource source).WellFormed source := by
  let _ : Grammar.Source := ⟨source⟩
  unfold ofSource at h ⊢
  dsimp only at h ⊢
  split at h
  case h_1 statements c hProgram =>
    have hRules := Grammar.rules_keep (Grammar.depthBound source)
    have hStart : Grammar.Cursor.Stands { rest := source } := Grammar.Cursor.Stands.start
    obtain ⟨hStatements, hc⟩ :=
      Grammar.program_keeps hRules (Text.byteLength source) _ hStart _ _ hProgram
    have hComments := (hc.passTrivia true).comments
    refine WellFormed.weave (.node (.of_isFree ⟨[], source, rfl, rfl⟩ rfl) hStatements) ?_
    exact fun comment hComment => hComments comment (List.mem_reverse.mp hComment)
  case h_2 e _ =>
    rw [hasError_failed _ _ _ rfl] at h
    exact nomatch h

/-- A text in which no line is reported has a well-formed tree. -/
theorem wellFormed_of_errorLine? {source : Text} (h : (ofSource source).errorLine? source = none) :
    (ofSource source).WellFormed source := by
  refine wellFormed_ofSource ?_
  unfold errorLine? at h
  split at h
  · exact nomatch h
  · exact Bool.eq_false_iff.mpr ‹_›

/-- Well-formed trees have well-formed children, so the property passes down a tree. -/
theorem hereditary_wellFormed (source : Text) : Hereditary (WellFormed source) :=
  fun _ h => h.children

end SyntaxTree

end ClassTags
