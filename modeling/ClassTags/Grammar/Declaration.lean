import ClassTags.Grammar.Operation

/-!
# Declarations

Variables, functions and classes where a statement may stand, and what a module imports and exports.
-/

namespace ClassTags.Grammar

open ClassTags.Grammar.Parser

/-! ## Variables -/

/-- A variable with an optional first value. Gives whether it has one. -/
def declarator (r : Rules) (ctx : Context) : Parser (Bool × SyntaxTree) := do
  let b ← binding r
  if ← punctuatorIf "=" then
    let value ← r.expression ctx
    let d ← node (.other "variable_declarator") b.start [b, value]
    pure (true, d)
  else
    let d ← node (.other "variable_declarator") b.start [b]
    pure (false, d)

/-- The declaration of variables, with the semicolon at its end. -/
def variableDeclaration (r : Rules) (ctx : Context) : Parser SyntaxTree := do
  let start ← mark
  let keyword ← lexeme word?
  let first ← declarator r ctx
  let others ← many do
    if ← punctuatorIf "," then
      let d ← declarator r ctx
      pure (some d)
    else pure none
  semicolon ((first :: others).getLast?.elim false (·.1))
  let kind := if keyword = ("var" : Text) then "variable_declaration" else "lexical_declaration"
  node (.other kind) start ((first :: others).map (·.2))

/-- Whether the word `let` at the cursor declares a variable, and is not a name itself. -/
def letDeclares : Parser Bool := do
  let declares ← peek do
    word "let"
    if ← atStatementEnd true then unexpected
    else
      let next ← operand
      if next.isName || next.is leftBrace || next.is "[" then pure () else unexpected
  pure declares.isSome

/-- Whether variables are declared at the cursor. -/
def variablesAhead : Parser Bool := do
  let next ← operand
  if next.isWord "let" then letDeclares else pure (next.isWord "var" || next.isWord "const")

/-! ## Functions and classes -/

/-- The operators that cannot begin a statement. Before one of them a function or a class is an
operand. -/
def continuations : List Text := List.map String.toList [
  ".", "?.", ",", "?", "*", "%", "**", "&", "&&", "|", "||", "^", "==", "===", "!=", "!==", "??", ">",
  ">=", "<=", "<<", ">>", ">>>"]

/-- Whether a token can only continue an expression. -/
def Token.continuesExpression : Token → Bool
  | .punctuator p => continuations.contains p
  | t => t.isWord "in" || t.isWord "instanceof"

/-- The statement that an expression is, with the semicolon at its end. -/
def expressionStatementFrom (e : SyntaxTree) : Parser SyntaxTree := do
  semicolon true
  node .expressionStatement e.start [e]

/-- A statement that is an expression. -/
def expressionStatement (r : Rules) : Parser SyntaxTree := do
  let e ← expressions r { lineEnds := true }
  expressionStatementFrom e

/-- The form that a function or class takes as an operand. -/
def operandKind (kind : SyntaxKind) : SyntaxKind :=
  if kind == .other "function_declaration" then .functionExpression
  else if kind == .other "generator_function_declaration" then .generatorFunction
  else if kind == .other "class_declaration" then .other "class"
  else kind

/-- The declaration of a function or class that has been read, or the statement whose first operand
it is. -/
def declarationFrom (r : Rules) (named : Bool) (t : SyntaxTree) : Parser SyntaxTree := do
  if named && !(← operator).continuesExpression then pure t
  else
    let e ← expressionsFrom r { lineEnds := true } (t.ofKind (operandKind t.kind))
    expressionStatementFrom e

/-- Whether a function begins at the cursor, `async` included. -/
def functionAhead : Parser Bool := do
  let next ← operand
  if next.isWord "async" then
    let follows ← peek do
      word "async"
      if ← atStatementEnd true then unexpected else word "function"
    pure follows.isSome
  else pure (next.isWord "function")

/-- A function where a statement may stand. Gives whether it has a name. -/
def functionStatement (r : Rules) (orFollows : Bool) : Parser (Bool × SyntaxTree) := do
  let start ← mark
  let _ ← wordIf "async"
  functionFrom r start true orFollows

/-- A class where a statement may stand. Gives whether it has a name. -/
def classStatement (r : Rules) (orFollows : Bool) : Parser (Bool × SyntaxTree) := do
  let (named, c) ← classFrom r true
  if named && (← omittedSemicolon orFollows) then
    let c' ← node c.kind c.start c.children
    pure (named, c')
  else pure (named, c)

/-! ## Imports and exports -/

/-- The name of what is imported or exported: a word or a string. -/
def exchangedName : Parser SyntaxTree := do
  match ← operand with
  | .quote _ => stringLiteral
  | t => if t.isWord "default" then leaf .identifier word? else variableName

/-- A name, and behind `as` another one. -/
def renamed : Parser SyntaxTree := do
  let name ← exchangedName
  if ← wordIf "as" then
    let newName ← exchangedName
    node (.other "specifier") name.start [name, newName]
  else pure name

/-- Names in braces. -/
def exchangedNames : Parser SyntaxTree := do
  let start ← mark
  punctuator leftBrace
  let names ← many do
    if (← operand).is rightBrace then pure none
    else
      let n ← renamed
      if ← atPunctuator rightBrace then pure () else punctuator ","
      pure (some n)
  punctuator rightBrace
  node (.other "named_exchange") start names

/-- The module from which something is taken. -/
def fromClause : Parser SyntaxTree := do
  word "from"
  stringLiteral

/-- The attributes of an import. -/
def importAttributes (r : Rules) : Parser (List SyntaxTree) := do
  if ← wordIf "with" then single (objectLiteral r) else pure []

/-- Everything of a module, under a name. -/
def namespaceImport : Parser SyntaxTree := do
  let start ← mark
  punctuator "*"
  word "as"
  let name ← variableName
  node (.other "namespace_import") start [name]

/-- What is imported in braces or under the name of a namespace. -/
def importedGroup : Parser SyntaxTree := do
  if (← operand).is "*" then namespaceImport else exchangedNames

/-- What an import takes from a module. -/
def importClause : Parser (List SyntaxTree) := do
  if (← operand).isName then
    let name ← variableName
    if ← punctuatorIf "," then
      let group ← importedGroup
      pure [name, group]
    else pure [name]
  else single importedGroup

/-- A statement that imports. -/
def importStatement (r : Rules) : Parser SyntaxTree := do
  let start ← mark
  word "import"
  let parts ← do
    match ← operand with
    | .quote _ => single stringLiteral
    | _ =>
      let clause ← importClause
      let source ← fromClause
      pure (clause ++ [source])
  let attributes ← importAttributes r
  semicolon false
  node (.other "import_statement") start (parts ++ attributes)

/-- Whether the word `import` at the cursor begins a statement of its own. -/
def importDeclares : Parser Bool := do
  let next ← second
  pure !(next.is "(" || next.is ".")

/-- Whether the word `export` at the cursor is not the name of a variable. -/
def exportDeclares : Parser Bool := do
  let next ← second
  pure (next.is "*" || next.is leftBrace || ["default", "var", "let", "const", "function", "class",
    "async"].any fun w => next.isWord w)

/-- What follows the words `export default`. -/
def exportedDefault (r : Rules) : Parser SyntaxTree := do
  let whole (t : Bool × SyntaxTree) : Parser SyntaxTree := do
    if t.1 && !(← operator).continuesExpression then pure t.2
    else
      let e ← leftHandSideFrom r { lineEnds := true } (t.2.ofKind (operandKind t.2.kind))
      let e ← operationsFrom r { lineEnds := true } 0 e
      semicolon true
      pure e
  if ← functionAhead then
    let f ← functionStatement r true
    whole f
  else if (← operand).isWord "class" then
    let c ← classStatement r true
    whole c
  else
    let e ← r.expression { lineEnds := true }
    semicolon true
    pure e

/-- What a statement exports. -/
def exported (r : Rules) : Parser SyntaxTree := do
  let start ← mark
  if ← wordIf "default" then exportedDefault r
  else if ← variablesAhead then variableDeclaration r { lineEnds := true }
  else if ← functionAhead then
    let (named, f) ← functionStatement r false
    if named then pure f else unexpected
  else if (← operand).isWord "class" then
    let (named, c) ← classStatement r false
    if named then pure c else unexpected
  else if ← punctuatorIf "*" then
    let newName ← if ← wordIf "as" then single exchangedName else pure []
    let source ← fromClause
    semicolon false
    node (.other "namespace_export") start (newName ++ [source])
  else
    let names ← exchangedNames
    let source ← if (← operator).isWord "from" then single fromClause else pure []
    semicolon false
    node (.other "export_clause") start (names :: source)

/-- A statement that exports. -/
def exportStatement (r : Rules) : Parser SyntaxTree := do
  let start ← mark
  word "export"
  let e ← exported r
  node (.other "export_statement") start [e]

end ClassTags.Grammar
