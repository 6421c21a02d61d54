import ClassTags.Grammar.Rules

/-!
# Functions, objects and classes

Everything with a body in braces that can be part of an expression.
-/

namespace ClassTags.Grammar

open ClassTags.Grammar.Parser

/-! ## Functions -/

/-- A pattern with an optional value to fall back to. -/
def defaulted (r : Rules) : Parser SyntaxTree := do
  let p ← r.pattern
  if ← punctuatorIf "=" then
    let value ← r.expression {}
    node (.other "assignment_pattern") p.start [p, value]
  else pure p

/-- The parameters of a function in parentheses. -/
def parameters (r : Rules) : Parser SyntaxTree := do
  let start ← mark
  punctuator "("
  let items ← many do
    if (← operand).is ")" then pure none
    else
      let p ← defaulted r
      if ← atPunctuator ")" then pure () else punctuator ","
      pure (some p)
  punctuator ")"
  node (.other "formal_parameters") start items

/-- Statements in braces. A block may end like a statement without a semicolon, and then spans the
comments before its end; `orFollows` says whether an operator could stand behind it. -/
def block (r : Rules) (orFollows : Bool) : Parser SyntaxTree := do
  let start ← mark
  punctuator leftBrace
  let statements ← many do
    if (← operand).is rightBrace then pure none
    else
      let s ← r.statement
      pure (some s)
  punctuator rightBrace
  let _ ← omittedSemicolon orFollows
  node (.other "statement_block") start statements

/-- A function after the word `async`, if that came first: with a name or without. Gives whether
it has a name. -/
def functionFrom (r : Rules) (start : Nat) (declares orFollows : Bool) :
    Parser (Bool × SyntaxTree) := do
  word "function"
  let generator ← punctuatorIf "*"
  let name ← if (← operand).isName then single variableName else pure []
  let params ← parameters r
  let body ← block r orFollows
  let named := !name.isEmpty
  let kind : SyntaxKind :=
    match declares && named, generator with
    | true, true => .other "generator_function_declaration"
    | true, false => .other "function_declaration"
    | false, true => .generatorFunction
    | false, false => .functionExpression
  let f ← node kind start
    (name.map (·.inField .name) ++ [params.inField .parameters, body])
  pure (named, f)

/-- The words that always begin a statement or an expression where one may stand. -/
def leadingWords : List Text := List.map String.toList [
  "await", "break", "class", "const", "continue", "debugger", "delete", "do", "false", "for",
  "function", "if", "import", "new", "null", "return", "super", "switch", "this", "throw", "true",
  "try", "typeof", "undefined", "var", "void", "while", "with", "yield"]

/-- Whether a token is a word that always begins a statement or an expression. -/
def Token.isLeading : Token → Bool
  | .word w => leadingWords.contains w
  | _ => false

/-- Whether the brace at the cursor can only begin a block, since the word behind it begins a
statement and so is no name of a property. -/
def blockAhead : Parser Bool := do
  let first ← peek do
    punctuator leftBrace
    operand
  pure (first.any Token.isLeading)

/-- The body of an arrow function. What stands in braces is a block if it can be one. -/
def arrowBody (r : Rules) (ctx : Context) : Parser SyntaxTree := do
  if ← blockAhead then block r true
  else if (← operand).is leftBrace then orElse (block r true) (r.expression ctx)
  else r.expression ctx

/-- An arrow function after its parameters, which play the part `f`. -/
def arrowFrom (r : Rules) (ctx : Context) (start : Nat) (f : SyntaxField) (params : SyntaxTree) :
    Parser SyntaxTree := do
  punctuator "=>"
  let body ← arrowBody r ctx
  node .arrowFunction start [params.inField f, body]

/-! ## Objects -/

/-- Whether a token can begin the name of a property. -/
def Token.beginsPropertyName : Token → Bool
  | .word _ | .numeral | .quote _ | .privateName => true
  | t => t.is "["

/-- Takes a word that modifies the property after it. Before anything else it is itself a name. -/
def modifier (w : Text) (starAllowed : Bool) : Parser Bool := do
  if (← operand).isWord w then
    let next ← second
    if next.beginsPropertyName || (starAllowed && next.is "*") then wordIf w else pure false
  else pure false

/-- Takes the words and the star that may stand before the name of a method. -/
def modifiers : Parser Bool := do
  let isStatic ← modifier "static" true
  let isAsync ← modifier "async" true
  let isGetter ← modifier "get" false
  let isSetter ← if isGetter then pure false else modifier "set" false
  let isGenerator ← if isGetter || isSetter then pure false else punctuatorIf "*"
  pure (isStatic || isAsync || isGetter || isSetter || isGenerator)

/-- A method after its name. -/
def methodFrom (r : Rules) (start : Nat) (name : SyntaxTree) : Parser SyntaxTree := do
  let params ← parameters r
  let body ← block r false
  node .methodDefinition start [name.inField .name, params.inField .parameters, body]

/-- An entry of an object literal. -/
def entry (r : Rules) : Parser SyntaxTree := do
  let start ← mark
  if (← operand).is "..." then spreadable r
  else
    let modified ← modifiers
    let name ← propertyName r
    let next ← operator
    if next.is "(" then methodFrom r start name
    else if modified then unexpected
    else if next.is ":" then
      punctuator ":"
      let value ← r.expression {}
      node .pair start [name.inField .key, value.inField .value]
    else if name.kind == .propertyIdentifier then node .shorthandPropertyIdentifier start []
    else unexpected

/-- An object literal. -/
def objectLiteral (r : Rules) : Parser SyntaxTree := do
  let start ← mark
  punctuator leftBrace
  let entries ← itemsUntil rightBrace (entry r)
  node .object start entries

/-- An array literal. -/
def arrayLiteral (r : Rules) : Parser SyntaxTree := do
  let start ← mark
  punctuator "["
  let elements ← itemsUntil "]" (spreadable r)
  node .array start elements

/-! ## Classes -/

/-- A member of a class: a method, a field or a static block. -/
def classMember (r : Rules) : Parser SyntaxTree := do
  let start ← mark
  if (← operand).isWord "static" && (← second).is leftBrace then
    word "static"
    let body ← block r false
    node (.other "class_static_block") start [body]
  else
    let _ ← modifiers
    let name ← propertyName r
    let next ← operator
    if next.is "(" then
      let m ← methodFrom r start name
      let _ ← punctuatorIf ";"
      pure m
    else if next.is "=" then
      punctuator "="
      let value ← r.expression { lineEnds := true }
      let field ← node (.other "field_definition") start [name, value]
      semicolon true
      pure field
    else
      let field ← node (.other "field_definition") start [name]
      semicolon false
      pure field

/-- The members of a class in braces. -/
def classBody (r : Rules) : Parser SyntaxTree := do
  let start ← mark
  punctuator leftBrace
  let members ← many do
    let _ ← many do
      if ← punctuatorIf ";" then pure (some ()) else pure none
    if (← operand).is rightBrace then pure none
    else
      let m ← classMember r
      pure (some m)
  punctuator rightBrace
  node (.other "class_body") start members

/-- A class, with a name or without. Gives whether it has a name. -/
def classFrom (r : Rules) (declares : Bool) : Parser (Bool × SyntaxTree) := do
  let start ← mark
  word "class"
  let name ← if (← operand).isName then single variableName else pure []
  let heritage ←
    if ← wordIf "extends" then single (r.expression {}) else pure []
  let body ← classBody r
  let named := !name.isEmpty
  let kind : SyntaxKind := if declares && named then .other "class_declaration" else .other "class"
  let c ← node kind start (name ++ heritage ++ [body])
  pure (named, c)

end ClassTags.Grammar
