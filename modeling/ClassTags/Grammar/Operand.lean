import ClassTags.Grammar.Pattern

/-!
# Operands

Expressions without binary operators: literals and names, what points, brackets and parentheses
append to them, `new`, the unary operators, and assignments, which take everything to their right.
-/

namespace ClassTags.Grammar

open ClassTags.Grammar.Parser

/-- A word that is an expression of a form of its own. -/
def wordExpression : Parser SyntaxTree := do
  match ← operand with
  | .word w => leaf (.other w) word?
  | _ => unexpected

/-- An expression that begins with `async`: a function, an arrow function or the name `async`. -/
def asyncOperand (r : Rules) (ctx : Context) : Parser SyntaxTree := do
  let name ← leaf .identifier word?
  if ctx.lineEnds && (← atStatementEnd true) then pure name
  else
    let next ← operator
    if next.isWord "function" then
      let (_, f) ← functionFrom r name.start false true
      pure f
    else if next.is "=>" then arrowFrom r ctx name.start .parameter name
    else if next.isName && (← second).is "=>" then
      let param ← variableName
      arrowFrom r ctx name.start .parameter param
    else if next.is "(" then
      let header : Parser (Option SyntaxTree) := do
        let params ← parameters r
        if (← operator).is "=>" then pure (some params) else unexpected
      match ← orElse header (pure none) with
      | some params => arrowFrom r ctx name.start .parameters params
      | none => pure name
    else pure name

/-- An expression that begins with `import`: a property of the module, or what is called to load
another one. -/
def importOperand : Parser SyntaxTree := do
  let start ← mark
  word "import"
  let next ← operator
  if next.is "." then
    punctuator "."
    word "meta"
    node (.other "meta_property") start []
  else if next.is "(" then node (.other "import") start []
  else unexpected

/-- An expression in parentheses, or an arrow function whose parameters they are. -/
def parenthesizedOrArrow (r : Rules) (ctx : Context) : Parser SyntaxTree := do
  let start ← mark
  let plain : Parser SyntaxTree := do
    let e ← parenthesized r
    if (← operator).is "=>" then unexpected else pure e
  let arrow : Parser SyntaxTree := do
    let params ← parameters r
    arrowFrom r ctx start .parameters params
  orElse plain arrow

/-- The innermost part of an operand. -/
def primary (r : Rules) (ctx : Context) : Parser SyntaxTree := do
  match ← operand with
  | .numeral => numberLiteral
  | .quote _ => stringLiteral
  | .backquote => template r
  | .privateName =>
    let name ← leaf .privatePropertyIdentifier privateName?
    if (← operator).isWord "in" then pure name else unexpected
  | .word w =>
    if w = ("async" : Text) then asyncOperand r ctx
    else if w = ("function" : Text) then do
      let (_, f) ← functionFrom r (← mark) false true
      pure f
    else if w = ("class" : Text) then do
      let (_, c) ← classFrom r false
      pure c
    else if w = ("new" : Text) then r.creation
    else if w = ("import" : Text) then importOperand
    else if ["this", "super", "null", "true", "false", "undefined"].contains (String.ofList w) then
      wordExpression
    else
      let name ← variableName
      if (← operator).is "=>" then arrowFrom r ctx name.start .parameter name else pure name
  | t =>
    if t.is "(" then parenthesizedOrArrow r ctx
    else if t.is leftBrace then objectLiteral r
    else if t.is "[" then arrayLiteral r
    else if t.is "/" || t.is "/=" then regexLiteral
    else unexpected

/-- Appends a member, an element or a template to an expression, if one follows. -/
def memberStep (r : Rules) (base : SyntaxTree) : Parser (Option SyntaxTree) := do
  let member : Parser (Option SyntaxTree) := do
    let name ← memberName
    some <$> node (.other "member_expression") base.start [base, name]
  let element : Parser (Option SyntaxTree) := do
    punctuator "["
    let index ← expressions r {}
    punctuator "]"
    some <$> node (.other "subscript_expression") base.start [base, index]
  let next ← operator
  if next.is "." then do
    punctuator "."
    member
  else if next.is "[" then element
  else if next.is "?." then
    if (← second).is "(" then pure none
    else do
      punctuator "?."
      if (← operand).is "[" then element else member
  else if next == .backquote && base.kind != .other "update_expression" then do
    let t ← template r
    some <$> node .call base.start [base.inField .function, t.inField .arguments]
  else pure none

/-- Appends a member, a call or a postfix operator to an expression, if one follows. -/
def postfixStep (r : Rules) (ctx : Context) (base : SyntaxTree) : Parser (Option SyntaxTree) := do
  let call : Parser (Option SyntaxTree) := do
    let a ← arguments r
    some <$> node .call base.start [base.inField .function, a.inField .arguments]
  let next ← operator
  if next.is "(" then call
  else if next.is "?." && (← second).is "(" then do
    punctuator "?."
    call
  else if next.is "++" || next.is "--" then
    if ctx.lineEnds && (← atStatementEnd true) then pure none
    else do
      let _ ← lexeme punctuator?
      some <$> node (.other "update_expression") base.start [base]
  else memberStep r base

/-- An expression with everything that is appended to it. -/
def postfixFrom (r : Rules) (ctx : Context) (base : SyntaxTree) : Parser SyntaxTree :=
  extend (postfixStep r ctx) base

/-- The operators that assign a changed value. -/
def changingOperators : List Text := List.map String.toList [
  "+=", "-=", "*=", "/=", "%=", "^=", "&=", "|=", ">>=", ">>>=", "<<=", "**=", "&&=", "||=", "??="]

/-- An assignment to an expression, or the expression itself. -/
def assignmentFrom (r : Rules) (ctx : Context) (base : SyntaxTree) : Parser SyntaxTree := do
  let assignable := isTarget base.kind || base.kind == .parenthesized
  match ← operator with
  | .punctuator p =>
    if p = ("=" : Text) && assignable then do
      punctuator p
      let value ← r.expression ctx
      node (.other "assignment_expression") base.start [base, value]
    else if changingOperators.contains p && assignable then do
      punctuator p
      let value ← r.expression ctx
      node (.other "augmented_assignment_expression") base.start [base, value]
    else pure base
  | _ => pure base

/-- An expression with what is appended to it, and what is assigned to it. -/
def leftHandSideFrom (r : Rules) (ctx : Context) (base : SyntaxTree) : Parser SyntaxTree := do
  let e ← postfixFrom r ctx base
  assignmentFrom r ctx e

/-- An operand without unary operators. A literal in braces or brackets is a pattern if something is
assigned to it. -/
def leftHandSide (r : Rules) (ctx : Context) : Parser SyntaxTree := do
  let next ← operand
  if next.is leftBrace || next.is "[" then
    let literal : Parser SyntaxTree := do
      let e ← primary r ctx
      if (← operator).is "=" then unexpected else leftHandSideFrom r ctx e
    let assignment : Parser SyntaxTree := do
      let p ← destructuring r
      punctuator "="
      let value ← r.expression ctx
      node (.other "assignment_expression") p.start [p, value]
    orElse literal assignment
  else
    let e ← primary r ctx
    leftHandSideFrom r ctx e

/-- An expression that begins with `new`. -/
def creation (r : Rules) : Parser SyntaxTree := do
  let start ← mark
  word "new"
  if ← punctuatorIf "." then
    word "target"
    node (.other "meta_property") start []
  else
    let base ←
      if (← operand).isWord "new" then r.creation
      else
        let e ← primary r {}
        extend (memberStep r) e
    let args ← if (← operator).is "(" then single (arguments r) else pure []
    node (.other "new_expression") start (base :: args)

/-- Whether a token can begin an expression. -/
def Token.beginsExpression (t : Token) : Bool :=
  match t with
  | .numeral | .quote _ | .backquote => true
  | .word w =>
    t.isName || List.contains ["this", "super", "null", "true", "false", "function", "class", "new",
      "import", "typeof", "void", "delete"] (String.ofList w)
  | .punctuator p =>
    p == leftBrace || List.contains ["(", "[", "+", "-", "!", "~", "++", "--", "/", "/="] (String.ofList p)
  | _ => false

/-- What follows the word `yield`: a star and an expression, an expression, or nothing. -/
def yielded (r : Rules) (ctx : Context) : Parser (List SyntaxTree) := do
  if ctx.lineEnds && (← atStatementEnd true) then pure []
  else if ← punctuatorIf "*" then single (r.expression ctx)
  else if (← operand).beginsExpression then single (r.expression ctx)
  else pure []

/-- An expression without binary operators outside brackets. -/
def unary (r : Rules) (ctx : Context) : Parser SyntaxTree := do
  let start ← mark
  let operation (kind : SyntaxKind) : Parser SyntaxTree := do
    let e ← r.unary ctx
    node kind start [e]
  match ← operand with
  | .word w =>
    if ["typeof", "void", "delete"].contains (String.ofList w) then do
      word w
      operation (.other "unary_expression")
    else if w = ("await" : Text) then do
      word w
      operation (.other "await_expression")
    else if w = ("yield" : Text) then do
      word w
      let e ← yielded r ctx
      node (.other "yield_expression") start e
    else leftHandSide r ctx
  | .punctuator p =>
    if ["!", "~", "-", "+"].contains (String.ofList p) then do
      punctuator p
      operation (.other "unary_expression")
    else if ["++", "--"].contains (String.ofList p) then do
      punctuator p
      operation (.other "update_expression")
    else leftHandSide r ctx
  | _ => leftHandSide r ctx

/-- A name with what points and brackets append to it, as a target of an assignment. -/
def target (r : Rules) : Parser SyntaxTree := do
  let next ← operand
  if next.isWord "this" || next.isWord "super" || next.isWord "undefined" then do
    let e ← wordExpression
    postfixFrom r {} e
  else do
    let name ← variableName
    postfixFrom r {} name

/-- What a value can be bound or assigned to. -/
def pattern (r : Rules) : Parser SyntaxTree := patternWith r (target r)

end ClassTags.Grammar
