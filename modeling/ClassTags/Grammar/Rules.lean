import ClassTags.Grammar.Parser

/-!
# The rules of the grammar

The rules for expressions, patterns and statements need each other. They are written as functions of
a set of rules for what lies deeper (`Rules`), which they use for their parts; the grammar ties the
knot by starting from rules that take nothing (`Grammar.rules`).

This module has what all of them share: names, literals without parts, and lists between brackets.
-/

namespace ClassTags.Grammar

open ClassTags.Grammar.Parser

/-- What surrounds an expression. -/
structure Context where
  /-- The word `in` may be an operator. -/
  inAllowed : Bool := true
  /-- The statement may end after the expression without a semicolon. -/
  lineEnds : Bool := false

/-- The rules that the parts of a construct are read by. -/
structure Rules where
  /-- An expression in which only operators of at least the given rank stand outside brackets. -/
  climb : Context → Nat → Parser SyntaxTree
  /-- An expression without binary operators outside brackets. -/
  unary : Context → Parser SyntaxTree
  /-- An expression that begins with `new`. -/
  creation : Parser SyntaxTree
  /-- What a value can be bound or assigned to. -/
  pattern : Parser SyntaxTree
  statement : Parser SyntaxTree

/-- Rules that take nothing. -/
def Rules.exhausted : Rules where
  climb _ _ := unexpected
  unary _ := unexpected
  creation := unexpected
  pattern := unexpected
  statement := unexpected

/-- A single expression. -/
def Rules.expression (r : Rules) (ctx : Context) : Parser SyntaxTree := r.climb ctx 0

/-- `{` -/
def leftBrace : Text := ['{']

/-- `}` -/
def rightBrace : Text := ['}']

/-- Whether a token is the given punctuator. -/
def Token.is (t : Token) (p : Text) : Bool := t == .punctuator p

/-- Whether a token is the given word. -/
def Token.isWord (t : Token) (w : Text) : Bool := t == .word w

/-! ## Names -/

/-- The words that cannot be names of variables. -/
def reservedWords : List Text := List.map String.toList [
  "break", "case", "catch", "class", "const", "continue", "debugger", "default", "delete", "do",
  "else", "extends", "false", "finally", "for", "function", "if", "import", "in", "instanceof", "new",
  "null", "return", "super", "switch", "this", "throw", "true", "try", "typeof", "var", "void",
  "while", "with"]

/-- Whether a token is a word that can be the name of a variable. -/
def Token.isName : Token → Bool
  | .word w => !reservedWords.contains w
  | _ => false

/-- The name of a variable. -/
def variableName : Parser SyntaxTree := do
  if (← operand).isName then leaf .identifier word? else unexpected

/-- The name of a property after a point. Every word will do. -/
def memberName : Parser SyntaxTree := do
  if (← operand) == .privateName then leaf .privatePropertyIdentifier privateName?
  else leaf .propertyIdentifier word?

/-! ## Literals -/

/-- Takes a piece of a literal, which becomes a node of its own. -/
def literalPiece (kind : SyntaxKind) (s : Split) : Parser (Option SyntaxTree) := fun c =>
  let after := c.passToken s
  .ok (some (.node { kind, start := c.offset, stop := after.offset } []), after)

/-- A piece of a string literal that ends with `quote`. -/
def stringPiece (quote : Char) : Parser (Option SyntaxTree) := fun c =>
  let isPlain (d : Char) : Bool := d != quote && d != '\\' && d != '\r' && d != '\n'
  match nonEmpty? (spanWhile isPlain c.rest), escape? c.rest with
  | some s, _ => literalPiece (.other "string_fragment") s c
  | none, some s => literalPiece .escapeSequence s c
  | none, none => .ok (none, c)

/-- The quote that ends a string literal which began at byte `start`. White space and comments may
stand before it. A literal broken by a line end fails where the text goes on, or where it began if
its quote never comes. -/
def closingQuote (start : Nat) (quote : Char) : Parser Unit := fun c =>
  let here := c.passTrivia false
  match here.rest with
  | [] => .error ⟨here.offset⟩
  | d :: rest =>
    if d == quote then .ok ((), here.passToken ([d], rest))
    else if c.rest.head? == some '\\' then .error ⟨c.offset⟩
    else if rest.contains quote then .error ⟨here.offset⟩
    else .error ⟨start⟩

/-- A string literal. -/
def stringLiteral : Parser SyntaxTree := do
  let start ← mark
  match ← operand with
  | .quote q =>
    let _ ← lexeme fun t => some (t.take 1, t.drop 1)
    let pieces ← many (stringPiece q)
    closingQuote start q
    node .string start pieces
  | _ => unexpected

/-- A number literal. -/
def numberLiteral : Parser SyntaxTree := leaf .number numeral?

/-- The slash that begins or ends a regular expression. -/
def slash? : Text → Option Split
  | '/' :: rest => some (['/'], rest)
  | _ => none

/-- A regular expression literal. -/
def regexLiteral : Parser SyntaxTree := do
  let start ← mark
  let _ ← lexeme slash?
  let _ ← immediate regexBody?
  let _ ← immediate slash?
  let _ ← immediate fun t => some (spanWhile (fun c => 'a' ≤ c && c ≤ 'z') t)
  node .regex start []

/-- The name of an entry of an object or of a class member. -/
def propertyName (r : Rules) : Parser SyntaxTree := do
  let start ← mark
  match ← operand with
  | .quote _ => stringLiteral
  | .numeral => numberLiteral
  | .privateName => leaf .privatePropertyIdentifier privateName?
  | .word _ => leaf .propertyIdentifier word?
  | _ =>
    punctuator "["
    let e ← r.expression {}
    punctuator "]"
    node .computedPropertyName start [e]

/-! ## Lists and sequences -/

/-- Takes commas as long as they come. -/
def commas : Parser Unit := do
  let _ ← many do
    if ← punctuatorIf "," then pure (some ()) else pure none

/-- Items up to a closing bracket, with commas between them. Places between commas may be empty. -/
def itemsUntil (close : Text) (item : Parser SyntaxTree) : Parser (List SyntaxTree) := do
  let items ← many do
    commas
    if (← operand).is close then pure none
    else
      let i ← item
      if ← atPunctuator close then pure () else punctuator ","
      pure (some i)
  punctuator close
  pure items

/-- An expression, or `...` and an expression. -/
def spreadable (r : Rules) : Parser SyntaxTree := do
  let start ← mark
  if ← punctuatorIf "..." then
    let e ← r.expression {}
    node (.other "spread_element") start [e]
  else r.expression {}

/-- The arguments of a call. -/
def arguments (r : Rules) : Parser SyntaxTree := do
  let start ← mark
  punctuator "("
  let items ← itemsUntil ")" (spreadable r)
  node .arguments start items

/-- Goes on after an expression with those that commas join to it. -/
def sequenceFrom (r : Rules) (ctx : Context) (first : SyntaxTree) : Parser SyntaxTree := do
  let others ← many do
    if ← punctuatorIf "," then
      let e ← r.expression ctx
      pure (some e)
    else pure none
  if others.isEmpty then pure first
  else node (.other "sequence_expression") first.start (first :: others)

/-- One or more expressions with commas between them. -/
def expressions (r : Rules) (ctx : Context) : Parser SyntaxTree := do
  let first ← r.expression ctx
  sequenceFrom r ctx first

/-- Expressions in parentheses. -/
def parenthesized (r : Rules) : Parser SyntaxTree := do
  let start ← mark
  punctuator "("
  let e ← expressions r {}
  punctuator ")"
  node .parenthesized start [e]

/-- A piece of a template. -/
def templatePiece (r : Rules) : Parser (Option SyntaxTree) := fun c =>
  match c.rest with
  | '$' :: '{' :: rest =>
    let substitution : Parser (Option SyntaxTree) := do
      let e ← expressions r {}
      punctuator rightBrace
      let n ← node (.other "template_substitution") c.offset [e]
      pure (some n)
    substitution (c.passToken (['$', '{'], rest))
  | '`' :: _ => .ok (none, c)
  | '\\' :: _ =>
    match escape? c.rest with
    | some s => literalPiece .escapeSequence s c
    | none => .error ⟨c.offset⟩
  | d :: rest => literalPiece (.other "string_fragment") ([d], rest) c
  | [] => .error ⟨c.offset⟩

/-- A template. -/
def template (r : Rules) : Parser SyntaxTree := do
  let start ← mark
  let backquote? : Text → Option Split := fun t =>
    if t.head? == some '`' then some (t.take 1, t.drop 1) else none
  let _ ← lexeme backquote?
  let pieces ← many (templatePiece r)
  let _ ← immediate backquote?
  node .templateString start pieces

end ClassTags.Grammar
