import ClassTags.Text.Basic

/-!
# Kinds of syntax

What a node of a syntax tree is. The kinds that reading a tree distinguishes have constructors of
their own; every other kind is known by its name only.
-/

namespace ClassTags

/-- What a node of a syntax tree is. -/
inductive SyntaxKind where
  | program
  | error
  | comment
  | expressionStatement
  | identifier
  | propertyIdentifier
  | shorthandPropertyIdentifier
  | privatePropertyIdentifier
  | string
  | escapeSequence
  | number
  | templateString
  | regex
  | call
  | arguments
  | object
  | pair
  | methodDefinition
  | computedPropertyName
  | array
  | function
  | functionExpression
  | arrowFunction
  | generatorFunction
  | parenthesized
  | other (name : Text)
deriving DecidableEq, Repr

namespace SyntaxKind

/-- The kinds with a constructor of their own. -/
def distinguished : List SyntaxKind :=
  [program, error, comment, expressionStatement, identifier, propertyIdentifier,
    shorthandPropertyIdentifier, privatePropertyIdentifier, string, escapeSequence, number,
    templateString, regex, call, arguments, object, pair, methodDefinition, computedPropertyName,
    array, function, functionExpression, arrowFunction, generatorFunction, parenthesized]

/-- The name of a kind. -/
def name : SyntaxKind → Text
  | program => "program"
  | error => "ERROR"
  | comment => "comment"
  | expressionStatement => "expression_statement"
  | identifier => "identifier"
  | propertyIdentifier => "property_identifier"
  | shorthandPropertyIdentifier => "shorthand_property_identifier"
  | privatePropertyIdentifier => "private_property_identifier"
  | string => "string"
  | escapeSequence => "escape_sequence"
  | number => "number"
  | templateString => "template_string"
  | regex => "regex"
  | call => "call_expression"
  | arguments => "arguments"
  | object => "object"
  | pair => "pair"
  | methodDefinition => "method_definition"
  | computedPropertyName => "computed_property_name"
  | array => "array"
  | function => "function"
  | functionExpression => "function_expression"
  | arrowFunction => "arrow_function"
  | generatorFunction => "generator_function"
  | parenthesized => "parenthesized_expression"
  | other name => name

/-- The kind of a given name. -/
def ofName (t : Text) : SyntaxKind :=
  (distinguished.find? (·.name == t)).getD (other t)

/-- The kinds that are names: of variables, of properties, and of both at once. -/
def isName : SyntaxKind → Bool
  | identifier | propertyIdentifier | shorthandPropertyIdentifier | privatePropertyIdentifier => true
  | _ => false

/-- The kinds that are function expressions. -/
def isFunction : SyntaxKind → Bool
  | function | functionExpression | arrowFunction | generatorFunction => true
  | _ => false

/-- The kinds whose source text is kept as it is written. -/
def isLiteral : SyntaxKind → Bool
  | string | templateString | regex => true
  | _ => false

end SyntaxKind

/-- The part that a node plays in its parent. -/
inductive SyntaxField where
  | function
  | arguments
  | key
  | value
  | name
  | parameters
  | parameter
  | other (name : Text)
deriving DecidableEq, Repr

namespace SyntaxField

/-- The field of a given name. -/
def ofName (t : Text) : SyntaxField :=
  if t = ("function" : Text) then function
  else if t = ("arguments" : Text) then arguments
  else if t = ("key" : Text) then key
  else if t = ("value" : Text) then value
  else if t = ("name" : Text) then name
  else if t = ("parameters" : Text) then parameters
  else if t = ("parameter" : Text) then parameter
  else other t

end SyntaxField

end ClassTags
