import ClassTags.Text.Basic

/-!
# Nodes

The model of a program that the library works with. It looks into calls, object and array literals,
functions, names, strings and numbers; all other expressions and statements are known by their line,
their text and the name of their form.
-/

namespace ClassTags

/-- Where a node begins and how it reads on one line. -/
structure Place where
  line : Nat
  text : Text
deriving DecidableEq, Repr

/-- A node of the model of a program. -/
inductive Node where
  | identifier (place : Place) (name : Text)
  | string (place : Place) (value : Text)
  | number (place : Place) (value : Text)
  /-- An expression of another form. -/
  | expression (place : Place) (form : Text)
  | function (place : Place) (params : List Node)
  | array (place : Place) (elements : List Node)
  | property (place : Place) (key value : Node)
  /-- An object literal; its entries are properties. -/
  | object (place : Place) (entries : List Node)
  | call (place : Place) (callee : Node) (arguments : List Node)
  | expressionStatement (place : Place) (expression : Node)
  /-- A statement of another form. -/
  | statement (place : Place) (form : Text)
  | program (body : List Node)
deriving Repr

namespace Node

/-- Where a node begins and how it reads. A program begins on the first line and has no text. -/
def place : Node → Place
  | identifier p _ | string p _ | number p _ | expression p _ | function p _ | array p _
  | property p _ _ | object p _ | call p _ _ | expressionStatement p _ | statement p _ => p
  | program _ => ⟨1, []⟩

/-- The line on which a node begins. -/
def line (n : Node) : Nat := n.place.line

/-- The source text of a node on one line. -/
def text (n : Node) : Text := n.place.text

/-- The name of what a node is. -/
def kind : Node → Text
  | identifier .. => "Identifier"
  | string .. => "StringLiteral"
  | number .. => "NumberLiteral"
  | expression .. => "Expression"
  | function .. => "FunctionExpression"
  | array .. => "ArrayExpression"
  | property .. => "Property"
  | object .. => "ObjectExpression"
  | call .. => "CallExpression"
  | expressionStatement .. => "ExpressionStatement"
  | statement .. => "Statement"
  | program .. => "Program"

/-- The nodes that a node is made of, in order. -/
def children : Node → List Node
  | identifier .. | string .. | number .. | expression .. | statement .. => []
  | function _ params => params
  | array _ elements => elements
  | property _ key value => [key, value]
  | object _ entries => entries
  | call _ callee arguments => callee :: arguments
  | expressionStatement _ e => [e]
  | program body => body

/-- The name that a node gives to an entry of an object literal: literals name it by their value. -/
def keyName : Node → Text
  | identifier _ name => name
  | string _ value => value
  | number _ value => value
  | n => n.text

end Node

/-- A source text as a sequence of statements. -/
structure Program where
  body : List Node

/-- A program as a node. -/
def Program.node (p : Program) : Node := .program p.body

end ClassTags
