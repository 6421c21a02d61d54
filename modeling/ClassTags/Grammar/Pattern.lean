import ClassTags.Grammar.Function

/-!
# Patterns

What a value can be bound or assigned to: a name, a member of an object, or a pattern in the form of
an object or an array literal.
-/

namespace ClassTags.Grammar

open ClassTags.Grammar.Parser

/-- An entry of a pattern in braces. -/
def patternEntry (r : Rules) : Parser SyntaxTree := do
  let start ← mark
  if (← operand).is "..." then r.pattern
  else
    let name ← propertyName r
    if ← punctuatorIf ":" then
      let p ← defaulted r
      node (.other "pair_pattern") start [name, p]
    else if name.kind == .propertyIdentifier then
      if ← punctuatorIf "=" then
        let value ← r.expression {}
        node (.other "object_assignment_pattern") start [name, value]
      else node (.other "shorthand_property_identifier_pattern") start []
    else unexpected

/-- A pattern in braces or brackets. -/
def destructuring (r : Rules) : Parser SyntaxTree := do
  let start ← mark
  if ← punctuatorIf leftBrace then
    let entries ← itemsUntil rightBrace (patternEntry r)
    node (.other "object_pattern") start entries
  else
    punctuator "["
    let elements ← itemsUntil "]" (defaulted r)
    node (.other "array_pattern") start elements

/-- What a declaration can bind: a name, or a pattern in braces or brackets. -/
def binding (r : Rules) : Parser SyntaxTree := do
  if (← operand).isName then variableName else destructuring r

/-- The kinds of expressions that can be assigned to, parentheses apart. -/
def isTarget (kind : SyntaxKind) : Bool :=
  kind == .identifier || kind == .other "undefined" || kind == .other "member_expression" ||
    kind == .other "subscript_expression"

/-- A pattern; `target` reads a name with what points and brackets append to it. -/
def patternWith (r : Rules) (target : Parser SyntaxTree) : Parser SyntaxTree := do
  let start ← mark
  let plain : Parser SyntaxTree := do
    let next ← operand
    if next.is leftBrace || next.is "[" then destructuring r
    else
      let t ← target
      if isTarget t.kind then pure t else unexpected
  if ← punctuatorIf "..." then
    let p ← plain
    node (.other "rest_pattern") start [p]
  else plain

end ClassTags.Grammar
