import ClassTags.Grammar.Operand

/-!
# Operations

Binary operators and the conditional. An operator has a rank: of two operators the one of higher
rank holds its operands together first. Among equals the left one does, except for powers and
conditionals.
-/

namespace ClassTags.Grammar

open ClassTags.Grammar.Parser

/-- The rank of conditionals. -/
def conditionalRank : Nat := 1

/-- The binary operators by rank, from the lowest rank up. -/
def operatorRanks : List (List String) := [
  ["??"],
  ["||"],
  ["&&"],
  ["|"],
  ["^"],
  ["&"],
  ["==", "!=", "===", "!=="],
  ["<", "<=", ">", ">=", "instanceof", "in"],
  ["<<", ">>", ">>>"],
  ["+", "-"],
  ["*", "/", "%"],
  ["**"]]

/-- The rank of a binary operator. -/
def rank? (operator : Text) : Option Nat :=
  (operatorRanks.findIdx? (·.contains (String.ofList operator))).map (· + conditionalRank)

/-- The least rank of the operators in the right operand of an operator. -/
def rightRank (operator : Text) (rank : Nat) : Nat := if operator = ("**" : Text) then rank else rank + 1

/-- Joins a binary operator or a conditional to its left operand, if one of at least the given rank
follows. -/
def operationStep (r : Rules) (ctx : Context) (least : Nat) (left : SyntaxTree) :
    Parser (Option SyntaxTree) := do
  let binary (symbol : Text) : Parser (Option SyntaxTree) := do
    match rank? symbol with
    | none => pure none
    | some rank =>
      if rank < least then pure none
      else do
        let _ ← orElse (punctuator symbol) (word symbol)
        let right ← r.climb ctx (rightRank symbol rank)
        some <$> node (.other "binary_expression") left.start [left, right]
  match ← operator with
  | .punctuator p =>
    if p = ("?" : Text) then
      if conditionalRank < least then pure none
      else do
        punctuator "?"
        let consequence ← r.expression {}
        punctuator ":"
        let alternative ← r.expression ctx
        some <$> node (.other "ternary_expression") left.start [left, consequence, alternative]
    else binary p
  | .word w => if w = ("in" : Text) && !ctx.inAllowed then pure none else binary w
  | _ => pure none

/-- Goes on with the binary operators and conditionals of at least the given rank. -/
def operationsFrom (r : Rules) (ctx : Context) (least : Nat) (left : SyntaxTree) :
    Parser SyntaxTree :=
  extend (operationStep r ctx least) left

/-- An expression in which only operators of at least the given rank stand outside brackets. -/
def climb (r : Rules) (ctx : Context) (least : Nat) : Parser SyntaxTree := do
  let left ← unary r ctx
  operationsFrom r ctx least left

/-- Goes on after the first operand of an expression. -/
def expressionsFrom (r : Rules) (ctx : Context) (base : SyntaxTree) : Parser SyntaxTree := do
  let e ← leftHandSideFrom r ctx base
  let e ← operationsFrom r ctx 0 e
  sequenceFrom r ctx e

end ClassTags.Grammar
