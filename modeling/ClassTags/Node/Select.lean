import ClassTags.Node.Basic

/-!
# Selecting nodes

A pattern is a chain of node kinds joined by `>`. It selects the nodes at the end of the chains of
children whose kinds are those of the pattern, beginning at the program.
-/

namespace ClassTags

/-- The steps of a pattern: the stripped, non-empty pieces between the `>`. -/
def patternSteps (pattern : Text) : List Text := Text.listItems '>' pattern

namespace Node

/-- The children of the given nodes whose kind is `step`, in order. -/
def childrenOfKind (step : Text) (nodes : List Node) : List Node :=
  nodes.flatMap fun n => n.children.filter fun c => c.kind == step

/-- Follows the steps from the given nodes. -/
def follow (nodes : List Node) : List Text → List Node
  | [] => nodes
  | step :: steps => follow (childrenOfKind step nodes) steps

end Node

/-- The nodes of a program that a pattern selects, in source order. -/
def Program.select (p : Program) (pattern : Text) : List Node :=
  match patternSteps pattern with
  | [] => []
  | first :: steps => if first = p.node.kind then Node.follow [p.node] steps else []

end ClassTags
