import ClassTags.Syntax.Kind

/-!
# Syntax trees

The concrete syntax of a source text: every node covers a span of its bytes. Trees come from the
grammar (`ClassTags.Grammar`) or from elsewhere, so nothing is assumed about how the spans of a node
and of its children lie to each other.

Main definitions:

* `SyntaxTree.hasError` — whether something in the tree went wrong;
* `SyntaxTree.firstError?` — the first node that went wrong, in preorder;
* `SyntaxTree.errorLine?` — the line to blame, if the tree has an error;
* `SyntaxTree.literalSpans` — the spans of the outermost literals.
-/

namespace ClassTags

/-- What is known of a node apart from its children. -/
structure SyntaxLabel where
  kind : SyntaxKind
  /-- The byte at which the node begins. -/
  start : Nat
  /-- The byte before which the node ends. -/
  stop : Nat
  /-- Punctuation and keywords are not named. -/
  named : Bool := true
  /-- The node stands for something that the source lacks. -/
  missing : Bool := false
  /-- The part that the node plays in its parent. -/
  field : Option SyntaxField := none
  /-- Whether the node has an error, where that is given and not read off its descendants. -/
  flag : Option Bool := none
deriving DecidableEq, Repr

/-- A node of the syntax of a source text, with the nodes that it is made of. -/
inductive SyntaxTree where
  | node (label : SyntaxLabel) (children : List SyntaxTree)

namespace SyntaxTree

/-- What is known of the root of a tree apart from its children. -/
def label : SyntaxTree → SyntaxLabel
  | node l _ => l

/-- The children of the root of a tree. -/
def children : SyntaxTree → List SyntaxTree
  | node _ cs => cs

/-- The kind of the root of a tree. -/
def kind (t : SyntaxTree) : SyntaxKind := t.label.kind

/-- The byte at which a tree begins. -/
def start (t : SyntaxTree) : Nat := t.label.start

/-- The byte before which a tree ends. -/
def stop (t : SyntaxTree) : Nat := t.label.stop

/-- Whether the root of a tree is an error by itself. -/
def isFault (t : SyntaxTree) : Bool := t.kind = .error || t.label.missing

/-- Whether a tree counts when the parts of its parent are gathered: it is named and no comment. -/
def isPart (t : SyntaxTree) : Bool := t.label.named && t.kind ≠ .comment

/-- The children that count when the parts of a tree are gathered. -/
def parts (t : SyntaxTree) : List SyntaxTree := t.children.filter isPart

mutual

/-- Whether something in the tree went wrong. -/
def hasError : SyntaxTree → Bool
  | node l cs => l.flag.getD (isFault (node l cs) || anyError cs)

/-- Whether something in one of the trees went wrong. -/
def anyError : List SyntaxTree → Bool
  | [] => false
  | t :: ts => hasError t || anyError ts

end

mutual

/-- The first node in preorder that is an error by itself. Only nodes with an error are searched. -/
def firstError? : SyntaxTree → Option SyntaxTree
  | node l cs =>
    if isFault (node l cs) then some (node l cs)
    else if hasError (node l cs) then firstErrorIn? cs
    else none

/-- The first node in preorder of several trees that is an error by itself. -/
def firstErrorIn? : List SyntaxTree → Option SyntaxTree
  | [] => none
  | t :: ts => (firstError? t).or (firstErrorIn? ts)

end

/-- The line to blame when a tree over a source text has an error: that of its first error, or the
first line if no node is to blame. -/
def errorLine? (source : Text) (t : SyntaxTree) : Option Nat :=
  if t.hasError then
    some (match t.firstError? with
      | some bad => source.lineAt bad.start
      | none => 1)
  else none

mutual

/-- The spans of the outermost literals of a tree, in source order. -/
def literalSpans : SyntaxTree → List (Nat × Nat)
  | node l cs => if l.kind.isLiteral then [(l.start, l.stop)] else literalSpansIn cs

/-- The spans of the outermost literals of several trees. -/
def literalSpansIn : List SyntaxTree → List (Nat × Nat)
  | [] => []
  | t :: ts => literalSpans t ++ literalSpansIn ts

end

/-- The source text of a tree as it is written. -/
def rawText (source : Text) (t : SyntaxTree) : Text := source.slice t.start t.stop

/-- Puts a text on one line: `spans`, given in bytes of `own` after a distance of `base`, are kept
as written, and the blanks around them collapse. -/
def flatten (own : Text) (base pos : Nat) : List (Nat × Nat) → Text
  | [] => Text.collapse (own.dropBytes pos)
  | (start, stop) :: spans =>
    Text.collapse (own.slice pos (start - base)) ++ own.slice (start - base) (stop - base) ++
      flatten own base (stop - base) spans

/-- The source text of a tree on one line: runs of blanks outside literals become one space. -/
def text (source : Text) (t : SyntaxTree) : Text :=
  Text.strip (flatten (t.rawText source) t.start 0 t.literalSpans)

/-- The line on which a tree begins. -/
def line (source : Text) (t : SyntaxTree) : Nat := source.lineAt t.start

end SyntaxTree

end ClassTags
