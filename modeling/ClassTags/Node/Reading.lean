import ClassTags.Literal.Escape
import ClassTags.Literal.Number
import ClassTags.Node.Basic
import ClassTags.Notice
import ClassTags.Syntax.Tree
import ClassTags.Text.CodeUnits

/-!
# Reading syntax trees

The program that a syntax tree over a source text stands for. A tree with an error stands for none;
otherwise reading fails only on literals without a value, and on trees that lack a part they should
have.

Comments and parentheses around a single expression leave no trace. The arguments of a call are read
before what is called.

Main definitions:

* `SyntaxTree.expression` — the node of an expression;
* `SyntaxTree.statement` — the node of a statement;
* `Program.ofTree` — the program of a whole tree.
-/

namespace ClassTags

/-- Why a source text has no program. -/
inductive SourceFailure where
  /-- The text is not syntactically valid. The path, if known, is part of the message. -/
  | malformed (path : Text) (line : Nat)
  /-- A literal has no value. -/
  | literal (cause : Literal.Failure)
  /-- A node lacks a part that its kind should have. -/
  | absentPart
deriving DecidableEq, Repr

/-- A computation that reads a syntax tree. -/
abbrev Reading (α : Type) := Logged SourceFailure α

/-- The value of a literal, or the failure of reading it. -/
def Reading.ofLiteral {α : Type} : Except Literal.Failure α → Reading α
  | .ok a => .ofExcept (.ok a)
  | .error e => .fail (.literal e)

/-- A part that has to be there. -/
def Reading.required {α : Type} : Option (Reading α) → Reading α
  | some r => r
  | none => .fail .absentPart

namespace SyntaxTree

/-- Where a tree begins and how it reads on one line. -/
def place (source : Text) (t : SyntaxTree) : Place := ⟨t.line source, t.text source⟩

/-- The code points of a piece of a string literal. -/
def pieceValue (source : Text) (t : SyntaxTree) : Except Literal.Failure (List Nat) :=
  if t.kind = .escapeSequence then Literal.escapeValue (t.rawText source)
  else .ok (Literal.codePoints (t.rawText source))

/-- The code points of the named pieces of a string literal, in order. -/
def piecesValue (source : Text) : List SyntaxTree → Except Literal.Failure (List Nat)
  | [] => .ok []
  | t :: ts =>
    if t.label.named then
      match pieceValue source t with
      | .error e => .error e
      | .ok codes => (piecesValue source ts).map (codes ++ ·)
    else piecesValue source ts

/-- The value of a string literal, given its pieces. -/
def stringValue (source : Text) (pieces : List SyntaxTree) : Except Literal.Failure Text :=
  (piecesValue source pieces).map Text.ofCodePoints

/-- The parameters of a function: those in parentheses, or a single one without them. -/
def functionParams (listed? : Option (Reading (List Node))) (single? : Option (Reading Node)) :
    Reading (List Node) :=
  match listed?, single? with
  | some params, _ => params
  | none, some param => do
    let param ← param
    pure [param]
  | none, none => pure []

mutual

/-- The node of an expression. -/
def expression (source : Text) : SyntaxTree → Reading Node
  | node l cs =>
    let place := (node l cs).place source
    match l.kind with
    | .identifier | .propertyIdentifier | .shorthandPropertyIdentifier
    | .privatePropertyIdentifier => pure (.identifier place ((node l cs).rawText source))
    | .string => do
      let value ← Reading.ofLiteral (stringValue source cs)
      pure (.string place value)
    | .number => do
      let value ← Reading.ofLiteral (Literal.numberValue place.text)
      pure (.number place value)
    | .call => do
      let arguments ← callArguments source cs
      let callee ← Reading.required (fieldExpression? source .function cs)
      pure (.call place callee arguments)
    | .object => do
      let entries ← objectEntries source cs
      pure (.object place entries)
    | .array => do
      let elements ← partExpressions source cs
      pure (.array place elements)
    | .function | .functionExpression | .arrowFunction | .generatorFunction => do
      let params ←
        functionParams (listedParams? source cs) (fieldExpression? source .parameter cs)
      pure (.function place params)
    | .parenthesized =>
      if (cs.filter isPart).length = 1 then Reading.required (firstExpression? source cs)
      else pure (.expression place l.kind.name)
    | _ => pure (.expression place l.kind.name)
termination_by structural t => t

/-- The nodes of the parts among the given trees, in order. -/
def partExpressions (source : Text) : List SyntaxTree → Reading (List Node)
  | [] => pure []
  | t :: ts =>
    if t.isPart then do
      let first ← expression source t
      let others ← partExpressions source ts
      pure (first :: others)
    else partExpressions source ts
termination_by structural ts => ts

/-- The node of the first part among the given trees. -/
def firstExpression? (source : Text) : List SyntaxTree → Option (Reading Node)
  | [] => none
  | t :: ts => if t.isPart then some (expression source t) else firstExpression? source ts
termination_by structural ts => ts

/-- The node of the first of the given trees that plays the part `f`. -/
def fieldExpression? (source : Text) (f : SyntaxField) : List SyntaxTree → Option (Reading Node)
  | [] => none
  | t :: ts =>
    if t.label.field = some f then some (expression source t) else fieldExpression? source f ts
termination_by structural ts => ts

/-- The arguments of a call, given its children. What is called may also be applied to a template,
which counts as no arguments. -/
def callArguments (source : Text) : List SyntaxTree → Reading (List Node)
  | [] => pure []
  | node l cs :: ts =>
    if l.field = some .arguments then
      if l.kind = .arguments then partExpressions source cs else pure []
    else callArguments source ts
termination_by structural ts => ts

/-- The parameters of a function in parentheses, given its children. -/
def listedParams? (source : Text) : List SyntaxTree → Option (Reading (List Node))
  | [] => none
  | node l cs :: ts =>
    if l.field = some .parameters then some (partExpressions source cs) else listedParams? source ts
termination_by structural ts => ts

/-- The entries of an object literal, given its children: pairs, shorthand names and methods. A
method is a function that spans the whole entry. Entries without a key are passed over. -/
def objectEntries (source : Text) : List SyntaxTree → Reading (List Node)
  | [] => pure []
  | node l cs :: ts =>
    if (node l cs).isPart then
      let place := (node l cs).place source
      match l.kind with
      | .pair => do
        let key ← Reading.required (fieldExpression? source .key cs)
        let value ← Reading.required (fieldExpression? source .value cs)
        let others ← objectEntries source ts
        pure (.property place key value :: others)
      | .shorthandPropertyIdentifier => do
        let name := Node.identifier place ((node l cs).rawText source)
        let others ← objectEntries source ts
        pure (.property place name name :: others)
      | .methodDefinition => do
        let key ← Reading.required (fieldExpression? source .name cs)
        let params ←
          functionParams (listedParams? source cs) (fieldExpression? source .parameter cs)
        let others ← objectEntries source ts
        pure (.property place key (.function place params) :: others)
      | _ => do
        Logged.note (.skippedEntry l.kind.name place.line)
        objectEntries source ts
    else objectEntries source ts
termination_by structural ts => ts

end

/-- The node of a statement. -/
def statement (source : Text) (t : SyntaxTree) : Reading Node :=
  let place := t.place source
  if t.kind = .expressionStatement then do
    let inner ← (firstExpression? source t.children).getD (pure (.expression place t.kind.name))
    pure (.expressionStatement place inner)
  else pure (.statement place t.kind.name)

/-- The nodes of the statements among the given trees, in order. -/
def statements (source : Text) : List SyntaxTree → Reading (List Node)
  | [] => pure []
  | t :: ts =>
    if t.isPart then do
      let first ← statement source t
      let others ← statements source ts
      pure (first :: others)
    else statements source ts

end SyntaxTree

/-- The program of a syntax tree over a source text. The path is only used in messages. -/
def Program.ofTree (path source : Text) (tree : SyntaxTree) : Reading Program :=
  match tree.errorLine? source with
  | some line => .fail (.malformed path line)
  | none => do
    let body ← SyntaxTree.statements source tree.children
    pure ⟨body⟩

/-- The message for a source text without a program. -/
def SourceFailure.message : SourceFailure → Text
  | .malformed path line =>
    (if path.isEmpty then ("line " : Text) else path ++ ":") ++ Text.decimal line ++ ": syntax error"
  | .literal cause => cause.message
  | .absentPart => "a part of the syntax tree is absent"

end ClassTags
