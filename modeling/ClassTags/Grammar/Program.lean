import ClassTags.Grammar.Statement

/-!
# Programs

The grammar as a whole: the rules for a depth come from the rules for one less, and no text can go
deeper than it is long. `SyntaxTree.ofSource` reads a whole source text. A text that the grammar
does not take gives a tree with an error at the place where it cannot go on.
-/

namespace ClassTags

namespace Grammar

open ClassTags.Grammar.Parser

/-- The rules of the grammar for constructs whose parts are read by other rules. -/
def rulesOver (r : Rules) : Rules where
  climb := climb r
  unary := unary r
  creation := creation r
  pattern := pattern r
  statement := statement r

/-- The rules of the grammar down to a depth. -/
def rules : (depth : Nat) → Rules
  | 0 => .exhausted
  | depth + 1 => rulesOver (rules depth)

/-- The first line of a script that names its interpreter. -/
def hashBang? : Text → Option Split
  | '#' :: '!' :: rest =>
    let (line, after) := spanWhile (· != '\n') rest
    some ('#' :: '!' :: line, after)
  | _ => none

/-- The line that names the interpreter of a script, if there is one. -/
def hashBangLine : Parser (List SyntaxTree) := do
  if (← peek (lexeme hashBang?)).isSome then single (leaf (.other "hash_bang_line") hashBang?)
  else pure []

/-- A failed statement with the byte at which it begins. -/
def statementFrom (r : Rules) (finish : Nat) : Parser SyntaxTree := fun c =>
  match r.statement c with
  | .ok s => .ok s
  | .error e =>
    -- what is left open at the end of the text is faulty from its beginning on
    if e.offset < finish then .error e else .error ⟨(c.passTrivia true).offset⟩

/-- All statements of a text that ends at byte `finish`. -/
def program (r : Rules) (finish : Nat) : Parser (List SyntaxTree) := do
  let first ← hashBangLine
  let statements ← many do
    if (← operand) == .finish then pure none
    else
      let s ← statementFrom r finish
      pure (some s)
  pure (first ++ statements)

/-- A bound for the depth of a text. Between two parts of the text lie at most three rules. -/
def depthBound (source : Text) : Nat := 3 * source.length + 16

end Grammar

/-- The syntax tree of a source text. -/
def SyntaxTree.ofSource (source : Text) : SyntaxTree :=
  let finish := Text.byteLength source
  let label : SyntaxLabel := { kind := .program, start := 0, stop := finish }
  match Grammar.program (Grammar.rules (Grammar.depthBound source)) finish { rest := source } with
  | .ok (statements, c) =>
    let comments := (c.passTrivia true).comments.reverse
    (SyntaxTree.node label statements).weave comments
  | .error e => .node label [.node { kind := .error, start := e.offset, stop := finish } []]

end ClassTags
