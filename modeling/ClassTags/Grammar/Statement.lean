import ClassTags.Grammar.Declaration

/-!
# Statements
-/

namespace ClassTags.Grammar

open ClassTags.Grammar.Parser

/-! ## Blocks and branches -/

/-- What begins with a brace where a statement may stand: an object literal if it has an entry that
only an object can have, and otherwise a block. -/
def braced (r : Rules) : Parser SyntaxTree := do
  let inside ← peek do
    punctuator leftBrace
    let first ← operand
    let next ← second
    pure (first, next)
  match inside with
  | none => unexpected
  | some (first, next) =>
    if first.is rightBrace then block r true
    else if first.isLeading then block r false
    else
      let isName := match first with | .word _ => true | _ => false
      if isName && (next.is "," || next.is rightBrace) then block r false
      else orElse (expressionStatement r) (block r false)

/-- A condition and what is done if it holds, and otherwise. -/
def ifStatement (r : Rules) : Parser SyntaxTree := do
  let start ← mark
  word "if"
  let condition ← parenthesized r
  let consequence ← r.statement
  let alternative ← if ← wordIf "else" then single r.statement else pure []
  node (.other "if_statement") start (condition :: consequence :: alternative)

/-- Statements up to the next branch or the end of a choice. -/
def branchBody (r : Rules) : Parser (List SyntaxTree) :=
  many do
    let next ← operand
    if next.is rightBrace || next.isWord "case" || next.isWord "default" then pure none
    else
      let s ← r.statement
      pure (some s)

/-- A branch of a choice. -/
def branch (r : Rules) : Parser SyntaxTree := do
  let start ← mark
  if ← wordIf "default" then
    punctuator ":"
    let body ← branchBody r
    node (.other "switch_default") start body
  else
    word "case"
    let value ← expressions r {}
    punctuator ":"
    let body ← branchBody r
    node (.other "switch_case") start (value :: body)

/-- A choice between branches. -/
def switchStatement (r : Rules) : Parser SyntaxTree := do
  let start ← mark
  word "switch"
  let value ← parenthesized r
  punctuator leftBrace
  let branches ← many do
    if (← operand).is rightBrace then pure none
    else
      let b ← branch r
      pure (some b)
  punctuator rightBrace
  node (.other "switch_statement") start (value :: branches)

/-- A block with what handles its exceptions and what is done in any case. -/
def tryStatement (r : Rules) : Parser SyntaxTree := do
  let start ← mark
  word "try"
  let body ← block r false
  let handler ←
    if ← wordIf "catch" then
      let caught ←
        if ← punctuatorIf "(" then
          let b ← binding r
          punctuator ")"
          pure [b]
        else pure []
      let handling ← block r false
      pure (caught ++ [handling])
    else pure []
  let finalizer ← if ← wordIf "finally" then single (block r false) else pure []
  node (.other "try_statement") start (body :: handler ++ finalizer)

/-! ## Loops -/

/-- The inside of the parentheses of a loop over the keys or elements of a value. -/
def eachHeader (r : Rules) : Parser (String × List SyntaxTree) := do
  let declared : Parser SyntaxTree := do
    let keyword ← lexeme word?
    let b ← binding r
    if keyword = ("var" : Text) then
      if ← punctuatorIf "=" then
        let _ ← r.expression { inAllowed := false }
        pure b
      else pure b
    else
      let _ ← omittedSemicolon false
      pure b
  let element ← if ← variablesAhead then declared else orElse r.pattern (parenthesized r)
  if ← wordIf "in" then pure () else word "of"
  let value ← expressions r {}
  punctuator ")"
  pure ("for_in_statement", [element, value])

/-- An optional expression, and the semicolon after it. -/
def clause (r : Rules) : Parser (List SyntaxTree) := do
  if ← punctuatorIf ";" then pure []
  else
    let e ← expressions r {}
    punctuator ";"
    pure [e]

/-- The inside of the parentheses of a loop with a condition. -/
def countingHeader (r : Rules) : Parser (String × List SyntaxTree) := do
  let initial ← if ← variablesAhead then single (variableDeclaration r {}) else clause r
  let condition ← clause r
  let step ← if (← operand).is ")" then pure [] else single (expressions r {})
  punctuator ")"
  pure ("for_statement", initial ++ condition ++ step)

/-- A loop that begins with the word `for`. -/
def forStatement (r : Rules) : Parser SyntaxTree := do
  let start ← mark
  word "for"
  let awaits ← wordIf "await"
  punctuator "("
  let (kind, header) ← if awaits then eachHeader r else orElse (eachHeader r) (countingHeader r)
  let body ← r.statement
  node (.other kind) start (header ++ [body])

/-- A loop that begins with its condition. -/
def whileStatement (r : Rules) : Parser SyntaxTree := do
  let start ← mark
  word "while"
  let condition ← parenthesized r
  let body ← r.statement
  node (.other "while_statement") start [condition, body]

/-- A loop that ends with its condition. -/
def doStatement (r : Rules) : Parser SyntaxTree := do
  let start ← mark
  word "do"
  let body ← r.statement
  word "while"
  let condition ← parenthesized r
  if ← omittedSemicolon false then pure ()
  else
    let _ ← punctuatorIf ";"
    pure ()
  node (.other "do_statement") start [body, condition]

/-- A statement with the names in an object put before the others. -/
def withStatement (r : Rules) : Parser SyntaxTree := do
  let start ← mark
  word "with"
  let object ← parenthesized r
  let body ← r.statement
  node (.other "with_statement") start [object, body]

/-! ## Jumps -/

/-- A jump by the given word: what follows it, if anything does, and the semicolon at its end. -/
def jump (keyword : String) (kind : String) (part : Parser SyntaxTree) (orFollows : Bool) :
    Parser SyntaxTree := do
  let start ← mark
  word keyword
  if ← omittedSemicolon false then node (.other kind) start []
  else if ← punctuatorIf ";" then node (.other kind) start []
  else
    let p ← part
    semicolon orFollows
    node (.other kind) start [p]

/-- The end of a function, with or without a value. -/
def returnStatement (r : Rules) : Parser SyntaxTree :=
  jump "return" "return_statement" (expressions r { lineEnds := true }) true

/-- An exception. -/
def throwStatement (r : Rules) : Parser SyntaxTree := do
  let start ← mark
  word "throw"
  let e ← expressions r { lineEnds := true }
  semicolon true
  node (.other "throw_statement") start [e]

/-- A statement of one word. -/
def debuggerStatement : Parser SyntaxTree := do
  let start ← mark
  word "debugger"
  semicolon false
  node (.other "debugger_statement") start []

/-- A statement with a label. -/
def labeledStatement (r : Rules) : Parser SyntaxTree := do
  let label ← variableName
  punctuator ":"
  let body ← r.statement
  node (.other "labeled_statement") label.start [label, body]

/-! ## All statements -/

/-- The rules for the statements that begin with a word of their own. -/
def keywordStatements (r : Rules) : List (String × Parser SyntaxTree) := [
  ("if", ifStatement r),
  ("switch", switchStatement r),
  ("try", tryStatement r),
  ("for", forStatement r),
  ("while", whileStatement r),
  ("do", doStatement r),
  ("with", withStatement r),
  ("return", returnStatement r),
  ("break", jump "break" "break_statement" variableName false),
  ("continue", jump "continue" "continue_statement" variableName false),
  ("throw", throwStatement r),
  ("debugger", debuggerStatement)]

/-- A statement that begins with a word. -/
def wordStatement (r : Rules) (w : Text) : Parser SyntaxTree := do
  match (keywordStatements r).lookup (String.ofList w) with
  | some s => s
  | none =>
    if ← variablesAhead then variableDeclaration r { lineEnds := true }
    else if ← functionAhead then do
      let (named, f) ← functionStatement r true
      declarationFrom r named f
    else if w = ("class" : Text) then do
      let (named, c) ← classStatement r true
      declarationFrom r named c
    else if w = ("import" : Text) && (← importDeclares) then importStatement r
    else if w = ("export" : Text) && (← exportDeclares) then exportStatement r
    else if !leadingWords.contains w && (← second).is ":" then labeledStatement r
    else expressionStatement r

/-- A statement. -/
def statement (r : Rules) : Parser SyntaxTree := do
  let start ← mark
  match ← operand with
  | .word w => wordStatement r w
  | t =>
    if t.is leftBrace then braced r
    else if t.is ";" then do
      punctuator ";"
      node (.other "empty_statement") start []
    else expressionStatement r

end ClassTags.Grammar
