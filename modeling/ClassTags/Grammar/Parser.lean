import ClassTags.Grammar.Semicolon
import ClassTags.Syntax.Tree

/-!
# Parsers

A parser takes the source text from a cursor on and gives a value and the cursor after what it took,
or the place at which the text cannot go on. Alternatives are tried in order; if all fail, the
failure that came farthest counts, since up to there the text could still be completed.

White space is passed over wherever a token is read. Comments are collected on the way and woven
into the finished tree (`SyntaxTree.weave`): a comment belongs to the innermost node that spans it.
-/

namespace ClassTags

/-- Puts a comment among trees in source order: into the first tree that spans it, or before the
first tree that begins after it. -/
def SyntaxTree.weaveBeside (comment : SyntaxTree) : SyntaxTree → SyntaxTree
  | .node l cs => .node l (go cs)
where
  /-- The trees with the comment among them. -/
  go : List SyntaxTree → List SyntaxTree
    | [] => [comment]
    | .node l cs :: ts =>
      if l.start ≤ comment.start ∧ comment.stop ≤ l.stop then .node l (go cs) :: ts
      else if comment.stop ≤ l.start then comment :: .node l cs :: ts
      else .node l cs :: go ts
  termination_by ts => sizeOf ts
  decreasing_by
    all_goals
      simp only [List.cons.sizeOf_spec, SyntaxTree.node.sizeOf_spec]
      omega

/-- Weaves comments into a tree that spans them. -/
def SyntaxTree.weave (tree : SyntaxTree) (comments : List SyntaxTree) : SyntaxTree :=
  comments.foldl (fun t comment => weaveBeside comment t) tree

namespace Grammar

/-- How far the source text has been read. -/
structure Cursor where
  /-- What has not been read. -/
  rest : Text
  /-- The number of bytes before `rest`. -/
  offset : Nat := 0
  /-- The end of the last token in bytes. -/
  stop : Nat := 0
  /-- The comments that were passed, the last one first. -/
  comments : List SyntaxTree := []

/-- Where the text cannot go on. -/
structure Failure where
  /-- The byte at which the token begins that does not fit. -/
  offset : Nat
deriving DecidableEq, Repr

/-- Of two failures the one that came farther. -/
def Failure.later (a b : Failure) : Failure := if a.offset < b.offset then b else a

/-- A parser takes text from a cursor on, or fails. -/
abbrev Parser (α : Type) := StateT Cursor (Except Failure) α

namespace Cursor

/-- The cursor after a piece of the rest. -/
def advance (c : Cursor) (s : Split) : Cursor :=
  { c with rest := s.2, offset := c.offset + Text.byteLength s.1 }

/-- The cursor after the white space at its head. -/
def passSpace (c : Cursor) : Cursor := c.advance (spanWhile isSpace c.rest)

/-- The cursor after a comment of the given kind, which is remembered. -/
def passComment (c : Cursor) (kind : SyntaxKind) (s : Split) : Cursor :=
  let after := c.advance s
  { after with comments := .node { kind, start := c.offset, stop := after.offset } [] :: c.comments }

/-- The cursor after a token. -/
def passToken (c : Cursor) (s : Split) : Cursor :=
  let after := c.advance s
  { after with stop := after.offset }

/-- The cursor after the comment at its head, if there is one. -/
def passComment? (markup : Bool) (c : Cursor) : Option Cursor :=
  match comment? c.rest with
  | some s => some (c.passComment .comment s)
  | none =>
    if markup then (htmlComment? c.rest).map (c.passComment (.other "html_comment")) else none

/-- Passes over at most `fuel` comments and the white space around them. -/
def passTriviaWithin (markup : Bool) : (fuel : Nat) → Cursor → Cursor
  | 0, c => c.passSpace
  | fuel + 1, c =>
    match c.passSpace.passComment? markup with
    | some after => passTriviaWithin markup fuel after
    | none => c.passSpace

/-- The cursor at the next token. Comments in the form of markup count where no operator may stand,
which is what `markup` says. -/
def passTrivia (markup : Bool) (c : Cursor) : Cursor := passTriviaWithin markup c.rest.length c

/-- The place before the next token at which a statement may end without a semicolon, looking behind
at most `fuel` comments. -/
def statementEndWithin? (orFollows : Bool) : (fuel : Nat) → Cursor → Option Cursor
  | 0, _ => none
  | fuel + 1, c =>
    if omitsSemicolon orFollows c.rest then some c
    else (c.passSpace.passComment? false).bind (statementEndWithin? orFollows fuel)

/-- The place before the next token at which a statement may end without a semicolon. -/
def statementEnd? (orFollows : Bool) (c : Cursor) : Option Cursor :=
  statementEndWithin? orFollows (c.rest.length + 1) c

end Cursor

/-- What stands at the head of the text. -/
inductive Token where
  | punctuator (p : Text)
  | word (w : Text)
  | privateName
  | numeral
  | quote (q : Char)
  | backquote
  | finish
  | stray
deriving DecidableEq, Repr

/-- The token at the head of a text without white space and comments before it. -/
def Token.ofText (t : Text) : Token :=
  match t with
  | [] => .finish
  | '"' :: _ => .quote '"'
  | '\'' :: _ => .quote '\''
  | '`' :: _ => .backquote
  | '#' :: _ => if (privateName? t).isSome then .privateName else .stray
  | _ =>
    if (numeral? t).isSome then .numeral
    else
      match word? t with
      | some (w, _) => .word w
      | none =>
        match punctuator? t with
        | some (p, _) => .punctuator p
        | none => .stray

namespace Parser

variable {α : Type}

/-- Fails at the next token. -/
def unexpected : Parser α := fun c => .error ⟨(c.passTrivia true).offset⟩

/-- The second parser, where the first one fails. -/
def orElse (p q : Parser α) : Parser α := fun c =>
  match p c with
  | .ok r => .ok r
  | .error e =>
    match q c with
    | .ok r => .ok r
    | .error e' => .error (e.later e')

/-- What a parser would give, without taking anything. -/
def peek (p : Parser α) : Parser (Option α) := fun c =>
  match p c with
  | .ok (a, _) => .ok (some a, c)
  | .error _ => .ok (none, c)

/-- The next token where an operand, a statement or a name may stand. -/
def operand : Parser Token := fun c => .ok (.ofText (c.passTrivia true).rest, c)

/-- The next token where an operator may stand. -/
def operator : Parser Token := fun c => .ok (.ofText (c.passTrivia false).rest, c)

/-- The token after the next one. -/
def second : Parser Token := fun c =>
  let here := (c.passTrivia true).rest
  let after : Text :=
    match word? here with
    | some (_, rest) => rest
    | none => ((punctuator? here).map (·.2)).getD []
  .ok (.ofText (({ rest := after : Cursor }).passTrivia true).rest, c)

/-- The byte at which the next token begins. -/
def mark : Parser Nat := fun c => .ok ((c.passTrivia true).offset, c)

/-- Takes the lexeme at the next token. -/
def lexeme (read? : Text → Option Split) : Parser Text := fun c =>
  let here := c.passTrivia true
  match read? here.rest with
  | some s => .ok (s.1, here.passToken s)
  | none => .error ⟨here.offset⟩

/-- Takes a lexeme right after the last token. -/
def immediate (read? : Text → Option Split) : Parser Text := fun c =>
  match read? c.rest with
  | some s => .ok (s.1, c.passToken s)
  | none => .error ⟨c.offset⟩

/-- Takes a punctuator. -/
def punctuator (p : Text) : Parser Unit := fun c =>
  let here := c.passTrivia false
  match punctuator? here.rest with
  | some s => if s.1 = p then .ok ((), here.passToken s) else .error ⟨here.offset⟩
  | none => .error ⟨here.offset⟩

/-- Takes a punctuator if it is next. -/
def punctuatorIf (p : Text) : Parser Bool := fun c =>
  match punctuator p c with
  | .ok ((), c') => .ok (true, c')
  | .error _ => .ok (false, c)

/-- Takes a word. -/
def word (w : Text) : Parser Unit := fun c =>
  let here := c.passTrivia true
  match word? here.rest with
  | some s => if s.1 = w then .ok ((), here.passToken s) else .error ⟨here.offset⟩
  | none => .error ⟨here.offset⟩

/-- Takes a word if it is next. -/
def wordIf (w : Text) : Parser Bool := fun c =>
  match word w c with
  | .ok ((), c') => .ok (true, c')
  | .error _ => .ok (false, c)

/-- Whether the next token is a punctuator. -/
def atPunctuator (p : Text) : Parser Bool := do return (← operator) == .punctuator p

/-- A node from a byte up to the end of the last token. -/
def node (kind : SyntaxKind) (start : Nat) (children : List SyntaxTree) : Parser SyntaxTree :=
  fun c => .ok (.node { kind, start, stop := c.stop } children, c)

/-- A node without children that is one lexeme. -/
def leaf (kind : SyntaxKind) (read? : Text → Option Split) : Parser SyntaxTree := do
  let start ← mark
  let _ ← lexeme read?
  node kind start []

/-- A list of the one value that a parser gives. -/
def single (p : Parser α) : Parser (List α) := do
  let a ← p
  pure [a]

/-- Goes on as long as a step gives something, for at most `fuel` steps. -/
def manyWithin (step : Parser (Option α)) : (fuel : Nat) → Parser (List α)
  | 0 => pure []
  | fuel + 1 => do
    match ← step with
    | none => pure []
    | some a => do
      let others ← manyWithin step fuel
      pure (a :: others)

/-- Goes on as long as a step gives something. Every step takes a part of the text. -/
def many (step : Parser (Option α)) : Parser (List α) := fun c =>
  manyWithin step (c.rest.length + 1) c

/-- Extends a value as long as a step can, for at most `fuel` steps. -/
def extendWithin (step : α → Parser (Option α)) : (fuel : Nat) → α → Parser α
  | 0, a => pure a
  | fuel + 1, a => do
    match ← step a with
    | none => pure a
    | some b => extendWithin step fuel b

/-- Extends a value as long as a step can. Every step takes a part of the text. -/
def extend (step : α → Parser (Option α)) (a : α) : Parser α := fun c =>
  extendWithin step (c.rest.length + 1) a c

/-- Ends a statement where its semicolon may be left out. -/
def omittedSemicolon (orFollows : Bool) : Parser Bool := fun c =>
  match c.statementEnd? orFollows with
  | some here => .ok (true, { here with stop := here.offset })
  | none => .ok (false, c)

/-- Whether a statement ends here without a semicolon. -/
def atStatementEnd (orFollows : Bool) : Parser Bool := fun c =>
  .ok ((c.statementEnd? orFollows).isSome, c)

/-- Ends a statement, with or without a semicolon. -/
def semicolon (orFollows : Bool) : Parser Unit := do
  if ← omittedSemicolon orFollows then pure () else punctuator ";"

end Parser

end Grammar

/-- The tree under another kind. -/
def SyntaxTree.ofKind (kind : SyntaxKind) : SyntaxTree → SyntaxTree
  | .node l cs => .node { l with kind } cs

/-- The tree as a part of its parent. -/
def SyntaxTree.inField (f : SyntaxField) : SyntaxTree → SyntaxTree
  | .node l cs => .node { l with field := some f } cs

end ClassTags
