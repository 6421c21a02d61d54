import ClassTags.Grammar.Lexeme

/-!
# Automatic semicolons

A statement may end without a semicolon before a closing brace, at the end of the text, and before
a line break whose next line does not go on with the statement. Whether it ends here is decided on
the text after the last token or comment.

`orFollows` says that a binary operator could follow. Only then may a comment belong to the
expression it stands behind; otherwise a comment with a line break after or in it ends the
statement.
-/

namespace ClassTags.Grammar

/-- The white space that is passed over in the search for a line break. -/
def isPassed (c : Char) : Bool :=
  let n := c.toNat
  (0x09 ≤ n && n ≤ 0x0D) || n == 0x20 || n == 0x1680 || (0x2000 ≤ n && n ≤ 0x2006) ||
    (0x2008 ≤ n && n ≤ 0x200A) || n == 0x2028 || n == 0x2029 || n == 0x205F || n == 0x3000

/-- What the search for a line break found between two tokens. -/
inductive Gap where
  /-- A slash that does not begin a comment. -/
  | slash
  /-- A comment without a line break; the text after it. -/
  | sameLine (rest : Text)
  /-- White space and comments; the text after them. -/
  | passed (rest : Text)

/-- The text after a comment up to `*/`, and whether the comment has a line break. A comment that
does not end takes the whole text. -/
def afterBlock (broken : Bool) : Text → Bool × Text
  | [] => (broken, [])
  | '*' :: '/' :: rest => (broken, rest)
  | c :: t => afterBlock (broken || isLineBreak c) t

/-- Passes over white space and comments. Unless `all` is set, the first comment up to `*/` is the
last thing that is passed. -/
def passGap (all : Bool) : (fuel : Nat) → (broken : Bool) → Text → Gap
  | 0, _, t => .passed t
  | fuel + 1, broken, t =>
    match t.dropWhile isPassed with
    | '/' :: '/' :: rest => passGap all fuel broken (rest.dropWhile (!isLineBreak ·))
    | '/' :: '*' :: rest =>
      match afterBlock broken rest with
      | (broken, []) => if all then .passed [] else if broken then .passed [] else .sameLine []
      | (broken, c :: rest) =>
        if c == '/' || all then passGap all fuel broken (c :: rest)
        else if broken then .passed (c :: rest)
        else .sameLine (c :: rest)
    | '/' :: _ => .slash
    | rest => .passed rest

/-- Whether a text goes on with `in` or `instanceof` as a whole word. The first letter has been
seen. -/
def isOperatorWord : Text → Bool
  | 'n' :: rest =>
    let isLetter (c? : Option Char) : Bool := c?.any fun c => c.isAlpha || 0x80 ≤ c.toNat
    if !isLetter rest.head? then true
    else if ("stanceof" : Text).isPrefixOf rest then !isLetter (rest.drop 8).head?
    else false
  | _ => false

/-- Whether a line can begin a new statement, by its first characters. -/
def beginsStatement : Text → Bool
  | [] => true
  | c :: rest =>
    if ("`,:;*%><=[(?^|&/" : Text).contains c then false
    else if c == '.' then rest.head?.any Char.isDigit
    else if c == '+' || c == '-' then rest.head? == some c
    else if c == '!' then rest.head? != some '='
    else if c == 'i' then !isOperatorWord rest
    else true

/-- Whether a statement ends before a line break, given the text after the line break. -/
def endsAtLine (t : Text) : Bool :=
  match passGap true (t.length + 1) false t with
  | .slash => false
  | .sameLine rest | .passed rest => beginsStatement rest

/-- `omitsSemicolon` with a bound on the number of characters and comments that are passed. -/
def omitsWithin (orFollows : Bool) : (fuel : Nat) → Text → Bool
  | 0, _ => false
  | _ + 1, [] => true
  | fuel + 1, c :: t =>
    if c == '/' then
      let go (rest : Text) : Bool :=
        match rest with
        | [] => false
        | d :: after =>
          if d == '}' then true
          else if isLineBreak d then endsAtLine after
          else if isPassed d then omitsWithin orFollows fuel after
          else false
      match passGap false (t.length + 1) false (c :: t) with
      | .slash => false
      | .sameLine rest => go rest
      | .passed rest =>
        if !orFollows && rest.head? != some ',' && rest.head? != some '=' then true else go rest
    else if c == '}' then true
    else if isLineBreak c then endsAtLine t
    else if isPassed c then omitsWithin orFollows fuel t
    else false

/-- Whether a semicolon may be left out at the head of a text, which stands right after a token or a
comment. -/
def omitsSemicolon (orFollows : Bool) (t : Text) : Bool := omitsWithin orFollows (t.length + 1) t

end ClassTags.Grammar
