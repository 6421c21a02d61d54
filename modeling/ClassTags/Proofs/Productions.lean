import ClassTags.Proofs.Parsing

/-!
# The rules for expressions keep to the source text

One lemma for each rule, in the order of the grammar: given rules for the parts that keep to the
source text, the rule does. Those for declarations and statements are in
`ClassTags.Proofs.Statements`, with what follows for the grammar as a whole.
-/

namespace ClassTags.Grammar

open ClassTags.Grammar.Parser

-- ---------------------------------------------------------------------------
-- Names and literals
-- ---------------------------------------------------------------------------

theorem readBy_identifier : ReadBy .identifier word? := ⟨splits_word, .inr ⟨rfl, .inl rfl⟩⟩

theorem readBy_propertyIdentifier : ReadBy .propertyIdentifier word? :=
  ⟨splits_word, .inr ⟨rfl, .inl rfl⟩⟩

/-- A private name is a word behind a number sign. -/
theorem readBy_privatePropertyIdentifier : ReadBy .privatePropertyIdentifier privateName? :=
  ⟨splits_privateName, .inr ⟨rfl, .inr rfl⟩⟩

theorem readBy_number : ReadBy .number numeral? := ⟨splits_numeral, .inl rfl⟩

/-- Kinds without a constructor of their own can be read in any way. -/
theorem readBy_other {read? : Text → Option Split} (h : Splits read?) (name : Text) :
    ReadBy (.other name) read? := ⟨h, .inl rfl⟩

/-- Plain characters of a literal are split off from the text. -/
theorem splits_plain {p : Char → Bool} {t : Text} {s : Split}
    (h : nonEmpty? (spanWhile p t) = some s) : t = s.1 ++ s.2 :=
  splits_nonEmpty (spanWhile_append p) t s.1 s.2 h

/-- All four kinds of functions ask nothing of the node. -/
theorem isFree_functionKind (declared generator : Bool) :
    (match declared, generator with
      | true, true => .other "generator_function_declaration"
      | true, false => .other "function_declaration"
      | false, true => .generatorFunction
      | false, false => .functionExpression : SyntaxKind).isFree = true := by
  cases declared <;> cases generator <;> rfl

/-- Both kinds of classes ask nothing of the node. -/
theorem isFree_classKind (declared : Bool) :
    (if declared then .other "class_declaration" else .other "class" : SyntaxKind).isFree = true := by
  cases declared <;> rfl

-- A modifier that is not taken leaves the cursor where it is.

/-- A modifier that is not there is not passed. -/
theorem modifier_eq_false {w : Text} {starAllowed : Bool} {c c' : Cursor}
    (h : modifier w starAllowed c = .ok (false, c')) : c' = c := by
  obtain ⟨t, c₁, hOperand, hBehind⟩ := bind_eq_ok.mp h
  obtain ⟨-, rfl⟩ := Prod.mk.inj (Except.ok.inj hOperand)
  split at hBehind
  · obtain ⟨next, c₂, hSecond, hWord⟩ := bind_eq_ok.mp hBehind
    obtain ⟨-, rfl⟩ := Prod.mk.inj (Except.ok.inj hSecond)
    split at hWord
    · exact wordIf_eq_false hWord
    · exact (pure_eq_ok hWord).2
  · exact (pure_eq_ok hBehind).2

/-- If there are no modifiers the name begins at the cursor. -/
theorem modifiers_eq_false {c c' : Cursor} (h : modifiers c = .ok (false, c')) : c' = c := by
  obtain ⟨isStatic, c₁, hStatic, h⟩ := bind_eq_ok.mp h
  obtain ⟨isAsync, c₂, hAsync, h⟩ := bind_eq_ok.mp h
  obtain ⟨isGetter, c₃, hGetter, h⟩ := bind_eq_ok.mp h
  cases isGetter with
  | true =>
    obtain ⟨isSetter, c₄, -, h⟩ := bind_eq_ok.mp h
    obtain ⟨isGenerator, c₅, -, h⟩ := bind_eq_ok.mp h
    exact absurd (pure_eq_ok h).1 (by simp)
  | false =>
    obtain ⟨isSetter, c₄, hSetter, h⟩ := bind_eq_ok.mp h
    cases isSetter with
    | true =>
      obtain ⟨isGenerator, c₅, -, h⟩ := bind_eq_ok.mp h
      exact absurd (pure_eq_ok h).1 (by simp)
    | false =>
      obtain ⟨isGenerator, c₅, hGenerator, h⟩ := bind_eq_ok.mp h
      obtain ⟨hNone, rfl⟩ := pure_eq_ok h
      simp only [Bool.false_eq, Bool.or_eq_false_iff] at hNone
      obtain ⟨⟨⟨⟨rfl, rfl⟩, -⟩, -⟩, rfl⟩ := hNone
      rw [punctuatorIf_eq_false hGenerator, modifier_eq_false hSetter, modifier_eq_false hGetter,
        modifier_eq_false hAsync, modifier_eq_false hStatic]

variable [Source] {r : Rules}

/-- A variable has a word that is not reserved. -/
theorem variableName_keeps : variableName.Keeps := by
  refine bind_keeps operand_keeps fun t _ => ?_
  exact ite_keeps (leaf_keeps readBy_identifier) unexpected_keeps

/-- Behind a point stands a word or a private name. -/
theorem memberName_keeps : memberName.Keeps := by
  refine bind_keeps operand_keeps fun t _ => ?_
  exact ite_keeps (leaf_keeps readBy_privatePropertyIdentifier) (leaf_keeps readBy_propertyIdentifier)

/-- A piece of a literal spans the text that is split off, so that an escape sequence is its
lexeme. -/
theorem literalPiece_keeps {kind : SyntaxKind} {s : Split} {c c' : Cursor} {o : Option SyntaxTree}
    (hc : c.Stands) (hSplit : c.rest = s.1 ++ s.2)
    (hKind : kind.isFree = true ∨ kind = .escapeSequence ∧ IsLexeme escape? s.1)
    (h : literalPiece kind s c = .ok (o, c')) : Rooted o ∧ c'.Stands := by
  obtain ⟨rfl, rfl⟩ := Prod.mk.inj (Except.ok.inj h)
  refine ⟨rooted_some.mpr (.node ?_ nofun), hc.passToken hSplit⟩
  rcases hKind with hFree | ⟨rfl, hEscape⟩
  · exact .of_isFree hc.boundary hFree
  · refine ⟨hc.boundary, nofun, fun _ => ?_, nofun⟩
    exact (hc.slice_advance hSplit).symm ▸ hEscape

/-- A string literal is made of plain characters and escape sequences. -/
theorem stringPiece_keeps (quote : Char) : (stringPiece quote).Keeps := by
  intro c hc o c' hResult
  unfold stringPiece at hResult
  dsimp only at hResult
  split at hResult
  case h_1 s _ hPlain => exact literalPiece_keeps hc (splits_plain hPlain) (.inl rfl) hResult
  case h_2 s _ hEscape =>
    exact literalPiece_keeps hc (splits_escape _ _ _ hEscape)
      (.inr ⟨rfl, splits_escape.isLexeme hEscape⟩) hResult
  case h_3 =>
    obtain ⟨rfl, rfl⟩ := Prod.mk.inj (Except.ok.inj hResult)
    exact ⟨rooted_none, hc⟩

/-- The closing quote is passed, or there is no literal. -/
theorem closingQuote_keeps (start : Nat) (quote : Char) : (closingQuote start quote).Keeps := by
  intro c hc u c' hResult
  unfold closingQuote at hResult
  dsimp only at hResult
  split at hResult
  case h_1 => exact nomatch hResult
  case h_2 d rest hRest =>
    split at hResult
    · obtain ⟨rfl, rfl⟩ := Prod.mk.inj (Except.ok.inj hResult)
      exact ⟨rooted_unit _, (hc.passTrivia false).passToken hRest⟩
    · split at hResult
      · exact nomatch hResult
      · split at hResult
        · exact nomatch hResult
        · exact nomatch hResult

/-- A string literal is of the kind of strings. -/
theorem stringLiteral_gives : stringLiteral.Gives fun t => Rooted t ∧ t.kind = .string := by
  refine bind_keeps mark_keeps fun start hStart => ?_
  refine bind_keeps operand_keeps fun t _ => ?_
  split
  case h_1 q _ =>
    refine bind_keeps (lexeme_keeps splits_firstChar) fun _ _ => ?_
    refine bind_keeps (many_keeps (stringPiece_keeps q)) fun pieces hPieces => ?_
    refine bind_keeps (closingQuote_keeps start q) fun _ _ => ?_
    exact node_gives hStart (takes_of_isFree rfl pieces) hPieces
  case h_2 => exact unexpected_keeps

theorem stringLiteral_keeps : stringLiteral.Keeps := stringLiteral_gives.mono fun _ h => h.1

theorem numberLiteral_keeps : numberLiteral.Keeps := leaf_keeps readBy_number

/-- The slashes, the body and the flags of a regular expression are lexemes. -/
theorem regexLiteral_keeps : regexLiteral.Keeps := by
  refine bind_keeps mark_keeps fun start hStart => ?_
  refine bind_keeps (lexeme_keeps splits_slash) fun _ _ => ?_
  refine bind_keeps (immediate_keeps splits_regexBody) fun _ _ => ?_
  refine bind_keeps (immediate_keeps splits_slash) fun _ _ => ?_
  refine bind_keeps (immediate_keeps (splits_spanWhile _)) fun _ _ => ?_
  exact node_keeps hStart (takes_of_isFree rfl []) rooted_nil

/-- A property is named by a literal, a word, a private name or an expression in brackets. -/
theorem propertyName_keeps (hr : r.Keep) : (propertyName r).Keeps := by
  refine bind_keeps mark_keeps fun start hStart => ?_
  refine bind_keeps operand_keeps fun t _ => ?_
  cases t with
  | quote => exact stringLiteral_keeps
  | numeral => exact numberLiteral_keeps
  | privateName => exact leaf_keeps readBy_privatePropertyIdentifier
  | word => exact leaf_keeps readBy_propertyIdentifier
  | _ =>
    refine bind_keeps (punctuator_keeps "[") fun _ _ => ?_
    refine bind_keeps (hr.expression {}) fun e he => ?_
    refine bind_keeps (punctuator_keeps "]") fun _ _ => ?_
    exact node_keeps hStart (takes_of_isFree rfl [e]) (rooted_single he)

-- ---------------------------------------------------------------------------
-- Lists and sequences
-- ---------------------------------------------------------------------------

theorem commas_keeps : commas.Keeps := by
  refine bind_keeps (many_keeps ?_) fun _ _ => pure_keeps (rooted_unit ())
  refine bind_keeps (punctuatorIf_keeps ",") fun _ _ => ?_
  exact ite_keeps (pure_keeps (rooted_some.mpr (rooted_unit ()))) none_keeps

/-- Items with commas between them are rooted, each as a step of a repetition. -/
theorem itemsUntil_keeps (close : Text) {item : Parser SyntaxTree} (hItem : item.Keeps) :
    (itemsUntil close item).Keeps := by
  refine bind_keeps (many_keeps ?_) fun items hItems => ?_
  · refine bind_keeps commas_keeps fun _ _ => ?_
    refine bind_keeps operand_keeps fun t _ => ?_
    refine ite_keeps none_keeps ?_
    refine bind_keeps hItem fun i hi => ?_
    refine bind_keeps (atPunctuator_keeps close) fun _ _ => ?_
    exact skip_keeps (punctuator_keeps ",") fun _ => pure_keeps (rooted_some.mpr hi)
  · exact bind_keeps (punctuator_keeps close) fun _ _ => pure_keeps hItems

/-- The dots before an expression make a node of their own. -/
theorem spreadable_keeps (hr : r.Keep) : (spreadable r).Keeps := by
  refine bind_keeps mark_keeps fun start hStart => ?_
  refine bind_keeps (punctuatorIf_keeps "...") fun _ _ => ?_
  refine ite_keeps ?_ (hr.expression {})
  exact bind_keeps (hr.expression {}) fun e he => other_keeps hStart (rooted_single he)

/-- Arguments are items in parentheses. -/
theorem arguments_keeps (hr : r.Keep) : (arguments r).Keeps := by
  refine bind_keeps mark_keeps fun start hStart => ?_
  refine bind_keeps (punctuator_keeps "(") fun _ _ => ?_
  refine bind_keeps (itemsUntil_keeps ")" (spreadable_keeps hr)) fun items hItems => ?_
  exact node_keeps hStart (takes_of_isFree rfl items) hItems

/-- A sequence begins where its first expression does. -/
theorem sequenceFrom_keeps (hr : r.Keep) (ctx : Context) {first : SyntaxTree}
    (hFirst : Rooted first) : (sequenceFrom r ctx first).Keeps := by
  refine bind_keeps (many_keeps ?_) fun others hOthers => ?_
  · refine bind_keeps (punctuatorIf_keeps ",") fun _ _ => ?_
    exact ite_keeps (some_keeps (hr.expression ctx)) none_keeps
  · refine ite_keeps (pure_keeps hFirst) ?_
    exact other_keeps (rooted_start hFirst) (rooted_cons.mpr ⟨hFirst, hOthers⟩)

/-- Expressions with commas between them are an expression and a sequence from there. -/
theorem expressions_keeps (hr : r.Keep) (ctx : Context) : (expressions r ctx).Keeps :=
  bind_keeps (hr.expression ctx) fun _ hFirst => sequenceFrom_keeps hr ctx hFirst

/-- Parentheses make a node around what they enclose. -/
theorem parenthesized_keeps (hr : r.Keep) : (parenthesized r).Keeps := by
  refine bind_keeps mark_keeps fun start hStart => ?_
  refine bind_keeps (punctuator_keeps "(") fun _ _ => ?_
  refine bind_keeps (expressions_keeps hr {}) fun e he => ?_
  refine bind_keeps (punctuator_keeps ")") fun _ _ => ?_
  exact node_keeps hStart (takes_of_isFree rfl [e]) (rooted_single he)

/-- A substitution in a template is an expression in braces. -/
theorem substitution_keeps (hr : r.Keep) {start : Nat} (hStart : Rooted start) :
    (do
      let e ← expressions r {}
      punctuator rightBrace
      let n ← node (.other "template_substitution") start [e]
      pure (some n) : Parser (Option SyntaxTree)).Keeps := by
  refine bind_keeps (expressions_keeps hr {}) fun e he => ?_
  refine bind_keeps (punctuator_keeps rightBrace) fun _ _ => ?_
  exact some_keeps (other_keeps hStart (rooted_single he))

/-- A template is made of plain characters, escape sequences and substitutions. -/
theorem templatePiece_keeps (hr : r.Keep) : (templatePiece r).Keeps := by
  intro c hc o c' hResult
  unfold templatePiece at hResult
  split at hResult
  case h_1 rest hRest =>
    have hAfter : (c.passToken (['$', '{'], rest)).Stands := hc.passToken hRest
    exact substitution_keeps hr hc.boundary _ hAfter o c' hResult
  case h_2 =>
    obtain ⟨rfl, rfl⟩ := Prod.mk.inj (Except.ok.inj hResult)
    exact ⟨rooted_none, hc⟩
  case h_3 =>
    split at hResult
    case h_1 s hEscape =>
      exact literalPiece_keeps hc (splits_escape _ _ _ hEscape)
        (.inr ⟨rfl, splits_escape.isLexeme hEscape⟩) hResult
    case h_2 => exact nomatch hResult
  case h_4 d rest _ _ _ hRest => exact literalPiece_keeps hc (by exact hRest) (.inl rfl) hResult
  case h_5 => exact nomatch hResult

/-- The backquotes of a template are lexemes. -/
theorem template_keeps (hr : r.Keep) : (template r).Keeps := by
  refine bind_keeps mark_keeps fun start hStart => ?_
  refine bind_keeps (lexeme_keeps (splits_firstCharIf _)) fun _ _ => ?_
  refine bind_keeps (many_keeps (templatePiece_keeps hr)) fun pieces hPieces => ?_
  refine bind_keeps (immediate_keeps (splits_firstCharIf _)) fun _ _ => ?_
  exact node_keeps hStart (takes_of_isFree rfl pieces) hPieces

-- ---------------------------------------------------------------------------
-- Functions
-- ---------------------------------------------------------------------------

/-- A pattern with a value to fall back to begins where the pattern does. -/
theorem defaulted_keeps (hr : r.Keep) : (defaulted r).Keeps := by
  refine bind_keeps hr.pattern fun p hp => ?_
  refine bind_keeps (punctuatorIf_keeps "=") fun _ _ => ?_
  refine ite_keeps ?_ (pure_keeps hp)
  exact bind_keeps (hr.expression {}) fun v hv => other_keeps (rooted_start hp) (rooted_two hp hv)

/-- Parameters are patterns in parentheses. -/
theorem parameters_keeps (hr : r.Keep) : (parameters r).Keeps := by
  refine bind_keeps mark_keeps fun start hStart => ?_
  refine bind_keeps (punctuator_keeps "(") fun _ _ => ?_
  refine bind_keeps (many_keeps ?_) fun items hItems => ?_
  · refine bind_keeps operand_keeps fun t _ => ?_
    refine ite_keeps none_keeps ?_
    refine bind_keeps (defaulted_keeps hr) fun p hp => ?_
    refine bind_keeps (atPunctuator_keeps ")") fun _ _ => ?_
    exact skip_keeps (punctuator_keeps ",") fun _ => pure_keeps (rooted_some.mpr hp)
  · exact bind_keeps (punctuator_keeps ")") fun _ _ => other_keeps hStart hItems

/-- A block is made of statements, which the rules keep to the text. -/
theorem block_keeps (hr : r.Keep) (orFollows : Bool) : (block r orFollows).Keeps := by
  refine bind_keeps mark_keeps fun start hStart => ?_
  refine bind_keeps (punctuator_keeps leftBrace) fun _ _ => ?_
  refine bind_keeps (many_keeps ?_) fun statements hStatements => ?_
  · refine bind_keeps operand_keeps fun t _ => ?_
    exact ite_keeps none_keeps (some_keeps hr.statement)
  · refine bind_keeps (punctuator_keeps rightBrace) fun _ _ => ?_
    exact bind_keeps (omittedSemicolon_keeps orFollows) fun _ _ => other_keeps hStart hStatements

/-- The kind of a function asks nothing, whether it is named or a generator or neither. -/
theorem functionFrom_keeps (hr : r.Keep) {start : Nat} (hStart : Rooted start)
    (declares orFollows : Bool) : (functionFrom r start declares orFollows).Keeps := by
  refine bind_keeps (word_keeps "function") fun _ _ => ?_
  refine bind_keeps (punctuatorIf_keeps "*") fun generator _ => ?_
  refine bind_keeps operand_keeps fun t _ => ?_
  refine join_keeps (single_keeps variableName_keeps) (pure_keeps rooted_nil) fun name hName => ?_
  refine bind_keeps (parameters_keeps hr) fun params hParams => ?_
  refine bind_keeps (block_keeps hr orFollows) fun body hBody => ?_
  have hChildren : Rooted (name.map (·.inField .name) ++ [params.inField .parameters, body]) :=
    rooted_append.mpr ⟨rooted_map_inField.mpr hName, rooted_two (rooted_inField.mpr hParams) hBody⟩
  refine bind_keeps (node_keeps hStart ?_ hChildren) fun f hf => ?_
  · exact takes_of_isFree (isFree_functionKind _ _) _
  · exact pure_keeps (rooted_pair.mpr ⟨rooted_bool _, hf⟩)

/-- To look for a block takes nothing. -/
theorem blockAhead_keeps : blockAhead.Keeps := by
  refine bind_keeps (peek_keeps ?_) fun first _ => pure_keeps (rooted_bool _)
  exact bind_keeps (punctuator_keeps leftBrace) fun _ _ => operand_keeps

/-- The body of an arrow function is a block or an expression. -/
theorem arrowBody_keeps (hr : r.Keep) (ctx : Context) : (arrowBody r ctx).Keeps := by
  refine bind_keeps blockAhead_keeps fun _ _ => ite_keeps (block_keeps hr true) ?_
  refine bind_keeps operand_keeps fun t _ => ?_
  exact ite_keeps (orElse_keeps (block_keeps hr true) (hr.expression ctx)) (hr.expression ctx)

/-- An arrow function begins where its parameters do. -/
theorem arrowFrom_keeps (hr : r.Keep) (ctx : Context) {start : Nat} (hStart : Rooted start)
    (f : SyntaxField) {params : SyntaxTree} (hParams : Rooted params) :
    (arrowFrom r ctx start f params).Keeps := by
  refine bind_keeps (punctuator_keeps "=>") fun _ _ => ?_
  refine bind_keeps (arrowBody_keeps hr ctx) fun body hBody => ?_
  exact node_keeps hStart (takes_of_isFree rfl _) (rooted_two (rooted_inField.mpr hParams) hBody)

-- ---------------------------------------------------------------------------
-- Objects
-- ---------------------------------------------------------------------------

/-- A modifier is a word before the name of a property. -/
theorem modifier_keeps (w : Text) (starAllowed : Bool) : (modifier w starAllowed).Keeps := by
  have hNot : (pure false : Parser Bool).Keeps := pure_keeps (rooted_bool false)
  refine bind_keeps operand_keeps fun t _ => ite_keeps ?_ hNot
  exact bind_keeps second_keeps fun next _ => ite_keeps (wordIf_keeps w) hNot

/-- Modifiers come in a fixed order, and a star behind them. -/
theorem modifiers_keeps : modifiers.Keeps := by
  have hNot : (pure false : Parser Bool).Keeps := pure_keeps (rooted_bool false)
  refine bind_keeps (modifier_keeps "static" true) fun isStatic _ => ?_
  refine bind_keeps (modifier_keeps "async" true) fun isAsync _ => ?_
  refine bind_keeps (modifier_keeps "get" false) fun isGetter _ => ?_
  refine join_keeps hNot (modifier_keeps "set" false) fun isSetter _ => ?_
  refine join_keeps hNot (punctuatorIf_keeps "*") fun isGenerator _ => ?_
  exact pure_keeps (rooted_bool _)

/-- A method has its name, as its kind asks. -/
theorem methodFrom_keeps (hr : r.Keep) {start : Nat} (hStart : Rooted start) {name : SyntaxTree}
    (hName : Rooted name) : (methodFrom r start name).Keeps := by
  refine bind_keeps (parameters_keeps hr) fun params hParams => ?_
  refine bind_keeps (block_keeps hr false) fun body hBody => ?_
  refine node_keeps hStart (takes_methodDefinition _ _) (rooted_cons.mpr ⟨?_, ?_⟩)
  · exact rooted_inField.mpr hName
  · exact rooted_two (rooted_inField.mpr hParams) hBody

/-- An entry with a colon has a key and a value, as its kind asks. -/
theorem pairFrom_keeps (hr : r.Keep) {start : Nat} (hStart : Rooted start) {name : SyntaxTree}
    (hName : Rooted name) :
    (do
      punctuator ":"
      let value ← r.expression {}
      node .pair start [name.inField .key, value.inField .value] : Parser SyntaxTree).Keeps := by
  refine bind_keeps (punctuator_keeps ":") fun _ _ => ?_
  refine bind_keeps (hr.expression {}) fun value hValue => ?_
  refine node_keeps hStart (takes_pair _ _) ?_
  exact rooted_two (rooted_inField.mpr hName) (rooted_inField.mpr hValue)

-- The name of an entry that is all of it spans the same bytes as the entry, since no modifier stands
-- before it.

/-- A name of a property that is a word is the leaf of that word. -/
theorem leaf_of_propertyName {c c' : Cursor} {t : SyntaxTree} (hc : c.Stands)
    (h : propertyName r c = .ok (t, c')) (hKind : t.kind = .propertyIdentifier) :
    leaf .propertyIdentifier word? c = .ok (t, c') := by
  obtain ⟨start, c₁, hMark, h⟩ := bind_eq_ok.mp h
  obtain ⟨token, c₂, hOperand, h⟩ := bind_eq_ok.mp h
  obtain ⟨rfl, rfl⟩ := Prod.mk.inj (Except.ok.inj hMark)
  obtain ⟨-, rfl⟩ := Prod.mk.inj (Except.ok.inj hOperand)
  cases token with
  | word w => exact h
  | quote q =>
    have hString := (stringLiteral_gives _ hc t c' h).1.2
    exact nomatch hString.symm.trans hKind
  | numeral =>
    obtain ⟨s, -, -, rfl⟩ := leaf_eq_ok h
    exact nomatch hKind
  | privateName =>
    obtain ⟨s, -, -, rfl⟩ := leaf_eq_ok h
    exact nomatch hKind
  | _ =>
    obtain ⟨-, c₁, -, h⟩ := bind_eq_ok.mp h
    obtain ⟨e, c₂, -, h⟩ := bind_eq_ok.mp h
    obtain ⟨-, c₃, -, h⟩ := bind_eq_ok.mp h
    obtain ⟨rfl, -⟩ := Prod.mk.inj (Except.ok.inj h)
    exact nomatch hKind

/-- An entry that is a name alone spans a word, as the kinds of names ask. -/
theorem shorthand_keeps (hr : r.Keep) {c c' c'' : Cursor} {name t : SyntaxTree} (hc : c.Stands)
    (hName : propertyName r c = .ok (name, c')) (hKind : name.kind = .propertyIdentifier)
    (h : node .shorthandPropertyIdentifier (c.passTrivia true).offset [] c' = .ok (t, c'')) :
    Rooted t ∧ c''.Stands := by
  have hLeaf := leaf_of_propertyName hc hName hKind
  have hRaw := rawText_leaf splits_word hc hLeaf
  have hStands := (propertyName_keeps hr c hc name c' hName).2
  obtain ⟨s, -, -, rfl⟩ := leaf_eq_ok hLeaf
  obtain ⟨rfl, rfl⟩ := Prod.mk.inj (Except.ok.inj h)
  exact ⟨.node ⟨(hc.passTrivia true).boundary, fun _ => .inl hRaw, nofun, nofun⟩ nofun, hStands⟩

/-- An entry of an object is a method, a pair, a name alone, or an expression behind dots. -/
theorem entry_keeps (hr : r.Keep) : (entry r).Keeps := by
  intro c hc t c' h
  obtain ⟨start, c₁, hMark, h⟩ := bind_eq_ok.mp h
  obtain ⟨first, c₂, hOperand, h⟩ := bind_eq_ok.mp h
  obtain ⟨rfl, rfl⟩ := Prod.mk.inj (Except.ok.inj hMark)
  obtain ⟨-, rfl⟩ := Prod.mk.inj (Except.ok.inj hOperand)
  have hStart : Rooted (c.passTrivia true).offset := (hc.passTrivia true).boundary
  split at h
  · exact spreadable_keeps hr c hc t c' h
  obtain ⟨modified, c₁, hModifiers, h⟩ := bind_eq_ok.mp h
  have hc₁ := (modifiers_keeps c hc _ c₁ hModifiers).2
  obtain ⟨name, c₂, hName, h⟩ := bind_eq_ok.mp h
  obtain ⟨hNameRooted, hc₂⟩ := propertyName_keeps hr c₁ hc₁ name c₂ hName
  obtain ⟨next, c₃, hOperator, h⟩ := bind_eq_ok.mp h
  obtain ⟨-, rfl⟩ := Prod.mk.inj (Except.ok.inj hOperator)
  split at h
  · exact methodFrom_keeps hr hStart hNameRooted c₂ hc₂ t c' h
  split at h
  · exact nomatch h
  split at h
  · exact pairFrom_keeps hr hStart hNameRooted c₂ hc₂ t c' h
  split at h
  case isTrue _ hUnmodified _ hKind =>
    rw [Bool.eq_false_iff.mpr hUnmodified] at hModifiers
    rw [modifiers_eq_false hModifiers] at hName
    exact shorthand_keeps hr hc hName (beq_iff_eq.mp hKind) h
  · exact nomatch h

/-- An object literal is made of entries in braces. -/
theorem objectLiteral_keeps (hr : r.Keep) : (objectLiteral r).Keeps := by
  refine bind_keeps mark_keeps fun start hStart => ?_
  refine bind_keeps (punctuator_keeps leftBrace) fun _ _ => ?_
  refine bind_keeps (itemsUntil_keeps rightBrace (entry_keeps hr)) fun entries hEntries => ?_
  exact node_keeps hStart (takes_of_isFree rfl entries) hEntries

/-- An array literal is made of expressions in brackets. -/
theorem arrayLiteral_keeps (hr : r.Keep) : (arrayLiteral r).Keeps := by
  refine bind_keeps mark_keeps fun start hStart => ?_
  refine bind_keeps (punctuator_keeps "[") fun _ _ => ?_
  refine bind_keeps (itemsUntil_keeps "]" (spreadable_keeps hr)) fun elements hElements => ?_
  exact node_keeps hStart (takes_of_isFree rfl elements) hElements

-- ---------------------------------------------------------------------------
-- Classes
-- ---------------------------------------------------------------------------

/-- A member of a class is a static block, a method, or a field with a value or without. -/
theorem classMember_keeps (hr : r.Keep) : (classMember r).Keeps := by
  refine bind_keeps mark_keeps fun start hStart => ?_
  refine bind_keeps operand_keeps fun t _ => bind_keeps second_keeps fun t' _ => ite_keeps ?_ ?_
  · refine bind_keeps (word_keeps "static") fun _ _ => ?_
    exact bind_keeps (block_keeps hr false) fun b hb => other_keeps hStart (rooted_single hb)
  refine bind_keeps modifiers_keeps fun _ _ => ?_
  refine bind_keeps (propertyName_keeps hr) fun name hName => ?_
  refine bind_keeps operator_keeps fun next _ => ite_keeps ?_ (ite_keeps ?_ ?_)
  · refine bind_keeps (methodFrom_keeps hr hStart hName) fun m hm => ?_
    exact bind_keeps (punctuatorIf_keeps ";") fun _ _ => pure_keeps hm
  · refine bind_keeps (punctuator_keeps "=") fun _ _ => ?_
    refine bind_keeps (hr.expression _) fun value hValue => ?_
    refine bind_keeps (other_keeps hStart (rooted_two hName hValue)) fun field hField => ?_
    exact bind_keeps (semicolon_keeps true) fun _ _ => pure_keeps hField
  · refine bind_keeps (other_keeps hStart (rooted_single hName)) fun field hField => ?_
    exact bind_keeps (semicolon_keeps false) fun _ _ => pure_keeps hField

/-- Between the members of a class any number of semicolons may stand. -/
theorem classBody_keeps (hr : r.Keep) : (classBody r).Keeps := by
  refine bind_keeps mark_keeps fun start hStart => ?_
  refine bind_keeps (punctuator_keeps leftBrace) fun _ _ => ?_
  refine bind_keeps (many_keeps ?_) fun members hMembers => ?_
  · refine bind_keeps (many_keeps ?_) fun _ _ => ?_
    · refine bind_keeps (punctuatorIf_keeps ";") fun _ _ => ?_
      exact ite_keeps (pure_keeps (rooted_some.mpr (rooted_unit ()))) none_keeps
    · refine bind_keeps operand_keeps fun t _ => ?_
      exact ite_keeps none_keeps (some_keeps (classMember_keeps hr))
  · exact bind_keeps (punctuator_keeps rightBrace) fun _ _ => other_keeps hStart hMembers

/-- A class is of a kind that asks nothing of it. -/
theorem classFrom_gives (hr : r.Keep) (declares : Bool) :
    (classFrom r declares).Gives fun a => Rooted a ∧ a.2.kind.isFree = true := by
  refine bind_keeps mark_keeps fun start hStart => ?_
  refine bind_keeps (word_keeps "class") fun _ _ => ?_
  refine bind_keeps operand_keeps fun t _ => ?_
  refine join_keeps (single_keeps variableName_keeps) (pure_keeps rooted_nil) fun name hName => ?_
  refine bind_keeps (wordIf_keeps "extends") fun _ _ => ?_
  refine join_keeps (single_keeps (hr.expression {})) (pure_keeps rooted_nil)
    fun heritage hHeritage => ?_
  refine bind_keeps (classBody_keeps hr) fun body hBody => ?_
  have hKind := isFree_classKind (declares && !name.isEmpty)
  have hChildren : Rooted (name ++ heritage ++ [body]) :=
    rooted_append.mpr ⟨rooted_append.mpr ⟨hName, hHeritage⟩, rooted_single hBody⟩
  refine bind_keeps (node_gives hStart (takes_of_isFree hKind _) hChildren) fun c hc => ?_
  refine pure_keeps ⟨rooted_pair.mpr ⟨rooted_bool _, hc.1⟩, ?_⟩
  rw [hc.2]
  exact hKind

theorem classFrom_keeps (hr : r.Keep) (declares : Bool) : (classFrom r declares).Keeps :=
  (classFrom_gives hr declares).mono fun _ h => h.1

-- ---------------------------------------------------------------------------
-- Patterns
-- ---------------------------------------------------------------------------

/-- An entry of a pattern binds a property to a pattern or to its own name. -/
theorem patternEntry_keeps (hr : r.Keep) : (patternEntry r).Keeps := by
  refine bind_keeps mark_keeps fun start hStart => ?_
  refine bind_keeps operand_keeps fun t _ => ite_keeps hr.pattern ?_
  refine bind_keeps (propertyName_keeps hr) fun name hName => ?_
  refine bind_keeps (punctuatorIf_keeps ":") fun _ _ => ite_keeps ?_ (ite_keeps ?_ unexpected_keeps)
  · exact bind_keeps (defaulted_keeps hr) fun p hp => other_keeps hStart (rooted_two hName hp)
  · refine bind_keeps (punctuatorIf_keeps "=") fun _ _ => ite_keeps ?_ ?_
    · exact bind_keeps (hr.expression {}) fun v hv => other_keeps hStart (rooted_two hName hv)
    · exact other_keeps hStart rooted_nil

/-- A pattern in braces is made of entries, one in brackets of patterns. -/
theorem destructuring_keeps (hr : r.Keep) : (destructuring r).Keeps := by
  refine bind_keeps mark_keeps fun start hStart => ?_
  refine bind_keeps (punctuatorIf_keeps leftBrace) fun _ _ => ite_keeps ?_ ?_
  · refine bind_keeps (itemsUntil_keeps rightBrace (patternEntry_keeps hr)) fun entries hEntries => ?_
    exact other_keeps hStart hEntries
  · refine bind_keeps (punctuator_keeps "[") fun _ _ => ?_
    refine bind_keeps (itemsUntil_keeps "]" (defaulted_keeps hr)) fun elements hElements => ?_
    exact other_keeps hStart hElements

/-- A declaration binds a name or a pattern. -/
theorem binding_keeps (hr : r.Keep) : (binding r).Keeps :=
  bind_keeps operand_keeps fun _ _ => ite_keeps variableName_keeps (destructuring_keeps hr)

/-- A pattern may have dots before it. -/
theorem patternWith_keeps (hr : r.Keep) {target : Parser SyntaxTree} (hTarget : target.Keeps) :
    (patternWith r target).Keeps := by
  have hPlain : (do
      let next ← operand
      if next.is leftBrace || next.is "[" then destructuring r
      else
        let t ← target
        if isTarget t.kind then pure t else unexpected : Parser SyntaxTree).Keeps := by
    refine bind_keeps operand_keeps fun next _ => ite_keeps (destructuring_keeps hr) ?_
    exact bind_keeps hTarget fun t ht => ite_keeps (pure_keeps ht) unexpected_keeps
  refine bind_keeps mark_keeps fun start hStart => ?_
  refine bind_keeps (punctuatorIf_keeps "...") fun _ _ => ite_keeps ?_ hPlain
  exact bind_keeps hPlain fun p hp => other_keeps hStart (rooted_single hp)

-- ---------------------------------------------------------------------------
-- Operands
-- ---------------------------------------------------------------------------

/-- A word with a meaning of its own is a leaf. -/
theorem wordExpression_keeps : wordExpression.Keeps := by
  refine bind_keeps operand_keeps fun t _ => ?_
  split
  case h_1 w _ => exact leaf_keeps (readBy_other splits_word w)
  case h_2 => exact unexpected_keeps

/-- Behind the word `async` a function may begin, or else the word is a name. -/
theorem asyncOperand_keeps (hr : r.Keep) (ctx : Context) : (asyncOperand r ctx).Keeps := by
  refine bind_keeps (leaf_keeps readBy_identifier) fun name hName => ?_
  have hStart := rooted_start hName
  refine bind_keeps (atStatementEnd_keeps true) fun _ _ => ite_keeps (pure_keeps hName) ?_
  refine bind_keeps operator_keeps fun next _ => ite_keeps ?_ (ite_keeps ?_ ?_)
  · exact bind_keeps (functionFrom_keeps hr hStart false true) fun f hf => pure_keeps hf.2
  · exact arrowFrom_keeps hr ctx hStart .parameter hName
  refine bind_keeps second_keeps fun t _ => ite_keeps ?_ (ite_keeps ?_ (pure_keeps hName))
  · exact bind_keeps variableName_keeps fun p hp => arrowFrom_keeps hr ctx hStart .parameter hp
  -- parentheses behind the word are parameters only before an arrow
  refine bind_keeps (orElse_keeps ?_ none_keeps) fun header hHeader => ?_
  · refine bind_keeps (parameters_keeps hr) fun params hParams => ?_
    refine bind_keeps operator_keeps fun t _ => ?_
    exact ite_keeps (pure_keeps (rooted_some.mpr hParams)) unexpected_keeps
  · cases header with
    | none => exact pure_keeps hName
    | some params => exact arrowFrom_keeps hr ctx hStart .parameters (rooted_some.mp hHeader)

/-- The word `import` can be called, or has a property. -/
theorem importOperand_keeps : importOperand.Keeps := by
  refine bind_keeps mark_keeps fun start hStart => ?_
  refine bind_keeps (word_keeps "import") fun _ _ => ?_
  refine bind_keeps operator_keeps fun next _ => ite_keeps ?_ (ite_keeps ?_ unexpected_keeps)
  · refine bind_keeps (punctuator_keeps ".") fun _ _ => ?_
    exact bind_keeps (word_keeps "meta") fun _ _ => other_keeps hStart rooted_nil
  · exact other_keeps hStart rooted_nil

/-- Parentheses are read as such first, and as parameters if that fails. -/
theorem parenthesizedOrArrow_keeps (hr : r.Keep) (ctx : Context) :
    (parenthesizedOrArrow r ctx).Keeps := by
  refine bind_keeps mark_keeps fun start hStart => orElse_keeps ?_ ?_
  · refine bind_keeps (parenthesized_keeps hr) fun e he => ?_
    exact bind_keeps operator_keeps fun t _ => ite_keeps unexpected_keeps (pure_keeps he)
  · refine bind_keeps (parameters_keeps hr) fun params hParams => ?_
    exact arrowFrom_keeps hr ctx hStart .parameters hParams

/-- An operand that begins with a word. -/
theorem wordOperand_keeps (hr : r.Keep) (ctx : Context) (w : Text) :
    (if w = ("async" : Text) then asyncOperand r ctx
      else if w = ("function" : Text) then do
        let (_, f) ← functionFrom r (← mark) false true
        pure f
      else if w = ("class" : Text) then do
        let (_, c) ← classFrom r false
        pure c
      else if w = ("new" : Text) then r.creation
      else if w = ("import" : Text) then importOperand
      else if ["this", "super", "null", "true", "false", "undefined"].contains (String.ofList w) then
        wordExpression
      else do
        let name ← variableName
        if (← operator).is "=>" then arrowFrom r ctx name.start .parameter name else pure name :
      Parser SyntaxTree).Keeps := by
  refine ite_keeps (asyncOperand_keeps hr ctx) (ite_keeps ?_ (ite_keeps ?_ ?_))
  · refine bind_keeps mark_keeps fun start hStart => ?_
    exact bind_keeps (functionFrom_keeps hr hStart false true) fun f hf => pure_keeps hf.2
  · exact bind_keeps (classFrom_keeps hr false) fun c hc => pure_keeps hc.2
  refine ite_keeps hr.creation (ite_keeps importOperand_keeps (ite_keeps wordExpression_keeps ?_))
  refine bind_keeps variableName_keeps fun name hName => ?_
  refine bind_keeps operator_keeps fun t _ => ite_keeps ?_ (pure_keeps hName)
  exact arrowFrom_keeps hr ctx (rooted_start hName) .parameter hName

/-- The innermost part of an operand, by its first token. -/
theorem primary_keeps (hr : r.Keep) (ctx : Context) : (primary r ctx).Keeps := by
  refine bind_keeps operand_keeps fun t _ => ?_
  cases t with
  | numeral => exact numberLiteral_keeps
  | quote => exact stringLiteral_keeps
  | backquote => exact template_keeps hr
  | privateName =>
    refine bind_keeps (leaf_keeps readBy_privatePropertyIdentifier) fun name hName => ?_
    exact bind_keeps operator_keeps fun t _ => ite_keeps (pure_keeps hName) unexpected_keeps
  | word w => exact wordOperand_keeps hr ctx w
  | _ =>
    refine ite_keeps (parenthesizedOrArrow_keeps hr ctx) (ite_keeps (objectLiteral_keeps hr) ?_)
    exact ite_keeps (arrayLiteral_keeps hr) (ite_keeps regexLiteral_keeps unexpected_keeps)

/-- A member, an element or a template begins where the expression before it does. -/
theorem memberStep_keeps (hr : r.Keep) {base : SyntaxTree} (hBase : Rooted base) :
    (memberStep r base).Keeps := by
  have hStart := rooted_start hBase
  have hMember : (do
      let name ← memberName
      some <$> node (.other "member_expression") base.start [base, name] :
        Parser (Option SyntaxTree)).Keeps := by
    refine bind_keeps memberName_keeps fun name hName => ?_
    exact map_keeps (other_keeps hStart (rooted_two hBase hName)) fun _ => rooted_some.mpr
  have hElement : (do
      punctuator "["
      let index ← expressions r {}
      punctuator "]"
      some <$> node (.other "subscript_expression") base.start [base, index] :
        Parser (Option SyntaxTree)).Keeps := by
    refine bind_keeps (punctuator_keeps "[") fun _ _ => ?_
    refine bind_keeps (expressions_keeps hr {}) fun index hIndex => ?_
    refine bind_keeps (punctuator_keeps "]") fun _ _ => ?_
    exact map_keeps (other_keeps hStart (rooted_two hBase hIndex)) fun _ => rooted_some.mpr
  refine bind_keeps operator_keeps fun next _ => ite_keeps ?_ (ite_keeps hElement (ite_keeps ?_ ?_))
  · exact bind_keeps (punctuator_keeps ".") fun _ _ => hMember
  · refine bind_keeps second_keeps fun t _ => ite_keeps none_keeps ?_
    refine bind_keeps (punctuator_keeps "?.") fun _ _ => ?_
    exact bind_keeps operand_keeps fun t _ => ite_keeps hElement hMember
  · refine ite_keeps ?_ none_keeps
    refine bind_keeps (template_keeps hr) fun t ht => ?_
    refine map_keeps (node_keeps hStart (takes_call _ _) ?_) fun _ => rooted_some.mpr
    exact rooted_two (rooted_inField.mpr hBase) (rooted_inField.mpr ht)

/-- A call has the expression before it as its function. -/
theorem postfixStep_keeps (hr : r.Keep) (ctx : Context) {base : SyntaxTree} (hBase : Rooted base) :
    (postfixStep r ctx base).Keeps := by
  have hStart := rooted_start hBase
  have hCall : (do
      let a ← arguments r
      some <$> node .call base.start [base.inField .function, a.inField .arguments] :
        Parser (Option SyntaxTree)).Keeps := by
    refine bind_keeps (arguments_keeps hr) fun a ha => ?_
    refine map_keeps (node_keeps hStart (takes_call _ _) ?_) fun _ => rooted_some.mpr
    exact rooted_two (rooted_inField.mpr hBase) (rooted_inField.mpr ha)
  refine bind_keeps operator_keeps fun next _ => ite_keeps hCall ?_
  refine bind_keeps second_keeps fun t _ => ite_keeps ?_ (ite_keeps ?_ (memberStep_keeps hr hBase))
  · exact bind_keeps (punctuator_keeps "?.") fun _ _ => hCall
  · refine bind_keeps (atStatementEnd_keeps true) fun _ _ => ite_keeps none_keeps ?_
    refine bind_keeps (lexeme_keeps splits_punctuator) fun _ _ => ?_
    exact map_keeps (other_keeps hStart (rooted_single hBase)) fun _ => rooted_some.mpr

/-- Whatever is appended to an expression keeps to the text, by steps. -/
theorem postfixFrom_keeps (hr : r.Keep) (ctx : Context) {base : SyntaxTree} (hBase : Rooted base) :
    (postfixFrom r ctx base).Keeps :=
  extend_keeps hBase fun _ hb => postfixStep_keeps hr ctx hb

/-- An assignment begins where its target does. -/
theorem assignmentFrom_keeps (hr : r.Keep) (ctx : Context) {base : SyntaxTree}
    (hBase : Rooted base) : (assignmentFrom r ctx base).Keeps := by
  have hStart := rooted_start hBase
  refine bind_keeps operator_keeps fun t _ => ?_
  split
  case h_1 p _ =>
    refine ite_keeps ?_ (ite_keeps ?_ (pure_keeps hBase))
    · refine bind_keeps (punctuator_keeps p) fun _ _ => ?_
      exact bind_keeps (hr.expression ctx) fun v hv => other_keeps hStart (rooted_two hBase hv)
    · refine bind_keeps (punctuator_keeps p) fun _ _ => ?_
      exact bind_keeps (hr.expression ctx) fun v hv => other_keeps hStart (rooted_two hBase hv)
  case h_2 => exact pure_keeps hBase

/-- What is appended to an expression comes before what is assigned to it. -/
theorem leftHandSideFrom_keeps (hr : r.Keep) (ctx : Context) {base : SyntaxTree}
    (hBase : Rooted base) : (leftHandSideFrom r ctx base).Keeps :=
  bind_keeps (postfixFrom_keeps hr ctx hBase) fun _ he => assignmentFrom_keeps hr ctx he

/-- A literal in braces or brackets is read again as a pattern if something is assigned to it. -/
theorem leftHandSide_keeps (hr : r.Keep) (ctx : Context) : (leftHandSide r ctx).Keeps := by
  refine bind_keeps operand_keeps fun next _ => ite_keeps (orElse_keeps ?_ ?_) ?_
  · refine bind_keeps (primary_keeps hr ctx) fun e he => ?_
    refine bind_keeps operator_keeps fun t _ => ite_keeps unexpected_keeps ?_
    exact leftHandSideFrom_keeps hr ctx he
  · refine bind_keeps (destructuring_keeps hr) fun p hp => ?_
    refine bind_keeps (punctuator_keeps "=") fun _ _ => ?_
    refine bind_keeps (hr.expression ctx) fun value hValue => ?_
    exact other_keeps (rooted_start hp) (rooted_two hp hValue)
  · exact bind_keeps (primary_keeps hr ctx) fun e he => leftHandSideFrom_keeps hr ctx he

/-- Behind `yield` at most one expression stands. -/
theorem yielded_keeps (hr : r.Keep) (ctx : Context) : (yielded r ctx).Keeps := by
  have hNothing : (pure [] : Parser (List SyntaxTree)).Keeps := pure_keeps rooted_nil
  refine bind_keeps (atStatementEnd_keeps true) fun _ _ => ite_keeps hNothing ?_
  refine bind_keeps (punctuatorIf_keeps "*") fun _ _ => ?_
  refine ite_keeps (single_keeps (hr.expression ctx)) ?_
  exact bind_keeps operand_keeps fun t _ => ite_keeps (single_keeps (hr.expression ctx)) hNothing

/-- What `new` creates has members but no calls before its arguments. -/
theorem creation_keeps (hr : r.Keep) : (creation r).Keeps := by
  refine bind_keeps mark_keeps fun start hStart => ?_
  refine bind_keeps (word_keeps "new") fun _ _ => ?_
  refine bind_keeps (punctuatorIf_keeps ".") fun _ _ => ite_keeps ?_ ?_
  · exact bind_keeps (word_keeps "target") fun _ _ => other_keeps hStart rooted_nil
  have hArguments (base : SyntaxTree) (hBase : Rooted base) : (do
      let args ← if (← operator).is "(" then single (arguments r) else pure []
      node (.other "new_expression") start (base :: args) : Parser SyntaxTree).Keeps := by
    refine bind_keeps operator_keeps fun t _ => ?_
    refine join_keeps (single_keeps (arguments_keeps hr)) (pure_keeps rooted_nil) fun args hArgs => ?_
    exact other_keeps hStart (rooted_cons.mpr ⟨hBase, hArgs⟩)
  refine bind_keeps operand_keeps fun t _ => ite_keeps (bind_keeps hr.creation hArguments) ?_
  refine bind_keeps (primary_keeps hr {}) fun e he => ?_
  exact bind_keeps (extend_keeps he fun _ hb => memberStep_keeps hr hb) hArguments

/-- Unary operators go before an operand that the rules read. -/
theorem unary_keeps (hr : r.Keep) (ctx : Context) : (unary r ctx).Keeps := by
  have hOther := leftHandSide_keeps hr ctx
  refine bind_keeps mark_keeps fun start hStart => ?_
  have hOperation (name : Text) : (do
      let e ← r.unary ctx
      node (.other name) start [e] : Parser SyntaxTree).Keeps :=
    bind_keeps (hr.unary ctx) fun e he => other_keeps hStart (rooted_single he)
  refine bind_keeps operand_keeps fun t _ => ?_
  split
  case h_1 w _ =>
    refine ite_keeps ?_ (ite_keeps ?_ (ite_keeps ?_ hOther))
    · exact bind_keeps (word_keeps w) fun _ _ => hOperation _
    · exact bind_keeps (word_keeps w) fun _ _ => hOperation _
    · refine bind_keeps (word_keeps w) fun _ _ => ?_
      exact bind_keeps (yielded_keeps hr ctx) fun e he => other_keeps hStart he
  case h_2 p _ =>
    refine ite_keeps ?_ (ite_keeps ?_ hOther)
    · exact bind_keeps (punctuator_keeps p) fun _ _ => hOperation _
    · exact bind_keeps (punctuator_keeps p) fun _ _ => hOperation _
  case h_3 => exact hOther

/-- What can be assigned to is a word with members. -/
theorem target_keeps (hr : r.Keep) : (target r).Keeps := by
  refine bind_keeps operand_keeps fun next _ => ite_keeps ?_ ?_
  · exact bind_keeps wordExpression_keeps fun e he => postfixFrom_keeps hr {} he
  · exact bind_keeps variableName_keeps fun name hName => postfixFrom_keeps hr {} hName

/-- Patterns are those whose innermost parts can be assigned to. -/
theorem pattern_keeps (hr : r.Keep) : (pattern r).Keeps := patternWith_keeps hr (target_keeps hr)

-- ---------------------------------------------------------------------------
-- Operations
-- ---------------------------------------------------------------------------

/-- An operation begins where its left operand does. -/
theorem operationStep_keeps (hr : r.Keep) (ctx : Context) (least : Nat) {left : SyntaxTree}
    (hLeft : Rooted left) : (operationStep r ctx least left).Keeps := by
  have hStart := rooted_start hLeft
  -- an operator of lower rank is left to the expression around
  have hBinary (symbol : Text) (rank : Nat) : (do
      if rank < least then pure none
      else do
        let _ ← orElse (punctuator symbol) (word symbol)
        let right ← r.climb ctx (rightRank symbol rank)
        some <$> node (.other "binary_expression") left.start [left, right] :
        Parser (Option SyntaxTree)).Keeps := by
    refine ite_keeps none_keeps ?_
    refine bind_keeps (orElse_keeps (punctuator_keeps symbol) (word_keeps symbol)) fun _ _ => ?_
    refine bind_keeps (hr.climb ctx _) fun right hRight => ?_
    exact map_keeps (other_keeps hStart (rooted_two hLeft hRight)) fun _ => rooted_some.mpr
  refine bind_keeps operator_keeps fun t _ => ?_
  cases t with
  | punctuator p =>
    refine ite_keeps (ite_keeps none_keeps ?_) ?_
    · refine bind_keeps (punctuator_keeps "?") fun _ _ => ?_
      refine bind_keeps (hr.expression {}) fun consequence hConsequence => ?_
      refine bind_keeps (punctuator_keeps ":") fun _ _ => ?_
      refine bind_keeps (hr.expression ctx) fun alternative hAlternative => ?_
      refine map_keeps (other_keeps hStart ?_) fun _ => rooted_some.mpr
      exact rooted_cons.mpr ⟨hLeft, rooted_two hConsequence hAlternative⟩
    · dsimp only
      cases rank? p with
      | none => exact none_keeps
      | some rank => exact hBinary p rank
  | word w =>
    refine ite_keeps none_keeps ?_
    dsimp only
    cases rank? w with
    | none => exact none_keeps
    | some rank => exact hBinary w rank
  | _ => exact none_keeps

/-- Operators join one after the other to what is on their left. -/
theorem operationsFrom_keeps (hr : r.Keep) (ctx : Context) (least : Nat) {left : SyntaxTree}
    (hLeft : Rooted left) : (operationsFrom r ctx least left).Keeps :=
  extend_keeps hLeft fun _ hb => operationStep_keeps hr ctx least hb

/-- An expression is an operand and the operations from there. -/
theorem climb_keeps (hr : r.Keep) (ctx : Context) (least : Nat) : (climb r ctx least).Keeps :=
  bind_keeps (unary_keeps hr ctx) fun _ hLeft => operationsFrom_keeps hr ctx least hLeft

/-- An expression can go on after an operand that has been read already. -/
theorem expressionsFrom_keeps (hr : r.Keep) (ctx : Context) {base : SyntaxTree}
    (hBase : Rooted base) : (expressionsFrom r ctx base).Keeps := by
  refine bind_keeps (leftHandSideFrom_keeps hr ctx hBase) fun e he => ?_
  refine bind_keeps (operationsFrom_keeps hr ctx 0 he) fun e' he' => ?_
  exact sequenceFrom_keeps hr ctx he'

end ClassTags.Grammar
