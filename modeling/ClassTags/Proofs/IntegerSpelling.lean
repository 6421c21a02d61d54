import ClassTags.Node.Reading
import Mathlib.Data.Nat.Digits.Lemmas
import Mathlib.Tactic.IntervalCases

/-!
# Spellings of integers

A number literal spells a natural number in one of five notations: decimal, hexadecimal, octal and
binary with a radix mark, and octal with a leading zero in place of the mark. Underscores may stand
between the digits. Whatever the spelling, the value of the literal is the decimal numeral of the
number, so members whose keys are such literals have one name just when the literals denote one
number.

The relation `Spells` says what the spellings are without the functions that read them: digits have
values, written in either case, and a number is the sum of its digits times the powers of the base.

Main definitions:

* `Number.Digits` — digits as they are written, with underscores between them;
* `Number.Spells` — the spellings of a number.

Main results:

* `Number.Numeral.digits?_eq` — reading a run of digits gives their number;
* `Number.length_le_of_lt` — a decimal spelling is as long as the numeral;
* `Literal.numberValue_of_spells` — the value of a literal does not depend on its spelling;
* `Literal.integer_key_names` — the names of members with integer keys.
-/

namespace ClassTags.Number

-- ---------------------------------------------------------------------------
-- Spellings
-- ---------------------------------------------------------------------------

/-- Whether a character stands for a digit of a base. Letters may be of either case. -/
def IsDigit (base d : Nat) (c : Char) : Prop :=
  d < base ∧ (c = d.digitChar ∨ c = d.digitChar.toUpper)

/-- Digits from the first to the last as they are written, with any number of underscores between
two of them. -/
inductive Digits (base : Nat) : List Nat → Text → Prop
  | last {d : Nat} {c : Char} (h : IsDigit base d c) : Digits base [d] [c]
  | cons {d : Nat} {c : Char} {ds : List Nat} {t : Text} (h : IsDigit base d c) (underscores : Nat)
      (rest : Digits base ds t) : Digits base (d :: ds) (c :: (List.replicate underscores '_' ++ t))

/-- The number with the given digits, the first of which counts most. -/
def value (base : Nat) (ds : List Nat) : Nat := Nat.ofDigits base ds.reverse

/-- The radix marks with their bases. -/
def radixMarks : List (Char × Nat) :=
  [('x', 16), ('X', 16), ('o', 8), ('O', 8), ('b', 2), ('B', 2)]

/-- The spellings of a number. -/
inductive Spells : Text → Nat → Prop
  /-- A decimal numeral has no zero in front of other digits. -/
  | decimal {ds : List Nat} {t : Text} (h : Digits 10 ds t) (hLead : ds = [0] ∨ ds.head? ≠ some 0) :
    Spells t (value 10 ds)
  /-- After a radix mark there may be zeros in front. -/
  | marked {mark : Char} {base : Nat} {ds : List Nat} {t : Text} (hMark : (mark, base) ∈ radixMarks)
      (h : Digits base ds t) : Spells ('0' :: mark :: t) (value base ds)
  /-- A zero in front of other octal digits. -/
  | legacyOctal {ds : List Nat} {t : Text} (h : Digits 8 (0 :: ds) t) (hMore : ds ≠ []) :
    Spells t (value 8 ds)

-- ---------------------------------------------------------------------------
-- Numerals without underscores
-- ---------------------------------------------------------------------------

/-- Digits as they are written without underscores. -/
def Numeral (base : Nat) (ds : List Nat) (cs : Text) : Prop := List.Forall₂ (IsDigit base) ds cs

/-- A character that is read as it is written. -/
structure Inert (c : Char) : Prop where
  ascii : c.toNat < 0x7F
  notPadding : isPadding c = false
  notSign : c ≠ '-' ∧ c ≠ '+'
  notUnderscore : c ≠ '_'

/-- A digit is no character that numerals treat in a way of their own. -/
theorem IsDigit.inert {base d : Nat} {c : Char} (hBase : base ≤ 16) (h : IsDigit base d c) :
    Inert c := by
  obtain ⟨hd, hc⟩ := h
  have hd : d < 16 := Nat.lt_of_lt_of_le hd hBase
  clear hBase
  interval_cases d <;> rcases hc with rfl | rfl <;>
    exact ⟨by decide, by decide, by decide, by decide⟩

/-- A digit is read as its value. -/
theorem IsDigit.digit?_eq {base d : Nat} {c : Char} (hBase : base ≤ 16) (h : IsDigit base d c) :
    digit? base c = some d := by
  obtain ⟨hd, hc⟩ := h
  have hValue : (if '0' ≤ c ∧ c ≤ '9' then some (c.toNat - 0x30)
      else if 'a' ≤ c ∧ c ≤ 'z' then some (c.toNat - 0x61 + 10)
      else if 'A' ≤ c ∧ c ≤ 'Z' then some (c.toNat - 0x41 + 10)
      else none) = some d := by
    have hd : d < 16 := Nat.lt_of_lt_of_le hd hBase
    clear hBase
    interval_cases d <;> rcases hc with rfl | rfl <;> decide
  unfold digit?
  rw [hValue]
  simpa using hd

theorem Digits.ne_nil {base : Nat} {ds : List Nat} {t : Text} (h : Digits base ds t) : ds ≠ [] := by
  cases h <;> exact List.cons_ne_nil _ _

/-- Without the underscores the digits are left. -/
theorem Digits.filter {base : Nat} {ds : List Nat} {t : Text} (hBase : base ≤ 16)
    (h : Digits base ds t) : Numeral base ds (t.filter (· != '_')) := by
  induction h with
  | last h =>
    have hc := bne_iff_ne.mpr (h.inert hBase).notUnderscore
    rw [List.filter_cons, if_pos hc]
    exact .cons h .nil
  | cons h underscores _ ih =>
    have hc := bne_iff_ne.mpr (h.inert hBase).notUnderscore
    have hNone : (List.replicate underscores '_').filter (· != '_') = [] :=
      List.filter_replicate_of_neg (by decide)
    rw [List.filter_cons, if_pos hc, List.filter_append, hNone]
    exact .cons h ih

/-- A number grows by one digit after the other. -/
theorem value_eq_foldl (base : Nat) (ds : List Nat) :
    value base ds = ds.foldl (fun v d => v * base + d) 0 := by
  rw [value, Nat.ofDigits_eq_foldr, List.foldr_reverse]
  congr
  funext v d
  simp [Nat.mul_comm, Nat.add_comm]

namespace Numeral

variable {base : Nat} {ds : List Nat} {cs : Text}

theorem inert (hBase : base ≤ 16) (h : Numeral base ds cs) : ∀ c ∈ cs, Inert c := by
  induction h with
  | nil => exact nofun
  | cons h _ ih => exact List.forall_mem_cons.mpr ⟨h.inert hBase, ih⟩

/-- Digits are read from the left, each time with the base, by induction on the numeral. -/
theorem continueDigits?_eq (hBase : base ≤ 16) (h : Numeral base ds cs) (v : Nat) :
    continueDigits? base v cs = some (ds.foldl (fun v d => v * base + d) v) := by
  induction h generalizing v with
  | nil => rfl
  | @cons d c ds cs h _ ih =>
    rw [continueDigits?, h.digit?_eq hBase]
    · exact ih _
    · intro _ _ hc
      exact absurd hc (h.inert hBase).notUnderscore

/-- Reading a run of digits gives their number. -/
theorem digits?_eq (hBase : base ≤ 16) (h : Numeral base ds cs) (hSome : ds ≠ []) :
    digits? base cs = some (value base ds) := by
  cases h with
  | nil => exact absurd rfl hSome
  | @cons d c ds cs h rest =>
    rw [digits?, h.digit?_eq hBase, value_eq_foldl, List.foldl_cons, Nat.zero_mul, Nat.zero_add]
    exact continueDigits?_eq hBase rest d

end Numeral

-- ---------------------------------------------------------------------------
-- Reading spellings
-- ---------------------------------------------------------------------------

/-- Nothing is stripped from inert characters, and none of them is rewritten. -/
theorem plain_eq {t : Text} (ht : ∀ c ∈ t, Inert c) : plain t = t := by
  have hMap : t.map plainChar = t := by
    refine (List.map_congr_left fun c hc => ?_).trans (List.map_id t)
    rw [plainChar, if_pos (ht c hc).ascii]
    rfl
  have hDrop : ∀ u : Text, (∀ c ∈ u, Inert c) → u.dropWhile isPadding = u := by
    intro u hu
    cases u with
    | nil => rfl
    | cons c cs => rw [List.dropWhile_cons_of_neg (by simp [(hu c List.mem_cons_self).notPadding])]
  rw [plain, hMap, hDrop t ht, hDrop t.reverse fun c hc => ht c (List.mem_reverse.mp hc),
    List.reverse_reverse]

/-- A text of inert characters has no sign. -/
theorem integer?_eq {t : Text} (ht : ∀ c ∈ t, Inert c) : integer? t = (natural? t).map Int.ofNat := by
  rw [integer?, plain_eq ht]
  cases t with
  | nil => rfl
  | cons c cs =>
    obtain ⟨hMinus, hPlus⟩ := (ht c List.mem_cons_self).notSign
    rw [signed?]
    · intro _ hc
      exact absurd (List.cons.inj hc).1 hMinus
    · intro _ hc
      exact absurd (List.cons.inj hc).1 hPlus

/-- A number with few enough digits is written out. -/
theorem limitedText?_eq {n : Nat} (hn : n < 10 ^ digitLimit) :
    limitedText? (n : Int) = some (Text.decimal n) := by
  have hLength : (Text.decimal n).length ≤ digitLimit :=
    (Nat.length_toDigits_le_iff (by decide) (by decide)).mpr hn
  rw [limitedText?, Int.natAbs_natCast, if_pos hLength]
  rfl

/-- Digits without a leading zero are as many as the numeral of their number has. -/
theorem length_le_of_lt {ds : List Nat} {limit : Nat} (hLead : ds.head? ≠ some 0)
    (hn : value 10 ds < 10 ^ limit) : ds.length ≤ limit := by
  cases ds with
  | nil => exact Nat.zero_le limit
  | cons d ds =>
    have hNonzero : (d :: ds).reverse.getLast (by simp) ≠ 0 := by
      simpa using hLead
    have hLarge := Nat.pow_length_le_mul_ofDigits (b := 8) (by simp) hNonzero
    rw [List.length_reverse] at hLarge
    have hPow : 10 ^ (d :: ds).length < 10 ^ (limit + 1) :=
      calc 10 ^ (d :: ds).length ≤ 10 * value 10 (d :: ds) := hLarge
        _ < 10 * 10 ^ limit := by omega
        _ = 10 ^ (limit + 1) := by rw [Nat.pow_succ, Nat.mul_comm]
    exact Nat.lt_succ_iff.mp ((Nat.pow_lt_pow_iff_right (by decide)).mp hPow)

/-- A decimal numeral does not begin with a zero, unless it is zero. -/
theorem Numeral.ne_zero_cons {ds : List Nat} {cs : Text} (h : Numeral 10 ds cs)
    (hLead : ds = [0] ∨ ds.head? ≠ some 0) (c : Char) (rest : Text) : cs ≠ '0' :: c :: rest := by
  rintro rfl
  obtain ⟨d, ds, hd, hRest, rfl⟩ := List.forall₂_cons_right_iff.mp h
  have hZero : d = 0 := by
    have hDigit : digit? 10 '0' = some 0 := by decide
    exact Option.some.inj ((hd.digit?_eq (by decide)).symm.trans hDigit)
  rcases hLead with hOne | hHead
  · obtain ⟨-, rfl⟩ := List.cons.inj hOne
    exact absurd hRest (by rintro ⟨⟩)
  · exact hHead (congrArg some hZero)

/-- A decimal numeral without a leading zero is read as its value, below the limit. -/
theorem natural?_of_decimal {ds : List Nat} {cs : Text} (h : Numeral 10 ds cs) (hSome : ds ≠ [])
    (hLead : ds = [0] ∨ ds.head? ≠ some 0) (hn : value 10 ds < 10 ^ digitLimit) :
    natural? cs = some (value 10 ds) := by
  have hLength : cs.length ≤ digitLimit := by
    rw [← h.length_eq]
    rcases hLead with rfl | hHead
    · decide
    · exact length_le_of_lt hHead hn
  rw [natural?, if_pos hLength, h.digits?_eq (by decide) hSome]
  exact fun c rest => h.ne_zero_cons hLead c rest

/-- A radix mark stands for its base, and it is no octal digit. -/
theorem of_mem_radixMarks {mark : Char} {base : Nat} (h : (mark, base) ∈ radixMarks) :
    radix? mark = some base ∧ base ≤ 16 ∧ Inert mark ∧ ('0' ≤ mark && mark ≤ '7') = false := by
  simp only [radixMarks, List.mem_cons, Prod.mk.injEq, List.not_mem_nil, or_false] at h
  rcases h with ⟨rfl, rfl⟩ | ⟨rfl, rfl⟩ | ⟨rfl, rfl⟩ | ⟨rfl, rfl⟩ | ⟨rfl, rfl⟩ | ⟨rfl, rfl⟩ <;>
    exact ⟨by decide, by decide, ⟨by decide, by decide, by decide, by decide⟩, by decide⟩

/-- A numeral with a mark for its base is read as its value, without a limit. -/
theorem natural?_of_marked {mark : Char} {base : Nat} {ds : List Nat} {cs : Text}
    (hMark : (mark, base) ∈ radixMarks) (h : Numeral base ds cs) (hSome : ds ≠ []) :
    natural? ('0' :: mark :: cs) = some (value base ds) := by
  obtain ⟨hRadix, hBase, -⟩ := of_mem_radixMarks hMark
  rw [natural?, hRadix]
  dsimp only
  rw [markedDigits?, h.digits?_eq hBase hSome]
  rintro rest rfl
  exact absurd rfl (h.inert hBase '_' List.mem_cons_self).notUnderscore

end ClassTags.Number

namespace ClassTags.Literal

open ClassTags.Number

-- ---------------------------------------------------------------------------
-- The value of a literal
-- ---------------------------------------------------------------------------

/-- A literal that is read as a natural number has that value in decimal digits. -/
theorem numberValue_of_natural {t : Text} {n : Nat}
    (hOctal : isLegacyOctal (t.filter (· != '_')) = false)
    (hInert : ∀ c ∈ t.filter (· != '_'), Inert c)
    (hNatural : natural? (t.filter (· != '_')) = some n) (hn : n < 10 ^ digitLimit) :
    numberValue t = .ok (Text.decimal n) := by
  have hText : (integer? (t.filter (· != '_'))).bind limitedText? = some (Text.decimal n) := by
    rw [integer?_eq hInert, hNatural]
    exact limitedText?_eq hn
  unfold numberValue
  dsimp only
  rw [hOctal, hText]
  rfl

/-- So has an octal literal of the old form. -/
theorem numberValue_of_octal {t : Text} {n : Nat}
    (hOctal : isLegacyOctal (t.filter (· != '_')) = true)
    (hDigits : digits? 8 (t.filter (· != '_')) = some n) (hn : n < 10 ^ digitLimit) :
    numberValue t = .ok (Text.decimal n) := by
  have hText : ((digits? 8 (t.filter (· != '_'))).bind fun n => limitedText? n) =
      some (Text.decimal n) := by
    rw [hDigits]
    exact limitedText?_eq hn
  unfold numberValue
  dsimp only
  rw [if_pos hOctal, hText]

/-- A zero and more octal digits after it. -/
theorem isLegacyOctal_of_numeral {ds : List Nat} {cs : Text} (h : Numeral 8 (0 :: ds) cs)
    (hMore : ds ≠ []) : isLegacyOctal cs = true := by
  have hOctal : ∀ {d : Nat} {c : Char}, IsDigit 8 d c → ('0' ≤ c && c ≤ '7') = true := by
    rintro d c ⟨hd, hc⟩
    interval_cases d <;> rcases hc with rfl | rfl <;> decide
  have hAll : ∀ {ds : List Nat} {cs : Text}, Numeral 8 ds cs →
      cs.all (fun c => '0' ≤ c && c ≤ '7') = true := by
    intro ds cs h
    induction h with
    | nil => rfl
    | cons h _ ih => rw [List.all_cons, hOctal h, ih, Bool.and_self]
  obtain ⟨c, cs, hc, hRest, rfl⟩ := List.forall₂_cons_left_iff.mp h
  obtain ⟨d, ds, rfl⟩ := List.exists_cons_of_ne_nil hMore
  obtain ⟨c', cs, -, -, rfl⟩ := List.forall₂_cons_left_iff.mp hRest
  obtain rfl : c = '0' := by rcases hc.2 with rfl | rfl <;> rfl
  exact hAll hRest

/-- **The value of a literal does not depend on its spelling.** -/
theorem numberValue_of_spells {t : Text} {n : Nat} (h : Spells t n) (hn : n < 10 ^ digitLimit) :
    numberValue t = .ok (Text.decimal n) := by
  cases h with
  | @decimal ds t hDigits hLead =>
    have hNumeral := hDigits.filter (by decide)
    refine numberValue_of_natural ?_ (hNumeral.inert (by decide))
      (natural?_of_decimal hNumeral hDigits.ne_nil hLead hn) hn
    rw [isLegacyOctal]
    exact hNumeral.ne_zero_cons hLead
  | @marked mark base ds t hMark hDigits =>
    obtain ⟨-, hBase, hInert, hNotOctal⟩ := of_mem_radixMarks hMark
    have hNumeral := hDigits.filter hBase
    have hFilter : ('0' :: mark :: t).filter (· != '_') = '0' :: mark :: t.filter (· != '_') := by
      rw [List.filter_cons, if_pos (by decide), List.filter_cons,
        if_pos (bne_iff_ne.mpr hInert.notUnderscore)]
    refine numberValue_of_natural ?_ ?_ ?_ hn
    · rw [hFilter, isLegacyOctal, List.all_cons, hNotOctal, Bool.false_and]
    · rw [hFilter, List.forall_mem_cons, List.forall_mem_cons]
      have hZero : IsDigit 10 0 '0' := ⟨by decide, .inl rfl⟩
      exact ⟨hZero.inert (by decide), hInert, hNumeral.inert hBase⟩
    · rw [hFilter]
      exact natural?_of_marked hMark hNumeral hDigits.ne_nil
  | @legacyOctal ds t hDigits hMore =>
    have hNumeral := hDigits.filter (by decide)
    have hValue : value 8 (0 :: ds) = value 8 ds := by
      rw [value_eq_foldl, value_eq_foldl, List.foldl_cons]
    refine numberValue_of_octal (isLegacyOctal_of_numeral hNumeral hMore) ?_ hn
    rw [hNumeral.digits?_eq (by decide) hDigits.ne_nil, hValue]

-- ---------------------------------------------------------------------------
-- The names of members
-- ---------------------------------------------------------------------------

/-- A number has one numeral, and a numeral one number. -/
theorem decimal_inj {n n' : Nat} : Text.decimal n = Text.decimal n' ↔ n = n' := by
  constructor
  · intro h
    rw [← Nat.ofDigitChars_ten_toDigits (n := n), ← Nat.ofDigitChars_ten_toDigits (n := n')]
    exact congrArg (Nat.ofDigitChars 10 · 0) h
  · rintro rfl
    rfl

/-- The node of a number literal with a value is named by the value. -/
theorem keyName_of_numberValue {source : Text} {t : SyntaxTree} {v : Text} (hKind : t.kind = .number)
    (hValue : numberValue (t.text source) = .ok v) :
    ∃ key, (SyntaxTree.expression source t).result = .ok key ∧ key.keyName = v := by
  obtain ⟨l, cs⟩ := t
  refine ⟨.number ((SyntaxTree.node l cs).place source) v, ?_, rfl⟩
  have hValue : numberValue ((SyntaxTree.node l cs).place source).text = .ok v := hValue
  rw [SyntaxTree.expression, show l.kind = .number from hKind]
  simp only [hValue]
  rfl

/-- **Number keys do not depend on their spelling.** A literal that spells a number below `10 ^
4300` has the decimal numeral of the number as its value, and the nodes of two such literals give
one name to a member just when the literals denote one number. -/
theorem integer_key_names {t t' : Text} {n n' : Nat} (h : Spells t n) (h' : Spells t' n')
    (hn : n < 10 ^ 4300) (hn' : n' < 10 ^ 4300) :
    numberValue t = .ok (Text.decimal n) ∧ (numberValue t = numberValue t' ↔ n = n') ∧
      ∀ (source source' : Text) (k k' : SyntaxTree), k.kind = .number → k.text source = t →
        k'.kind = .number → k'.text source' = t' →
          ∃ key key', (SyntaxTree.expression source k).result = .ok key ∧
            (SyntaxTree.expression source' k').result = .ok key' ∧
              (key.keyName = key'.keyName ↔ n = n') := by
  rw [show (4300 : Nat) = digitLimit from rfl] at hn hn'
  have hValue := numberValue_of_spells h hn
  have hValue' := numberValue_of_spells h' hn'
  refine ⟨hValue, ?_, ?_⟩
  · rw [hValue, hValue', Except.ok.injEq, decimal_inj]
  · rintro source source' k k' hKind rfl hKind' rfl
    obtain ⟨key, hKey, hName⟩ := keyName_of_numberValue hKind hValue
    obtain ⟨key', hKey', hName'⟩ := keyName_of_numberValue hKind' hValue'
    refine ⟨key, key', hKey, hKey', ?_⟩
    rw [hName, hName', decimal_inj]

/-- A number literal that makes up a source text of the given length. -/
def soleNumber (length : Nat) : SyntaxTree := .node { kind := .number, start := 0, stop := length } []

/-- A hexadecimal and an octal spelling of one number. -/
theorem integer_key_names_of_255 :
    (Spells "0x00_fF" 255 ∧ Spells "0_3__77" 255 ∧ 255 < 10 ^ 4300) ∧
      numberValue "0x00_fF" = .ok (Text.decimal 255) ∧
      numberValue "0x00_fF" = numberValue "0_3__77" ∧
      ∃ key key', (SyntaxTree.expression "0x00_fF" (soleNumber 7)).result = .ok key ∧
        (SyntaxTree.expression "0_3__77" (soleNumber 7)).result = .ok key' ∧
          key.keyName = key'.keyName := by
  have hSixteen : Digits 16 [0, 0, 15, 15] "00_fF" :=
    .cons ⟨by decide, .inl rfl⟩ 0 <| .cons ⟨by decide, .inl rfl⟩ 1 <|
      .cons ⟨by decide, .inl rfl⟩ 0 <| .last ⟨by decide, .inr rfl⟩
  have hEight : Digits 8 [3, 7, 7] "3__77" :=
    .cons ⟨by decide, .inl rfl⟩ 2 <| .cons ⟨by decide, .inl rfl⟩ 0 <| .last ⟨by decide, .inl rfl⟩
  have hHexadecimal : Spells "0x00_fF" 255 := Spells.marked (by decide) hSixteen
  have hOctal : Spells "0_3__77" 255 :=
    Spells.legacyOctal (.cons ⟨by decide, .inl rfl⟩ 1 hEight) (by decide)
  have hPow {k : Nat} (hk : 255 < k) : 255 < 10 ^ k := hk.trans (Nat.lt_pow_self (by decide))
  have hBound := hPow (by decide : 255 < 4300)
  obtain ⟨hValue, hSame, hKeys⟩ := integer_key_names hHexadecimal hOctal hBound hBound
  obtain ⟨key, key', hKey, hKey', hNames⟩ := hKeys "0x00_fF" "0_3__77" (soleNumber 7) (soleNumber 7) rfl
    (by decide +kernel) rfl (by decide +kernel)
  exact ⟨⟨hHexadecimal, hOctal, hBound⟩, hValue, hSame.mpr rfl, key, key', hKey, hKey', hNames.mpr rfl⟩

end ClassTags.Literal
