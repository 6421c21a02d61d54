import ClassTags.Tag
import ClassTags.Text.Plain

/-!
# Printed text

What is printed has no control sequences. A text without any comes out as it is, and no control
sequence reaches beyond the end of a line, so that a tag file is printed line by line.

Main results:

* `Text.plain_eq_self_iff` — the texts that come out as they are;
* `Text.plain_lines` — the lines of a text are printed one by one;
* `Settings.plain_tagFile` — a tag file as it is printed.
-/

namespace ClassTags

namespace Text

/-- A control sequence stands somewhere in a text. -/
def HasControl (t : Text) : Prop := ∃ front back, t = front ++ back ∧ controlLength back ≠ 0

/-- A control sequence is no longer than the text. -/
theorem controlLength_le (t : Text) : controlLength t ≤ t.length := by
  unfold controlLength
  split
  · rename_i first t
    have hSplit := congrArg List.length (List.takeWhile_append_dropWhile (p := isParameter) (l := t))
    rw [List.length_append] at hSplit
    split
    · split
      · exact Nat.zero_le _
      · rename_i letter rest hRest
        rw [hRest, List.length_cons] at hSplit
        split
        · simp only [List.length_cons]
          omega
        · exact Nat.zero_le _
    · exact Nat.zero_le _
  · exact Nat.zero_le _

/-- Only the escape character begins a control sequence. -/
theorem controlLength_of_ne_escape {c : Char} (h : c ≠ escape) (t : Text) :
    controlLength (c :: t) = 0 := by
  unfold controlLength
  split
  · rename_i hSplit
    obtain ⟨rfl, -⟩ := List.cons.inj hSplit
    exact if_neg h
  · rfl

/-- Where no control sequence begins the character stays. -/
theorem plainFrom_of_none {c : Char} {t : Text} (h : controlLength (c :: t) = 0) :
    plainFrom 0 (c :: t) = c :: plainFrom 0 t := by
  rw [plainFrom, h]

/-- Where one begins its characters are dropped. -/
theorem plainFrom_of_control {c : Char} {t : Text} {n : Nat} (h : controlLength (c :: t) = n + 1) :
    plainFrom 0 (c :: t) = plainFrom n t := by
  rw [plainFrom, h]

-- ---------------------------------------------------------------------------
-- Texts that come out as they are
-- ---------------------------------------------------------------------------

/-- A text without its control sequences is no longer. -/
theorem length_plainFrom_le (n : Nat) (t : Text) : (plainFrom n t).length ≤ t.length := by
  fun_induction plainFrom n t with
  | case1 => exact Nat.le_refl 0
  | case2 n c t ih => exact Nat.le_succ_of_le ih
  | case3 c t _ ih => exact Nat.succ_le_succ ih
  | case4 c t n _ ih => exact Nat.le_succ_of_le ih

/-- A text has a control sequence if one begins at its head, or further on. -/
theorem hasControl_cons {c : Char} {t : Text} :
    HasControl (c :: t) ↔ controlLength (c :: t) ≠ 0 ∨ HasControl t := by
  constructor
  · rintro ⟨front, back, hSplit, hControl⟩
    rcases List.cons_eq_append_iff.mp hSplit with ⟨-, rfl⟩ | ⟨front, -, rfl⟩
    · exact Or.inl hControl
    · exact Or.inr ⟨front, back, rfl, hControl⟩
  · rintro (hControl | ⟨front, back, rfl, hControl⟩)
    · exact ⟨[], c :: t, rfl, hControl⟩
    · exact ⟨c :: front, back, rfl, hControl⟩

/-- **A text comes out as it is just when it has no control sequence.** -/
theorem plain_eq_self_iff {t : Text} : plain t = t ↔ ¬ HasControl t := by
  unfold plain
  induction t with
  | nil =>
    refine iff_of_true rfl ?_
    rintro ⟨front, back, hSplit, hControl⟩
    obtain ⟨-, rfl⟩ := List.append_eq_nil_iff.mp hSplit.symm
    exact hControl rfl
  | cons c t ih =>
    rw [hasControl_cons, not_or, Decidable.not_not, ← ih]
    cases hLength : controlLength (c :: t) with
    | zero =>
      rw [plainFrom_of_none hLength, List.cons.injEq, eq_self, eq_self]
    | succ n =>
      refine iff_of_false (fun hSame => ?_) fun h => Nat.succ_ne_zero n h.1
      -- what is left is too short
      have hShort := length_plainFrom_le n t
      rw [← plainFrom_of_control hLength, hSame, List.length_cons] at hShort
      omega

-- ---------------------------------------------------------------------------
-- Lines
-- ---------------------------------------------------------------------------

/-- A control sequence ends in its line. -/
theorem controlLength_append_newline (t u : Text) :
    controlLength (t ++ '\n' :: u) = controlLength t := by
  match t with
  | [] => exact controlLength_of_ne_escape (by decide) u
  | [_] => rfl
  | first :: second :: t =>
    by_cases hBracket : second = '['
    · subst hBracket
      simp only [List.cons_append, controlLength]
      congr 1
      have hStop : ('\n' :: u).takeWhile isParameter = [] ∧
          ('\n' :: u).dropWhile isParameter = '\n' :: u := ⟨rfl, rfl⟩
      cases hRest : t.dropWhile isParameter with
      | nil => simp [List.dropWhile_append, hRest, hStop.2, show '\n'.isAlpha = false from rfl]
      | cons letter rest =>
        have hTaken : (t.takeWhile isParameter).length ≠ t.length := by
          have hSplit := congrArg List.length
            (List.takeWhile_append_dropWhile (p := isParameter) (l := t))
          rw [hRest, List.length_append, List.length_cons] at hSplit
          omega
        simp [List.dropWhile_append, List.takeWhile_append, hRest, hTaken]
    · simp [controlLength, hBracket]

/-- No control sequence goes on behind a line break. -/
theorem plainFrom_append_newline {n : Nat} {t : Text} (h : n ≤ t.length) (u : Text) :
    plainFrom n (t ++ '\n' :: u) = plainFrom n t ++ '\n' :: plain u := by
  induction t generalizing n with
  | nil =>
    obtain rfl : n = 0 := Nat.le_zero.mp h
    have hNone : controlLength ('\n' :: u) = 0 := controlLength_append_newline [] u
    exact plainFrom_of_none hNone
  | cons c t ih =>
    cases n with
    | succ n => exact ih (Nat.le_of_succ_le_succ h)
    | zero =>
      have hSame := controlLength_append_newline (c :: t) u
      have hShort := controlLength_le (c :: t)
      rw [List.cons_append] at hSame ⊢
      cases hLength : controlLength (c :: t) with
      | zero =>
        rw [plainFrom_of_none hLength, plainFrom_of_none (hSame.trans hLength), ih (Nat.zero_le _)]
        rfl
      | succ n =>
        rw [hLength, List.length_cons] at hShort
        rw [plainFrom_of_control hLength, plainFrom_of_control (hSame.trans hLength)]
        exact ih (Nat.le_of_succ_le_succ hShort)

/-- A line as it is printed. -/
def printedLine (l : Text) : Text := plain l ++ "\n"

/-- **The lines of a text are printed one by one.** -/
theorem plain_lines (ls : List Text) :
    plain (ls.flatMap (· ++ "\n")) = ls.flatMap printedLine := by
  induction ls with
  | nil => rfl
  | cons l ls ih =>
    have hLine := plainFrom_append_newline (Nat.zero_le l.length) (ls.flatMap (· ++ "\n"))
    rw [List.flatMap_cons, List.flatMap_cons, ← ih, printedLine, List.append_assoc, List.append_assoc]
    exact hLine

end Text

/-- The head of a tag file as it is printed. -/
def Settings.printedHeader (s : Settings) : Text := s.tagHeader.flatMap Text.printedLine

/-- The rows of a class as they are printed. -/
def ClassRecord.printedRows (c : ClassRecord) : Text :=
  (c.rows.map TagRow.text).flatMap Text.printedLine

/-- **A tag file as it is printed**: its head and then the rows of each class. -/
theorem Settings.plain_tagFile (s : Settings) (classes : List ClassRecord) :
    Text.plain (s.tagFile classes) = s.printedHeader ++ classes.flatMap ClassRecord.printedRows := by
  unfold tagFile
  rw [Text.plain_lines, List.flatMap_append, List.flatMap_assoc]
  rfl

end ClassTags
