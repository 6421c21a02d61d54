import ClassTags.Proofs.LineOrder
import Mathlib.Data.List.Chain

/-!
# The text of a tree on one line

The text of a tree is its source text with every run of blanks between literals replaced by one
space, and without the blanks at its ends. The source text of a tree is cut at its **outermost
literals** into gaps and literals in turn; the gaps are collapsed one by one and the literals are
kept. This gives the runs of the whole text only because a literal is never empty and neither begins
nor ends with a blank.

Main definitions:

* `SyntaxTree.outermostLiterals` — the literals that stand in no other literal;
* `SyntaxTree.walkSpans` — their spans, found with a stack;
* `SyntaxTree.Regular` — spans are nested and fall between characters, and literals have no blanks at
  their ends;
* `Text.Collapsed` — every maximal run of blanks outside literals is replaced by one space;
* `Text.SameTokens` — texts that differ in runs of blanks only.

Main results:

* `SyntaxTree.literalSpans_eq` — the spans are those of the outermost literals;
* `SyntaxTree.Regular.text_eq_weave` — gaps and literals in turn;
* `SyntaxTree.text_on_one_line` — what the text of a tree is.
-/

namespace ClassTags

-- ---------------------------------------------------------------------------
-- Slices between boundaries
-- ---------------------------------------------------------------------------

namespace Text

variable {source g g' : Text} {a b c d : Nat}

theorem eq_nil_of_byteLength {t : Text} (h : byteLength t = 0) : t = [] := by
  cases t with
  | nil => rfl
  | cons c t =>
    have hSize := c.utf8Size_pos
    rw [byteLength_cons] at h
    omega

/-- Of two beginnings of a text, the one with fewer bytes is a beginning of the other one. -/
theorem exists_of_byteLength_le {p p' q q' : Text} (h : p ++ q = p' ++ q')
    (hLe : byteLength p ≤ byteLength p') : ∃ x, p' = p ++ x ∧ q = x ++ q' := by
  rcases List.append_eq_append_iff.mp h with ⟨x, rfl, rfl⟩ | ⟨z, rfl, rfl⟩
  · exact ⟨x, rfl, rfl⟩
  · have hEmpty : z = [] := eq_nil_of_byteLength (by rw [byteLength_append] at hLe; omega)
    exact ⟨[], by simp [hEmpty], by simp [hEmpty]⟩

/-- What stands between two boundaries. -/
theorem exists_between (ha : source.IsBoundary a) (hb : source.IsBoundary b) (hab : a ≤ b) :
    ∃ before piece after, source = before ++ (piece ++ after) ∧ a = byteLength before ∧
      b = byteLength before + byteLength piece := by
  obtain ⟨before, rest, hSource, rfl⟩ := ha
  obtain ⟨before', after, hSource', rfl⟩ := hb
  obtain ⟨x, rfl, rfl⟩ := exists_of_byteLength_le (hSource.symm.trans hSource') hab
  exact ⟨before, x, after, hSource, rfl, byteLength_append _ _⟩

/-- A boundary in a piece of a text cuts the piece in two. -/
theorem IsBoundary.cut {before piece after : Text} (hSource : source = before ++ (piece ++ after))
    (ha : source.IsBoundary a) (hLo : byteLength before ≤ a)
    (hHi : a ≤ byteLength before + byteLength piece) :
    ∃ x y, piece = x ++ y ∧ a = byteLength before + byteLength x := by
  obtain ⟨p, q, hCut, rfl⟩ := ha
  obtain ⟨x, rfl, hRest⟩ := exists_of_byteLength_le (hSource.symm.trans hCut) hLo
  rw [byteLength_append] at hHi
  obtain ⟨y, rfl, -⟩ := exists_of_byteLength_le hRest.symm (by omega)
  exact ⟨x, y, rfl, byteLength_append _ _⟩

/-- A byte is a boundary if the text before it has as many bytes. -/
theorem isBoundary_iff : source.IsBoundary a ↔ byteLength (source.takeBytes a) = a := by
  constructor
  · rintro ⟨before, after, rfl, rfl⟩
    rw [takeBytes_append_self]
  · intro h
    obtain ⟨after, hSource⟩ := takeBytes_prefix_self a source
    exact ⟨source.takeBytes a, after, hSource.symm, h.symm⟩

instance (source : Text) (n : Nat) : Decidable (source.IsBoundary n) :=
  decidable_of_iff' _ isBoundary_iff

/-- Slices between boundaries lie one after the other. -/
theorem slice_append_slice (ha : source.IsBoundary a) (hb : source.IsBoundary b)
    (hc : source.IsBoundary c) (hab : a ≤ b) (hbc : b ≤ c) :
    source.slice a b ++ source.slice b c = source.slice a c := by
  obtain ⟨before, piece, after, hSource, rfl, rfl⟩ := exists_between ha hc (hab.trans hbc)
  obtain ⟨x, y, rfl, rfl⟩ := hb.cut hSource hab hbc
  have hFirst := slice_append before x (y ++ after)
  have hSecond := slice_append (before ++ x) y after
  have hWhole := slice_append before (x ++ y) after
  simp only [byteLength_append, List.append_assoc, ← Nat.add_assoc] at hFirst hSecond hWhole hSource ⊢
  rw [hSource, hFirst, hSecond, hWhole]

/-- A slice of a slice between boundaries. -/
theorem slice_slice (ha : source.IsBoundary a) (hb : source.IsBoundary b) (hc : source.IsBoundary c)
    (hd : source.IsBoundary d) (hab : a ≤ b) (hbc : b ≤ c) (hcd : c ≤ d) :
    (source.slice a d).slice (b - a) (c - a) = source.slice b c := by
  obtain ⟨before, piece, after, hSource, rfl, rfl⟩ :=
    exists_between ha hd (hab.trans (hbc.trans hcd))
  obtain ⟨w, z, rfl, rfl⟩ := hc.cut hSource (hab.trans hbc) hcd
  rw [List.append_assoc] at hSource
  obtain ⟨x, y, rfl, rfl⟩ := hb.cut hSource hab hbc
  have hOuter := slice_append before (x ++ y ++ z) after
  have hInner := slice_append x y z
  have hOwn := slice_append (before ++ x) y (z ++ after)
  simp only [byteLength_append, List.append_assoc, ← Nat.add_assoc, Nat.add_sub_cancel_left] at *
  rw [hSource, hOuter]
  have hStart : byteLength before + byteLength x - byteLength before = byteLength x := by omega
  have hStop : byteLength before + byteLength x + byteLength y - byteLength before =
      byteLength x + byteLength y := by omega
  rw [hStop, hInner, hOwn]

/-- The rest of a slice behind a boundary. -/
theorem dropBytes_slice (ha : source.IsBoundary a) (hb : source.IsBoundary b)
    (hc : source.IsBoundary c) (hab : a ≤ b) (hbc : b ≤ c) :
    (source.slice a c).dropBytes (b - a) = source.slice b c := by
  obtain ⟨before, piece, after, hSource, rfl, rfl⟩ := exists_between ha hc (hab.trans hbc)
  obtain ⟨x, y, rfl, rfl⟩ := hb.cut hSource hab hbc
  have hOuter := slice_append before (x ++ y) after
  have hOwn := slice_append (before ++ x) y after
  simp only [byteLength_append, List.append_assoc, ← Nat.add_assoc] at hOuter hOwn hSource ⊢
  rw [hSource, hOuter, hOwn, Nat.add_sub_cancel_left, dropBytes_append_self]

-- ---------------------------------------------------------------------------
-- Runs of blanks
-- ---------------------------------------------------------------------------

/-- The characters of a text that begins at the byte `offset`, with whether they stand in one of the
spans. -/
def marked (spans : List (Nat × Nat)) : (offset : Nat) → Text → List (Char × Bool)
  | _, [] => []
  | offset, c :: cs =>
    (c, spans.any fun span => span.1 ≤ offset && offset < span.2) ::
      marked spans (offset + c.utf8Size) cs

/-- A blank that stands in no span. -/
def isLoose (m : Char × Bool) : Bool := isBlank m.1 && !m.2

/-- **Every maximal run of blanks outside the spans is replaced by one space**, and all else is
kept. -/
inductive Collapsed : List (Char × Bool) → Text → Prop
  | nil : Collapsed [] []
  | keep {m : Char × Bool} {ms : List (Char × Bool)} {t : Text} (hKeep : isLoose m = false)
      (h : Collapsed ms t) : Collapsed (m :: ms) (m.1 :: t)
  | run {run ms : List (Char × Bool)} {t : Text} (hSome : run ≠ [])
      (hRun : ∀ m ∈ run, isLoose m = true) (hEnd : ∀ m ∈ ms.head?, isLoose m = false)
      (h : Collapsed ms t) : Collapsed (run ++ ms) (' ' :: t)

/-- Texts that are the same but for the length and the kind of the runs of blanks in them. -/
inductive SameTokens : Text → Text → Prop
  | nil : SameTokens [] []
  | char {c : Char} {s t : Text} (hc : isBlank c = false) (h : SameTokens s t) :
    SameTokens (c :: s) (c :: t)
  | run (r r' : Text) {s t : Text} (hr : r ≠ []) (hr' : r' ≠ []) (hBlank : r.all isBlank = true)
      (hBlank' : r'.all isBlank = true) (h : SameTokens s t) : SameTokens (r ++ s) (r' ++ t)

/-- The blanks of a text are spaces, and no two of them stand side by side. -/
structure SingleSpaced (t : Text) : Prop where
  spaces : ∀ c ∈ t, isBlank c = true → c = ' '
  apart : t.IsChain fun a b => isBlank a = false ∨ isBlank b = false

/-- A run of white space becomes one space, at its first character. -/
theorem collapseFrom_blank {c : Char} (h : isBlank c = true) (inRun : Bool) (t : Text) :
    collapseFrom inRun (c :: t) = (if inRun then [] else [' ']) ++ collapseFrom true t := by
  rw [collapseFrom, if_pos h]
  cases inRun <;> rfl

theorem collapseFrom_char {c : Char} (h : isBlank c = false) (inRun : Bool) (t : Text) :
    collapseFrom inRun (c :: t) = c :: collapseFrom false t := by
  rw [collapseFrom, if_neg (ne_true_of_eq_false h)]

/-- A whole run of white space becomes one space. -/
theorem collapseFrom_run {r : Text} (hSome : r ≠ []) (hBlank : r.all isBlank = true)
    (inRun : Bool) (t : Text) :
    collapseFrom inRun (r ++ t) = (if inRun then [] else [' ']) ++ collapseFrom true t := by
  induction r generalizing inRun with
  | nil => exact absurd rfl hSome
  | cons c r ih =>
    rw [List.all_cons, Bool.and_eq_true] at hBlank
    obtain ⟨hFirst, hOthers⟩ := hBlank
    rw [List.cons_append, collapseFrom_blank hFirst]
    cases r with
    | nil => rfl
    | cons d r => rw [ih (List.cons_ne_nil d r) hOthers, if_pos rfl, List.nil_append]

/-- Texts with the same tokens are the same on one line. -/
theorem SameTokens.collapseFrom_eq (h : SameTokens g g') (inRun : Bool) :
    collapseFrom inRun g = collapseFrom inRun g' := by
  induction h generalizing inRun with
  | nil => rfl
  | char hc _ ih => rw [collapseFrom_char hc, collapseFrom_char hc, ih]
  | run r r' hr hr' hBlank hBlank' _ ih =>
    rw [collapseFrom_run hr hBlank, collapseFrom_run hr' hBlank', ih]

/-- White space apart nothing is lost. -/
theorem filter_collapseFrom (inRun : Bool) (t : Text) :
    (collapseFrom inRun t).filter (!isBlank ·) = t.filter (!isBlank ·) := by
  induction t generalizing inRun with
  | nil => rfl
  | cons c t ih =>
    cases hBlank : isBlank c with
    | true =>
      rw [collapseFrom_blank hBlank, List.filter_append, ih,
        List.filter_cons_of_neg (by simp [hBlank])]
      cases inRun <;> rfl
    | false =>
      rw [collapseFrom_char hBlank, List.filter_cons_of_pos (by simp [hBlank]), ih,
        List.filter_cons_of_pos (by simp [hBlank])]

/-- A collapsed text is single spaced, and in a run of blanks it goes on with something else. -/
theorem singleSpaced_collapseFrom (inRun : Bool) (t : Text) :
    SingleSpaced (collapseFrom inRun t) ∧
      (inRun = true → ∀ c ∈ (collapseFrom inRun t).head?, isBlank c = false) := by
  induction t generalizing inRun with
  | nil => exact ⟨⟨List.forall_mem_nil _, .nil⟩, by simp [collapseFrom]⟩
  | cons c t ih =>
    cases hBlank : isBlank c with
    | false =>
      have hRest := (ih false).1
      rw [collapseFrom_char hBlank]
      refine ⟨⟨List.forall_mem_cons.mpr ⟨fun h => ?_, hRest.spaces⟩,
        List.isChain_cons.mpr ⟨fun _ _ => .inl hBlank, hRest.apart⟩⟩, fun _ d hd => ?_⟩
      · rw [hBlank] at h
        cases h
      · obtain rfl := Option.some.inj hd
        exact hBlank
    | true =>
      obtain ⟨hRest, hHead⟩ := ih true
      rw [collapseFrom_blank hBlank]
      cases inRun with
      | true => exact ⟨hRest, hHead⟩
      | false =>
        exact ⟨⟨List.forall_mem_cons.mpr ⟨fun _ => rfl, hRest.spaces⟩,
          List.isChain_cons.mpr ⟨fun d hd => .inr (hHead rfl d hd), hRest.apart⟩⟩,
          fun hFalse => absurd hFalse Bool.false_ne_true⟩

theorem SingleSpaced.of_isInfix (h : SingleSpaced g) (hInfix : g' <:+: g) : SingleSpaced g' :=
  ⟨fun c hc => h.spaces c (hInfix.subset hc), h.apart.infix hInfix⟩

-- ---------------------------------------------------------------------------
-- Marked characters
-- ---------------------------------------------------------------------------

variable {spans : List (Nat × Nat)} {ms : List (Char × Bool)} {s t : Text} {n : Nat}

/-- A gap in front of something that is no loose blank is collapsed by itself. In the second part
the gap goes on with a run that has begun before it. -/
theorem collapsed_gap_parts (gap : Text) (hEnd : ∀ m ∈ ms.head?, isLoose m = false)
    (h : Collapsed ms s) :
    Collapsed (gap.map (·, false) ++ ms) (collapseFrom false gap ++ s) ∧
      ∃ run rest, gap.map (·, false) ++ ms = run ++ rest ∧ (∀ m ∈ run, isLoose m = true) ∧
        (∀ m ∈ rest.head?, isLoose m = false) ∧ Collapsed rest (collapseFrom true gap ++ s) := by
  induction gap with
  | nil => exact ⟨h, [], ms, rfl, List.forall_mem_nil _, hEnd, h⟩
  | cons c gap ih =>
    obtain ⟨hWhole, run, rest, hSplit, hRun, hRest, hCollapsed⟩ := ih
    cases hBlank : isBlank c with
    | false =>
      have hKeep : isLoose (c, false) = false := by simp [isLoose, hBlank]
      rw [collapseFrom_char hBlank, collapseFrom_char hBlank]
      refine ⟨.keep hKeep hWhole, [], _, rfl, List.forall_mem_nil _, ?_, .keep hKeep hWhole⟩
      intro m hm
      obtain rfl := Option.some.inj hm
      exact hKeep
    | true =>
      have hAll : ∀ m ∈ (c, false) :: run, isLoose m = true :=
        List.forall_mem_cons.mpr ⟨by simp [isLoose, hBlank], hRun⟩
      have hMarks : (c :: gap).map (·, false) ++ ms = ((c, false) :: run) ++ rest :=
        congrArg ((c, false) :: ·) hSplit
      rw [collapseFrom_blank hBlank, collapseFrom_blank hBlank, hMarks]
      exact ⟨.run (List.cons_ne_nil _ _) hAll hRest hCollapsed, _, rest, rfl, hAll, hRest, hCollapsed⟩

/-- A gap before something that is no loose space is collapsed by itself. -/
theorem collapsed_gap (gap : Text) (hEnd : ∀ m ∈ ms.head?, isLoose m = false) (h : Collapsed ms s) :
    Collapsed (gap.map (·, false) ++ ms) (collapse gap ++ s) :=
  (collapsed_gap_parts gap hEnd h).1

/-- A literal stays as it is. -/
theorem collapsed_literal (literal : Text) (h : Collapsed ms s) :
    Collapsed (literal.map (·, true) ++ ms) (literal ++ s) := by
  induction literal with
  | nil => exact h
  | cons c literal ih => exact .keep (by simp [isLoose]) ih

/-- A maximal run is what can be taken of loose blanks. -/
theorem span_run {run : List (Char × Bool)} (hRun : ∀ m ∈ run, isLoose m = true)
    (hEnd : ∀ m ∈ ms.head?, isLoose m = false) :
    (run ++ ms).takeWhile isLoose = run ∧ (run ++ ms).dropWhile isLoose = ms := by
  rw [List.takeWhile_append_of_pos hRun, List.dropWhile_append_of_pos hRun]
  cases ms with
  | nil => simp
  | cons m ms =>
    have hFirst : ¬ isLoose m = true := ne_true_of_eq_false (hEnd m rfl)
    rw [List.takeWhile_cons_of_neg hFirst, List.dropWhile_cons_of_neg hFirst, List.append_nil]
    exact ⟨rfl, rfl⟩

/-- There is one way to replace the runs. -/
theorem Collapsed.unique (h : Collapsed ms s) (h' : Collapsed ms t) : s = t := by
  -- the rules exclude each other, and a run is as long as it can be
  induction h generalizing t with
  | nil =>
    generalize hEmpty : ([] : List (Char × Bool)) = ms at h'
    cases h' with
    | nil => rfl
    | keep => cases hEmpty
    | run hSome => exact absurd (List.append_eq_nil_iff.mp hEmpty.symm).1 hSome
  | @keep m ms s hKeep _ ih =>
    generalize hMarks : m :: ms = marks at h'
    cases h' with
    | nil => cases hMarks
    | keep _ h' =>
      obtain ⟨rfl, rfl⟩ := List.cons.inj hMarks
      rw [ih h']
    | @run run _ _ hSome hRun =>
      obtain ⟨x, run, rfl⟩ := List.exists_cons_of_ne_nil hSome
      rw [List.cons_append] at hMarks
      have hLoose := hRun x List.mem_cons_self
      rw [← (List.cons.inj hMarks).1, hKeep] at hLoose
      cases hLoose
  | @run run ms s hSome hRun hEnd _ ih =>
    generalize hMarks : run ++ ms = marks at h'
    cases h' with
    | nil => exact absurd (List.append_eq_nil_iff.mp hMarks).1 hSome
    | keep hKeep =>
      obtain ⟨x, run, rfl⟩ := List.exists_cons_of_ne_nil hSome
      rw [List.cons_append] at hMarks
      have hLoose := hRun x List.mem_cons_self
      rw [(List.cons.inj hMarks).1, hKeep] at hLoose
      cases hLoose
    | run _ hRun' hEnd' h' =>
      have hRest : ms = _ :=
        (span_run hRun hEnd).2.symm.trans ((congrArg _ hMarks).trans (span_run hRun' hEnd').2)
      subst hRest
      rw [ih h']

/-- The marks of two texts, one behind the other. -/
theorem marked_append :
    marked spans n (s ++ t) = marked spans n s ++ marked spans (n + byteLength s) t := by
  induction s generalizing n with
  | nil => simp [marked]
  | cons c s ih => rw [List.cons_append, marked, marked, ih, byteLength_cons, Nat.add_assoc,
      List.cons_append]

/-- Outside all literals no character is marked. -/
theorem marked_of_outside (h : ∀ span ∈ spans, span.2 ≤ n ∨ n + byteLength t ≤ span.1) :
    marked spans n t = t.map (·, false) := by
  induction t generalizing n with
  | nil => rfl
  | cons c t ih =>
    have hSize := c.utf8Size_pos
    rw [byteLength_cons] at h
    have hNone : (spans.any fun span => span.1 ≤ n && n < span.2) = false := by
      rw [List.any_eq_false]
      intro span hSpan
      have := h span hSpan
      simp only [Bool.and_eq_true, decide_eq_true_eq]
      omega
    rw [marked, hNone, ih, List.map_cons]
    intro span hSpan
    have := h span hSpan
    omega

/-- Inside a literal every character is marked. -/
theorem marked_of_inside {span : Nat × Nat} (hSpan : span ∈ spans) (hStart : span.1 ≤ n)
    (hStop : n + byteLength t ≤ span.2) : marked spans n t = t.map (·, true) := by
  induction t generalizing n with
  | nil => rfl
  | cons c t ih =>
    have hSize := c.utf8Size_pos
    rw [byteLength_cons] at hStop
    have hSome : (spans.any fun span => span.1 ≤ n && n < span.2) = true := by
      rw [List.any_eq_true]
      refine ⟨span, hSpan, ?_⟩
      simp only [Bool.and_eq_true, decide_eq_true_eq]
      omega
    rw [marked, hSome, ih (by omega) (by omega), List.map_cons]

-- ---------------------------------------------------------------------------
-- Gaps and literals in turn
-- ---------------------------------------------------------------------------

/-- A text that begins and ends with something that is no blank. -/
structure Solid (t : Text) : Prop where
  first : ∃ c ∈ t.head?, isBlank c = false
  last : ∃ c ∈ t.getLast?, isBlank c = false

/-- A solid text has no white space at its ends. -/
theorem solid_iff :
    Solid t ↔ t.head?.any (!isBlank ·) = true ∧ t.getLast?.any (!isBlank ·) = true := by
  simp only [Option.any_eq_true, Bool.not_eq_true']
  exact ⟨fun h => ⟨h.first, h.last⟩, fun h => ⟨h.1, h.2⟩⟩

instance (t : Text) : Decidable t.Solid := decidable_of_iff' _ solid_iff

/-- Gaps and literals in turn, a gap first. -/
def weave : List Text → List Text → Text
  | [], _ => []
  | gap :: gaps, [] => gap ++ weave gaps []
  | gap :: gaps, literal :: literals => gap ++ (literal ++ weave gaps literals)

variable {gaps literals : List Text} {literal rest : Text}

theorem Solid.ne_nil (h : Solid t) : t ≠ [] := by
  rintro rfl
  obtain ⟨c, hc, -⟩ := h.first
  cases hc

/-- What is stripped at the beginning comes before a literal. -/
theorem Solid.stripStart_append (h : Solid literal) :
    stripStart (g ++ (literal ++ rest)) = stripStart g ++ (literal ++ rest) := by
  obtain ⟨c, hc, hBlank⟩ := h.first
  obtain ⟨more, rfl⟩ := List.head?_eq_some_iff.mp hc
  unfold stripStart
  rw [List.dropWhile_append]
  split
  case isTrue hEmpty =>
    rw [List.isEmpty_iff.mp hEmpty, List.nil_append, List.cons_append,
      List.dropWhile_cons_of_neg (ne_true_of_eq_false hBlank)]
  case isFalse => rfl

/-- What is stripped at the end comes behind a literal. -/
theorem Solid.stripEnd_append (h : Solid literal) :
    stripEnd (g ++ (literal ++ rest)) = g ++ (literal ++ stripEnd rest) := by
  obtain ⟨c, hc, hBlank⟩ := h.last
  obtain ⟨more, rfl⟩ := List.getLast?_eq_some_iff.mp hc
  unfold stripEnd
  rw [← List.append_assoc, List.reverse_append, List.dropWhile_append]
  split
  case isTrue hEmpty =>
    rw [List.isEmpty_iff.mp hEmpty, List.reverse_append, List.reverse_append,
      List.reverse_singleton, List.singleton_append, List.cons_append,
      List.dropWhile_cons_of_neg (ne_true_of_eq_false hBlank)]
    simp
  case isFalse => simp

theorem filter_stripStart (t : Text) : (stripStart t).filter (!isBlank ·) = t.filter (!isBlank ·) := by
  induction t with
  | nil => rfl
  | cons c t ih =>
    cases hBlank : isBlank c with
    | true => rw [stripStart, List.dropWhile_cons_of_pos hBlank, ← stripStart, ih,
        List.filter_cons_of_neg (by simp [hBlank])]
    | false => rw [stripStart, List.dropWhile_cons_of_neg (ne_true_of_eq_false hBlank)]

/-- White space apart nothing is stripped. -/
theorem filter_strip (t : Text) : (strip t).filter (!isBlank ·) = t.filter (!isBlank ·) := by
  rw [strip, stripEnd, List.filter_reverse, ← stripStart, filter_stripStart, List.filter_reverse,
    List.reverse_reverse, filter_stripStart]

theorem stripStart_isInfix (t : Text) : stripStart t <:+: t := (List.dropWhile_suffix _).isInfix

theorem stripEnd_isInfix (t : Text) : stripEnd t <:+: t := by
  have hSuffix := List.dropWhile_suffix isBlank (l := t.reverse)
  rw [← List.reverse_prefix, List.reverse_reverse] at hSuffix
  exact hSuffix.isInfix

/-- Stripping the end takes blanks from the last gap only, for a literal is solid. -/
theorem exists_stripEnd_weave (hLength : gaps.length = literals.length + 1)
    (hSolid : ∀ literal ∈ literals, Solid literal) :
    ∃ gaps', gaps'.length = gaps.length ∧ (∀ g' ∈ gaps', ∃ g ∈ gaps, g' <:+: g) ∧
      stripEnd (weave gaps literals) = weave gaps' literals := by
  induction literals generalizing gaps with
  | nil =>
    obtain ⟨g, rfl⟩ := List.length_eq_one_iff.mp hLength
    refine ⟨[stripEnd g], rfl, ?_, by simp [weave]⟩
    simpa using stripEnd_isInfix g
  | cons literal literals ih =>
    obtain ⟨g, gaps, rfl⟩ := List.exists_cons_of_length_eq_add_one hLength
    obtain ⟨hFirst, hOthers⟩ := List.forall_mem_cons.mp hSolid
    obtain ⟨gaps', hSame, hParts, hStrip⟩ := ih (by simpa using hLength) hOthers
    refine ⟨g :: gaps', by simp [hSame], List.forall_mem_cons.mpr ⟨⟨g, by simp⟩, ?_⟩, ?_⟩
    · intro g' hg'
      obtain ⟨k, hk, hInfix⟩ := hParts g' hg'
      exact ⟨k, List.mem_cons_of_mem g hk, hInfix⟩
    · rw [weave, weave, hFirst.stripEnd_append, hStrip]

/-- **Stripping takes blanks from the first and the last gap only.** -/
theorem exists_strip_weave (hLength : gaps.length = literals.length + 1)
    (hSolid : ∀ literal ∈ literals, Solid literal) :
    ∃ gaps', gaps'.length = gaps.length ∧ (∀ g' ∈ gaps', ∃ g ∈ gaps, g' <:+: g) ∧
      strip (weave gaps literals) = weave gaps' literals := by
  obtain ⟨g, gaps, rfl⟩ := List.exists_cons_of_length_eq_add_one hLength
  have hStart : stripStart (weave (g :: gaps) literals) = weave (stripStart g :: gaps) literals := by
    cases literals with
    | nil =>
      obtain rfl : gaps = [] := by simpa using hLength
      simp [weave]
    | cons literal literals =>
      rw [weave, weave, (hSolid literal List.mem_cons_self).stripStart_append]
  have hLength' : (stripStart g :: gaps).length = literals.length + 1 := hLength
  obtain ⟨gaps', hSame, hParts, hStrip⟩ := exists_stripEnd_weave hLength' hSolid
  refine ⟨gaps', hSame, ?_, by rw [strip, hStart, hStrip]⟩
  intro g' hg'
  obtain ⟨k, hk, hInfix⟩ := hParts g' hg'
  rcases List.mem_cons.mp hk with rfl | hk
  · exact ⟨g, List.mem_cons_self, hInfix.trans (stripStart_isInfix g)⟩
  · exact ⟨k, List.mem_cons_of_mem g hk, hInfix⟩

/-- Gaps that differ in white space only are collapsed to the same. -/
theorem map_collapse_eq {gaps gaps' : List Text} (h : List.Forall₂ SameTokens gaps gaps') :
    gaps.map collapse = gaps'.map collapse := by
  induction h with
  | nil => rfl
  | cons hFirst _ ih =>
    rw [List.map_cons, List.map_cons, ih, collapse, hFirst.collapseFrom_eq, collapse]

/-- White space apart nothing is lost when gaps are collapsed. -/
theorem filter_weave_collapse (gaps literals : List Text) :
    (weave (gaps.map collapse) literals).filter (!isBlank ·) =
      (weave gaps literals).filter (!isBlank ·) := by
  induction gaps generalizing literals with
  | nil => rfl
  | cons gap gaps ih =>
    cases literals with
    | nil =>
      rw [List.map_cons, weave, weave, List.filter_append, List.filter_append, ih, collapse,
        filter_collapseFrom]
    | cons literal literals =>
      rw [List.map_cons, weave, weave]
      simp only [List.filter_append]
      rw [ih, collapse, filter_collapseFrom]

-- ---------------------------------------------------------------------------
-- Spans one after the other
-- ---------------------------------------------------------------------------

/-- What stands between spans, from the byte `pos` to the byte `stop`. -/
def gapTexts (source : Text) (stop : Nat) : (pos : Nat) → List (Nat × Nat) → List Text
  | pos, [] => [source.slice pos stop]
  | pos, span :: spans => source.slice pos span.1 :: gapTexts source stop span.2 spans

/-- What stands in spans. -/
def spanTexts (source : Text) (spans : List (Nat × Nat)) : List Text :=
  spans.map fun span => source.slice span.1 span.2

/-- Spans of solid pieces between two bytes, one after the other. -/
inductive Spaced (source : Text) (stop : Nat) : (pos : Nat) → List (Nat × Nat) → Prop
  | nil {pos : Nat} (hPos : pos ≤ stop) : Spaced source stop pos []
  | cons {pos : Nat} {span : Nat × Nat} {spans : List (Nat × Nat)} (hPos : pos ≤ span.1)
      (hStart : source.IsBoundary span.1) (hStop : source.IsBoundary span.2)
      (hSolid : Solid (source.slice span.1 span.2)) (h : Spaced source stop span.2 spans) :
      Spaced source stop pos (span :: spans)

variable {pos stop mid : Nat} {more : List (Nat × Nat)}

theorem Solid.lt_of_slice (h : Solid (source.slice a b)) : a < b := by
  by_contra hLe
  refine h.ne_nil ?_
  rw [slice, Nat.sub_eq_zero_of_le (Nat.le_of_not_lt hLe), takeBytes_zero]

namespace Spaced

theorem le (h : Spaced source stop pos spans) : pos ≤ stop := by
  induction h with
  | nil hPos => exact hPos
  | cons hPos _ _ hSolid _ ih => exact hPos.trans (hSolid.lt_of_slice.le.trans ih)

theorem widen (h : Spaced source stop pos spans) (hLe : a ≤ pos) : Spaced source stop a spans := by
  cases h with
  | nil hPos => exact .nil (hLe.trans hPos)
  | cons hPos hStart hStop hSolid h => exact .cons (hLe.trans hPos) hStart hStop hSolid h

/-- Literals up to a byte and those from there on. -/
theorem append (h : Spaced source mid pos spans) (hMore : Spaced source stop mid more) :
    Spaced source stop pos (spans ++ more) := by
  induction h with
  | nil hPos => exact hMore.widen hPos
  | cons hPos hStart hStop hSolid _ ih => exact .cons hPos hStart hStop hSolid ih

/-- Every literal lies between the two bytes. -/
theorem inside (h : Spaced source stop pos spans) :
    ∀ span ∈ spans, pos ≤ span.1 ∧ span.1 < span.2 ∧ span.2 ≤ stop := by
  induction h with
  | nil => exact List.forall_mem_nil _
  | cons hPos _ _ hSolid hRest ih =>
    have hLt := hSolid.lt_of_slice
    refine List.forall_mem_cons.mpr ⟨⟨hPos, hLt, hRest.le⟩, fun other hOther => ?_⟩
    have := ih other hOther
    omega

/-- Each literal ends before the next one begins. -/
theorem pairwise (h : Spaced source stop pos spans) : spans.Pairwise fun x y => x.2 ≤ y.1 := by
  induction h with
  | nil => exact .nil
  | cons _ _ _ _ hRest ih => exact .cons (fun other hOther => (hRest.inside other hOther).1) ih

/-- No literal has white space at its ends. -/
theorem solid (h : Spaced source stop pos spans) : ∀ t ∈ source.spanTexts spans, Solid t := by
  induction h with
  | nil => exact List.forall_mem_nil _
  | cons _ _ _ hSolid _ ih => exact List.forall_mem_cons.mpr ⟨hSolid, ih⟩

/-- The text between two boundaries is gaps and spans in turn. -/
theorem slice_eq (h : Spaced source stop pos spans) (hPos : source.IsBoundary pos)
    (hStop : source.IsBoundary stop) :
    source.slice pos stop = weave (source.gapTexts stop pos spans) (source.spanTexts spans) := by
  induction h with
  | nil => simp [gapTexts, spanTexts, weave]
  | cons hLe hFirst hLast hSolid hRest ih =>
    rw [gapTexts, spanTexts, List.map_cons, weave, ← spanTexts, ← ih hLast,
      slice_append_slice hFirst hLast hStop hSolid.lt_of_slice.le hRest.le,
      slice_append_slice hPos hFirst hStop hLe (hSolid.lt_of_slice.le.trans hRest.le)]

/-- On one line, gaps are collapsed and spans are kept. -/
theorem flatten_eq (h : Spaced source stop pos spans) (ha : source.IsBoundary a)
    (hPos : source.IsBoundary pos) (hStop : source.IsBoundary stop) (hLe : a ≤ pos) :
    SyntaxTree.flatten (source.slice a stop) a (pos - a) spans =
      weave ((source.gapTexts stop pos spans).map collapse) (source.spanTexts spans) := by
  induction h with
  | nil hEnd =>
    rw [SyntaxTree.flatten, dropBytes_slice ha hPos hStop hLe hEnd]
    simp [gapTexts, spanTexts, weave]
  | cons hNext hFirst hLast hSolid hRest ih =>
    have hLt := hSolid.lt_of_slice
    rw [SyntaxTree.flatten, ih hLast (by omega),
      slice_slice ha hPos hFirst hStop hLe hNext (hLt.le.trans hRest.le),
      slice_slice ha hFirst hLast hStop (hLe.trans hNext) hLt.le hRest.le, List.append_assoc]
    rfl

end Spaced

/-- There is one gap more than there are literals. -/
theorem length_gapTexts (source : Text) (stop pos : Nat) (spans : List (Nat × Nat)) :
    (source.gapTexts stop pos spans).length = (source.spanTexts spans).length + 1 := by
  induction spans generalizing pos with
  | nil => rfl
  | cons span spans ih => rw [gapTexts, List.length_cons, ih]; rfl

/-- Between two boundaries lie as many bytes as the slice has. -/
theorem byteLength_slice (ha : source.IsBoundary a) (hb : source.IsBoundary b) (hab : a ≤ b) :
    a + byteLength (source.slice a b) = b := by
  obtain ⟨before, piece, after, rfl, rfl, rfl⟩ := exists_between ha hb hab
  rw [slice_append]

/-- A literal does not begin with a loose space. -/
theorem Solid.head_map (h : Solid literal) :
    ∀ m ∈ (literal.map (·, true) ++ ms).head?, isLoose m = false := by
  obtain ⟨c, hc, -⟩ := h.first
  obtain ⟨more, rfl⟩ := List.head?_eq_some_iff.mp hc
  intro m hm
  obtain rfl := Option.some.inj hm
  simp [isLoose]

/-- **Collapsing gap by gap replaces every maximal run of blanks outside the spans.** The spans in
front of `pos` are done. -/
theorem collapsed_marked {done : List (Nat × Nat)} (h : Spaced source stop pos spans)
    (hDone : ∀ span ∈ done, span.2 ≤ pos) (hPos : source.IsBoundary pos)
    (hStop : source.IsBoundary stop) :
    Collapsed (marked (done ++ spans) pos (source.slice pos stop))
      (weave ((source.gapTexts stop pos spans).map collapse) (source.spanTexts spans)) := by
  induction h generalizing done with
  | @nil pos hEnd =>
    have hOutside : ∀ span ∈ done ++ [],
        span.2 ≤ pos ∨ pos + byteLength (source.slice pos stop) ≤ span.1 := by
      rw [List.append_nil]
      exact fun span hSpan => .inl (hDone span hSpan)
    have hGap := collapsed_gap (source.slice pos stop) (fun m hm => by cases hm) .nil
    rw [marked_of_outside hOutside]
    simpa [gapTexts, spanTexts, weave] using hGap
  | @cons pos span spans hLe hFirst hLast hSolid hRest ih =>
    have hLt := hSolid.lt_of_slice
    have hGap := byteLength_slice hPos hFirst hLe
    have hSpan := byteLength_slice hFirst hLast hLt.le
    have hDone' : ∀ other ∈ done ++ [span], other.2 ≤ span.2 := by
      intro other hOther
      rcases List.mem_append.mp hOther with hOther | hOther
      · have := hDone other hOther
        omega
      · rw [List.mem_singleton.mp hOther]
    -- in the gap before the literal no other literal stands
    have hOutside : ∀ other ∈ done ++ span :: spans,
        other.2 ≤ pos ∨ pos + byteLength (source.slice pos span.1) ≤ other.1 := by
      intro other hOther
      rw [List.mem_append, List.mem_cons] at hOther
      rcases hOther with hOther | rfl | hOther
      · exact .inl (hDone other hOther)
      · exact .inr hGap.le
      · have := (hRest.inside other hOther).1
        exact .inr (by omega)
    have hMember : span ∈ done ++ span :: spans := List.mem_append_right _ List.mem_cons_self
    have hBehind := ih hDone' hLast
    rw [List.append_assoc, List.singleton_append] at hBehind
    -- the slice is the gap, the literal and what follows, and each is marked by itself
    rw [← slice_append_slice hPos hFirst hStop hLe (hLt.le.trans hRest.le),
      ← slice_append_slice hFirst hLast hStop hLt.le hRest.le, marked_append, marked_append, hGap,
      hSpan, marked_of_outside hOutside, marked_of_inside hMember le_rfl hSpan.le]
    exact collapsed_gap _ hSolid.head_map (collapsed_literal _ hBehind)

end Text

namespace SyntaxTree

variable {source : Text} {t u c : SyntaxTree} {ts cs stack : List SyntaxTree} {start stop : Nat}

-- ---------------------------------------------------------------------------
-- The outermost literals
-- ---------------------------------------------------------------------------

mutual

/-- The nodes of a tree in preorder, each with the nodes above it. -/
def nodesBelow : (above : List SyntaxTree) → SyntaxTree → List (List SyntaxTree × SyntaxTree)
  | above, node l cs => (above, node l cs) :: nodesBelowIn (node l cs :: above) cs

/-- The nodes of several trees in preorder, each with the nodes above it. -/
def nodesBelowIn : (above : List SyntaxTree) → List SyntaxTree → List (List SyntaxTree × SyntaxTree)
  | _, [] => []
  | above, t :: ts => nodesBelow above t ++ nodesBelowIn above ts

end

/-- A literal with no literal above it. -/
def isOutermost (place : List SyntaxTree × SyntaxTree) : Bool :=
  place.2.kind.isLiteral && place.1.all fun t => !t.kind.isLiteral

/-- The literals of a tree that stand in no other literal of it, in preorder. -/
def outermostLiterals (t : SyntaxTree) : List SyntaxTree :=
  ((t.nodesBelow []).filter isOutermost).map Prod.snd

/-- The bytes that a tree covers. -/
def span (t : SyntaxTree) : Nat × Nat := (t.start, t.stop)

/-- The nodes below trees are those below each of them, in order. -/
theorem nodesBelowIn_eq (above ts : List SyntaxTree) :
    nodesBelowIn above ts = ts.flatMap (nodesBelow above) := by
  induction ts with
  | nil => rfl
  | cons t ts ih => rw [nodesBelowIn, ih, List.flatMap_cons]

theorem literalSpansIn_eq (ts : List SyntaxTree) : literalSpansIn ts = ts.flatMap literalSpans := by
  induction ts with
  | nil => rfl
  | cons t ts ih => rw [literalSpansIn, ih, List.flatMap_cons]

/-- Nothing under a literal is outermost. -/
theorem filter_nodesBelow_of_literal {above : List SyntaxTree}
    (h : (above.all fun t => !t.kind.isLiteral) = false) (t : SyntaxTree) :
    (t.nodesBelow above).filter isOutermost = [] := by
  induction t using children_induction generalizing above with
  | step t ih =>
    obtain ⟨l, cs⟩ := t
    have hBelow : ((node l cs :: above).all fun t => !t.kind.isLiteral) = false := by
      rw [List.all_cons, h, Bool.and_false]
    rw [nodesBelow, List.filter_cons_of_neg (by simp [isOutermost, h]), nodesBelowIn_eq,
      List.filter_flatMap, List.flatMap_eq_nil_iff]
    exact fun c hc => ih c hc hBelow

/-- The literals of a tree are its outermost nodes of a literal kind. -/
theorem literalSpans_eq_below {above : List SyntaxTree}
    (h : (above.all fun t => !t.kind.isLiteral) = true) (t : SyntaxTree) :
    t.literalSpans = ((t.nodesBelow above).filter isOutermost).map fun place => place.2.span := by
  induction t using children_induction generalizing above with
  | step t ih =>
    obtain ⟨l, cs⟩ := t
    rw [literalSpans, nodesBelow, nodesBelowIn_eq]
    split
    case isTrue hLiteral =>
      have hBelow : ((node l cs :: above).all fun t => !t.kind.isLiteral) = false := by
        simp [kind, label, hLiteral]
      have hSelf : isOutermost (above, node l cs) = true := by
        rw [isOutermost, h]
        simp [kind, label, hLiteral]
      have hRest : (cs.flatMap (nodesBelow (node l cs :: above))).filter isOutermost = [] := by
        rw [List.filter_flatMap, List.flatMap_eq_nil_iff]
        exact fun c _ => filter_nodesBelow_of_literal hBelow c
      rw [List.filter_cons_of_pos hSelf, hRest]
      rfl
    case isFalse hLiteral =>
      have hBelow : ((node l cs :: above).all fun t => !t.kind.isLiteral) = true := by
        rw [List.all_cons, h]
        simp [kind, label, hLiteral]
      have hSelf : ¬ isOutermost (above, node l cs) = true := by
        simp [isOutermost, kind, label, hLiteral]
      rw [List.filter_cons_of_neg hSelf, literalSpansIn_eq, List.filter_flatMap, List.map_flatMap]
      exact List.flatMap_congr fun c hc => ih c hc hBelow

/-- **The spans that are kept are those of the outermost literals.** -/
theorem literalSpans_eq (t : SyntaxTree) : t.literalSpans = t.outermostLiterals.map span := by
  rw [literalSpans_eq_below List.all_nil, outermostLiterals, List.map_map]
  rfl

theorem sum_sizeOf_le (ts : List SyntaxTree) : (ts.map sizeOf).sum ≤ sizeOf ts := by
  induction ts with
  | nil => simp
  | cons t ts ih =>
    rw [List.map_cons, List.sum_cons, List.cons.sizeOf_spec]
    omega

/-- The spans of the outermost literals, found with a stack of trees that are still to be visited,
the next one first. The children of a tree that is no literal take its place. -/
def walkSpans : (stack : List SyntaxTree) → List (Nat × Nat)
  | [] => []
  | node l cs :: stack =>
    if l.kind.isLiteral then (l.start, l.stop) :: walkSpans stack else walkSpans (cs ++ stack)
termination_by stack => (stack.map sizeOf).sum
decreasing_by
  all_goals
    have hLe := sum_sizeOf_le cs
    simp only [List.map_cons, List.map_append, List.sum_cons, List.sum_append, node.sizeOf_spec]
    omega

/-- A walk by stack goes through the trees on it in order. -/
theorem walkSpans_append
    (hs : ∀ t ∈ ts, ∀ stack, walkSpans (t :: stack) = t.literalSpans ++ walkSpans stack)
    (stack : List SyntaxTree) : walkSpans (ts ++ stack) = literalSpansIn ts ++ walkSpans stack := by
  induction ts with
  | nil => rfl
  | cons t ts ih =>
    obtain ⟨hFirst, hOthers⟩ := List.forall_mem_cons.mp hs
    rw [List.cons_append, hFirst, ih hOthers, literalSpansIn, List.append_assoc]

/-- The walk with a stack finds what is found by recursion. -/
theorem walkSpans_cons (t : SyntaxTree) (stack : List SyntaxTree) :
    walkSpans (t :: stack) = t.literalSpans ++ walkSpans stack := by
  induction t using children_induction generalizing stack with
  | step t ih =>
    obtain ⟨l, cs⟩ := t
    rw [walkSpans, literalSpans]
    split
    · rfl
    · exact walkSpans_append ih stack

-- ---------------------------------------------------------------------------
-- Regular trees
-- ---------------------------------------------------------------------------

/-- Spans are nested, lie one after the other and fall between characters, and literals neither
begin nor end with a blank. -/
structure Regular (source : Text) (t : SyntaxTree) : Prop where
  nested : t.isNested = true
  boundaries : ∀ u, t.Holds u → source.IsBoundary u.start ∧ source.IsBoundary u.stop
  solid : ∀ u, t.Holds u → u.kind.isLiteral = true → Text.Solid (u.rawText source)

theorem Regular.child (h : t.Regular source) (hChild : c ∈ t.children) : c.Regular source :=
  ⟨(nested_of_mem (isNested_iff.mp h.nested) hChild).1,
    fun u hu => h.boundaries u (.child hChild hu), fun u hu => h.solid u (.child hChild hu)⟩

/-- The literals of nested trees are spaced, if those of each tree are. -/
theorem spaced_literalSpansIn (hNested : areNested start stop ts = true)
    (hSpaced : ∀ t ∈ ts, Text.Spaced source t.stop t.start t.literalSpans) :
    Text.Spaced source stop start (literalSpansIn ts) := by
  induction ts generalizing start with
  | nil => exact .nil (areNested_nil.mp hNested)
  | cons t ts ih =>
    obtain ⟨hStart, -, hRest⟩ := areNested_cons.mp hNested
    obtain ⟨hFirst, hOthers⟩ := List.forall_mem_cons.mp hSpaced
    exact (hFirst.widen hStart).append (ih hRest hOthers)

/-- The literals of a regular tree lie one after the other. -/
theorem Regular.spaced (h : t.Regular source) :
    Text.Spaced source t.stop t.start t.literalSpans := by
  induction t using children_induction with
  | step t ih =>
    obtain ⟨hStart, hStop⟩ := h.boundaries t (.self t)
    have hSolid := h.solid t (.self t)
    have hChildren : Text.Spaced source t.stop t.start (literalSpansIn t.children) :=
      spaced_literalSpansIn (isNested_iff.mp h.nested) fun c hc => ih c hc (h.child hc)
    obtain ⟨l, cs⟩ := t
    rw [literalSpans]
    split
    case isTrue hLiteral => exact .cons le_rfl hStart hStop (hSolid hLiteral) (.nil le_rfl)
    case isFalse => exact hChildren

/-- The nodes of a tree in preorder. -/
def nodes (t : SyntaxTree) : List SyntaxTree := (t.nodesBelow []).map Prod.snd

/-- A node below one of the trees is below the trees. -/
theorem mem_nodesBelowIn {above : List SyntaxTree} (hc : c ∈ cs)
    (hu : u ∈ (c.nodesBelow above).map Prod.snd) : u ∈ (nodesBelowIn above cs).map Prod.snd := by
  induction cs with
  | nil => exact absurd hc List.not_mem_nil
  | cons d cs ih =>
    rw [nodesBelowIn, List.map_append, List.mem_append]
    rcases List.mem_cons.mp hc with rfl | hc
    · exact .inl hu
    · exact .inr (ih hc)

/-- What a tree holds is a node below it. -/
theorem Holds.mem_nodesBelow (h : t.Holds u) (above : List SyntaxTree) :
    u ∈ (t.nodesBelow above).map Prod.snd := by
  induction h generalizing above with
  | self t =>
    obtain ⟨l, cs⟩ := t
    rw [nodesBelow]
    exact List.mem_cons_self
  | @child t c u hChild _ ih =>
    obtain ⟨l, cs⟩ := t
    rw [nodesBelow]
    exact List.mem_cons_of_mem _ (mem_nodesBelowIn hChild (ih _))

/-- A tree is regular if its spans are nested and each of its nodes is all right. -/
theorem Regular.of_nodes (h : t.isNested = true ∧ ∀ u ∈ t.nodes, source.IsBoundary u.start ∧
    source.IsBoundary u.stop ∧ (u.kind.isLiteral = true → Text.Solid (u.rawText source))) :
    t.Regular source :=
  ⟨h.1, fun u hu => ⟨(h.2 u (hu.mem_nodesBelow [])).1, (h.2 u (hu.mem_nodesBelow [])).2.1⟩,
    fun u hu => (h.2 u (hu.mem_nodesBelow [])).2.2⟩

/-- The source text of a tree between its outermost literals. -/
def gaps (source : Text) (t : SyntaxTree) : List Text := source.gapTexts t.stop t.start t.literalSpans

/-- The source texts of its outermost literals. -/
def literalTexts (source : Text) (t : SyntaxTree) : List Text :=
  t.outermostLiterals.map (rawText source)

/-- The texts of the literals are those between their bytes. -/
theorem spanTexts_literalSpans (source : Text) (t : SyntaxTree) :
    source.spanTexts t.literalSpans = t.literalTexts source := by
  rw [literalSpans_eq, Text.spanTexts, literalTexts, List.map_map]
  rfl

/-- **The text of a regular tree is woven from gaps and literals.** -/
theorem Regular.rawText_eq_weave (h : t.Regular source) :
    t.rawText source = Text.weave (t.gaps source) (t.literalTexts source) := by
  obtain ⟨hStart, hStop⟩ := h.boundaries t (.self t)
  rw [rawText, h.spaced.slice_eq hStart hStop, spanTexts_literalSpans, gaps]

/-- Gaps are collapsed one by one, and literals are kept. -/
theorem Regular.text_eq_weave (h : t.Regular source) :
    t.text source =
      (Text.weave ((t.gaps source).map Text.collapse) (t.literalTexts source)).strip := by
  obtain ⟨hStart, hStop⟩ := h.boundaries t (.self t)
  have hFlat := h.spaced.flatten_eq hStart hStart hStop le_rfl
  rw [Nat.sub_self] at hFlat
  rw [text, rawText, hFlat, spanTexts_literalSpans, gaps]

theorem Regular.solid_literalTexts (h : t.Regular source) :
    ∀ literal ∈ t.literalTexts source, Text.Solid literal := by
  rw [← spanTexts_literalSpans]
  exact h.spaced.solid

/-- A tree has one gap more than it has literals. -/
theorem length_gaps (source : Text) (t : SyntaxTree) :
    (t.gaps source).length = (t.literalTexts source).length + 1 := by
  rw [gaps, Text.length_gapTexts, spanTexts_literalSpans]

/-- The runs of blanks outside the literals are replaced, those of the whole text at once. -/
theorem Regular.collapsed (h : t.Regular source) :
    Text.Collapsed (Text.marked t.literalSpans t.start (t.rawText source))
      (Text.weave ((t.gaps source).map Text.collapse) (t.literalTexts source)) := by
  obtain ⟨hStart, hStop⟩ := h.boundaries t (.self t)
  have hMarked := Text.collapsed_marked h.spaced (List.forall_mem_nil _) hStart hStop
  rwa [List.nil_append, spanTexts_literalSpans] at hMarked

/-- The literals stand in the text as they are written, with single spaced texts between them. -/
theorem Regular.exists_gaps (h : t.Regular source) :
    ∃ gaps, gaps.length = (t.literalTexts source).length + 1 ∧ (∀ gap ∈ gaps, Text.SingleSpaced gap) ∧
      t.text source = Text.weave gaps (t.literalTexts source) := by
  have hLength : ((t.gaps source).map Text.collapse).length = (t.literalTexts source).length + 1 := by
    rw [List.length_map, length_gaps]
  obtain ⟨gaps, hSame, hParts, hStrip⟩ := Text.exists_strip_weave hLength h.solid_literalTexts
  refine ⟨gaps, hSame.trans hLength, ?_, h.text_eq_weave.trans hStrip⟩
  intro gap hGap
  obtain ⟨whole, hWhole, hInfix⟩ := hParts gap hGap
  obtain ⟨raw, -, rfl⟩ := List.mem_map.mp hWhole
  exact (Text.singleSpaced_collapseFrom false raw).1.of_isInfix hInfix

/-- White space apart the text of a tree on one line is its text. -/
theorem Regular.filter_text (h : t.Regular source) :
    (t.text source).filter (!isBlank ·) = (t.rawText source).filter (!isBlank ·) := by
  rw [h.text_eq_weave, h.rawText_eq_weave, Text.filter_strip, Text.filter_weave_collapse]

/-- **The text of a regular tree is its source text with every maximal run of blanks outside the
outermost literals replaced by one space and the ends stripped.** -/
theorem text_on_one_line (h : t.Regular source) :
    -- the walk finds the outermost literals, one after the other inside the tree
    walkSpans [t] = t.outermostLiterals.map span ∧
    (walkSpans [t]).Pairwise (fun x y => x.2 ≤ y.1) ∧
    (∀ span ∈ walkSpans [t], t.start ≤ span.1 ∧ span.1 < span.2 ∧ span.2 ≤ t.stop) ∧
    -- what the text is
    (∀ s, s = t.text source ↔
      ∃ line, Text.Collapsed (Text.marked (walkSpans [t]) t.start (t.rawText source)) line ∧
        s = line.strip) ∧
    -- literals are kept in order, and there are single spaces only between them
    (∃ gaps, gaps.length = t.outermostLiterals.length + 1 ∧ (∀ gap ∈ gaps, Text.SingleSpaced gap) ∧
      t.text source = Text.weave gaps (t.outermostLiterals.map (rawText source))) ∧
    -- nothing but blanks is lost
    (t.text source).filter (!isBlank ·) = (t.rawText source).filter (!isBlank ·) ∧
    -- the length and the kind of runs between literals do not matter
    t.rawText source = Text.weave (t.gaps source) (t.outermostLiterals.map (rawText source)) ∧
    ∀ (source' : Text) (u : SyntaxTree), u.Regular source' →
      u.outermostLiterals.map (rawText source') = t.outermostLiterals.map (rawText source) →
      List.Forall₂ Text.SameTokens (u.gaps source') (t.gaps source) →
      u.text source' = t.text source := by
  have hWalk : walkSpans [t] = t.literalSpans := by
    rw [walkSpans_cons, walkSpans, List.append_nil]
  have hLength : (t.literalTexts source).length = t.outermostLiterals.length := List.length_map _
  obtain ⟨gaps, hCount, hGaps, hText⟩ := h.exists_gaps
  rw [hWalk]
  refine ⟨literalSpans_eq t, h.spaced.pairwise, h.spaced.inside, fun s => ⟨?_, ?_⟩,
    ⟨gaps, hCount.trans (congrArg (· + 1) hLength), hGaps, hText⟩, h.filter_text,
    h.rawText_eq_weave, ?_⟩
  · rintro rfl
    exact ⟨_, h.collapsed, h.text_eq_weave⟩
  · rintro ⟨line, hLine, rfl⟩
    rw [hLine.unique h.collapsed, h.text_eq_weave]
  · intro source' u hu hLiterals hTokens
    rw [hu.text_eq_weave, h.text_eq_weave, Text.map_collapse_eq hTokens, literalTexts, hLiterals,
      ← literalTexts]

/-- A line of two tokens and three literals, blanks in each of them. The second literal is a
template with a string in it, and the third one follows without a blank. -/
def ruffled : Text := "é =\n\t\"a  b\"  `x $\x7b \"y\" \x7d`/q  r/\r;"

/-- The same line with other blanks between the literals. -/
def smooth : Text := "é = \"a  b\"\u2028`x $\x7b \"y\" \x7d`/q  r/\u3000 ;"

/-- The tree of such a line, by the beginnings of its literals and its end. -/
def plumage (a b c stop : Nat) : SyntaxTree :=
  .node { kind := .program, start := 0, stop }
    [.node { kind := .identifier, start := 0, stop := 2 } [],
      .node { kind := .string, start := a, stop := a + 6 } [],
      .node { kind := .templateString, start := b, stop := b + 12 }
        [.node { kind := .string, start := b + 6, stop := b + 9 } []],
      .node { kind := .regex, start := c, stop := c + 6 } []]

/-- Two spellings of one statement, with a string, a template and a regular expression, on one
line. -/
theorem text_on_one_line_of_ruffled :
    (plumage 6 14 26 34).Regular ruffled ∧ (plumage 5 14 26 37).Regular smooth ∧
    walkSpans [plumage 6 14 26 34] = [(6, 12), (14, 26), (26, 32)] ∧
    (plumage 6 14 26 34).text ruffled = "é = \"a  b\" `x $\x7b \"y\" \x7d`/q  r/ ;".toList ∧
    (plumage 5 14 26 37).text smooth = (plumage 6 14 26 34).text ruffled := by
  have hRuffled : (plumage 6 14 26 34).Regular ruffled := .of_nodes (by decide +kernel)
  have hSmooth : (plumage 5 14 26 37).Regular smooth := .of_nodes (by decide +kernel)
  have hLiterals : (plumage 5 14 26 37).outermostLiterals.map (rawText smooth) =
      (plumage 6 14 26 34).outermostLiterals.map (rawText ruffled) := by decide +kernel
  have hTokens : List.Forall₂ Text.SameTokens ((plumage 5 14 26 37).gaps smooth)
      ((plumage 6 14 26 34).gaps ruffled) := by
    have hSmoothGaps : (plumage 5 14 26 37).gaps smooth =
        [['é', ' ', '=', ' '], ['\u2028'], [], ['\u3000', ' ', ';']] := by decide +kernel
    have hRuffledGaps : (plumage 6 14 26 34).gaps ruffled =
        [['é', ' ', '=', '\n', '\t'], [' ', ' '], [], ['\r', ';']] := by decide +kernel
    rw [hSmoothGaps, hRuffledGaps]
    refine .cons ?_ (.cons ?_ (.cons .nil (.cons ?_ .nil)))
    · exact .char rfl (.run [' '] [' '] (by simp) (by simp) rfl rfl
        (.char rfl (.run [' '] ['\n', '\t'] (by simp) (by simp) rfl rfl .nil)))
    · exact .run ['\u2028'] [' ', ' '] (by simp) (by simp) rfl rfl .nil
    · exact .run ['\u3000', ' '] ['\r'] (by simp) (by simp) rfl rfl (.char rfl .nil)
  obtain ⟨hWalk, -, -, -, -, -, -, hSame⟩ := text_on_one_line hRuffled
  refine ⟨hRuffled, hSmooth, hWalk.trans (by decide +kernel), ?_, hSame _ _ hSmooth hLiterals hTokens⟩
  decide +kernel

end SyntaxTree

end ClassTags
