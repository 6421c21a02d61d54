import ClassTags.Text.Basic
import Mathlib.Data.List.Infix

/-!
# Slices of a text

A span is given in bytes, and a character belongs to it if it begins there. Between two
**boundaries**, the places at which characters begin, a slice is the text that stands there. Where
only its beginning is known to be a boundary, a slice still holds no other characters than those of
the span.

Main results:

* `Text.slice_append` — the slice between two boundaries;
* `Text.slice_slice_subset` — the slice of a slice, counted from the beginning of the outer one.
-/

namespace ClassTags

namespace Text

variable {source : Text}

-- ---------------------------------------------------------------------------
-- Bytes
-- ---------------------------------------------------------------------------

@[simp]
theorem byteLength_nil : byteLength [] = 0 := rfl

theorem byteLength_cons (c : Char) (t : Text) : byteLength (c :: t) = c.utf8Size + byteLength t := rfl

@[simp]
theorem byteLength_append (s t : Text) : byteLength (s ++ t) = byteLength s + byteLength t := by
  induction s with
  | nil => simp
  | cons c s ih => rw [List.cons_append, byteLength_cons, byteLength_cons, ih, Nat.add_assoc]

@[simp]
theorem takeBytes_zero (t : Text) : takeBytes 0 t = [] := by cases t <;> rfl

@[simp]
theorem dropBytes_zero (t : Text) : dropBytes 0 t = t := by cases t <;> rfl

theorem takeBytes_nil (n : Nat) : takeBytes n [] = [] := by cases n <;> rfl

theorem dropBytes_nil (n : Nat) : dropBytes n [] = [] := by cases n <;> rfl

/-- What is taken from two texts comes from the first one first. -/
theorem takeBytes_append (n : Nat) (s t : Text) :
    takeBytes n (s ++ t) = takeBytes n s ++ takeBytes (n - byteLength s) t := by
  induction s generalizing n with
  | nil => simp [takeBytes_nil]
  | cons c s ih =>
    cases n with
    | zero => simp
    | succ n =>
      rw [List.cons_append, takeBytes, takeBytes, ih, byteLength_cons, Nat.sub_add_eq,
        List.cons_append]

/-- What is dropped from two texts is dropped from the first one first. -/
theorem dropBytes_append (n : Nat) (s t : Text) :
    dropBytes n (s ++ t) = dropBytes n s ++ dropBytes (n - byteLength s) t := by
  induction s generalizing n with
  | nil => simp [dropBytes_nil]
  | cons c s ih =>
    cases n with
    | zero => simp
    | succ n => rw [List.cons_append, dropBytes, dropBytes, ih, byteLength_cons, Nat.sub_add_eq]

/-- No more can be taken than there is. -/
theorem takeBytes_of_le {n : Nat} {t : Text} (h : byteLength t ≤ n) : takeBytes n t = t := by
  induction t generalizing n with
  | nil => exact takeBytes_nil n
  | cons c t ih =>
    have hSize := c.utf8Size_pos
    rw [byteLength_cons] at h
    obtain ⟨m, rfl⟩ : ∃ m, n = m + 1 := ⟨n - 1, by omega⟩
    rw [takeBytes, ih (by omega)]

/-- No more can be dropped than there is. -/
theorem dropBytes_of_le {n : Nat} {t : Text} (h : byteLength t ≤ n) : dropBytes n t = [] := by
  induction t generalizing n with
  | nil => exact dropBytes_nil n
  | cons c t ih =>
    have hSize := c.utf8Size_pos
    rw [byteLength_cons] at h
    obtain ⟨m, rfl⟩ : ∃ m, n = m + 1 := ⟨n - 1, by omega⟩
    rw [dropBytes, ih (by omega)]

/-- What is taken is the beginning of the text. -/
theorem takeBytes_prefix_self (n : Nat) (t : Text) : takeBytes n t <+: t := by
  induction t generalizing n with
  | nil => rw [takeBytes_nil]
  | cons c t ih =>
    cases n with
    | zero => simp
    | succ n => exact List.cons_prefix_cons.mpr ⟨rfl, ih _⟩

/-- As many bytes of less text are less text. -/
theorem takeBytes_mono {s t : Text} (h : s <+: t) (n : Nat) : takeBytes n s <+: takeBytes n t := by
  obtain ⟨rest, rfl⟩ := h
  rw [takeBytes_append]
  exact List.prefix_append _ _

/-- A beginning has no more bytes than the text. -/
theorem byteLength_mono {s t : Text} (h : s <+: t) : byteLength s ≤ byteLength t := by
  obtain ⟨rest, rfl⟩ := h
  rw [byteLength_append]
  exact Nat.le_add_right _ _

theorem dropBytes_append_self (s t : Text) : dropBytes (byteLength s) (s ++ t) = t := by
  rw [dropBytes_append, dropBytes_of_le le_rfl, Nat.sub_self, dropBytes_zero, List.nil_append]

theorem takeBytes_append_self (s t : Text) : takeBytes (byteLength s) (s ++ t) = s := by
  rw [takeBytes_append, takeBytes_of_le le_rfl, Nat.sub_self, takeBytes_zero, List.append_nil]

/-- Without the bytes of the first text a beginning of both is one of the second. -/
theorem dropBytes_prefix_of_append {s t u : Text} (h : u <+: s ++ t) :
    dropBytes (byteLength s) u <+: t := by
  rcases List.prefix_or_prefix_of_prefix h (List.prefix_append s t) with hShort | ⟨v, rfl⟩
  · rw [dropBytes_of_le (byteLength_mono hShort)]
    exact List.nil_prefix
  · rw [dropBytes_append_self]
    exact (List.prefix_append_right_inj s).mp h

-- ---------------------------------------------------------------------------
-- Boundaries
-- ---------------------------------------------------------------------------

/-- A character begins at byte `n` of a text, or the text ends there. -/
def IsBoundary (source : Text) (n : Nat) : Prop :=
  ∃ before after, source = before ++ after ∧ n = byteLength before

/-- A slice from the end of the first text on is taken from the second. -/
theorem slice_from (before after : Text) (stop : Nat) :
    slice (before ++ after) (byteLength before) stop = takeBytes (stop - byteLength before) after := by
  rw [slice, dropBytes_append_self]

/-- The slice between two boundaries is what stands there. -/
theorem slice_append (before piece after : Text) :
    slice (before ++ (piece ++ after)) (byteLength before) (byteLength before + byteLength piece) =
      piece := by
  rw [slice_from, Nat.add_sub_cancel_left, takeBytes_append_self]

/-- A slice of a slice holds no other characters than the slice of the whole text. -/
theorem slice_slice_subset {base stop start finish : Nat} (hBase : IsBoundary source base)
    (hStart : IsBoundary source start) :
    slice (slice source base stop) (start - base) (finish - base) ⊆ slice source start finish := by
  obtain ⟨before, after, rfl, rfl⟩ := hBase
  obtain ⟨before', after', hSource, rfl⟩ := hStart
  have hOwn : takeBytes (stop - byteLength before) after <+: after := takeBytes_prefix_self _ _
  rw [hSource, slice_from, ← hSource, slice_from, slice]
  rcases List.append_eq_append_iff.mp hSource with ⟨x, rfl, rfl⟩ | ⟨z, rfl, rfl⟩
  · -- the inner slice begins within the outer one
    have hInner := takeBytes_mono (dropBytes_prefix_of_append hOwn)
      (finish - byteLength before - (byteLength (before ++ x) - byteLength before))
    rw [byteLength_append, Nat.add_sub_cancel_left] at hInner ⊢
    rw [Nat.sub_add_eq]
    exact hInner.subset
  · -- the inner slice begins before the outer one
    rw [byteLength_append] at hOwn ⊢
    rw [Nat.sub_eq_zero_of_le (Nat.le_add_right _ _), dropBytes_zero, Nat.sub_zero, takeBytes_append,
      Nat.sub_sub]
    exact List.Subset.trans (takeBytes_mono hOwn _).subset (List.subset_append_right _ _)

end Text

end ClassTags
