import ClassTags.Tag
import Mathlib.Data.List.Perm.Basic

/-!
# The order of member rows

The rows of the members of a class come in the order of their lines, and members on one line keep
the order in which the class lists them: kind by kind, and within one kind as they were defined. Two
members may be alike in all that their rows tell, so the order is stated for **numbered** members,
which are addressed by their kind and their place in the list of that kind. Said of these, the order
leaves no choice.

Main definitions:

* `ClassRecord.numbered` — the members of a class with their addresses;
* `ClassRecord.InLineOrder` — what it means for members to come in the order of their lines.

Main results:

* `ClassRecord.InLineOrder.unique` — members come in the order of their lines in one way only;
* `ClassRecord.filter_lineSorted` — sorting by line does not touch the order within a line;
* `ClassRecord.texts_in_line_order` — so come the rows of a class.
-/

namespace ClassTags

/-- The order of the kinds of members: mixins, interfaces, methods, properties, statics, events. The
class itself and its parent are no members. -/
def MemberKind.rank : MemberKind → Nat
  | mixin => 0
  | interface => 1
  | method => 2
  | property => 3
  | static => 4
  | event => 5
  | definition | parent => 6

/-- A member of a class with its address: its kind, and its place among the members of that kind. -/
structure NumberedMember where
  kind : MemberKind
  index : Nat
  entry : MemberEntry

namespace NumberedMember

/-- The member without its place. -/
def member (m : NumberedMember) : MemberKind × MemberEntry := (m.kind, m.entry)

/-- The line on which a member stands. -/
def line (m : NumberedMember) : Nat := m.entry.line

/-- Whether a class lists one member before another. -/
def Precedes (a b : NumberedMember) : Prop :=
  a.kind.rank < b.kind.rank ∨ a.kind = b.kind ∧ a.index < b.index

/-- Of two members only one precedes the other. -/
theorem Precedes.asymm {a b : NumberedMember} (h : Precedes a b) : ¬ Precedes b a := by
  rintro (hRank | ⟨hKind, hIndex⟩)
  · rcases h with h | ⟨hKind, -⟩
    · omega
    · rw [hKind] at hRank
      omega
  · rcases h with h | ⟨-, h⟩
    · rw [hKind] at h
      omega
    · omega

/-- The members of one kind, numbered. -/
def ofList (kind : MemberKind) (entries : List MemberEntry) : List NumberedMember :=
  entries.zipIdx.map fun p => ⟨kind, p.2, p.1⟩

/-- Numbers put aside, the members of a list are its entries. -/
theorem map_member_ofList (kind : MemberKind) (entries : List MemberEntry) :
    (ofList kind entries).map member = entries.map (kind, ·) := by
  unfold ofList
  rw [List.map_map]
  conv_rhs => rw [← List.zipIdx_map_fst 0 entries, List.map_map]
  rfl

theorem kind_of_mem_ofList {kind : MemberKind} {entries : List MemberEntry} {m : NumberedMember}
    (hm : m ∈ ofList kind entries) : m.kind = kind := by
  obtain ⟨_, -, rfl⟩ := List.mem_map.mp hm
  rfl

/-- The members of a list come in the order of their numbers. -/
theorem pairwise_ofList (kind : MemberKind) (entries : List MemberEntry) :
    (ofList kind entries).Pairwise Precedes := by
  have hIndex : entries.zipIdx.Pairwise fun p q => p.2 < q.2 := by
    rw [← List.pairwise_map (f := Prod.snd), List.zipIdx_map_snd]
    exact List.pairwise_lt_range'
  exact List.pairwise_map.mpr (hIndex.imp fun h => .inr ⟨rfl, h⟩)

end NumberedMember

namespace ClassRecord

open NumberedMember

-- ---------------------------------------------------------------------------
-- The members with their addresses
-- ---------------------------------------------------------------------------

/-- The members of a class with their addresses. -/
def numbered (r : ClassRecord) : List NumberedMember :=
  ofList .mixin r.mixins ++ ofList .interface r.interfaces ++ ofList .method r.methods ++
    ofList .property r.properties ++ ofList .static r.statics ++ ofList .event r.events

/-- The members are numbered list by list. -/
theorem numbered_eq (r : ClassRecord) :
    r.numbered = listedKinds.flatMap fun kind => ofList kind (r.ofKind kind) := by
  simp [numbered, listedKinds, ofKind]

/-- Without their addresses these are the members that the class lists. -/
theorem map_member_numbered (r : ClassRecord) : r.numbered.map member = r.members := by
  rw [numbered_eq, List.map_flatMap]
  simp only [map_member_ofList]
  rfl

/-- All members come in the order of their kinds and numbers. -/
theorem pairwise_numbered (r : ClassRecord) : r.numbered.Pairwise Precedes := by
  have hRanks : listedKinds.Pairwise fun a b => a.rank < b.rank := by decide
  rw [numbered_eq, List.pairwise_flatMap]
  refine ⟨fun kind _ => pairwise_ofList kind _, hRanks.imp ?_⟩
  intro kind kind' hRank a ha b hb
  refine .inl ?_
  rw [kind_of_mem_ofList ha, kind_of_mem_ofList hb]
  exact hRank

-- ---------------------------------------------------------------------------
-- The order of lines
-- ---------------------------------------------------------------------------

/-- The members of a class come in the order of their lines. -/
structure InLineOrder (r : ClassRecord) (ms : List NumberedMember) : Prop where
  /-- Every member comes once. -/
  perm : ms.Perm r.numbered
  ascending : ms.Pairwise fun a b => a.line ≤ b.line
  /-- Members on one line keep the order of the class. -/
  stable : ms.Pairwise fun a b => a.line = b.line → a.Precedes b

/-- **Members come in the order of their lines in one way only.** -/
theorem InLineOrder.unique {r : ClassRecord} {ms ms' : List NumberedMember} (h : r.InLineOrder ms)
    (h' : r.InLineOrder ms') : ms = ms' := by
  have hOrder : ∀ {ms : List NumberedMember}, r.InLineOrder ms →
      ms.Pairwise fun a b => a.line ≤ b.line ∧ (a.line = b.line → a.Precedes b) :=
    fun h => List.pairwise_and_iff.mpr ⟨h.ascending, h.stable⟩
  refine List.Perm.eq_of_pairwise ?_ (hOrder h) (hOrder h') (h.perm.trans h'.perm.symm)
  rintro a b - - ⟨hab, hBefore⟩ ⟨hba, hAfter⟩
  have hLine : a.line = b.line := Nat.le_antisymm hab hba
  exact absurd (hAfter hLine.symm) (hBefore hLine).asymm

/-- The members of a class sorted by line. -/
def lineSorted (r : ClassRecord) : List NumberedMember :=
  r.numbered.mergeSort fun a b => a.line ≤ b.line

/-- Sorted by line the members are those of the tag file. -/
theorem map_member_lineSorted (r : ClassRecord) : r.lineSorted.map member = r.membersByLine := by
  rw [membersByLine, ← map_member_numbered]
  exact List.map_mergeSort fun _ _ _ _ => rfl

private theorem line_trans (a b c : NumberedMember) (hab : decide (a.line ≤ b.line) = true)
    (hbc : decide (b.line ≤ c.line) = true) : decide (a.line ≤ c.line) = true := by
  rw [decide_eq_true_eq] at hab hbc ⊢
  exact Nat.le_trans hab hbc

private theorem line_total (a b : NumberedMember) :
    (decide (a.line ≤ b.line) || decide (b.line ≤ a.line)) = true := by
  rw [Bool.or_eq_true, decide_eq_true_eq, decide_eq_true_eq]
  exact Nat.le_total a.line b.line

/-- Sorting by line does not touch the order within a line. -/
theorem filter_lineSorted (r : ClassRecord) (line : Nat) :
    r.lineSorted.filter (·.line = line) = r.numbered.filter (·.line = line) := by
  have hPerm : r.lineSorted.Perm r.numbered := List.mergeSort_perm _ _
  -- the members on one line are sorted as they are, so they come through the sorting in their order
  have hSorted : (r.numbered.filter (·.line = line)).Pairwise fun a b =>
      decide (a.line ≤ b.line) = true := by
    refine List.pairwise_filter.mpr (List.pairwise_of_forall fun a b ha hb => ?_)
    rw [decide_eq_true_eq] at ha hb ⊢
    exact Nat.le_of_eq (ha.trans hb.symm)
  have hKept : (r.numbered.filter (·.line = line)).Sublist r.lineSorted :=
    List.sublist_mergeSort line_trans line_total hSorted List.filter_sublist
  have hInside := hKept.filter (·.line = line)
  rw [List.filter_filter] at hInside
  simp only [Bool.and_self] at hInside
  exact (hInside.eq_of_length (hPerm.filter _).length_eq.symm).symm

/-- **Members are sorted by line**, and those of one line stay in the order of their kinds and
numbers. -/
theorem inLineOrder_lineSorted (r : ClassRecord) : r.InLineOrder r.lineSorted where
  perm := List.mergeSort_perm _ _
  ascending := (List.pairwise_mergeSort line_trans line_total r.numbered).imp of_decide_eq_true
  stable := by
    rw [List.pairwise_iff_forall_sublist]
    intro a b hPair hLine
    -- both are on the line of `b`, where the order is still that of the class
    have hOnLine : (r.lineSorted.filter (·.line = b.line)).Pairwise Precedes := by
      rw [filter_lineSorted]
      exact r.pairwise_numbered.sublist List.filter_sublist
    have hBoth := List.pairwise_iff_forall_sublist.mp (List.pairwise_filter.mp hOnLine) hPair
    exact hBoth (decide_eq_true hLine) (decide_eq_true rfl)

-- ---------------------------------------------------------------------------
-- The rows of a class
-- ---------------------------------------------------------------------------

/-- A line of a tag file, field by field. -/
def tagLine (name path : Text) (line : Nat) (kind : MemberKind) (fields : List Text) : Text :=
  Text.joinWith "\t" (name :: path :: (Text.decimal line ++ ";\"") :: [kind.code] ::
    ("line:" ++ Text.decimal line) :: fields)

/-- The line of a member. Its access and its signature are those of the member itself. -/
def memberLine (r : ClassRecord) (m : NumberedMember) : Text :=
  tagLine m.entry.name r.path m.entry.line m.kind
    (("ctype:" ++ r.name) :: ("access:" ++ (Access.ofName m.entry.name).name) ::
      (m.entry.signature.map fun signature => ("signature:" ++ signature : Text)).toList)

/-- The line of the class that a class extends. -/
def parentLine (r : ClassRecord) (parent : MemberEntry) : Text :=
  tagLine parent.name r.path parent.line .parent ["ctype:" ++ r.name]

theorem text_eq_tagLine (row : TagRow) :
    row.text = tagLine row.name row.path row.line row.kind row.optionalFields := by
  simp [TagRow.text, TagRow.fields, TagRow.namedField, tagLine]

/-- The row of a member is written as its line. -/
theorem text_memberRow (r : ClassRecord) (m : NumberedMember) :
    (r.memberRow m.member).text = r.memberLine m := by
  rw [text_eq_tagLine]
  cases h : m.entry.signature <;>
    simp [TagRow.optionalFields, TagRow.namedField, memberRow, memberLine, member, h]

theorem text_parentRow (r : ClassRecord) (parent : MemberEntry) :
    (r.parentRow parent).text = r.parentLine parent := by
  rw [text_eq_tagLine]
  simp [TagRow.optionalFields, TagRow.namedField, parentRow, parentLine]

/-- **The rows of a class come in the order of lines.** The row of the class itself comes first,
then that of the class it extends, if there is one, and then one row for every member. The members
come in the order of their lines, those on one line in the order of the class, and there is no other
way to list them so. -/
theorem texts_in_line_order (r : ClassRecord) :
    ∃ ms, r.InLineOrder ms ∧ (∀ ms', r.InLineOrder ms' → ms' = ms) ∧
      (ms.map member).Perm r.members ∧
      r.rows.map TagRow.text =
        tagLine r.name r.path r.line .definition [] ::
          ((r.parent.map r.parentLine).toList ++ ms.map r.memberLine) := by
  have hOrder := r.inLineOrder_lineSorted
  refine ⟨r.lineSorted, hOrder, fun _ h => h.unique hOrder, ?_, ?_⟩
  · rw [← map_member_numbered]
    exact hOrder.perm.map member
  · have hMembers : (r.membersByLine.map r.memberRow).map TagRow.text =
        r.lineSorted.map r.memberLine := by
      rw [← map_member_lineSorted, List.map_map, List.map_map]
      exact List.map_congr_left fun m _ => r.text_memberRow m
    have hParent : (r.parent.map r.parentRow).toList.map TagRow.text =
        (r.parent.map r.parentLine).toList := by
      cases r.parent with
      | none => rfl
      | some parent => exact congrArg (fun t => [t]) (r.text_parentRow parent)
    rw [rows, List.map_cons, List.map_append, hMembers, hParent, text_eq_tagLine]
    rfl

end ClassRecord

end ClassTags
