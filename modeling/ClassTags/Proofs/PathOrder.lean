import ClassTags.Proofs.FileTree

/-!
# The order of normalized paths

Whether a path lies under another one is a comparison of characters: the slashes at the end of the
upper path are cut off, one slash is put back, and what results has to stand at the head of the
lower path. On absolute, normalized paths with the same number of slashes at their heads this is a
comparison of names, also where one name is the beginning of another one, and at the root, where the
slashes that are cut off are all there is.

Main definitions:

* `Path.slashCount` — the number of slashes at the head of a path;
* `Path.Rooted` — the absolute, normalized paths with that many slashes at their heads.

Main results:

* `Path.Rooted.isUnder_iff` — lying under a path is having its components in front;
* `Path.Rooted.isUnder_antisymm` — two paths that lie under each other are the same;
* `Path.Rooted.isUnder_join`, `Path.Rooted.parent_join` — a name in a directory;
* `Path.Rooted.existsUnique_child` — what lies below a directory lies under one name in it;
* `Path.Rooted.under_by_components` — all of these.
-/

namespace ClassTags.Path

/-- The number of slashes at the head of a path. -/
def slashCount (p : Text) : Nat := (p.takeWhile (· == separator)).length

/-- An absolute, normalized path with the given number of slashes at its head. -/
@[ext] structure Rooted (slashes : Nat) where
  path : Text
  absolute : isAbsolute path = true
  normalized : normalize path = path
  slashed : slashCount path = slashes

/-- The slashes in front of a path are counted as they were put there. -/
theorem slashCount_spell {lead : Text} {names : List Text} (hLead : IsLead lead)
    (hNames : ∀ c ∈ names, IsName c) : slashCount (spell lead names) = lead.length := by
  have hSlashes : lead.takeWhile (· == separator) = lead := by
    rcases hLead with rfl | rfl <;> rfl
  -- behind the slashes there is nothing, or a name
  have hRest : (Text.joinWith [separator] names).takeWhile (· == separator) = [] := by
    by_cases hEmpty : names = []
    · subst hEmpty
      rfl
    · obtain ⟨first, rest, hEq, hFirst⟩ := head_joinWith hNames hEmpty
      rw [hEq]
      exact List.takeWhile_cons_of_neg (by simpa using hFirst)
  unfold slashCount spell
  rw [List.takeWhile_append, hSlashes, if_pos rfl, hRest, List.append_nil]

theorem forall_isName_snoc {names : List Text} {n : Text} (hNames : ∀ c ∈ names, IsName c)
    (hn : IsName n) : ∀ c ∈ names ++ [n], IsName c :=
  List.forall_mem_append.mpr ⟨hNames, List.forall_mem_singleton.mpr hn⟩

namespace Rooted

variable {k : Nat} {p q r : Rooted k} {n : Text}

/-- Paths with the same number of slashes at their heads are spelled alike. -/
theorem exists_names (p : Rooted k) :
    IsLead (List.replicate k separator) ∧
      ∃ names, (∀ c ∈ names, IsName c) ∧ p.path = spell (List.replicate k separator) names := by
  obtain ⟨lead, names, hLead, hNames, hEq⟩ := exists_spell_normalize p.absolute
  rw [p.normalized] at hEq
  have hLength : lead.length = k := by
    rw [← slashCount_spell hLead hNames, ← hEq, p.slashed]
  have hReplicate : List.replicate k separator = lead := by
    rw [← hLength]
    rcases hLead with rfl | rfl <;> rfl
  rw [hReplicate]
  exact ⟨hLead, names, hNames, hEq⟩

/-- The path is told by its components. -/
theorem eq_of_components (h : components p.path = components q.path) : p = q := by
  obtain ⟨hLead, ps, hps, hp⟩ := p.exists_names
  obtain ⟨-, qs, hqs, hq⟩ := q.exists_names
  rw [hp, hq, components_spell hLead hps, components_spell hLead hqs] at h
  ext1
  rw [hp, hq, h]

/-- **Lying under a path is having its components in front.** -/
theorem isUnder_iff (p r : Rooted k) :
    isUnder p.path r.path = true ↔ components r.path <+: components p.path := by
  obtain ⟨hLead, ps, hps, hp⟩ := p.exists_names
  obtain ⟨-, rs, hrs, hr⟩ := r.exists_names
  rw [hp, hr, components_spell hLead hps, components_spell hLead hrs]
  exact isUnder_spell hLead hps hrs

theorem isUnder_refl (p : Rooted k) : isUnder p.path p.path = true :=
  (isUnder_iff p p).mpr List.prefix_rfl

/-- Two paths that are under each other are the same. -/
theorem isUnder_antisymm (hpq : isUnder p.path q.path = true) (hqp : isUnder q.path p.path = true) :
    p = q := by
  rw [isUnder_iff] at hpq hqp
  exact eq_of_components (hqp.eq_of_length_le hpq.length_le)

/-- What is under a path is under whatever that path is under. -/
theorem isUnder_trans (hpq : isUnder p.path q.path = true) (hqr : isUnder q.path r.path = true) :
    isUnder p.path r.path = true := by
  rw [isUnder_iff] at hpq hqr ⊢
  exact hqr.trans hpq

/-- A name in a directory is again such a path. -/
def child (r : Rooted k) (n : Name) : Rooted k where
  path := join r.path n.1
  absolute := isAbsolute_join r.absolute n.1
  normalized := by
    obtain ⟨hLead, rs, hrs, hr⟩ := r.exists_names
    rw [hr, join_spell hLead hrs n.2]
    exact normalize_spell hLead (forall_isName_snoc hrs n.2)
  slashed := by
    obtain ⟨hLead, rs, hrs, hr⟩ := r.exists_names
    rw [hr, join_spell hLead hrs n.2, slashCount_spell hLead (forall_isName_snoc hrs n.2),
      List.length_replicate]

theorem components_child (r : Rooted k) (n : Name) :
    components (r.child n).path = components r.path ++ [n.1] :=
  FileSystem.components_join r.path n.2

/-- What is joined to a path is under it. -/
theorem isUnder_join (r : Rooted k) (hn : IsName n) : isUnder (join r.path n) r.path = true := by
  have hUnder := isUnder_iff (r.child ⟨n, hn⟩) r
  rw [components_child] at hUnder
  exact hUnder.mpr (List.prefix_append _ _)

/-- The parent of what is joined to a path is that path. -/
theorem parent_join (r : Rooted k) (hn : IsName n) : parent (join r.path n) = r.path := by
  obtain ⟨hLead, rs, hrs, hr⟩ := r.exists_names
  rw [hr, join_spell hLead hrs hn]
  exact parent_spell hLead hrs hn

/-- What lies below a directory lies under a name in it just if the name comes next. -/
theorem isUnder_child_iff {rest : List Text} (h : components p.path = components r.path ++ rest)
    (n : Name) : isUnder p.path (r.child n).path = true ↔ [n.1] <+: rest := by
  rw [isUnder_iff, components_child, h, List.prefix_append_right_inj]

/-- **What lies below a directory lies under just one name in it.** -/
theorem existsUnique_child (hUnder : isUnder p.path r.path = true) (hOther : p ≠ r) :
    ∃! c, (∃ n, IsName n ∧ c = join r.path n) ∧ isUnder p.path c = true := by
  obtain ⟨rest, hRest⟩ := (isUnder_iff p r).mp hUnder
  have hChild := isUnder_child_iff hRest.symm
  cases rest with
  | nil =>
    rw [List.append_nil] at hRest
    exact absurd (eq_of_components hRest.symm) hOther
  | cons first rest =>
    have hFirst : IsName first := by
      obtain ⟨hLead, ps, hps, hp⟩ := p.exists_names
      rw [hp, components_spell hLead hps] at hRest
      exact hps first (hRest ▸ List.mem_append_right _ List.mem_cons_self)
    refine ⟨join r.path first, ⟨⟨first, hFirst, rfl⟩, ?_⟩, ?_⟩
    · exact (hChild ⟨first, hFirst⟩).mpr (List.prefix_append [first] rest)
    · rintro c ⟨⟨n, hn, rfl⟩, hc⟩
      obtain ⟨rfl, -⟩ := List.cons_prefix_cons.mp ((hChild ⟨n, hn⟩).mp hc)
      rfl

/-- **Lying under a path is a matter of components.** It is a partial order; a name in a directory
lies under it and has it as its parent; and what lies below a directory lies under just one name in
it. -/
theorem under_by_components (p q r : Rooted k) :
    (isUnder p.path r.path = true ↔ components r.path <+: components p.path) ∧
    isUnder p.path p.path = true ∧
    (isUnder p.path q.path = true → isUnder q.path p.path = true → p.path = q.path) ∧
    (isUnder p.path q.path = true → isUnder q.path r.path = true → isUnder p.path r.path = true) ∧
    (∀ n, IsName n → isUnder (join r.path n) r.path = true ∧ parent (join r.path n) = r.path) ∧
    (isUnder p.path r.path = true → p.path ≠ r.path →
      ∃! c, (∃ n, IsName n ∧ c = join r.path n) ∧ isUnder p.path c = true) := by
  refine ⟨isUnder_iff p r, isUnder_refl p, fun hpq hqp => ?_, isUnder_trans,
    fun n hn => ⟨isUnder_join r hn, parent_join r hn⟩, fun hUnder hOther => ?_⟩
  · rw [isUnder_antisymm hpq hqp]
  · exact existsUnique_child hUnder fun h => hOther (congrArg path h)

/-- The root. -/
def top : Rooted 1 := ⟨"/", by decide, by decide, by decide⟩

/-- A path that is the beginning of `subway` and not above it. -/
def sub : Rooted 1 := ⟨"/a/sub", by decide, by decide, by decide⟩

/-- A path whose last name begins with the last name of `sub`. -/
def subway : Rooted 1 := ⟨"/a/subway", by decide, by decide, by decide⟩

/-- A name that begins like another one is not under it, and names with dots in front are names. -/
theorem under_by_components_of_subway :
    isUnder subway.path sub.path = false ∧ isUnder subway.path top.path = true ∧
    (isUnder (join top.path "..a") top.path = true ∧ parent (join top.path "..a") = top.path) ∧
    ∃! c, (∃ n, IsName n ∧ c = join top.path n) ∧ isUnder subway.path c = true := by
  obtain ⟨hSub, -⟩ := under_by_components subway subway sub
  obtain ⟨hTop, -, -, -, hJoin, hChild⟩ := under_by_components subway sub top
  have hUnder : isUnder subway.path top.path = true := hTop.mpr (by decide)
  refine ⟨?_, hUnder, hJoin _ (by decide), hChild hUnder (by decide)⟩
  rw [← Bool.not_eq_true, hSub]
  decide

end Rooted

end ClassTags.Path
