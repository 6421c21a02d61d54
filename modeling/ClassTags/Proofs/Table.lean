import ClassTags.Table
import Mathlib.Data.List.Nodup

/-!
# Laws of tables

The names of a table under the operations on tables, and the look-up in tables whose names are
distinct.

Main results:

* `Table.names_assign` — a known name keeps its place, a new one comes last;
* `Table.assign_append_of_not_mem` — a name that is not in the front part is given its value in the
  back part;
* `Table.lookup_eq_some_iff_mem` — with distinct names, look-up finds every entry;
* `Table.removeAll_eq_filter` — removing names one by one removes all entries with these names.
-/

namespace ClassTags.Table

variable {ν μ : Type}

-- ---------------------------------------------------------------------------
-- Names
-- ---------------------------------------------------------------------------

@[simp] theorem names_nil : names ([] : Table ν) = [] := rfl

@[simp] theorem names_cons (entry : Text × ν) (t : Table ν) :
    names (entry :: t) = entry.1 :: names t := rfl

@[simp] theorem names_append (t u : Table ν) : names (t ++ u) = names t ++ names u :=
  List.map_append

theorem mem_names {name : Text} {t : Table ν} : name ∈ names t ↔ ∃ value, (name, value) ∈ t := by
  simp [names]

theorem mem_names_of_mem {entry : Text × ν} {t : Table ν} (h : entry ∈ t) : entry.1 ∈ names t :=
  List.mem_map_of_mem h

theorem names_remove (name : Text) (t : Table ν) :
    names (remove name t) = (names t).filter fun n => n ≠ name := by
  rw [names, names, remove, List.filter_map]
  rfl

theorem not_mem_names_remove (name : Text) (t : Table ν) : name ∉ names (remove name t) := by
  rw [names_remove, List.mem_filter]
  simp

/-- To remove what is not there changes nothing. -/
theorem remove_of_not_mem {name : Text} {t : Table ν} (h : name ∉ names t) : remove name t = t := by
  rw [remove, List.filter_eq_self]
  intro entry hEntry
  have hne : entry.1 ≠ name := fun e => h (e ▸ mem_names_of_mem hEntry)
  simpa using hne

theorem remove_append (name : Text) (t u : Table ν) :
    remove name (t ++ u) = remove name t ++ remove name u := List.filter_append ..

/-- A known name keeps its place, a new one comes last. -/
theorem names_assign (name : Text) (value : ν) (t : Table ν) :
    names (assign name value t) = if name ∈ names t then names t else names t ++ [name] := by
  induction t with
  | nil => simp [assign]
  | cons entry t ih =>
    obtain ⟨n, v⟩ := entry
    by_cases hn : n = name
    · subst hn
      simp [assign]
    · have hne : name ≠ n := fun e => hn e.symm
      rw [assign, if_neg hn, names_cons, ih, names_cons]
      by_cases hMem : name ∈ names t
      · simp [hMem]
      · simp [hMem, hne]

/-- No name stands twice after an assignment. -/
theorem nodup_names_assign {name : Text} {value : ν} {t : Table ν} (h : (names t).Nodup) :
    (names (assign name value t)).Nodup := by
  rw [names_assign]
  split
  · exact h
  · rename_i hNew
    rw [List.nodup_append]
    refine ⟨h, List.nodup_singleton name, ?_⟩
    intro n hn m hm e
    rw [List.mem_singleton] at hm
    exact hNew (hm ▸ e ▸ hn)

/-- A name that is not in the front part is given its value in the back part. -/
theorem assign_append_of_not_mem {name : Text} {t : Table ν} (u : Table ν) (value : ν)
    (h : name ∉ names t) : assign name value (t ++ u) = t ++ assign name value u := by
  induction t with
  | nil => rfl
  | cons entry t ih =>
    obtain ⟨n, v⟩ := entry
    rw [names_cons, List.mem_cons, not_or] at h
    have hn : n ≠ name := fun e => h.1 e.symm
    rw [List.cons_append, assign, if_neg hn, ih h.2, List.cons_append]

/-- A new name comes last. -/
theorem assign_of_not_mem {name : Text} {t : Table ν} (value : ν) (h : name ∉ names t) :
    assign name value t = t ++ [(name, value)] := by
  have hEnd := assign_append_of_not_mem [] value h
  rwa [List.append_nil] at hEnd

/-- What is in a table after a value is given was there before or is the new entry. -/
theorem mem_assign {name : Text} {value : ν} {t : Table ν} {entry : Text × ν}
    (h : entry ∈ assign name value t) : entry ∈ t ∨ entry = (name, value) := by
  induction t with
  | nil =>
    rw [assign, List.mem_singleton] at h
    exact Or.inr h
  | cons first t ih =>
    obtain ⟨n, v⟩ := first
    rw [assign] at h
    split at h
    · rcases List.mem_cons.mp h with h | h
      · exact Or.inr h
      · exact Or.inl (List.mem_cons_of_mem _ h)
    · rcases List.mem_cons.mp h with h | h
      · exact Or.inl (h ▸ List.mem_cons_self)
      · exact (ih h).imp_left (List.mem_cons_of_mem _)

-- ---------------------------------------------------------------------------
-- Look-up
-- ---------------------------------------------------------------------------

/-- Nothing is found under a name that is not there. -/
theorem lookup_eq_none_iff_not_mem {name : Text} {t : Table ν} :
    t.lookup name = none ↔ name ∉ names t := by
  rw [List.lookup_eq_none_iff, mem_names]
  constructor
  · rintro h ⟨value, hMem⟩
    have := h _ hMem
    simp at this
  · intro h entry hEntry
    have hne : name ≠ entry.1 := fun e => h ⟨entry.2, e ▸ hEntry⟩
    simpa using hne

theorem lookup_append_of_not_mem {name : Text} {t : Table ν} (u : Table ν) (h : name ∉ names t) :
    (t ++ u).lookup name = u.lookup name := by
  rw [List.lookup_append, lookup_eq_none_iff_not_mem.mpr h, Option.none_or]

/-- With distinct names, look-up finds every entry. -/
theorem lookup_eq_some_iff_mem {name : Text} {value : ν} {t : Table ν} (h : (names t).Nodup) :
    t.lookup name = some value ↔ (name, value) ∈ t := by
  induction t with
  | nil => simp
  | cons entry t ih =>
    obtain ⟨n, v⟩ := entry
    rw [names_cons, List.nodup_cons] at h
    by_cases hn : name = n
    · subst hn
      have hNot : (name, value) ∉ t := fun hMem => h.1 (mem_names.mpr ⟨value, hMem⟩)
      rw [List.lookup_cons_self, List.mem_cons, Option.some.injEq]
      constructor
      · rintro rfl
        exact Or.inl rfl
      · rintro (hEq | hMem)
        · exact (Prod.mk.inj hEq).2.symm
        · exact absurd hMem hNot
    · have hb : (name == n) = false := beq_eq_false_iff_ne.mpr hn
      rw [List.lookup_cons, hb, ih h.2, List.mem_cons]
      constructor
      · exact Or.inr
      · rintro (hEq | hMem)
        · exact absurd (Prod.mk.inj hEq).1 hn
        · exact hMem

/-- The table with every value replaced. -/
theorem lookup_map {name : Text} (f : ν → μ) (t : Table ν) :
    List.lookup name (t.map fun entry => (entry.1, f entry.2)) = (t.lookup name).map f := by
  induction t with
  | nil => rfl
  | cons entry t ih =>
    rw [List.map_cons, List.lookup_cons, List.lookup_cons, ih]
    cases name == entry.1 <;> rfl

theorem names_map (f : Text × ν → μ) (t : Table ν) :
    names (t.map fun entry => (entry.1, f entry)) = names t := by
  simp [names]

-- ---------------------------------------------------------------------------
-- Removing several names
-- ---------------------------------------------------------------------------

/-- Removing names one by one removes all entries with these names. -/
theorem removeAll_eq_filter (ns : List Text) (t : Table ν) :
    ns.foldl (fun t name => remove name t) t = t.filter fun entry => entry.1 ∉ ns := by
  induction ns generalizing t with
  | nil => simp
  | cons n ns ih =>
    rw [List.foldl_cons, ih, remove, List.filter_filter]
    apply List.filter_congr
    intro entry _
    by_cases hn : entry.1 = n <;> simp [hn]

end ClassTags.Table
