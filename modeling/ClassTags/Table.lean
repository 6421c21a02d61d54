import ClassTags.Text.Basic

/-!
# Tables

A table gives values to names and keeps the names in the order in which they came. It is a list of
pairs; `List.lookup` finds the value of a name.

Main results:

* `Table.lookup_assign_self`, `Table.lookup_assign_of_ne` — what is found after a value is given;
* `Table.lookup_remove_self`, `Table.lookup_remove_of_ne` — what is found after a name is removed.
-/

namespace ClassTags

/-- Names with their values, in the order in which they came. -/
abbrev Table (ν : Type) := List (Text × ν)

namespace Table

variable {ν : Type}

/-- The names of a table, in order. -/
def names (t : Table ν) : List Text := t.map (·.1)

/-- Gives a value to a name. A new name comes last; a known one keeps its place. -/
def assign (name : Text) (value : ν) : Table ν → Table ν
  | [] => [(name, value)]
  | (n, v) :: t => if n = name then (name, value) :: t else (n, v) :: assign name value t

/-- The table without a name. -/
def remove (name : Text) (t : Table ν) : Table ν := t.filter fun entry => entry.1 ≠ name

@[simp] theorem lookup_assign_self (name : Text) (value : ν) (t : Table ν) :
    (t.assign name value).lookup name = some value := by
  induction t with
  | nil => simp [assign]
  | cons entry t ih =>
    obtain ⟨n, v⟩ := entry
    by_cases h : n = name
    · rw [assign, if_pos h, List.lookup_cons_self]
    · have hne : (name == n) = false := beq_eq_false_iff_ne.mpr fun e => h e.symm
      rw [assign, if_neg h, List.lookup_cons, hne]
      exact ih

/-- Giving a value to a name leaves the other names as they are. -/
theorem lookup_assign_of_ne {name other : Text} (value : ν) (t : Table ν) (h : other ≠ name) :
    (t.assign name value).lookup other = t.lookup other := by
  have hne : (other == name) = false := beq_eq_false_iff_ne.mpr h
  induction t with
  | nil => rw [assign, List.lookup_cons, hne]
  | cons entry t ih =>
    obtain ⟨n, v⟩ := entry
    by_cases hn : n = name
    · subst hn
      rw [assign, if_pos rfl, List.lookup_cons, List.lookup_cons, hne]
    · rw [assign, if_neg hn, List.lookup_cons, List.lookup_cons, ih]

@[simp] theorem lookup_remove_self (name : Text) (t : Table ν) :
    (t.remove name).lookup name = none := by
  induction t with
  | nil => rfl
  | cons entry t ih =>
    obtain ⟨n, v⟩ := entry
    by_cases h : n = name
    · simpa [remove, h] using ih
    · have hne : (name == n) = false := beq_eq_false_iff_ne.mpr fun e => h e.symm
      simpa [remove, h, List.lookup_cons, hne] using ih

/-- Removing a name leaves the other names as they are. -/
theorem lookup_remove_of_ne {name other : Text} (t : Table ν) (h : other ≠ name) :
    (t.remove name).lookup other = t.lookup other := by
  induction t with
  | nil => rfl
  | cons entry t ih =>
    obtain ⟨n, v⟩ := entry
    by_cases hn : n = name
    · subst hn
      have hne : (other == n) = false := beq_eq_false_iff_ne.mpr h
      simpa [remove, List.lookup_cons, hne] using ih
    · have keeps : Table.remove name ((n, v) :: t) = (n, v) :: Table.remove name t := by
        simp [remove, hn]
      rw [keeps, List.lookup_cons, List.lookup_cons, ih]

end Table

end ClassTags
