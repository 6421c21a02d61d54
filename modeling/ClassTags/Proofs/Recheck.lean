import ClassTags.Proofs.Check

/-!
# Checking a file again

A check begins by dropping the file, so all that it does depends on the registry without the file.
What it leaves differs from that registry by one entry at the end, and dropping the file takes this
entry away again, however far the check came. Hence a second check finds what the first one found:
it answers the same, reports the same and leaves every entry in its place.

Main results:

* `Registry.check_eq_of_retract_eq` — registries that agree without a file are checked alike;
* `Registry.Held.retract_check` — dropping a file undoes its check;
* `Registry.check_twice` — a second check changes nothing.
-/

namespace ClassTags.Registry

/-- Registries that agree without a file are checked alike. -/
theorem check_eq_of_retract_eq (defineCalls : List Text) (fs : FileSystem) {path : Text}
    (hPath : accepts path = true) {r r' : Registry} (h : r.retract path = r'.retract path) :
    check defineCalls fs path r = check defineCalls fs path r' := by
  rw [check, if_pos hPath, Action.update_bind, Action.update_bind, h]

/-- A file that has been dropped is not there to be dropped again. -/
theorem Held.retract_retract {r : Registry} (hr : Held r) (path : Text) :
    (r.retract path).retract path = r.retract path := by
  obtain ⟨h, hs, rfl⟩ := hr
  rw [Holdings.registry_retract hs, Holdings.registry_retract (hs.remove path),
    Table.remove_of_not_mem (Table.not_mem_names_remove path h)]

/-- **Dropping a file undoes its check**, also a check that fails with some of the classes
placed. -/
theorem Held.retract_check {r : Registry} (hr : Held r) (defineCalls : List Text) (fs : FileSystem)
    (path : Text) :
    (Registry.check defineCalls fs path r).state.retract path = r.retract path := by
  obtain ⟨h, hs, rfl⟩ := hr
  cases hPath : accepts path with
  | false => rw [Holdings.check_of_not_accepts hPath]
  | true =>
    obtain ⟨h', hs', hState, hEnd⟩ := @Holdings.check_cases defineCalls fs path h hs hPath
    rw [hState, Holdings.registry_retract hs', Holdings.registry_retract hs, hEnd.remove_eq]

/-- **A second check changes nothing.** In every registry that has been reached, for every path and
every file system, the check of a file right after a check of it has the same outcome as the first
one: the answer or the failure, the notices, and the two tables with the order of their entries. A
retraction after the check leaves what a retraction alone leaves. For a path of the right form it
does not matter either what the file held before. -/
theorem check_twice {s : Registry} (hs : Reached s) (defineCalls : List Text) (fs : FileSystem)
    (path : Text) :
    check defineCalls fs path (check defineCalls fs path s).state = check defineCalls fs path s ∧
      (check defineCalls fs path s).state.retract path = s.retract path ∧
      (Path.isAbsolute path = true → Path.normalize path = path →
        check defineCalls fs path (s.retract path) = check defineCalls fs path s) := by
  have hUndone := hs.held.retract_check defineCalls fs path
  refine ⟨?_, hUndone, ?_⟩
  · cases hPath : accepts path with
    | false => simp only [Holdings.check_of_not_accepts hPath]
    | true => exact check_eq_of_retract_eq defineCalls fs hPath hUndone
  · intro hAbsolute hNormal
    exact check_eq_of_retract_eq defineCalls fs (accepts_iff.mpr ⟨hAbsolute, hNormal⟩)
      (hs.held.retract_retract path)

/-- The registry in which `a.js` has been checked and `b.js` has not. -/
def firstRival : Registry := (check defaultDefineCalls rivals "/a.js" {}).state

/-- In this registry the check of `b.js` places `B` behind `A` and fails at `A`. So does a second
check, which leaves `B` where it is, and a retraction takes `B` away. -/
theorem check_twice_of_rivals :
    (check defaultDefineCalls rivals "/b.js" firstRival).result =
        .error (.duplicate "A" "/a.js" "/b.js") ∧
      (check defaultDefineCalls rivals "/b.js" firstRival).state.classes.names =
        ["A".toList, "B".toList] ∧
      check defaultDefineCalls rivals "/b.js"
          (check defaultDefineCalls rivals "/b.js" firstRival).state =
        check defaultDefineCalls rivals "/b.js" firstRival ∧
      (check defaultDefineCalls rivals "/b.js" firstRival).state.retract "/b.js" =
        firstRival.retract "/b.js" ∧
      check defaultDefineCalls rivals "/b.js" (firstRival.retract "/b.js") =
        check defaultDefineCalls rivals "/b.js" firstRival := by
  have hReached : Reached firstRival := .check .empty defaultDefineCalls rivals "/a.js"
  obtain ⟨hAgain, hUndone, hAfresh⟩ := check_twice hReached defaultDefineCalls rivals "/b.js"
  rw [← and_assoc]
  exact ⟨by decide +kernel, hAgain, hUndone, hAfresh (by decide) (by decide)⟩

end ClassTags.Registry
