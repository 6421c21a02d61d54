import ClassTags.Proofs.Rescan

/-!
# Normalized paths

A check refuses a path that is not absolute and normalized. A caller who asks for the check of a
file may be told so. A scan and a removal are never told: a scan brings its root into the normal
form first, whatever way it is spelled, and below a normalized path every name leads to a normalized
path again. So the files and directories of an index have normalized paths, and it is only these
that a removal checks.

All that is asked of the file systems is that what they list are names: not empty, without a slash,
and neither of the two names that stand for the directory itself and for the one above it.

Main results:

* `Indexer.remove_failsOnly_of_checks`, `Indexer.scan_failsOnly_of_checks` — a removal and a scan fail
  as the checks of the files do that the index may have, or because a path cannot be used;
* `Indexer.normalized_after` — all paths are normalized, and no check refuses one.
-/

namespace ClassTags

/-- A normalized path is not refused. -/
theorem Registry.check_ne_pathForm {defineCalls : List Text} {fs : FileSystem} {r : Registry}
    {path : Text} (hr : r.Held) (hPath : accepts path = true) (p : Text) :
    (check defineCalls fs path r).result ≠ .error (.pathForm p) := by
  obtain ⟨h, hs, rfl⟩ := hr
  obtain ⟨h', -, -, hEnd⟩ := @Holdings.check_cases defineCalls fs path h hs hPath
  intro hRefused
  rw [hRefused] at hEnd
  cases hFile : fileClasses defineCalls fs path with
  | ok found =>
    rw [hFile] at hEnd
    exact nomatch hEnd
  | error e =>
    rw [hFile] at hEnd
    cases hEnd with
    | unread =>
      rcases fileClasses_eq_error hFile with ⟨_, hFault⟩ | ⟨_, hSource⟩
      · exact nomatch hFault
      · exact nomatch hSource

namespace Indexer

variable {ctx : IndexContext}

-- ---------------------------------------------------------------------------
-- How calls fail, told by how checks fail
-- ---------------------------------------------------------------------------

section Checks

variable {E : IndexFailure → Prop} {F D : Text → Prop}
  (hCheck : ∀ p, F p → Action.FailsOnly (Confined F D) E (Step.run ctx (.check p)))

include hCheck

/-- A removal fails as a check does. -/
theorem remove_failsOnly_of_checks (d : Text) :
    Action.FailsOnly (Confined F D) E (remove ctx d) := by
  intro x hx e h
  by_cases hKnown : d ∈ x.dirs
  · rw [remove_of_known hKnown] at h
    have hFile : ∀ p ∈ x.below d, F p := fun p hp => hx.files p (List.mem_of_mem_filter hp)
    have hKeeps : ∀ p ∈ x.below d, Action.Keeps (Confined F D) (Step.run ctx (.check p)) :=
      fun p hp => confined_check fun _ => hFile p hp
    refine Action.FailsOnly.bind (.forEach hKeeps) (.forEach hKeeps fun p hp => ?_) (fun _ => ?_)
      (x.forget d) (hx.forget d) e h
    · exact hCheck p (hFile p hp)
    · exact .bind (.note _) (.note _) fun _ => .pure true
  · rw [remove_of_unknown hKnown] at h
    exact nomatch h

theorem absent_failsOnly_of_checks (d : Text) :
    Action.FailsOnly (Confined F D) E (Step.run ctx (.absent d)) :=
  .bind (confined_remove d) (remove_failsOnly_of_checks hCheck d) fun _ => .pure ()

variable (hFault : ∀ fault path, E (.file fault path))

include hFault

/-- A step in a directory fails as a check does, or because a path cannot be used. -/
theorem step_failsOnly_of_checks {dir : Text} (hFiles : ∀ p ∈ sources ctx dir, F p) {s : Step}
    (hs : s ∈ steps ctx dir) : Action.FailsOnly (Confined F D) E (Step.run ctx s) := by
  rcases mem_steps hs with ⟨p, rfl⟩ | ⟨f, p, rfl⟩ | ⟨p, hp, rfl⟩ | ⟨rfl, -⟩ | ⟨rfl, -⟩
  · exact .note _
  · exact .fail (hFault f p)
  · exact hCheck p (hFiles p hp)
  · intro x hx e h
    rw [close_step_result] at h
    refine Action.FailsOnly.forEach (fun d _ => ?_) (fun d _ => ?_) x hx e h
    · exact .bind (confined_remove d) fun _ => .pure ()
    · exact absent_failsOnly_of_checks hCheck d
  · exact absent_failsOnly_of_checks hCheck dir

/-- **A scan fails as a check does** of a file that the index may have, or because a path cannot be
used. Failing or not, it leaves the index with what it may have. -/
theorem scan_failsOnly_of_checks (hFound : ∀ dir, D dir → ∀ e ∈ subdirs ctx dir, D e)
    (hFiles : ∀ dir, D dir → ∀ p ∈ sources ctx dir, F p) {root : Text}
    (hAbsolute : Path.isAbsolute root = true) (hRoot : D (Path.normalize root)) :
    Action.Keeps (Confined F D) (scan ctx root) ∧
      Action.FailsOnly (Confined F D) E (scan ctx root) := by
  refine scan_of_steps (Action.FailsOnly.compositional (P := Confined F D) (E := E)) hFound
    (fun dir hDir s hs => ⟨?_, ?_⟩) (fun _ => hRoot) ?_
  · exact confined_step hDir (fun p hp _ => hFiles dir hDir p hp) hs
  · exact step_failsOnly_of_checks hCheck hFault (hFiles dir hDir) hs
  · exact fun hRelative => absurd hAbsolute (Bool.eq_false_iff.mp hRelative)

end Checks

-- ---------------------------------------------------------------------------
-- No path is refused
-- ---------------------------------------------------------------------------

/-- On an orderly index, the check of a normalized path fails for another reason than its form. -/
theorem check_never_refuses (p : Text) (hPath : Registry.accepts p = true) :
    Action.FailsOnly Orderly (fun e => ∀ q, e ≠ .pathForm q) (Step.run ctx (.check p)) := by
  rintro x hx _ h q rfl
  exact Registry.check_ne_pathForm hx.held hPath q (check_step_eq_error.mp h)

/-- **Paths stay normalized, and no check refuses one.** After any run of calls, each on a file
system of its own and each returning or failing, the tracked files and the known directories have
absolute, normalized paths. From there, no scan fails because a path is not normalized, whatever way
its root is spelled, and no removal does. -/
theorem normalized_after (calls : List (IndexContext × Call))
    (hCalls : ∀ call ∈ calls, call.1.files.Named) :
    (∀ p ∈ (after {} calls).registry.paths ++ (after {} calls).dirs,
      Path.isAbsolute p = true ∧ Path.normalize p = p) ∧
    (∀ (ctx : IndexContext) (root p : Text), ctx.files.Named →
      (scan ctx root (after {} calls)).result ≠ .error (.pathForm p)) ∧
    ∀ (ctx : IndexContext) (d p : Text),
      (remove ctx d (after {} calls)).result ≠ .error (.pathForm p) := by
  have hOrderly : Orderly (after {} calls) :=
    orderly_after_of_named hCalls ⟨Registry.Held.empty, nofun, nofun, List.nodup_nil⟩
  refine ⟨fun p hp => ?_, fun ctx root p hNamed h => ?_, fun ctx d p h => ?_⟩
  · rw [← Registry.accepts_iff]
    rcases List.mem_append.mp hp with hp | hp
    · exact hOrderly.files p hp
    · exact hOrderly.dirs p hp
  · cases hAbsolute : Path.isAbsolute root with
    | false =>
      rw [scan_of_relative hAbsolute] at h
      exact nomatch h
    | true =>
      have hScan := scan_failsOnly_of_checks check_never_refuses (fun _ _ _ => nofun)
        (accepts_of_mem_subdirs hNamed) (fun _ => accepts_of_mem_sources hNamed) hAbsolute
        (accepts_normalize hAbsolute)
      exact hScan.2 _ hOrderly _ h p rfl
  · exact remove_failsOnly_of_checks check_never_refuses d _ hOrderly _ h p rfl

/-- A scan of a root with two leading slashes, and one with a detour, on a file system with one
source file. -/
def scanSpellings : List (IndexContext × Call) :=
  ["//r/./s/..//", "/r//t/../s/."].map fun root =>
    (usual.on (folder [("s", .directory [("a.js", definition "A")])]), .scan root)

/-- The two roots are different places to the index, and both have normalized paths. The second scan
finds the class in a file that it knows by another path, and fails for this reason alone. -/
theorem normalized_after_of_scanSpellings :
    (after {} scanSpellings).registry.paths = ["//r/s/a.js", "/r/s/a.js"].map String.toList ∧
      (after {} scanSpellings).dirs = ["//r", "//r/s"].map String.toList ∧
      (∀ p ∈ (after {} scanSpellings).registry.paths ++ (after {} scanSpellings).dirs,
        Path.isAbsolute p = true ∧ Path.normalize p = p) ∧
      ∀ root p, (scan (usual.on (folder [])) root (after {} scanSpellings)).result ≠
        .error (.pathForm p) := by
  have hNamed : ∀ call ∈ scanSpellings, call.1.files.Named :=
    fun call hCall => FileSystem.WellNamed.named
      ((by decide : ∀ call ∈ scanSpellings, call.1.files.WellNamed) call hCall)
  obtain ⟨hPaths, hScan, -⟩ := normalized_after scanSpellings hNamed
  have hState :
      (after {} scanSpellings).registry.paths = ["//r/s/a.js", "/r/s/a.js"].map String.toList ∧
        (after {} scanSpellings).dirs = ["//r", "//r/s"].map String.toList := by
    decide +kernel
  refine ⟨hState.1, hState.2, hPaths, fun root p => hScan _ root p ?_⟩
  exact FileSystem.WellNamed.named (by decide)

end Indexer

end ClassTags
