import ClassTags.Proofs.Rescan

/-!
# Stale files

A tracked file is **stale** when there is no regular file any more where it was. A scan finds out
about stale files in two ways only. When it closes a directory, it drops the files of that directory
that it has not found there, but only those that end like source files. And when it closes a
directory from which a known directory has gone, it checks all files below the one that has gone. A
file that has been checked by name need not end like a source file, nor lie in a directory that has
ever been scanned, so that a scan may not look for it. And what is checked once more stays if it can
be opened, as a device can that stands where a known directory was.

After any run of calls, a scan that returns leaves just those stale files that it has not looked
for.

Main definitions:

* `Indexer.Sought` — the files that a scan looks for.

Main results:

* `Indexer.mem_paths_close` — the stale files that closing a directory leaves;
* `Indexer.Swept.run` — the stale files that are left along the route;
* `Indexer.tracked_stale_iff` — the stale files that a scan leaves.
-/

namespace ClassTags

/-- A check that returns tracks the file just when it can be opened, and leaves the other files. -/
theorem Registry.Held.mem_paths_check_iff {ctx : IndexContext} {r : Registry} (hr : r.Held)
    {p q : Text} {v : Bool}
    (hOk : (Registry.check ctx.defineCalls ctx.files q r).result = .ok v) :
    p ∈ (Registry.check ctx.defineCalls ctx.files q r).state.paths ↔
      (p = q ∧ Indexer.Opens ctx p) ∨ (p ≠ q ∧ p ∈ r.paths) := by
  have hPath : Registry.accepts q = true := by
    by_contra hNot
    rw [Holdings.check_of_not_accepts (Bool.eq_false_iff.mpr hNot)] at hOk
    exact nomatch hOk
  obtain ⟨h, hs, rfl⟩ := hr
  obtain ⟨h', -, hState, hEnd⟩ := @Holdings.check_cases ctx.defineCalls ctx.files q h hs hPath
  have hRest : p ∈ Table.names (h.remove q) ↔ p ≠ q ∧ p ∈ Table.names h := by
    rw [Table.names_remove, List.mem_filter, decide_eq_true_eq, and_comm]
  rw [hState, Holdings.paths_registry, Holdings.paths_registry]
  rw [hOk] at hEnd
  generalize hFound : Registry.fileClasses ctx.defineCalls ctx.files q = found at hEnd
  cases hEnd with
  | missing =>
    -- a file that could be opened would not be missing
    rw [hRest]
    refine (or_iff_right ?_).symm
    rintro ⟨rfl, bytes, hRead⟩
    have hThere : ctx.files.read p ≠ .error .missing := by
      rw [hRead]
      exact nofun
    exact Indexer.fileClasses_ne_none hThere hFound
  | indexed cs =>
    have hOpens : Indexer.Opens ctx q := Indexer.Readable.opens ⟨cs, hFound⟩
    rw [Table.names_append, List.mem_append, hRest, or_comm]
    refine or_congr_left ?_
    rw [Table.names, List.map_singleton, List.mem_singleton]
    exact ⟨fun hEq => ⟨hEq, hEq ▸ hOpens⟩, And.left⟩

namespace Indexer

/-- How a scan below a base finds out that a file of an index is no regular file any more. -/
inductive Sought (ctx : IndexContext) (b : Path.Base) (x : Indexer) (p : Text) : Prop
  /-- The file ends like a source file, and the scan goes into its directory. -/
  | listed (hParent : Entered ctx b (Path.parent p))
      (hExt : ctx.sourceExtension.isSuffixOf p = true)
  /-- The file cannot be opened, and it lies below a known directory that the scan does not go into
  any more, though it comes to where the directory was. -/
  | below (d : Text) (hKnown : d ∈ x.dirs) (hAbove : d = b.path [] ∨ Entered ctx b (Path.parent d))
      (hGone : ¬ Entered ctx b d) (hUnder : Path.isUnder p d = true) (hShut : ¬ Opens ctx p)

variable {ctx : IndexContext} {b : Path.Base} {start x : Indexer} {root p : Text}

-- ---------------------------------------------------------------------------
-- What the operations leave of a stale file
-- ---------------------------------------------------------------------------

/-- After checks that return, the files that were checked are tracked if they can be opened. -/
theorem mem_paths_checks {ps : List Text} (hx : x.registry.Held)
    (hOk : (checks ctx ps x).result = .ok ()) :
    p ∈ (checks ctx ps x).state.registry.paths ↔
      (p ∈ ps ∧ Opens ctx p) ∨ (p ∉ ps ∧ p ∈ x.registry.paths) := by
  induction ps generalizing x with
  | nil =>
    show p ∈ x.registry.paths ↔ _
    simp
  | cons q ps ih =>
    obtain ⟨hFirst, hRest, hState⟩ := Action.forEach_cons_of_ok hOk
    rw [state_check_step] at hRest hState
    obtain ⟨v, hv⟩ := check_step_eq_ok.mp hFirst
    have hStep := @Registry.Held.mem_paths_check_iff ctx x.registry hx p q v hv
    have hMem := ih (Registry.Held.check _ _ _ _ hx) hRest
    unfold checks at hMem ⊢
    rw [hState, hMem, hStep, List.mem_cons]
    by_cases hq : p = q
    · subst hq
      by_cases hps : p ∈ ps <;> simp [hps]
    · simp [hq]

/-- Forgetting a directory drops the files below it that cannot be opened. -/
theorem mem_paths_remove {d : Text} (hx : x.registry.Held) (hKnown : d ∈ x.dirs) {v : Bool}
    (hOk : (remove ctx d x).result = .ok v) :
    p ∈ (remove ctx d x).state.registry.paths ↔
      p ∈ x.registry.paths ∧ (Path.isUnder p d = true → Opens ctx p) := by
  have hHeld : (x.forget d).registry.Held := hx
  have hBelow : p ∈ x.below d ↔ p ∈ x.registry.paths ∧ Path.isUnder p d = true := List.mem_filter
  rw [state_remove hKnown, mem_paths_checks hHeld (remove_eq_ok hKnown hOk), hBelow]
  show _ ∨ (_ ∧ p ∈ x.registry.paths) ↔ _
  by_cases hUnder : Path.isUnder p d = true <;> simp [hUnder]

/-- After removals that return, the files below are tracked if they can be opened. -/
theorem mem_paths_removeAll {ds : List Text} (hx : x.registry.Held) (hKnown : ∀ d ∈ ds, d ∈ x.dirs)
    (hApart : ds.Pairwise Path.Apart) (hOk : (removeAll ctx ds x).result = .ok ()) :
    p ∈ (removeAll ctx ds x).state.registry.paths ↔
      p ∈ x.registry.paths ∧ ∀ d ∈ ds, Path.isUnder p d = true → Opens ctx p := by
  induction ds generalizing x with
  | nil =>
    show p ∈ x.registry.paths ↔ _
    simp
  | cons d ds ih =>
    obtain ⟨hFirst, hRest, hState⟩ := Action.forEach_cons_of_ok hOk
    obtain ⟨v, hv, hAbsent⟩ := absent_step_of_ok hFirst
    rw [hAbsent] at hRest hState
    rw [List.pairwise_cons] at hApart
    have hStep := @mem_paths_remove ctx x p d hx (hKnown d List.mem_cons_self) v hv
    have hHeld : (remove ctx d x).state.registry.Held := remove_keeps held_law ctx d x hx
    have hMem := ih hHeld (mem_dirs_remove_of_apart hKnown hApart.1) hApart.2 hRest
    unfold removeAll at hMem ⊢
    rw [hState, hMem, hStep, List.forall_mem_cons, and_assoc]

section Stale

variable (hp : ctx.files.kind p ≠ .ok .file)

include hp

/-- Closing a directory drops the stale files below the directories that are gone from it, unless
they can be opened, and those of its own that end like source files. -/
theorem mem_paths_close {dir : Text} (hx : x.registry.Held)
    (hApart : (x.gone ctx dir).Pairwise Path.Apart)
    (hOk : (Step.run ctx (.close dir) x).result = .ok ()) :
    p ∈ (Step.run ctx (.close dir) x).state.registry.paths ↔
      p ∈ x.registry.paths ∧ (∀ d ∈ x.gone ctx dir, Path.isUnder p d = true → Opens ctx p) ∧
        ¬ (Path.parent p = dir ∧ ctx.sourceExtension.isSuffixOf p = true) := by
  have hRemoves := (close_step_result dir x).symm.trans hOk
  have hMem := @mem_paths_removeAll ctx x p _ hx (fun d hd => (mem_gone.mp hd).1) hApart hRemoves
  rw [close_step_state hRemoves, registry_learn, mem_paths_retractAll, mem_goneFiles, hMem, and_assoc]
  refine and_congr_right fun hTracked => and_congr_right fun hUnder => not_congr ?_
  constructor
  · exact fun h => ⟨h.2.1, h.2.2.1⟩
  · exact fun h => ⟨⟨hTracked, hUnder⟩, h.1, h.2, not_mem_sources hp⟩

/-- The steps for the entries of a directory track no file that was not tracked, and lose none. -/
theorem mem_paths_entries {dir : Text} (hx : x.registry.Held)
    (hOk : (Action.forEach (Step.run ctx)
      ((listed ctx dir).flatMap (entrySteps ctx dir)) x).result = .ok ()) :
    p ∈ (Action.forEach (Step.run ctx)
      ((listed ctx dir).flatMap (entrySteps ctx dir)) x).state.registry.paths ↔
        p ∈ x.registry.paths := by
  have hFault : ∀ n ∈ listed ctx dir, ∀ f q, Step.fault f q ∉ entrySteps ctx dir n := by
    intro n hn f q hMem
    exact fault_not_mem_of_ok hOk f q (List.mem_flatMap.mpr ⟨n, hn, hMem⟩)
  obtain ⟨hState, hResult⟩ := entries_run hFault x
  have hNot : p ∉ (listed ctx dir).filterMap (source? ctx dir) := not_mem_sources hp
  rw [hResult] at hOk
  rw [hState, mem_paths_checks hx hOk, or_iff_right fun h => hNot h.1]
  exact and_iff_right hNot

end Stale

-- ---------------------------------------------------------------------------
-- Along the route
-- ---------------------------------------------------------------------------

/-- What a scan has left of the stale files and of the known directories when it is through with
some directories of its route. -/
structure Swept (ctx : IndexContext) (start : Indexer) (dirs : List Text) (x : Indexer) : Prop where
  orderly : Orderly x
  mem_dirs : ∀ q, q ∈ x.dirs ↔ q ∈ dirs ∨ (q ∈ start.dirs ∧ Spared ctx start dirs q)
  mem_paths : ∀ p, ctx.files.kind p ≠ .ok .file → (p ∈ x.registry.paths ↔
    p ∈ start.registry.paths ∧ (Opens ctx p ∨ Spared ctx start dirs p) ∧
      ¬ (Path.parent p ∈ dirs ∧ ctx.sourceExtension.isSuffixOf p = true))

theorem Swept.nil (hs : Orderly start) : Swept ctx start [] start where
  orderly := hs
  mem_dirs := by
    intro q
    simp [Spared]
  mem_paths := by
    intro p _
    simp [Spared]

section Along

variable (hfs : ctx.files.WellNamed) (hRoot : Path.normalize root = b.path []) (hs : Orderly start)

include hfs hRoot hs

/-- **One more directory.** -/
theorem Swept.step {front back : List Text} {dir : Text} {names : List Text}
    (hSplit : route ctx root = front ++ dir :: back) (hList : ctx.files.list dir = .ok names)
    (hx : Swept ctx start front x)
    (hOk : (Action.forEach (Step.run ctx) (steps ctx dir) x).result = .ok ()) :
    Swept ctx start (front ++ [dir]) (Action.forEach (Step.run ctx) (steps ctx dir) x).state := by
  have hDir : dir ∈ route ctx root := hSplit ▸ List.mem_append_right front List.mem_cons_self
  obtain ⟨ns, rfl⟩ := exists_names_of_mem_route hfs hRoot hDir
  have hStep : ∀ s ∈ steps ctx (b.path ns), Action.Keeps Orderly (Step.run ctx s) :=
    fun s hs => confined_step (accepts_path ns) (fun _ _ h => h) hs
  rw [steps_of_list hList] at hStep
  rw [steps_of_list hList, Action.forEach_append, Action.forEach_singleton] at hOk ⊢
  obtain ⟨⟨⟩, hEntries, hClose⟩ := Action.result_bind_eq_ok.mp hOk
  rw [Action.state_bind_of_ok hEntries]
  -- the entries neither add nor lose a file that is not regular
  have hMiddle : ∀ p, ctx.files.kind p ≠ .ok .file → _ :=
    fun p hp => mem_paths_entries hp hx.orderly.held hEntries
  have hDirs : (Action.forEach (Step.run ctx)
      ((listed ctx (b.path ns)).flatMap (entrySteps ctx (b.path ns))) x).state.dirs = x.dirs := by
    refine (congrArg Indexer.dirs (entries_run (fun n hn f q hMem => ?_) x).1).trans (dirs_checks _ x)
    exact fault_not_mem_of_ok hEntries f q (List.mem_flatMap.mpr ⟨n, hn, hMem⟩)
  have hOrderly := Action.Keeps.forEach (fun s hs => hStep s (List.mem_append_left _ hs)) x hx.orderly
  generalize (Action.forEach (Step.run ctx)
    ((listed ctx (b.path ns)).flatMap (entrySteps ctx (b.path ns))) x).state = y at *
  have hKnown : ∀ q, q ∈ y.dirs ↔ q ∈ front ∨ (q ∈ start.dirs ∧ Spared ctx start front q) := by
    intro q
    rw [hDirs, hx.mem_dirs]
  refine ⟨?_, fun q => mem_dirs_close_iff hfs hRoot hSplit hs hOrderly hKnown hClose, ?_⟩
  · exact hStep _ (List.mem_append_right _ List.mem_cons_self) y hOrderly
  · intro p hp
    -- what is gone is the same as at the start, since the directories in between are on the route
    have hAway : (∀ d ∈ y.gone ctx (b.path ns), Path.isUnder p d = true → Opens ctx p) ↔
        Opens ctx p ∨ ∀ d ∈ start.gone ctx (b.path ns), Path.isUnder p d = false := by
      simp only [mem_gone_iff_start hfs hRoot hSplit hs hOrderly hKnown]
      by_cases hOpens : Opens ctx p <;> simp [hOpens]
    rw [mem_paths_close hp hOrderly.held (hOrderly.gone_apart ns) hClose, hMiddle p hp,
      hx.mem_paths p hp, spared_append, List.mem_append, List.mem_singleton, hAway, or_and_left]
    constructor
    · rintro ⟨⟨hTracked, hFront, hOther⟩, hHere, hOwn⟩
      exact ⟨hTracked, ⟨hFront, hHere⟩,
        fun ⟨hParent, hExt⟩ => hParent.elim (hOther ⟨·, hExt⟩) (hOwn ⟨·, hExt⟩)⟩
    · rintro ⟨hTracked, ⟨hFront, hHere⟩, hNeither⟩
      exact ⟨⟨hTracked, hFront, fun h => hNeither ⟨Or.inl h.1, h.2⟩⟩, hHere,
        fun h => hNeither ⟨Or.inr h.1, h.2⟩⟩

/-- **A part of the route.** -/
theorem Swept.run {front back : List Text} (hSplit : route ctx root = front ++ back)
    (hList : ∀ dir ∈ front, ∃ names, ctx.files.list dir = .ok names)
    (hOk : (Indexer.run ctx front start).result = .ok ()) :
    Swept ctx start front (Indexer.run ctx front start).state := by
  refine run_along (P := fun dirs o => Swept ctx start dirs o.state) hSplit hList hOk
    (Swept.nil hs) ?_
  intro front dir back names o hSplit hNames hHere hDir
  exact hHere.step hfs hRoot hs hSplit hNames hDir

/-- On its way, a scan looks for the files below the known directories that are gone, and for those
of its own directories. -/
theorem sought_iff (hList : ∀ dir ∈ route ctx root, ∃ names, ctx.files.list dir = .ok names) :
    Sought ctx b start p ↔
      (Path.parent p ∈ route ctx root ∧ ctx.sourceExtension.isSuffixOf p = true) ∨
        (¬ Spared ctx start (route ctx root) p ∧ ¬ Opens ctx p) := by
  have hEntered : ∀ d, d ∈ route ctx root ↔ Entered ctx b d :=
    fun d => mem_route_iff_entered hfs hRoot hList
  constructor
  · rintro (⟨hParent, hExt⟩ | ⟨d, hKnown, hAbove, hGone, hUnder, hShut⟩)
    · exact Or.inl ⟨(hEntered _).mpr hParent, hExt⟩
    · refine Or.inr ⟨fun hSpared => ?_, hShut⟩
      rw [← hEntered] at hAbove hGone
      rcases hAbove with rfl | hAbove
      · exact hGone (root_mem_route hRoot)
      · have hSubdir : d ∉ subdirs ctx (Path.parent d) :=
          fun hMem => hGone (route_closed hfs hRoot hAbove hMem)
        have hOther : d ≠ Path.parent d := fun hEq => hGone (hEq ▸ hAbove)
        have hAway := hSpared _ hAbove d (mem_gone.mpr ⟨hKnown, rfl, hOther, hSubdir⟩)
        exact Bool.false_ne_true (hAway.symm.trans hUnder)
  · rintro (⟨hParent, hExt⟩ | ⟨hNot, hShut⟩)
    · exact .listed ((hEntered _).mp hParent) hExt
    · by_contra hNone
      apply hNot
      intro e he d hd
      obtain ⟨hKnown, rfl, -, hSubdir⟩ := mem_gone.mp hd
      -- a directory that is gone is not entered, for it would have been found
      have hGone : ¬ Entered ctx b d := by
        intro hEnter
        obtain ⟨es, hes⟩ := exists_names_of_mem_route hfs hRoot he
        rw [hes] at hd hSubdir
        obtain ⟨n, rfl⟩ := hs.of_mem_gone hd
        exact hSubdir ((mem_route_snoc hfs hRoot).mp ((hEntered _).mpr hEnter)).2
      rw [Bool.eq_false_iff]
      exact fun hUnder =>
        hNone (.below d hKnown (Or.inr ((hEntered _).mp he)) hGone hUnder hShut)

/-- What a scan that returns leaves of the stale files of an orderly index. -/
theorem run_stale_iff (hp : ctx.files.kind p ≠ .ok .file)
    (hOk : (run ctx (route ctx root) start).result = .ok ()) :
    p ∈ (run ctx (route ctx root) start).state.registry.paths ↔
      p ∈ start.registry.paths ∧ ¬ Sought ctx b start p := by
  by_cases hMissing : ctx.files.list (b.path []) = .error .missing
  · -- a scan whose root is missing goes into no directory, and can only forget the root
    have hNone : ∀ d, ¬ Entered ctx b d := by
      rintro d ⟨⟨ns, rfl, -⟩, hKind⟩
      have hResolve := FileSystem.resolve_below_missing ns hMissing
      rw [List.nil_append] at hResolve
      rw [FileSystem.kind_of_resolve_error hResolve] at hKind
      exact nomatch hKind
    have hSought : Sought ctx b start p ↔
        b.path [] ∈ start.dirs ∧ Path.isUnder p (b.path []) = true ∧ ¬ Opens ctx p := by
      constructor
      · rintro (⟨hParent, -⟩ | ⟨d, hKnown, rfl | hAbove, -, hUnder, hShut⟩)
        · exact absurd hParent (hNone _)
        · exact ⟨hKnown, hUnder, hShut⟩
        · exact absurd hAbove (hNone _)
      · exact fun h => .below _ h.1 (Or.inl rfl) (hNone _) h.2.1 h.2.2
    rw [hSought]
    by_cases hKnown : b.path [] ∈ start.dirs
    · rw [run_of_missing hRoot hMissing] at hOk ⊢
      obtain ⟨v, hv, hState⟩ := absent_step_of_ok hOk
      rw [hState, mem_paths_remove hs.held hKnown hv]
      simp [hKnown]
    · rw [run_of_missing_unknown hRoot hMissing hKnown]
      simp [hKnown]
  · -- otherwise the whole route has been swept
    have hList : ∀ dir ∈ route ctx root, ∃ names, ctx.files.list dir = .ok names :=
      fun dir hDir => list_of_run_ok hfs hRoot hMissing (fun _ h => h) hOk hDir
    have hSwept := Swept.run hfs hRoot hs (List.append_nil _).symm hList hOk
    have hLooked : ¬ (¬ Spared ctx start (route ctx root) p ∧ ¬ Opens ctx p) ↔
        Opens ctx p ∨ Spared ctx start (route ctx root) p := by
      rw [not_and_or, not_not, not_not, or_comm]
    rw [hSwept.mem_paths p hp, sought_iff hfs hRoot hs hList, not_or, hLooked]
    exact and_congr_right fun _ => and_comm

end Along

/-- **What a scan leaves of stale files.** After any run of checks, retractions, scans and removals,
each on a file system of its own and each returning or failing, a scan that returns leaves a file
that is no regular file now just when the file was tracked and the scan does not look for it, or
finds that it can be opened. -/
theorem tracked_stale_iff {calls : List (IndexContext × Call)}
    (hCalls : ∀ call ∈ calls, call.1.files.WellNamed) (hfs : ctx.files.WellNamed)
    (hOk : (scan ctx root (after {} calls)).result = .ok ()) (p : Text) :
    p ∈ (scan ctx root (after {} calls)).state.registry.paths ∧ ctx.files.kind p ≠ .ok .file ↔
      p ∈ (after {} calls).registry.paths ∧ ctx.files.kind p ≠ .ok .file ∧
        ∃ b : Path.Base, Path.normalize root = b.path [] ∧ ¬ Sought ctx b (after {} calls) p := by
  have hAbsolute := isAbsolute_of_scan_ok hOk
  have hOrderly : Orderly (after {} calls) :=
    orderly_after hCalls ⟨Registry.Held.empty, nofun, nofun, List.nodup_nil⟩
  have hRun : ∀ b : Path.Base, Path.normalize root = b.path [] → ctx.files.kind p ≠ .ok .file →
      (p ∈ (scan ctx root (after {} calls)).state.registry.paths ↔
        p ∈ (after {} calls).registry.paths ∧ ¬ Sought ctx b (after {} calls) p) := by
    intro b hRoot hp
    rw [scan_eq_run hfs hRoot hAbsolute] at hOk ⊢
    exact run_stale_iff hfs hRoot hOrderly hp hOk
  constructor
  · rintro ⟨hAfter, hp⟩
    obtain ⟨b, hRoot⟩ := Path.exists_base hAbsolute
    obtain ⟨hBefore, hNot⟩ := (hRun b hRoot hp).mp hAfter
    exact ⟨hBefore, hp, b, hRoot, hNot⟩
  · rintro ⟨hBefore, hp, b, hRoot, hNot⟩
    exact ⟨(hRun b hRoot hp).mpr ⟨hBefore, hNot⟩, hp⟩

-- A device in the place of a known directory is checked by name, and the next scan checks it again.
example :
    let x := after {} [(usual.on (folder [("x", .directory [])]), .scan "/r"),
      (usual.on (folder [("x", .device [])]), .check "/r/x")]
    let rescan := scan (usual.on (folder [("x", .device [])])) "/r" x
    x.dirs = ["/r", "/r/x"].map String.toList ∧ rescan.result = .ok () ∧
      rescan.state.dirs = ["/r".toList] ∧ rescan.state.registry.paths = ["/r/x".toList] := by
  decide +kernel

/-- A check by name of a source file in a directory that has never been scanned. -/
def unscanned : List (IndexContext × Call) :=
  [(usual.on (folder [("s", .directory [("b.js", definition "B")])]), .check "/r/s/b.js")]

/-- When the directory has vanished, a scan from above does not look for the file. -/
theorem tracked_stale_of_unscanned :
    "/r/s/b.js".toList ∈
      (scan (usual.on (folder [])) "/r" (after {} unscanned)).state.registry.paths ∧
    ∃ b : Path.Base, Path.normalize "/r" = b.path [] ∧
      ¬ Sought (usual.on (folder [])) b (after {} unscanned) "/r/s/b.js" := by
  have hCalls : ∀ call ∈ unscanned, call.1.files.WellNamed := by
    unfold unscanned
    rw [List.forall_mem_singleton]
    decide
  have hfs : (usual.on (folder [])).files.WellNamed := by decide
  have hOk : (scan (usual.on (folder [])) "/r" (after {} unscanned)).result = .ok () := by
    decide +kernel
  have hTracked : "/r/s/b.js".toList ∈
      (scan (usual.on (folder [])) "/r" (after {} unscanned)).state.registry.paths := by
    decide +kernel
  have hGone : (usual.on (folder [])).files.kind "/r/s/b.js" ≠ .ok .file := by decide
  obtain ⟨-, -, hNot⟩ := (tracked_stale_iff hCalls hfs hOk _).mp ⟨hTracked, hGone⟩
  exact ⟨hTracked, hNot⟩

/-- So a class can outlive a file that has been checked by name: the file `a.txt` does not end like
a source file, and a scan of its directory that returns leaves its class when the file has
vanished. -/
theorem class_outlives_checked_file :
    (check (usual.on (folder [("a.txt", definition "A")])) "/r/a.txt" {}).result = .ok true ∧
    (scan (usual.on (folder [])) "/r"
      (check (usual.on (folder [("a.txt", definition "A")])) "/r/a.txt" {}).state).result = .ok () ∧
    (scan (usual.on (folder [])) "/r"
      (check (usual.on (folder [("a.txt", definition "A")])) "/r/a.txt"
        {}).state).state.registry.owned "/r/a.txt" = ["A"] ∧
    Path.isUnder "/r/a.txt" (Path.normalize "/r") = true ∧
    (folder []).kind "/r/a.txt" = .error .missing := by
  decide +kernel

end Indexer

end ClassTags
