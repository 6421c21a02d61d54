import ClassTags.Proofs.Passage

/-!
# Rescans

A scan that returns brings the index up to date: the index then has the files and directories that
are there now, and nothing of what was there before. The reason is that a history of returned scans
leaves a **settled** index, in which every file and every directory hangs on a known directory, up
to the root. So whatever has vanished lies below a known directory that is gone from a directory of
the route.

The same holds of a scan that starts with an empty index, and such a scan returns whenever any other
does. So a rescan and a fresh scan agree.

Main results:

* `Indexer.current_of_run` — a scan of a settled index that returns leaves a current one;
* `Indexer.run_eq_ok` — where nothing is amiss, a scan returns;
* `Indexer.rescan_agrees` — a rescan agrees with a fresh scan.
-/

namespace ClassTags.Indexer

/-- The source files that a scan checks, in order. -/
def selected (ctx : IndexContext) (root : Text) : List Text :=
  (route ctx root).flatMap (sources ctx)

/-- The directories that a scan closes, in order. -/
def closed (ctx : IndexContext) (root : Text) : List Text :=
  (route ctx root).filter fun dir => (ctx.files.list dir).toBool

/-- An index in which every file and every directory hangs on a known directory, up to the root. -/
structure Settled (b : Path.Base) (x : Indexer) : Prop where
  files : ∀ p ∈ x.registry.paths, Path.parent p ∈ x.dirs
  dirs : ∀ d ∈ x.dirs, d = b.path [] ∨ Path.parent d ∈ x.dirs

/-- An index that has what is there now, and nothing else. -/
structure Current (ctx : IndexContext) (b : Path.Base) (root : Text) (calm : Prop) (x : Indexer) :
    Prop where
  tidy : Tidy ctx b x
  registry : Renewed ctx [] (fun _ => True) (selected ctx root) calm x.registry
  mem_dirs : ∀ q, q ∈ x.dirs ↔ q ∈ closed ctx root

variable {ctx : IndexContext} {b : Path.Base} {old : Holdings} {start x : Indexer} {root : Text}

/-- The directories that are closed are those on the route that can be listed. -/
theorem mem_closed {dir : Text} :
    dir ∈ closed ctx root ↔ dir ∈ route ctx root ∧ ∃ names, ctx.files.list dir = .ok names := by
  unfold closed
  rw [List.mem_filter]
  cases ctx.files.list dir <;> simp [Except.toBool]

-- ---------------------------------------------------------------------------
-- Settled indexes
-- ---------------------------------------------------------------------------

theorem settled_empty : Settled b {} := ⟨nofun, nofun⟩

/-- A settled index that knows any directory knows the root. -/
theorem Settled.root_mem (h : Settled b x) (hx : Tidy ctx b x) {d : Text} (hd : d ∈ x.dirs) :
    b.path [] ∈ x.dirs := by
  obtain ⟨ns, rfl, -⟩ := hx.dirs d hd
  induction ns using List.reverseRecOn with
  | nil => exact hd
  | append_singleton ns n ih =>
    rcases h.dirs _ hd with hEq | hParent
    · simp at hEq
    · rw [b.parent_path] at hParent
      exact ih hParent

section Scan

variable (hfs : ctx.files.WellNamed) (hRoot : Path.normalize root = b.path [])

include hfs hRoot

/-- A scan comes to check a file once. -/
theorem nodup_selected : (selected ctx root).Nodup := by
  unfold selected
  rw [List.nodup_flatMap]
  constructor
  · intro dir hDir
    obtain ⟨ns, rfl⟩ := exists_names_of_mem_route hfs hRoot hDir
    exact nodup_sources hfs ns
  · refine (nodup_route hfs hRoot).imp_of_mem fun {d e} hd he hOther p hp hp' => ?_
    have hParent := parent_of_mem_sources hfs hRoot hd hp
    exact hOther (hParent.symm.trans (parent_of_mem_sources hfs hRoot he hp'))

/-- What lies below a path that is not spared is not spared either. -/
theorem Spared.above (hx : Tidy ctx b x) {dirs : List Text}
    (hDirs : ∀ dir ∈ dirs, dir ∈ route ctx root) {ns ms : List Path.Name}
    (h : Spared ctx x dirs (b.path (ns ++ ms))) : Spared ctx x dirs (b.path ns) := by
  intro e he g hg
  have hAway := h e he g hg
  obtain ⟨es, rfl⟩ := exists_names_of_mem_route hfs hRoot (hDirs e he)
  obtain ⟨m, rfl, -⟩ := hx.of_mem_gone hg
  rw [Bool.eq_false_iff] at hAway ⊢
  intro hUnder
  exact hAway (b.isUnder_path.mpr ((b.isUnder_path.mp hUnder).trans (List.prefix_append _ _)))

/-- A known directory of a settled index is on the route, or it lies below one that is gone. -/
theorem Settled.mem_route_or_gone (h : Settled b x) (hx : Tidy ctx b x) {d : Text}
    (hd : d ∈ x.dirs) : d ∈ route ctx root ∨ ¬ Spared ctx x (route ctx root) d := by
  obtain ⟨ns, rfl, -⟩ := hx.dirs d hd
  induction ns using List.reverseRecOn with
  | nil => exact Or.inl (root_mem_route hRoot)
  | append_singleton ns n ih =>
    have hParent : b.path ns ∈ x.dirs := by
      rcases h.dirs _ hd with hEq | hParent
      · simp at hEq
      · rwa [b.parent_path] at hParent
    rcases ih hParent with hRoute | hGone
    · -- the scan lists the directory it is in, and finds it there or not
      by_cases hSubdir : b.path (ns ++ [n]) ∈ subdirs ctx (b.path ns)
      · exact Or.inl ((mem_route_snoc hfs hRoot).mpr ⟨hRoute, hSubdir⟩)
      · right
        intro hSpared
        have hGone : b.path (ns ++ [n]) ∈ x.gone ctx (b.path ns) :=
          mem_gone.mpr ⟨hd, b.parent_path ns n, by simp, hSubdir⟩
        have hUnder := hSpared _ hRoute _ hGone
        rw [b.isUnder_path.mpr (List.prefix_refl _)] at hUnder
        exact Bool.false_ne_true hUnder.symm
    · exact Or.inr fun hSpared => hGone (hSpared.above hfs hRoot hx fun _ h => h)

/-- What is current is settled. -/
theorem Current.settled {calm : Prop} (hx : Current ctx b root calm x) : Settled b x where
  files := by
    intro p hp
    rw [hx.mem_dirs, mem_closed]
    have hSelected : p ∈ selected ctx root := by
      rcases hx.registry.mem_paths.mp hp with ⟨hOld, -⟩ | hNew
      · exact absurd hOld List.not_mem_nil
      · exact hNew
    obtain ⟨ns, n, rfl, hDir, hSource, -⟩ :=
      of_mem_flatMap_sources hfs hRoot (fun _ h => h) hSelected
    rw [b.parent_path]
    exact ⟨hDir, list_of_mem_sources hSource⟩
  dirs := by
    intro d hd
    rw [hx.mem_dirs, mem_closed] at hd
    obtain ⟨ns, rfl⟩ := exists_names_of_mem_route hfs hRoot hd.1
    rcases List.eq_nil_or_concat ns with rfl | ⟨ms, m, rfl⟩
    · exact Or.inl rfl
    · right
      rw [List.concat_eq_append] at *
      obtain ⟨hParent, hSubdir⟩ := (mem_route_snoc hfs hRoot).mp hd.1
      rw [b.parent_path, hx.mem_dirs, mem_closed]
      exact ⟨hParent, list_of_mem_subdirs hSubdir⟩

/-- What a scan selects, if it can list the directories of its route. -/
theorem mem_selected_iff
    (hList : ∀ dir ∈ route ctx root, ∃ names, ctx.files.list dir = .ok names) {p : Text} :
    p ∈ selected ctx root ↔ Checkable ctx b p ∧ ctx.files.kind p = .ok .file :=
  List.mem_flatMap.trans (exists_mem_sources_iff hfs hRoot hList)

omit hfs hRoot in
/-- A current index has the selected files, each with the classes that it defines now. -/
theorem Current.exists_files {calm : Prop} (hx : Current ctx b root calm x) :
    ∃ files : List Text, files.Perm (selected ctx root) ∧
      Start ctx b (files.map (entry ctx)) x := by
  obtain ⟨rest, done, hl, hEq⟩ := hx.registry
  obtain rfl : rest = [] := List.sublist_nil.mp hl.rest_sublist
  exact ⟨done, hl.done_perm, hx.tidy, hl.sound, hEq⟩

/-- What is a known directory now is no tracked file. -/
theorem Current.not_mem_paths {calm : Prop} (hx : Current ctx b root calm x) {d : Text}
    (hd : d ∈ x.dirs) : d ∉ x.registry.paths := by
  intro hTracked
  obtain ⟨-, names, hNames⟩ := mem_closed.mp ((hx.mem_dirs d).mp hd)
  have hSelected : d ∈ selected ctx root := by
    rcases hx.registry.mem_paths.mp hTracked with ⟨hOld, -⟩ | hNew
    · exact absurd hOld List.not_mem_nil
    · exact hNew
  obtain ⟨-, -, -, -, -, hFile⟩ := of_mem_flatMap_sources hfs hRoot (fun _ h => h) hSelected
  exact nomatch hFile.symm.trans (FileSystem.kind_of_list hNames)

-- ---------------------------------------------------------------------------
-- What a scan leaves
-- ---------------------------------------------------------------------------

/-- When the root is missing, everything goes. -/
theorem current_of_missing (hx : Tidy ctx b start) (hSettled : Settled b start)
    (hMissing : ctx.files.list (b.path []) = .error .missing)
    (hOk : (run ctx (route ctx root) start).result = .ok ()) :
    Current ctx b root (Calm ctx start) (run ctx (route ctx root) start).state := by
  have hTidy := tidy_run hfs hRoot (fun _ h => h) start hx
  -- nothing can be selected where the root is missing
  have hSelected : selected ctx root = [] := by
    unfold selected
    rw [route_of_error hRoot hMissing, List.flatMap_singleton, List.eq_nil_iff_forall_not_mem]
    intro p hp
    obtain ⟨names, hList⟩ := list_of_mem_sources hp
    rw [hMissing] at hList
    exact nomatch hList
  have hClosed : ∀ q, q ∉ closed ctx root := by
    intro q hq
    obtain ⟨hRoute, names, hList⟩ := mem_closed.mp hq
    rw [route_of_error hRoot hMissing, List.mem_singleton] at hRoute
    rw [hRoute, hMissing] at hList
    exact nomatch hList
  by_cases hKnown : b.path [] ∈ start.dirs
  · obtain ⟨hRegistry, hDirs⟩ := run_of_missing_known hRoot hx hMissing hKnown hOk
    rw [← hSelected] at hRegistry
    refine ⟨hTidy, hRegistry, fun q => iff_of_false ?_ (hClosed q)⟩
    rw [hDirs]
    exact List.not_mem_nil
  · -- an index that does not know the root is empty
    have hNone : ∀ d, d ∉ start.dirs := fun d hd => hKnown (hSettled.root_mem hx hd)
    rw [run_of_missing_unknown hRoot hMissing hKnown] at hTidy ⊢
    refine ⟨hTidy, ?_, fun q => iff_of_false (hNone q) (hClosed q)⟩
    obtain ⟨old, hs⟩ := hx.exists_start
    rw [hSelected]
    refine hs.passage.registry.of_forall_not_keep fun p hp _ => ?_
    apply hNone (Path.parent p)
    apply hSettled.files
    rw [hs.registry_eq, Holdings.paths_registry]
    exact hp

/-- **A scan of a settled index that returns leaves a current one.** -/
theorem current_of_run (hx : Tidy ctx b start) (hSettled : Settled b start)
    (hOk : (run ctx (route ctx root) start).result = .ok ()) :
    Current ctx b root (Calm ctx start) (run ctx (route ctx root) start).state := by
  by_cases hMissing : ctx.files.list (b.path []) = .error .missing
  · exact current_of_missing hfs hRoot hx hSettled hMissing hOk
  obtain ⟨old, hs⟩ := hx.exists_start
  have hList : ∀ dir ∈ route ctx root, ∃ names, ctx.files.list dir = .ok names :=
    fun dir hDir => list_of_run_ok hfs hRoot hMissing (fun _ h => h) hOk hDir
  have hPassage := Passage.run hfs hRoot hs (List.append_nil _).symm hList hOk
  refine ⟨hPassage.tidy, ?_, ?_⟩
  · refine hPassage.registry.of_forall_not_keep ?_
    rintro p hp ⟨hParent, hSpared⟩
    -- the directory of an old file was known, and so it is on the route or gone
    have hKnown : Path.parent p ∈ start.dirs := by
      apply hSettled.files
      rw [hs.registry_eq, Holdings.paths_registry]
      exact hp
    obtain ⟨ns, n, rfl, -⟩ := hs.checkable hp
    rw [b.parent_path] at hParent hKnown
    rcases hSettled.mem_route_or_gone hfs hRoot hx hKnown with hRoute | hGone
    · exact hParent hRoute
    · exact hGone (hSpared.above hfs hRoot hx fun _ h => h)
  · intro q
    rw [hPassage.mem_dirs, mem_closed]
    constructor
    · rintro (hRoute | ⟨hKnown, hSpared⟩)
      · exact ⟨hRoute, hList q hRoute⟩
      · rcases hSettled.mem_route_or_gone hfs hRoot hx hKnown with hRoute | hGone
        · exact ⟨hRoute, hList q hRoute⟩
        · exact absurd hSpared hGone
    · exact fun h => Or.inl h.1

-- ---------------------------------------------------------------------------
-- Scans that return
-- ---------------------------------------------------------------------------

omit hfs hRoot in
/-- Files that are missing can be checked. -/
theorem checks_eq_ok_of_missing {ps : List Text} (hPaths : ∀ p ∈ ps, Registry.accepts p = true)
    (hMissing : ∀ p ∈ ps, ctx.files.read p = .error .missing) (x : Indexer) :
    (checks ctx ps x).result = .ok () := by
  induction ps generalizing x with
  | nil => rfl
  | cons p ps ih =>
    rw [List.forall_mem_cons] at hPaths hMissing
    have hFirst := (check_step_of_missing hPaths.1 hMissing.1 x).1
    rw [checks_cons]
    exact Action.result_bind_eq_ok.mpr ⟨(), hFirst, ih hPaths.2 hMissing.2 _⟩

omit hfs hRoot in
/-- Directories with nothing below them that could be found can be forgotten. -/
theorem removeAll_eq_ok {F D : Text → Prop} {ds : List Text} (hx : Confined F D x)
    (hPaths : ∀ p, F p → Registry.accepts p = true)
    (hMissing : ∀ p, F p → ∀ d ∈ ds, Path.isUnder p d = true → ctx.files.read p = .error .missing) :
    (removeAll ctx ds x).result = .ok () := by
  induction ds generalizing x with
  | nil => rfl
  | cons d ds ih =>
    have hRemove : ∃ v, (remove ctx d x).result = .ok v := by
      by_cases hKnown : d ∈ x.dirs
      · have hFiles : ∀ p ∈ x.below d, F p ∧ Path.isUnder p d = true := fun p hp =>
          (List.mem_filter.mp hp).imp_left (hx.files p)
        have hChecks := checks_eq_ok_of_missing (fun p hp => hPaths p (hFiles p hp).1)
          (fun p hp => hMissing p (hFiles p hp).1 d List.mem_cons_self (hFiles p hp).2) (x.forget d)
        rw [remove_of_known hKnown]
        exact ⟨true, Action.result_bind_eq_ok.mpr ⟨(), hChecks, rfl⟩⟩
      · rw [remove_of_unknown hKnown]
        exact ⟨false, rfl⟩
    obtain ⟨v, hv⟩ := hRemove
    have hFirst : (Step.run ctx (.absent d) x).result = .ok () :=
      Action.result_bind_eq_ok.mpr ⟨v, hv, rfl⟩
    obtain ⟨-, -, hState⟩ := absent_step_of_ok hFirst
    unfold removeAll
    rw [Action.forEach_cons]
    refine Action.result_bind_eq_ok.mpr ⟨(), hFirst, ?_⟩
    rw [hState]
    exact ih (confined_remove d x hx) fun p hp e he => hMissing p hp e (List.mem_cons_of_mem d he)

section Next

variable {front back : List Text} {dir : Text} (hSplit : route ctx root = front ++ dir :: back)
  (hp : Passage ctx b old start front x)

include hSplit hp

/-- The source files of the next directory can be checked, if all that it lists can be looked at, if
they can be read and if no class is defined in two places. -/
theorem Passage.entries_eq_ok
    (hSeen : Visible ctx dir) (hRead : ∀ p ∈ sources ctx dir, Readable ctx p)
    (hApart : Apart ctx (front.flatMap (sources ctx) ++ sources ctx dir))
    (hOld : ∀ p ∈ sources ctx dir, ApartFrom ctx old p) :
    (Action.forEach (Step.run ctx)
      ((listed ctx dir).flatMap (entrySteps ctx dir)) x).result = .ok () := by
  have hNext := fun p (hp : p ∈ sources ctx dir) => next_source hfs hRoot hSplit hp
  have hDistinct : (sources ctx dir).Nodup := by
    obtain ⟨ns, rfl⟩ := exists_names_of_mem_route hfs hRoot
      (hSplit ▸ List.mem_append_right front List.mem_cons_self)
    exact nodup_sources hfs ns
  rw [(entries_run (fun n hn => fault_not_mem_entrySteps hSeen hn) x).2]
  exact hp.registry.checks_eq_ok (fun p hp => (hNext p hp).1) hDistinct
    (fun p hp => (hNext p hp).2.1) hRead hApart hOld

/-- The next directory can be closed, if all below what is gone from it is missing. -/
theorem Passage.close_eq_ok {y : Indexer} (hs : Start ctx b old start) (hDirs : y.dirs = x.dirs)
    (hTidy : Tidy ctx b y)
    (hMissing : ∀ d ∈ start.gone ctx dir, ∀ p ∈ y.registry.paths, Path.isUnder p d = true →
      ctx.files.read p = .error .missing) :
    (Step.run ctx (.close dir) y).result = .ok () := by
  have hHere : Confined (fun p => Registry.accepts p = true ∧ p ∈ y.registry.paths)
      (fun _ => True) y :=
    ⟨hTidy.held, fun p hp => ⟨(hTidy.files p hp).accepts, hp⟩, fun _ _ => trivial, hTidy.distinct⟩
  rw [close_step_result]
  exact removeAll_eq_ok hHere (fun p hp => hp.1)
    fun p hHere d hd => hMissing d ((hp.mem_gone_iff hfs hRoot hs hSplit hDirs).mp hd) p hHere.2

end Next

/-- **Where nothing is amiss, a scan returns.** It is enough that the directories can be listed and
what they list can be looked at, that the source files can be read, that no class is defined in two
places, and that all below what is gone is missing. -/
theorem run_eq_ok (hs : Start ctx b old start) {front back : List Text}
    (hSplit : route ctx root = front ++ back)
    (hList : ∀ dir ∈ front, ∃ names, ctx.files.list dir = .ok names)
    (hSeen : ∀ dir ∈ front, Visible ctx dir)
    (hRead : ∀ p ∈ front.flatMap (sources ctx), Readable ctx p)
    (hApart : Apart ctx (front.flatMap (sources ctx)))
    (hOld : ∀ p ∈ front.flatMap (sources ctx), ApartFrom ctx old p)
    (hMissing : ∀ dir ∈ front, ∀ d ∈ start.gone ctx dir, ∀ p,
      p ∈ start.registry.paths ∨ p ∈ front.flatMap (sources ctx) → Path.isUnder p d = true →
        ctx.files.read p = .error .missing) :
    (run ctx front start).result = .ok () := by
  -- what the directories so far have made of the index is known, as in any other scan
  induction front using List.reverseRecOn generalizing back with
  | nil => rfl
  | append_singleton front dir ih =>
    rw [List.append_assoc, List.singleton_append] at hSplit
    rw [List.forall_mem_append, List.forall_mem_singleton] at hList hSeen hMissing
    rw [List.flatMap_append, List.flatMap_singleton] at hRead hApart hOld hMissing
    rw [List.forall_mem_append] at hRead hOld
    obtain ⟨names, hNames⟩ := hList.2
    have hFront := ih hSplit hList.1 hSeen.1 hRead.1
      (fun p hp q hq => hApart p (List.mem_append_left _ hp) q (List.mem_append_left _ hq)) hOld.1
      (fun e he d hd p hp => hMissing.1 e he d hd p (hp.imp_right (List.mem_append_left _)))
    have hPassage := Passage.run hfs hRoot hs hSplit hList.1 hFront
    rw [run_append]
    refine Action.result_bind_eq_ok.mpr ⟨(), hFront, ?_⟩
    generalize (run ctx front start).state = x at hPassage ⊢
    unfold run
    rw [List.flatMap_singleton, steps_of_list hNames, Action.forEach_append,
      Action.forEach_singleton]
    have hEntries := hPassage.entries_eq_ok hfs hRoot hSplit hSeen.2 hRead.2 hApart hOld.2
    refine Action.result_bind_eq_ok.mpr ⟨(), hEntries, ?_⟩
    obtain ⟨hRegistry, hDirs⟩ := hPassage.entries hfs hRoot hSplit (List.append_nil _).symm hEntries
    have hTidy := tidy_entries hfs (searched_of_mem_route hfs hRoot
      (hSplit ▸ List.mem_append_right front List.mem_cons_self))
      (fun n (hn : n ∈ listed ctx dir) => hn) x hPassage.tidy
    refine hPassage.close_eq_ok hfs hRoot hSplit hs hDirs hTidy fun d hd p hp => ?_
    apply hMissing.2 d hd p
    rw [hs.registry_eq, Holdings.paths_registry]
    exact (hRegistry.mem_paths.mp hp).imp_left And.left

/-- If a scan of a settled index returns, so does a scan of an empty one. -/
theorem run_empty_eq_ok_of_run (hx : Tidy ctx b start) (hSettled : Settled b start)
    (hOk : (run ctx (route ctx root) start).result = .ok ()) :
    (run ctx (route ctx root) {}).result = .ok () := by
  by_cases hMissing : ctx.files.list (b.path []) = .error .missing
  · rw [run_of_missing hRoot hMissing]
    refine Action.result_bind_eq_ok.mpr ⟨false, ?_, rfl⟩
    rw [remove_of_unknown List.not_mem_nil]
  · have hCurrent := (current_of_run hfs hRoot hx hSettled hOk).registry
    have hs : Start ctx b [] {} := ⟨tidy_empty, Holdings.Sound.nil, rfl⟩
    -- an empty index knows no directory that could be gone
    refine run_eq_ok hfs hRoot hs (List.append_nil _).symm ?_ (fun dir => visible_of_run_ok hOk)
      hCurrent.readable hCurrent.apart (fun _ _ => nofun)
      fun dir _ d hd => absurd (mem_gone.mp hd).1 List.not_mem_nil
    exact fun dir hDir => list_of_run_ok hfs hRoot hMissing (fun _ h => h) hOk hDir

end Scan

-- ---------------------------------------------------------------------------
-- Histories
-- ---------------------------------------------------------------------------

/-- Only an absolute root can be scanned. -/
theorem isAbsolute_of_scan_ok (hOk : (scan ctx root x).result = .ok ()) :
    Path.isAbsolute root = true := by
  cases hAbsolute : Path.isAbsolute root with
  | true => rfl
  | false =>
    rw [scan_of_relative hAbsolute] at hOk
    exact nomatch hOk

/-- **A history of returned scans leaves a settled index.** -/
theorem Returned.settled (hx : Returned ctx root x) (hRoot : Path.normalize root = b.path []) :
    Settled b x := by
  induction hx with
  | start => exact settled_empty
  | @scan x fs hx hfs hOk ih =>
    have hfs' : (ctx.on fs).files.WellNamed := hfs
    have hTidy : Tidy (ctx.on fs) b x := tidy_on.mpr (hx.attempted.tidy hRoot)
    have hAbsolute := isAbsolute_of_scan_ok hOk
    rw [scan_eq_run hfs' hRoot hAbsolute] at hOk ⊢
    exact (current_of_run hfs' hRoot hTidy ih hOk).settled hfs' hRoot

/-- After a history of returned scans, no known directory is a tracked file. -/
theorem Returned.not_mem_paths (hx : Returned ctx root x)
    (hRoot : Path.normalize root = b.path []) : ∀ d ∈ x.dirs, d ∉ x.registry.paths := by
  cases hx with
  | start => exact nofun
  | @scan x fs hx hfs hOk =>
    intro d hd
    have hfs' : (ctx.on fs).files.WellNamed := hfs
    have hTidy : Tidy (ctx.on fs) b x := tidy_on.mpr (hx.attempted.tidy hRoot)
    have hAbsolute := isAbsolute_of_scan_ok hOk
    rw [scan_eq_run hfs' hRoot hAbsolute] at hOk hd ⊢
    exact (current_of_run hfs' hRoot hTidy (hx.settled hRoot) hOk).not_mem_paths hfs' hRoot hd

/-- **A rescan agrees with a fresh scan.** After a history of returned scans of a root, if one more
scan returns, then a scan of the file system as it is by an empty index returns too. Both end with
the same files and their classes, the same class table and the same known directories. The order is
the same too, if no directory that was known is a regular file now. -/
theorem rescan_agrees {fs : FileSystem} (hx : Returned ctx root x) (hfs : fs.WellNamed)
    (hOk : (scan (ctx.on fs) root x).result = .ok ()) :
    (scan (ctx.on fs) root {}).result = .ok () ∧
    (scan (ctx.on fs) root x).state.registry.sources.Perm
      (scan (ctx.on fs) root {}).state.registry.sources ∧
    (scan (ctx.on fs) root x).state.registry.classes.Perm
      (scan (ctx.on fs) root {}).state.registry.classes ∧
    (scan (ctx.on fs) root x).state.dirs.Perm (scan (ctx.on fs) root {}).state.dirs ∧
    ((∀ d ∈ x.dirs, fs.kind d ≠ .ok .file) →
      (scan (ctx.on fs) root x).state.registry = (scan (ctx.on fs) root {}).state.registry) := by
  have hAbsolute := isAbsolute_of_scan_ok hOk
  obtain ⟨b, hRoot⟩ := Path.exists_base hAbsolute
  have hTidy : Tidy (ctx.on fs) b x := tidy_on.mpr (hx.attempted.tidy hRoot)
  have hSettled := hx.settled hRoot
  have hfs' : (ctx.on fs).files.WellNamed := hfs
  rw [scan_eq_run hfs' hRoot hAbsolute] at hOk ⊢
  have hFresh := run_empty_eq_ok_of_run hfs' hRoot hTidy hSettled hOk
  have hCurrent := current_of_run hfs' hRoot hTidy hSettled hOk
  have hCurrent' := current_of_run hfs' hRoot tidy_empty settled_empty hFresh
  obtain ⟨hSources, hClasses, hEq⟩ := hCurrent.registry.perm hCurrent'.registry
  refine ⟨hFresh, hSources, hClasses, ?_, fun hCalm => hEq hCalm nofun⟩
  rw [List.perm_ext_iff_of_nodup hCurrent.tidy.distinct hCurrent'.tidy.distinct]
  intro q
  rw [hCurrent.mem_dirs, hCurrent'.mem_dirs]

/-- The usual settings, on an empty file system. -/
def usual : IndexContext where
  files := { root := [] }
  defineCalls := defaultDefineCalls
  sourceExtension := ".js"
  ignoredDirs := []

/-- A file system with one directory `/r`. -/
def folder (entries : List (Text × Entry)) : FileSystem := { root := [("r", .directory entries)] }

/-- A source file that defines one class. -/
def definition (name : String) : Entry :=
  .file ("qx.Class.define(\"" ++ name ++ "\", \x7b\x7d);").toUTF8.toList

/-- A class that moves with its file into a new directory. -/
theorem rescan_agrees_of_moved_file :
    (scan (usual.on (folder [("s", .directory [("b.js", definition "X")])])) "/r"
      (scan (usual.on (folder [("a.js", definition "X")])) "/r" {}).state).state.registry =
        (scan (usual.on (folder [("s", .directory [("b.js", definition "X")])])) "/r"
          {}).state.registry ∧
    (scan (usual.on (folder [("s", .directory [("b.js", definition "X")])])) "/r"
      {}).state.registry.owned "/r/s/b.js" = ["X"] := by
  have hBefore : (scan (usual.on (folder [("a.js", definition "X")])) "/r" {}).result = .ok () := by
    decide +kernel
  have hHistory := Returned.scan .start (by decide) hBefore
  have hNamed : (folder [("s", .directory [("b.js", definition "X")])]).WellNamed := by decide
  have hAgrees := rescan_agrees hHistory hNamed (by decide +kernel)
  exact ⟨hAgrees.2.2.2.2 (by decide +kernel), by decide +kernel⟩

end ClassTags.Indexer
