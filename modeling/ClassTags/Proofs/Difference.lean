import ClassTags.Proofs.FirstScan

/-!
# The events of a rescan

Between two scans of a root, directories may come, go and come back at any depth. What a rescan
reports is still no more than the difference between the directories that were known before and
those that are known after it: each new directory once, level by level, and of what has vanished
only the uppermost directories, each once. A directory that has vanished together with the one above
it is not reported, since it is forgotten with that one.

On its way a rescan reports at every directory what is gone from there and whether the directory is
new (`Indexer.news`), and it does so as if it had just begun (`Indexer.Told`). So the events are
known from the route, and the difference is a matter of what is on the route and what is not.

Main definitions:

* `DirectoryEvent.additions`, `DirectoryEvent.removals` — the directories that events tell of;
* `Indexer.Difference` — events that tell what has changed.

Main results:

* `Indexer.Difference.of_missing`, `Indexer.Difference.of_run` — without the root and with it;
* `Indexer.Current.run_again` — a scan of what has not changed;
* `Indexer.rescan_events` — what a rescan reports.
-/

namespace ClassTags

namespace DirectoryEvent

/-- The directories that events report as added, in order. -/
def additions (events : List DirectoryEvent) : List Text :=
  events.filterMap fun
    | added p => some p
    | removed _ => none

/-- The directories that events report as removed, in order. -/
def removals (events : List DirectoryEvent) : List Text :=
  events.filterMap fun
    | added _ => none
    | removed p => some p

end DirectoryEvent

namespace Indexer

open DirectoryEvent

/-- **The events tell what has changed** between an index and another one: all directories that are
new, and of those that have vanished the ones whose parent has not, or the root. -/
structure Difference (root : Text) (x y : Indexer) (events : List DirectoryEvent) : Prop where
  additions_nodup : (additions events).Nodup
  mem_additions : ∀ d, d ∈ additions events ↔ d ∈ y.dirs ∧ d ∉ x.dirs
  removals_nodup : (removals events).Nodup
  mem_removals : ∀ d, d ∈ removals events ↔
    d ∈ x.dirs ∧ d ∉ y.dirs ∧ (Path.parent d ∈ y.dirs ∨ d = Path.normalize root)

variable {ctx : IndexContext} {b : Path.Base} {root : Text} {x y : Indexer} {calm : Prop}

-- ---------------------------------------------------------------------------
-- What is reported along the route
-- ---------------------------------------------------------------------------

/-- The additions among the news are the directories that were not known. -/
theorem additions_news (dirs : List Text) :
    additions (dirs.flatMap (news ctx x)) = dirs.filter fun dir => decide (dir ∉ x.dirs) := by
  have hDir : ∀ dir, additions (news ctx x dir) = if dir ∈ x.dirs then [] else [dir] := by
    intro dir
    unfold additions news
    rw [List.filterMap_append, List.filterMap_map]
    split <;> simp
  have hDirs : additions (dirs.flatMap (news ctx x)) =
      dirs.flatMap fun dir => additions (news ctx x dir) := List.filterMap_flatMap
  simp only [hDirs, hDir]
  clear hDirs
  induction dirs with
  | nil => rfl
  | cons dir dirs ih =>
    rw [List.flatMap_cons, ih]
    by_cases hKnown : dir ∈ x.dirs <;> simp [hKnown]

/-- The removals among the news are the directories that are gone. -/
theorem removals_news (dirs : List Text) :
    removals (dirs.flatMap (news ctx x)) = dirs.flatMap (x.gone ctx) := by
  have hDir : ∀ dir, removals (news ctx x dir) = x.gone ctx dir := by
    intro dir
    unfold removals news
    rw [List.filterMap_append, List.filterMap_map]
    split <;> simp
  have hDirs : removals (dirs.flatMap (news ctx x)) =
      dirs.flatMap fun dir => removals (news ctx x dir) := List.filterMap_flatMap
  simp only [hDirs, hDir]

/-- A directory that is absent and not known is passed over. -/
theorem absent_step_of_unknown {dir : Text} (h : dir ∉ x.dirs) :
    Step.run ctx (.absent dir) x = ⟨x, [], .ok ()⟩ := by
  have hRemove := @remove_of_unknown ctx x dir h
  have hOk : (remove ctx dir x).result = .ok false := by rw [hRemove]
  refine (Action.bind_of_ok hOk).trans ?_
  rw [hRemove]
  rfl

theorem nodup_gone (hx : x.dirs.Nodup) (dir : Text) : (x.gone ctx dir).Nodup :=
  (perm_sorted _).nodup_iff.mpr (hx.filter _)

section Scan

variable (hfs : ctx.files.WellNamed) (hRoot : Path.normalize root = b.path [])

include hfs hRoot

/-- What is gone from somewhere on the route is what was known and is not on the route, while its
parent is. -/
theorem mem_flatMap_gone (hx : Tidy ctx b x) {d : Text} :
    d ∈ (route ctx root).flatMap (x.gone ctx) ↔
      d ∈ x.dirs ∧ d ∉ route ctx root ∧ Path.parent d ∈ route ctx root := by
  rw [List.mem_flatMap]
  constructor
  · rintro ⟨dir, hDir, hd⟩
    obtain ⟨ns, rfl⟩ := exists_names_of_mem_route hfs hRoot hDir
    obtain ⟨hKnown, hParent, -, hNot⟩ := mem_gone.mp hd
    obtain ⟨n, rfl⟩ := hx.orderly.of_mem_gone hd
    exact ⟨hKnown, fun hRoute => hNot ((mem_route_snoc hfs hRoot).mp hRoute).2, hParent ▸ hDir⟩
  · rintro ⟨hKnown, hNot, hParent⟩
    refine ⟨Path.parent d, hParent, mem_gone.mpr ⟨hKnown, rfl, fun hEq => hNot (hEq ▸ hParent), ?_⟩⟩
    exact fun hSubdir => hNot (route_closed hfs hRoot hParent hSubdir)

/-- No directory is gone from two places. -/
theorem nodup_flatMap_gone (hx : x.dirs.Nodup) :
    ((route ctx root).flatMap (x.gone ctx)).Nodup := by
  rw [List.nodup_flatMap]
  refine ⟨fun dir _ => nodup_gone hx dir, (nodup_route hfs hRoot).imp ?_⟩
  intro dir dir' hOther d hd hd'
  exact hOther ((mem_gone.mp hd).2.1.symm.trans (mem_gone.mp hd').2.1)

-- ---------------------------------------------------------------------------
-- The difference
-- ---------------------------------------------------------------------------

/-- **With the root**, what is new is on the route and what has vanished is not. -/
theorem Difference.of_run (hx : Tidy ctx b x) (hSettled : Settled b x)
    (hThere : ctx.files.list (b.path []) ≠ .error .missing)
    (hOk : (run ctx (route ctx root) x).result = .ok ()) :
    Difference root x (run ctx (route ctx root) x).state (run ctx (route ctx root) x).events ∧
      (additions (run ctx (route ctx root) x).events).Sublist (route ctx root) := by
  have hList : ∀ dir ∈ route ctx root, ∃ names, ctx.files.list dir = .ok names :=
    fun dir hDir => list_of_run_ok hfs hRoot hThere (fun _ h => h) hOk hDir
  have hDirs : ∀ q, q ∈ (run ctx (route ctx root) x).state.dirs ↔ q ∈ route ctx root := by
    intro q
    rw [(current_of_run hfs hRoot hx hSettled hOk).mem_dirs, mem_closed]
    exact and_iff_left_of_imp (hList q)
  have hTold := Told.run hfs hRoot hx.orderly (List.append_nil _).symm hList hOk
  rw [hTold.events_eq, additions_news]
  refine ⟨⟨?_, ?_, ?_, ?_⟩, List.filter_sublist⟩
  · rw [additions_news]
    exact (nodup_route hfs hRoot).filter _
  · intro d
    rw [additions_news, List.mem_filter, hDirs, decide_eq_true_eq]
  · rw [removals_news]
    exact nodup_flatMap_gone hfs hRoot hx.distinct
  · intro d
    rw [removals_news, mem_flatMap_gone hfs hRoot hx, hDirs, hDirs]
    constructor
    · exact fun ⟨hKnown, hNot, hParent⟩ => ⟨hKnown, hNot, Or.inl hParent⟩
    · rintro ⟨hKnown, hNot, hParent | rfl⟩
      · exact ⟨hKnown, hNot, hParent⟩
      · exact absurd (hRoot ▸ root_mem_route hRoot) hNot

omit hfs in
/-- **Without the root**, all that was known has vanished and the root is uppermost. -/
theorem Difference.of_missing (hx : Tidy ctx b x) (hSettled : Settled b x)
    (hMissing : ctx.files.list (b.path []) = .error .missing)
    (hOk : (run ctx (route ctx root) x).result = .ok ()) :
    Difference root x (run ctx (route ctx root) x).state (run ctx (route ctx root) x).events ∧
      additions (run ctx (route ctx root) x).events = [] := by
  by_cases hKnown : b.path [] ∈ x.dirs
  · have hDirs := (run_of_missing_known hRoot hx hMissing hKnown hOk).2
    -- the known root takes all directories along, and is reported alone
    have hEvents : (run ctx (route ctx root) x).events = [.removed (b.path [])] := by
      have hAll : run ctx (route ctx root) = removeAll ctx [b.path []] := by
        rw [run_of_missing hRoot hMissing, removeAll, Action.forEach_singleton]
      rw [hAll] at hOk ⊢
      exact events_removeAll (List.forall_mem_singleton.mpr hKnown) (List.pairwise_singleton _ _) hOk
    rw [hEvents]
    refine ⟨⟨List.nodup_nil, ?_, List.nodup_singleton _, ?_⟩, rfl⟩
    · intro d
      rw [hDirs]
      exact iff_of_false List.not_mem_nil fun h => List.not_mem_nil h.1
    · intro d
      rw [hDirs, hRoot]
      show d ∈ [b.path []] ↔ _
      rw [List.mem_singleton]
      constructor
      · rintro rfl
        exact ⟨hKnown, List.not_mem_nil, Or.inr rfl⟩
      · rintro ⟨-, -, hParent | hEq⟩
        · exact absurd hParent List.not_mem_nil
        · exact hEq
  · -- an index that does not know the root knows nothing
    have hNone : ∀ d, d ∉ x.dirs := fun d hd => hKnown (hSettled.root_mem hx hd)
    rw [run_of_missing hRoot hMissing, absent_step_of_unknown hKnown]
    refine ⟨⟨List.nodup_nil, ?_, List.nodup_nil, ?_⟩, rfl⟩
    · exact fun d => iff_of_false List.not_mem_nil fun h => hNone d h.1
    · exact fun d => iff_of_false List.not_mem_nil fun h => hNone d h.1

-- ---------------------------------------------------------------------------
-- What has not changed
-- ---------------------------------------------------------------------------

omit hfs hRoot in
/-- Each of the selected files defines no class that another one of them has. -/
theorem Current.apartFrom (hx : Current ctx b root calm x) {files : List Text}
    (hPerm : files.Perm (selected ctx root)) :
    ∀ p ∈ selected ctx root, ApartFrom ctx (files.map (entry ctx)) p := by
  intro p hp file hFile hOther name hName hMine
  obtain ⟨q, hq, rfl⟩ := List.mem_map.mp hFile
  exact hOther (hx.registry.apart q (hPerm.mem_iff.mp hq) p hp name hName hMine)

/-- **A scan of what has not changed** returns, reports nothing and leaves the known directories as
they are. -/
theorem Current.run_again (hx : Current ctx b root calm x)
    (hList : ctx.files.list (b.path []) ≠ .error .missing →
      ∀ dir ∈ route ctx root, ∃ names, ctx.files.list dir = .ok names)
    (hSeen : ∀ dir ∈ route ctx root, Visible ctx dir) :
    (run ctx (route ctx root) x).result = .ok () ∧ (run ctx (route ctx root) x).events = [] ∧
      (run ctx (route ctx root) x).state.dirs = x.dirs := by
  by_cases hMissing : ctx.files.list (b.path []) = .error .missing
  · have hUnknown : b.path [] ∉ x.dirs := by
      rw [hx.mem_dirs, mem_closed, hMissing]
      exact fun h => nomatch h.2
    rw [run_of_missing hRoot hMissing, absent_step_of_unknown hUnknown]
    exact ⟨rfl, rfl, rfl⟩
  have hList := hList hMissing
  have hKnown : ∀ dir, dir ∈ x.dirs ↔ dir ∈ route ctx root := by
    intro dir
    rw [hx.mem_dirs, mem_closed]
    exact and_iff_left_of_imp (hList dir)
  -- an index that is current knows just what is on the route, so nothing is gone
  have hGone : ∀ dir ∈ route ctx root, x.gone ctx dir = [] :=
    fun dir hDir => gone_eq_nil hfs hRoot hDir fun d hd => (hKnown d).mp hd
  obtain ⟨files, hPerm, hs⟩ := hx.exists_files
  have hOk : (run ctx (route ctx root) x).result = .ok () := by
    refine run_eq_ok hfs hRoot hs (List.append_nil _).symm hList hSeen hx.registry.readable
      hx.registry.apart (hx.apartFrom hPerm) fun dir hDir d hd => ?_
    rw [hGone dir hDir] at hd
    exact absurd hd List.not_mem_nil
  have hTold := Told.run hfs hRoot hx.tidy.orderly (List.append_nil _).symm hList hOk
  refine ⟨hOk, ?_, ?_⟩
  · rw [hTold.events_eq, List.flatMap_eq_nil_iff]
    intro dir hDir
    unfold news
    rw [hGone dir hDir, if_pos ((hKnown dir).mpr hDir)]
    rfl
  · -- nothing is gone and nothing is new, which leaves the directories as they are
    have hOld : (x.dirs.filter fun q => (route ctx root).all fun e =>
        (x.gone ctx e).all fun d => !Path.isUnder q d) = x.dirs := by
      rw [List.filter_eq_self]
      intro q _
      rw [List.all_eq_true]
      intro e he
      rw [hGone e he]
      rfl
    have hNew : ((route ctx root).filter fun dir => decide (dir ∉ x.dirs)) = [] := by
      rw [List.filter_eq_nil_iff]
      intro dir hDir
      simpa using (hKnown dir).mpr hDir
    rw [hTold.dirs_eq, hOld, hNew, List.append_nil]

end Scan

-- ---------------------------------------------------------------------------
-- Histories
-- ---------------------------------------------------------------------------

/-- **What a rescan reports.** After a history of returned scans of a root, each on a file system of
its own, if one more scan returns, its events are the difference between the directories known
before and after it, and the new ones come level by level. If the same file system is scanned once
more, the scan returns, reports nothing, and leaves the known directories as they are and the same
files and classes. -/
theorem rescan_events {fs : FileSystem} (hx : Returned ctx root x) (hfs : fs.WellNamed)
    (hOk : (scan (ctx.on fs) root x).result = .ok ()) (hy : (scan (ctx.on fs) root x).state = y) :
    Difference root x y (scan (ctx.on fs) root x).events ∧
    (additions (scan (ctx.on fs) root x).events).Sublist (breadthFirst (ctx.on fs) root) ∧
    (scan (ctx.on fs) root y).result = .ok () ∧
    (scan (ctx.on fs) root y).events = [] ∧
    (scan (ctx.on fs) root y).state.dirs = y.dirs ∧
    (scan (ctx.on fs) root y).state.registry.sources.Perm y.registry.sources ∧
    (scan (ctx.on fs) root y).state.registry.classes.Perm y.registry.classes := by
  have hAbsolute := isAbsolute_of_scan_ok hOk
  obtain ⟨b, hRoot⟩ := Path.exists_base hAbsolute
  have hTidy : Tidy (ctx.on fs) b x := tidy_on.mpr (hx.attempted.tidy hRoot)
  have hSettled := hx.settled hRoot
  have hfs' : (ctx.on fs).files.WellNamed := hfs
  subst hy
  simp only [scan_eq_run hfs' hRoot hAbsolute] at hOk ⊢
  -- the scan leaves an index that is current, and scanning that again changes nothing
  have hCurrent := current_of_run hfs' hRoot hTidy hSettled hOk
  have hList : (ctx.on fs).files.list (b.path []) ≠ .error .missing →
      ∀ dir ∈ route (ctx.on fs) root, ∃ names, (ctx.on fs).files.list dir = .ok names :=
    fun hThere _ hDir => list_of_run_ok hfs' hRoot hThere (fun _ h => h) hOk hDir
  obtain ⟨hAgain, hSilent, hDirs⟩ := hCurrent.run_again hfs' hRoot hList
    fun dir => visible_of_run_ok hOk
  have hCurrent' := current_of_run hfs' hRoot hCurrent.tidy (hCurrent.settled hfs' hRoot) hAgain
  obtain ⟨hSources, hClasses, -⟩ := hCurrent'.registry.perm hCurrent.registry
  rw [← route_eq_breadthFirst hfs']
  by_cases hMissing : (ctx.on fs).files.list (b.path []) = .error .missing
  · obtain ⟨hDifference, hNone⟩ := Difference.of_missing hRoot hTidy hSettled hMissing hOk
    rw [hNone]
    exact ⟨hDifference, List.nil_sublist _, hAgain, hSilent, hDirs, hSources, hClasses⟩
  · obtain ⟨hDifference, hOrder⟩ := Difference.of_run hfs' hRoot hTidy hSettled hMissing hOk
    exact ⟨hDifference, hOrder, hAgain, hSilent, hDirs, hSources, hClasses⟩

/-- A source file two levels deep. -/
def burrow (outer inner : Text) : FileSystem :=
  folder [(outer, .directory [(inner, .directory [("a.js", definition "A")])])]

/-- The directories around a file have new names: the old outer one is reported, the old inner one
is not, and both new ones are. -/
theorem rescan_events_of_burrow :
    (scan (usual.on (burrow "s" "t")) "/r" {}).state.dirs =
        ["/r", "/r/s", "/r/s/t"].map String.toList ∧
      (scan (usual.on (burrow "u" "s")) "/r"
        (scan (usual.on (burrow "s" "t")) "/r" {}).state).events =
          [.removed "/r/s", .added "/r/u", .added "/r/u/s"] ∧
      Difference "/r" (scan (usual.on (burrow "s" "t")) "/r" {}).state
        (scan (usual.on (burrow "u" "s")) "/r"
          (scan (usual.on (burrow "s" "t")) "/r" {}).state).state
        [.removed "/r/s", .added "/r/u", .added "/r/u/s"] ∧
      (scan (usual.on (burrow "u" "s")) "/r"
        (scan (usual.on (burrow "u" "s")) "/r"
          (scan (usual.on (burrow "s" "t")) "/r" {}).state).state).events = [] := by
  obtain ⟨hBefore, hDirs, hAfter, hEvents⟩ :
      (scan (usual.on (burrow "s" "t")) "/r" {}).result = .ok () ∧
        (scan (usual.on (burrow "s" "t")) "/r" {}).state.dirs =
          ["/r", "/r/s", "/r/s/t"].map String.toList ∧
        (scan (usual.on (burrow "u" "s")) "/r"
          (scan (usual.on (burrow "s" "t")) "/r" {}).state).result = .ok () ∧
        (scan (usual.on (burrow "u" "s")) "/r"
          (scan (usual.on (burrow "s" "t")) "/r" {}).state).events =
            [.removed "/r/s", .added "/r/u", .added "/r/u/s"] := by
    decide +kernel
  have hHistory := Returned.scan .start (by decide) hBefore
  obtain ⟨hDifference, -, -, hSilent, -⟩ := rescan_events hHistory (by decide) hAfter rfl
  exact ⟨hDirs, hEvents, hEvents ▸ hDifference, hSilent⟩

end Indexer

end ClassTags
