import ClassTags.Proofs.Rescan

/-!
# Duplicate classes

A scan that checks a file fails when another file holds one of its classes. That other file may have
been checked in the same scan, and then two files define the class now. But it may also be an old
one that the scan has not come to yet: a file is dropped only when its directory is closed, after
all files of the directory have been checked. So a class that moves from one file to another can
make a scan fail, though only one file defines it.

Main results:

* `Renewed.check_again_ne_duplicate` — what is checked again on the way never fails so;
* `Indexer.mem_owned_iff_holds` — which file holds a class when a scan comes to check a file;
* `Indexer.scan_eq_duplicate_iff` — when a scan fails because of a duplicate class.
-/

namespace ClassTags

namespace Holdings

-- ---------------------------------------------------------------------------
-- One check
-- ---------------------------------------------------------------------------

/-- The other files hold a class if it is one of what is left without the file. -/
theorem mem_names_classes_remove {h : Holdings} (hs : Sound h) {path name : Text} :
    name ∈ Table.names (classes (h.remove path)) ↔
      ∃ holder, holder ≠ path ∧ name ∈ (registry h).owned holder := by
  rw [mem_names_classes]
  constructor
  · rintro ⟨holder, t, hFile, hName⟩
    obtain ⟨hFile, hOther⟩ := List.mem_filter.mp hFile
    refine ⟨holder, by simpa using hOther, ?_⟩
    exact (mem_owned_registry hs.distinctPaths).mpr ⟨t, hFile, hName⟩
  · rintro ⟨holder, hOther, hOwned⟩
    obtain ⟨t, hFile, hName⟩ := (mem_owned_registry hs.distinctPaths).mp hOwned
    exact ⟨holder, t, List.mem_filter.mpr ⟨hFile, by simpa using hOther⟩, hName⟩

/-- Two lists that are split at the first element with a property are split at the same place. -/
theorem first_unique {α : Type} {P : α → Prop} {before before' after after' : List α} {a a' : α}
    (hEq : before ++ a :: after = before' ++ a' :: after') (hBefore : ∀ d ∈ before, ¬ P d)
    (hBefore' : ∀ d ∈ before', ¬ P d) (ha : P a) (ha' : P a') : a = a' := by
  rcases List.append_eq_append_iff.mp hEq with ⟨mid, rfl, hMid⟩ | ⟨mid, rfl, hMid⟩
  · cases mid with
    | nil => exact (List.cons.inj hMid).1
    | cons m mid =>
      rw [(List.cons.inj hMid).1] at ha
      exact absurd ha (hBefore' m (List.mem_append_right _ List.mem_cons_self))
  · cases mid with
    | nil => exact (List.cons.inj hMid).1.symm
    | cons m mid =>
      rw [(List.cons.inj hMid).1] at ha'
      exact absurd ha' (hBefore m (List.mem_append_right _ List.mem_cons_self))

/-- **When checking a file fails because of a duplicate class.** The failure names the first class
that the file defines and another file owns. -/
theorem check_eq_duplicate_iff {defineCalls : List Text} {fs : FileSystem} {path : Text}
    {h : Holdings} (hs : Sound h) (hPath : Registry.accepts path = true)
    {name holder claimant : Text} :
    (Registry.check defineCalls fs path (registry h)).result =
        .error (.duplicate name holder claimant) ↔
      claimant = path ∧ holder ≠ path ∧ name ∈ (registry h).owned holder ∧
        ∃ before c after,
          Registry.fileClasses defineCalls fs path = .ok (some (before ++ c :: after)) ∧
          c.name = name ∧ ∀ d ∈ before, ∀ q, q ≠ path → d.name ∉ (registry h).owned q := by
  obtain ⟨h', -, -, hEnd⟩ := @check_cases defineCalls fs path h hs hPath
  have hFreeIff : ∀ d : ClassRecord, d.name ∉ Table.names (classes (h.remove path)) ↔
      ∀ q, q ≠ path → d.name ∉ (registry h).owned q := by
    intro d
    rw [mem_names_classes_remove hs]
    simp only [not_exists, not_and]
  constructor
  · -- of the ends of a check, only a clash gives such a failure
    intro hResult
    rw [hResult] at hEnd
    generalize hFile : Registry.fileClasses defineCalls fs path = found at hEnd ⊢
    cases hEnd with
    | unread => exact absurd hFile (Registry.fileClasses_ne_duplicate _ _ _ _ _ _)
    | clash before c after _ u hFree hHolder hName =>
      obtain ⟨hMem, hOther⟩ := List.mem_filter.mp hHolder
      refine ⟨rfl, by simpa using hOther, ?_, before, c, after, rfl, rfl, ?_⟩
      · exact (mem_owned_registry hs.distinctPaths).mpr ⟨u, hMem, hName⟩
      · exact fun d hd => (hFreeIff d).mp (hFree d hd)
  · rintro ⟨rfl, hOther, hOwned, before, c, after, hFile, rfl, hFree⟩
    have hTaken : c.name ∈ Table.names (classes (h.remove claimant)) :=
      (mem_names_classes_remove hs).mpr ⟨holder, hOther, hOwned⟩
    rw [hFile] at hEnd
    generalize (Registry.check defineCalls fs claimant (registry h)).result = result at hEnd ⊢
    generalize hcs : before ++ c :: after = cs at hEnd
    cases hEnd with
    | indexed _ hAllFree =>
      -- the class of another file is among those that are claimed
      exact absurd hTaken (hAllFree c (hcs ▸ List.mem_append_right _ List.mem_cons_self))
    | clash before' c' after' holder' u hFree' hHolder hName =>
      -- both splits are at the first class that is taken, and one file has it
      have hTaken' : c'.name ∈ Table.names (classes (h.remove claimant)) :=
        mem_names_classes.mpr ⟨holder', u, hHolder, hName⟩
      have hSame : c = c' := by
        refine first_unique (P := fun d => d.name ∈ Table.names (classes (h.remove claimant))) hcs
          (fun d hd => (hFreeIff d).mpr (hFree d hd)) hFree' hTaken hTaken'
      obtain ⟨t, hMem, hName'⟩ := (mem_owned_registry hs.distinctPaths).mp hOwned
      rw [hSame] at hName' ⊢
      rw [hs.path_unique hMem (List.mem_of_mem_filter hHolder) hName' hName]

end Holdings

namespace Indexer

variable {ctx : IndexContext} {b : Path.Base} {old : Holdings} {start x : Indexer} {root : Text}

-- ---------------------------------------------------------------------------
-- Files that are checked again
-- ---------------------------------------------------------------------------

namespace Renewed

variable {keep : Text → Prop} {files : List Text} {calm : Prop} {r : Registry}

/-- A file that is checked again never claims a class of another file. -/
theorem check_again_ne_duplicate (hr : Renewed ctx old keep files calm r) {p : Text}
    (hPath : Registry.accepts p = true) (hStale : p ∉ files → ¬ Readable ctx p)
    (name holder claimant : Text) :
    (Registry.check ctx.defineCalls ctx.files p r).result ≠
      .error (.duplicate name holder claimant) := by
  obtain ⟨rest, done, hl, rfl⟩ := hr
  intro hResult
  obtain ⟨-, hOther, hOwned, before, c, after, hFile, rfl, -⟩ :=
    (Holdings.check_eq_duplicate_iff hl.sound hPath).mp hResult
  have hFiles : p ∈ files := by
    by_contra hOld
    exact hStale hOld ⟨_, hFile⟩
  -- the file has its classes already, so no other file has them
  have hEntry : (p, Holdings.gather [] (before ++ c :: after)) ∈ rest ++ done.map (entry ctx) := by
    rw [← defined_of_readable hFile]
    exact List.mem_append_right _ (List.mem_map_of_mem (hl.done_perm.mem_iff.mpr hFiles))
  have hOwn : c.name ∈ Table.names (Holdings.gather [] (before ++ c :: after)) :=
    Holdings.mem_names_gather.mpr (Or.inr ⟨c, List.mem_append_right _ List.mem_cons_self, rfl⟩)
  obtain ⟨t, hMem, hName⟩ := (Holdings.mem_owned_registry hl.sound.distinctPaths).mp hOwned
  exact hOther (hl.sound.path_unique hMem hEntry hName hOwn)

/-- Files that cannot be read any more are not new when they have been checked again. -/
theorem checks_again_of_stale {ps : List Text} (hr : Renewed ctx old keep files calm x.registry)
    (hPaths : ∀ p ∈ ps, Registry.accepts p = true) (hDistinct : ps.Nodup)
    (hStale : ∀ p ∈ ps, p ∉ files → ¬ Readable ctx p)
    (hOk : (Indexer.checks ctx ps x).result = .ok ()) :
    Renewed ctx old (fun q => keep q ∧ q ∉ ps) files False
      (Indexer.checks ctx ps x).state.registry := by
  obtain ⟨extra, hExtra, hRegistry⟩ := hr.uncalm.checks_again hPaths hDistinct False.elim hOk
  have hNone : extra = [] := by
    rw [List.eq_nil_iff_forall_not_mem]
    intro q hq
    obtain ⟨hMem, hNew, hRead⟩ := hExtra q hq
    exact hStale q hMem hNew hRead
  rwa [hNone, List.append_nil] at hRegistry

/-- Files that are checked again meet no class of another file, since theirs are the classes they
had or they cannot be read. -/
theorem checks_again_ne_duplicate {ps : List Text}
    (hr : Renewed ctx old keep files calm x.registry)
    (hPaths : ∀ p ∈ ps, Registry.accepts p = true) (hDistinct : ps.Nodup)
    (hStale : ∀ p ∈ ps, p ∉ files → ¬ Readable ctx p) (name holder claimant : Text) :
    (Indexer.checks ctx ps x).result ≠ .error (.duplicate name holder claimant) := by
  intro hError
  obtain ⟨before, p, after, rfl, hBefore, hAt⟩ := Action.forEach_eq_error.mp hError
  have hRenewed := hr.checks_again_of_stale
    (fun q hq => hPaths q (List.mem_append_left _ hq)) (List.nodup_append.mp hDistinct).1
    (fun q hq => hStale q (List.mem_append_left _ hq)) hBefore
  exact hRenewed.check_again_ne_duplicate
    (hPaths p (List.mem_append_right _ List.mem_cons_self))
    (hStale p (List.mem_append_right _ List.mem_cons_self)) name holder claimant
    (check_step_eq_error.mp hAt)

/-- So a removal meets none. -/
theorem remove_ne_duplicate {dir : Text} (hr : Renewed ctx old keep files calm x.registry)
    (hPaths : ∀ p ∈ x.registry.paths, Registry.accepts p = true)
    (hStale : ∀ p ∈ Table.names old, keep p → Path.isUnder p dir = true → ¬ Readable ctx p)
    (name holder claimant : Text) :
    (Step.run ctx (.absent dir) x).result ≠ .error (.duplicate name holder claimant) := by
  intro hError
  have hRemove : (Indexer.remove ctx dir x).result = .error (.duplicate name holder claimant) := by
    rcases Action.result_bind_eq_error.mp hError with h | ⟨v, -, h⟩
    · exact h
    · exact nomatch h
  have hBelow : ∀ p ∈ x.below dir, p ∉ files → ¬ Readable ctx p := by
    intro p hp hNew
    obtain ⟨hTracked, hUnder⟩ := List.mem_filter.mp hp
    obtain ⟨hOld, hKeep⟩ := (hr.mem_paths.mp hTracked).resolve_right hNew
    exact hStale p hOld hKeep hUnder
  by_cases hKnown : dir ∈ x.dirs
  · rw [remove_of_known hKnown] at hRemove
    rcases Action.result_bind_eq_error.mp hRemove with h | ⟨u, -, h⟩
    · have hr' : Renewed ctx old keep files calm (x.forget dir).registry := hr
      exact hr'.checks_again_ne_duplicate
        (fun p hp => hPaths p (List.mem_of_mem_filter hp)) (hr.nodup_paths.filter _) hBelow
        name holder claimant h
    · exact nomatch h
  · rw [remove_of_unknown hKnown] at hRemove
    exact nomatch hRemove

/-- Closing a directory never fails because of a class of another file, if nothing old below what is
gone from it can be read. -/
theorem close_ne_duplicate {dir : Text} (hr : Renewed ctx old keep files calm x.registry)
    (hApart : (x.gone ctx dir).Pairwise Path.Apart)
    (hPaths : ∀ p ∈ x.registry.paths, Registry.accepts p = true)
    (hStale : ∀ d ∈ x.gone ctx dir, ∀ p ∈ Table.names old, keep p → Path.isUnder p d = true →
      ¬ Readable ctx p)
    (name holder claimant : Text) :
    (Step.run ctx (.close dir) x).result ≠ .error (.duplicate name holder claimant) := by
  rw [close_step_result]
  intro hError
  obtain ⟨before, d, after, hSplit, hBefore, hAt⟩ := Action.forEach_eq_error.mp hError
  have hMem : ∀ e ∈ before, e ∈ x.gone ctx dir := fun e he => hSplit ▸ List.mem_append_left _ he
  have hHere : d ∈ x.gone ctx dir := hSplit ▸ List.mem_append_right _ List.mem_cons_self
  rw [hSplit, List.pairwise_append] at hApart
  obtain ⟨extra, hExtra, hRenewed⟩ := hr.uncalm.removes
    (fun e he => (mem_gone.mp (hMem e he)).1) hApart.1 hPaths
    (fun e he p hp hKeep _ hUnder hRead => absurd hRead (hStale e (hMem e he) p hp hKeep hUnder))
    False.elim hBefore
  have hNone : extra = [] := by
    rw [List.eq_nil_iff_forall_not_mem]
    intro q hq
    obtain ⟨hGone, hOld, hKeep, -, hRead⟩ := hExtra q hq
    exact hStale q (hMem q hGone) q hOld hKeep (Path.isUnder_self q) hRead
  rw [hNone, List.append_nil] at hRenewed
  refine hRenewed.remove_ne_duplicate (fun p hp => ?_)
    (fun p hp hKeep => hStale d hHere p hp hKeep.1) name holder claimant hAt
  apply hPaths p
  rw [hr.mem_paths]
  exact (hRenewed.mem_paths.mp hp).imp_left fun h => ⟨h.1, h.2.1⟩

end Renewed

-- ---------------------------------------------------------------------------
-- When a file is checked
-- ---------------------------------------------------------------------------

/-- The part of a scan that closes some directories and then goes through some names of another. -/
def upTo (ctx : IndexContext) (front : List Text) (dir : Text) (before : List Text) :
    Action Indexer IndexFailure Unit := do
  run ctx front
  Action.forEach (Step.run ctx) (before.flatMap (entrySteps ctx dir))

/-- A scan of an index comes to check a file, when it has closed some directories and checked some
files. -/
def Reaches (ctx : IndexContext) (root : Text) (start : Indexer) (path : Text)
    (front checked : List Text) : Prop :=
  ∃ dir back before n after,
    route ctx root = front ++ dir :: back ∧ listed ctx dir = before ++ n :: after ∧
    source? ctx dir n = some path ∧
    checked = front.flatMap (sources ctx) ++ before.filterMap (source? ctx dir) ∧
    (upTo ctx front dir before start).result = .ok ()

/-- What a scan has checked when it comes to check a file is what it checks before it. -/
theorem Reaches.exists_selected_eq {path : Text} {front checked : List Text}
    (h : Reaches ctx root start path front checked) :
    ∃ rest, selected ctx root = checked ++ path :: rest := by
  obtain ⟨dir, back, before, n, after, hSplit, hListed, hSource, rfl, -⟩ := h
  have hDir : sources ctx dir = before.filterMap (source? ctx dir) ++
      path :: after.filterMap (source? ctx dir) := by
    unfold sources
    rw [hListed, List.filterMap_append, List.filterMap_cons_some hSource]
  refine ⟨after.filterMap (source? ctx dir) ++ back.flatMap (sources ctx), ?_⟩
  unfold selected
  rw [hSplit, List.flatMap_append, List.flatMap_cons, hDir]
  simp

/-- Which file holds a class, when a scan of an index has closed some directories and checked some
files. -/
inductive Holds (ctx : IndexContext) (start : Indexer) (front checked : List Text)
    (q name : Text) : Prop
  /-- The file has been checked, and it defines the class now. -/
  | now (hChecked : q ∈ checked) (hName : name ∈ Table.names (defined ctx q))
  /-- The file held the class when the scan began. It has not been checked, its directory has not
  been closed, and no directory above it has been found to be gone. -/
  | still (hName : name ∈ start.registry.owned q) (hUnchecked : q ∉ checked)
      (hOpen : Path.parent q ∉ front) (hSpared : Spared ctx start front q)

/-- What a file holds in a registry that is part old and part new. -/
theorem Renewed.mem_owned_iff {keep : Text → Prop} {files : List Text} {calm : Prop} {r : Registry}
    (hs : Start ctx b old start) (hr : Renewed ctx old keep files calm r) {q name : Text} :
    name ∈ r.owned q ↔
      (q ∈ files ∧ name ∈ Table.names (defined ctx q)) ∨
        (name ∈ start.registry.owned q ∧ keep q) := by
  obtain ⟨rest, done, hl, rfl⟩ := hr
  rw [Holdings.mem_owned_registry hl.sound.distinctPaths, hs.registry_eq,
    Holdings.mem_owned_registry hs.sound.distinctPaths]
  constructor
  · rintro ⟨t, hFile, hName⟩
    rcases List.mem_append.mp hFile with hFile | hFile
    · have hOld := hl.rest_sublist.subset hFile
      exact Or.inr ⟨⟨t, hOld, hName⟩, (hl.mem_rest _ hOld).mp hFile⟩
    · obtain ⟨p, hp, hEq⟩ := List.mem_map.mp hFile
      obtain ⟨rfl, rfl⟩ := Prod.mk.inj hEq
      exact Or.inl ⟨hl.done_perm.mem_iff.mp hp, hName⟩
  · rintro (⟨hFile, hName⟩ | ⟨⟨t, hFile, hName⟩, hKeep⟩)
    · exact ⟨_, List.mem_append_right _ (List.mem_map_of_mem (hl.done_perm.mem_iff.mpr hFile)), hName⟩
    · exact ⟨t, List.mem_append_left _ ((hl.mem_rest _ hFile).mpr hKeep), hName⟩

/-- An entry that is a source file is among those that are checked. -/
theorem mem_sources_of_listed {before after : List Text} {dir n p : Text}
    (hListed : listed ctx dir = before ++ n :: after) (hSource : source? ctx dir n = some p) :
    p ∈ sources ctx dir := by
  refine List.mem_filterMap.mpr ⟨n, ?_, hSource⟩
  rw [hListed]
  exact List.mem_append_right _ List.mem_cons_self

section Along

variable (hfs : ctx.files.WellNamed) (hRoot : Path.normalize root = b.path [])

include hfs hRoot

/-- What a scan has made of an index when it comes to check a file. -/
theorem upTo_renewed (hs : Start ctx b old start) {front back before after : List Text}
    {dir n : Text} (hSplit : route ctx root = front ++ dir :: back)
    (hListed : listed ctx dir = before ++ n :: after)
    (hOk : (upTo ctx front dir before start).result = .ok ()) :
    Renewed ctx old
      (fun q => (Path.parent q ∉ front ∧ Spared ctx start front q) ∧
        q ∉ before.filterMap (source? ctx dir))
      (front.flatMap (sources ctx) ++ before.filterMap (source? ctx dir)) (Calm ctx start)
      (upTo ctx front dir before start).state.registry := by
  have hThere : ctx.files.list (b.path []) ≠ .error .missing := by
    intro hMissing
    -- a scan whose root is missing goes through no names
    rw [route_of_error hRoot hMissing] at hSplit
    have hDir : dir ∈ [b.path []] := hSplit ▸ List.mem_append_right _ List.mem_cons_self
    rw [List.mem_singleton.mp hDir, listed_of_error hMissing] at hListed
    exact List.append_ne_nil_of_right_ne_nil _ (List.cons_ne_nil n after) hListed.symm
  obtain ⟨⟨⟩, hFront, hEntries⟩ := Action.result_bind_eq_ok.mp hOk
  have hPassage := Passage.run hfs hRoot hs hSplit
    (fun e he => list_of_run_ok hfs hRoot hThere
      (fun e he => hSplit ▸ List.mem_append_left _ he) hFront he) hFront
  unfold upTo
  rw [Action.state_bind_of_ok hFront]
  exact (hPassage.entries hfs hRoot hSplit hListed hEntries).1

/-- In the middle of a scan a file owns just the classes that it holds there. -/
theorem mem_owned_iff_holds (hs : Start ctx b old start) {front back before after : List Text}
    {dir n : Text} (hSplit : route ctx root = front ++ dir :: back)
    (hListed : listed ctx dir = before ++ n :: after)
    (hOk : (upTo ctx front dir before start).result = .ok ()) {q name : Text} :
    name ∈ (upTo ctx front dir before start).state.registry.owned q ↔
      Holds ctx start front
        (front.flatMap (sources ctx) ++ before.filterMap (source? ctx dir)) q name := by
  have hFront : ∀ e ∈ front, e ∈ route ctx root := fun e he => hSplit ▸ List.mem_append_left _ he
  rw [(upTo_renewed hfs hRoot hs hSplit hListed hOk).mem_owned_iff hs]
  constructor
  · rintro (⟨hChecked, hName⟩ | ⟨hName, ⟨hOpen, hSpared⟩, hNot⟩)
    · exact .now hChecked hName
    · refine .still hName (fun hChecked => ?_) hOpen hSpared
      rcases List.mem_append.mp hChecked with hMem | hMem
      · obtain ⟨ns, m, rfl, hDir, -⟩ := of_mem_flatMap_sources hfs hRoot hFront hMem
        rw [b.parent_path] at hOpen
        exact hOpen hDir
      · exact hNot hMem
  · rintro (⟨hChecked, hName⟩ | ⟨hName, hUnchecked, hOpen, hSpared⟩)
    · exact Or.inl ⟨hChecked, hName⟩
    · exact Or.inr ⟨hName, ⟨hOpen, hSpared⟩, fun h => hUnchecked (List.mem_append_right _ h)⟩

/-- When the check of a file that a scan has come to fails because of a duplicate class. -/
theorem check_upTo_eq_duplicate_iff (hs : Start ctx b old start)
    {front back before after : List Text} {dir n p : Text}
    (hSplit : route ctx root = front ++ dir :: back)
    (hListed : listed ctx dir = before ++ n :: after) (hSource : source? ctx dir n = some p)
    (hOk : (upTo ctx front dir before start).result = .ok ()) {name holder claimant : Text} :
    (Registry.check ctx.defineCalls ctx.files p
        (upTo ctx front dir before start).state.registry).result =
          .error (.duplicate name holder claimant) ↔
      claimant = p ∧ holder ≠ p ∧
        Holds ctx start front
          (front.flatMap (sources ctx) ++ before.filterMap (source? ctx dir)) holder name ∧
        ∃ fore c aft,
          Registry.fileClasses ctx.defineCalls ctx.files p = .ok (some (fore ++ c :: aft)) ∧
          c.name = name ∧ ∀ d ∈ fore, ∀ q, q ≠ p →
            ¬ Holds ctx start front
              (front.flatMap (sources ctx) ++ before.filterMap (source? ctx dir)) q d.name := by
  have hPath := (next_source hfs hRoot hSplit (mem_sources_of_listed hListed hSource)).1
  obtain ⟨rest, done, hl, hRegistry⟩ := upTo_renewed hfs hRoot hs hSplit hListed hOk
  simp only [← mem_owned_iff_holds hfs hRoot hs hSplit hListed hOk]
  rw [hRegistry]
  exact Holdings.check_eq_duplicate_iff hl.sound hPath

-- ---------------------------------------------------------------------------
-- The whole scan
-- ---------------------------------------------------------------------------

/-- The steps for a directory of the route fail because of a duplicate class only when a source file
of the directory is checked, as long as no known directory is a tracked file. -/
theorem steps_eq_duplicate (hs : Start ctx b old start)
    (hDisjoint : ∀ d ∈ start.dirs, d ∉ start.registry.paths) {front back : List Text} {dir : Text}
    (hSplit : route ctx root = front ++ dir :: back)
    (hFront : (run ctx front start).result = .ok ()) {name holder claimant : Text}
    (hError : (Action.forEach (Step.run ctx) (steps ctx dir) (run ctx front start).state).result =
      .error (.duplicate name holder claimant)) :
    (Action.forEach (Step.run ctx) ((listed ctx dir).flatMap (entrySteps ctx dir))
      (run ctx front start).state).result = .error (.duplicate name holder claimant) := by
  have hDir : dir ∈ route ctx root := hSplit ▸ List.mem_append_right front List.mem_cons_self
  have hMemFront : ∀ e ∈ front, e ∈ route ctx root := fun e he => hSplit ▸ List.mem_append_left _ he
  cases hList : ctx.files.list dir with
  | error f =>
    exfalso
    unfold steps at hError
    rw [hList] at hError
    cases f with
    | missing =>
      rw [Action.forEach_singleton] at hError
      obtain ⟨ns, rfl⟩ := exists_names_of_mem_route hfs hRoot hDir
      rcases List.eq_nil_or_concat ns with rfl | ⟨ms, m, rfl⟩
      · -- the scan begins and ends with a root that is missing
        rw [route_of_error hRoot hList] at hSplit
        obtain rfl : front = [] := by
          have hLength := congrArg List.length hSplit
          simp only [List.length_append, List.length_cons, List.length_nil] at hLength
          exact List.eq_nil_of_length_eq_zero (by omega)
        exact hs.passage.registry.remove_ne_duplicate
          (fun p hp => (hs.tidy.files p hp).accepts)
          (fun p hp _ _ => (hs.checkable hp).not_readable_of_missing hList) _ _ _ hError
      · rw [List.concat_eq_append] at *
        exact list_ne_missing_of_mem_route hfs hRoot hDir hList
    | _ => exact nomatch hError
  | ok names =>
    have hThere : ctx.files.list (b.path []) ≠ .error .missing := by
      intro hMissing
      rw [route_of_error hRoot hMissing, List.mem_singleton] at hDir
      rw [hDir, hMissing] at hList
      exact nomatch hList
    have hPassage := Passage.run hfs hRoot hs hSplit
      (fun e he => list_of_run_ok hfs hRoot hThere hMemFront hFront he) hFront
    generalize (run ctx front start).state = x at *
    rw [steps_of_list hList, Action.forEach_append, Action.forEach_singleton] at hError
    rcases Action.result_bind_eq_error.mp hError with hEntries | ⟨⟨⟩, hEntries, hClose⟩
    · exact hEntries
    · -- closing the directory checks again only what cannot clash
      exfalso
      have hTidy := tidy_entries hfs (searched_of_mem_route hfs hRoot hDir)
        (fun n (hn : n ∈ listed ctx dir) => hn) x hPassage.tidy
      obtain ⟨hRegistry, hDirs⟩ :=
        hPassage.entries hfs hRoot hSplit (List.append_nil _).symm hEntries
      generalize (Action.forEach (Step.run ctx)
        ((listed ctx dir).flatMap (entrySteps ctx dir)) x).state = y at *
      have hGone : ∀ d, d ∈ y.gone ctx dir → d ∉ start.registry.paths := fun d hd =>
        hDisjoint d (mem_gone.mp ((hPassage.mem_gone_iff hfs hRoot hs hSplit hDirs).mp hd)).1
      obtain ⟨ns, rfl⟩ := exists_names_of_mem_route hfs hRoot hDir
      refine hRegistry.close_ne_duplicate (hTidy.orderly.gone_apart ns)
        (fun p hMem => (hTidy.files p hMem).accepts) (fun d hd p hName _ hUnder hRead => ?_)
        _ _ _ hClose
      -- a tracked file does not stand in the place of a known directory
      apply hGone d hd
      rw [← hTidy.eq_of_readable_of_mem_gone hfs hList hd (hs.checkable hName) hUnder hRead,
        hs.registry_eq, Holdings.paths_registry]
      exact hName

omit hfs hRoot in
/-- The step for a name fails because of a duplicate class only if it checks a source file. -/
theorem entry_eq_duplicate {dir n : Text} {y : Indexer} {name holder claimant : Text}
    (h : (Action.forEach (Step.run ctx) (entrySteps ctx dir n) y).result =
      .error (.duplicate name holder claimant)) :
    ∃ p, source? ctx dir n = some p ∧
      (Registry.check ctx.defineCalls ctx.files p y.registry).result =
        .error (.duplicate name holder claimant) := by
  rcases entrySteps_cases ctx dir n with ⟨hSteps, -⟩ | ⟨p, hSteps, -⟩ | ⟨f, p, hSteps, -⟩ |
    ⟨p, hSteps, hSource⟩
  · rw [hSteps] at h
    exact nomatch h
  · rw [hSteps] at h
    exact nomatch h
  · rw [hSteps] at h
    exact nomatch h
  · rw [hSteps, Action.forEach_singleton] at h
    exact ⟨p, hSource, check_step_eq_error.mp h⟩

/-- A scan fails because of a duplicate class when it comes to check a source file and that check
fails so. -/
theorem run_eq_duplicate_iff (hs : Start ctx b old start)
    (hDisjoint : ∀ d ∈ start.dirs, d ∉ start.registry.paths) {name holder claimant : Text} :
    (run ctx (route ctx root) start).result = .error (.duplicate name holder claimant) ↔
      ∃ front dir back before n after p,
        route ctx root = front ++ dir :: back ∧ listed ctx dir = before ++ n :: after ∧
        source? ctx dir n = some p ∧ (upTo ctx front dir before start).result = .ok () ∧
        (Registry.check ctx.defineCalls ctx.files p
          (upTo ctx front dir before start).state.registry).result =
            .error (.duplicate name holder claimant) := by
  -- a run over directories is a run over runs, and so is a run over the names of one
  have hRun : ∀ dirs, run ctx dirs =
      Action.forEach (fun dir => Action.forEach (Step.run ctx) (steps ctx dir)) dirs :=
    fun dirs => Action.forEach_flatMap _ _ dirs
  have hState : ∀ {front dir before}, (run ctx front start).result = .ok () →
      (upTo ctx front dir before start).state = (Action.forEach (Step.run ctx)
        (before.flatMap (entrySteps ctx dir)) (run ctx front start).state).state :=
    fun hFront => Action.state_bind_of_ok hFront
  constructor
  · intro hError
    rw [hRun] at hError
    obtain ⟨front, dir, back, hSplit, hFront, hAt⟩ := Action.forEach_eq_error.mp hError
    rw [← hRun] at hFront hAt
    have hEntries := steps_eq_duplicate hfs hRoot hs hDisjoint hSplit hFront hAt
    rw [Action.forEach_flatMap] at hEntries
    obtain ⟨before, n, after, hListed, hBefore, hName⟩ := Action.forEach_eq_error.mp hEntries
    rw [← Action.forEach_flatMap] at hBefore hName
    rw [← hState hFront] at hName
    obtain ⟨p, hSource, hCheck⟩ := entry_eq_duplicate hName
    have hOk : (upTo ctx front dir before start).result = .ok () :=
      Action.result_bind_eq_ok.mpr ⟨(), hFront, hBefore⟩
    exact ⟨front, dir, back, before, n, after, p, hSplit, hListed, hSource, hOk, hCheck⟩
  · rintro ⟨front, dir, back, before, n, after, p, hSplit, hListed, hSource, hOk, hCheck⟩
    obtain ⟨⟨⟩, hFront, hBefore⟩ := Action.result_bind_eq_ok.mp hOk
    have hEntries : (Action.forEach (Step.run ctx) ((listed ctx dir).flatMap (entrySteps ctx dir))
        (run ctx front start).state).result = .error (.duplicate name holder claimant) := by
      rw [Action.forEach_flatMap, Action.forEach_eq_error]
      refine ⟨before, n, after, hListed, ?_, ?_⟩
      · rw [← Action.forEach_flatMap]
        exact hBefore
      · rw [← Action.forEach_flatMap, ← hState hFront, entrySteps_of_source hSource,
          Action.forEach_singleton]
        exact check_step_eq_error.mpr hCheck
    obtain ⟨names, hNames⟩ := list_of_mem_sources (mem_sources_of_listed hListed hSource)
    rw [hRun, Action.forEach_eq_error]
    refine ⟨front, dir, back, hSplit, ?_, ?_⟩
    · rw [← hRun]
      exact hFront
    · rw [← hRun, steps_of_list hNames, Action.forEach_append]
      exact Action.result_bind_eq_error.mpr (Or.inl hEntries)

end Along

/-- **When a scan fails because of a duplicate class.** After a history of returned scans of a root,
a scan fails so just when it comes to check a selected file, another file holds one of the classes
that the file defines, and no other file holds one of those that come before it. The other file
holds the class because it is a selected file too, has been checked already and defines the class
now; or because it still holds the class from before, whether it is there or not. -/
theorem scan_eq_duplicate_iff {fs : FileSystem} (hx : Returned ctx root x) (hfs : fs.WellNamed)
    (name existing path : Text) :
    (scan (ctx.on fs) root x).result = .error (.duplicate name existing path) ↔
      ∃ front checked rest before c after,
        Path.isAbsolute root = true ∧ selected (ctx.on fs) root = checked ++ path :: rest ∧
        Reaches (ctx.on fs) root x path front checked ∧
        Registry.fileClasses ctx.defineCalls fs path = .ok (some (before ++ c :: after)) ∧
        c.name = name ∧ existing ≠ path ∧ Holds (ctx.on fs) x front checked existing name ∧
        ∀ d ∈ before, ∀ q, q ≠ path → ¬ Holds (ctx.on fs) x front checked q d.name := by
  cases hAbsolute : Path.isAbsolute root with
  | false =>
    rw [scan_of_relative hAbsolute]
    constructor
    · exact nofun
    · rintro ⟨_, _, _, _, _, _, h, -⟩
      exact nomatch h
  | true =>
    -- a scan that fails so has come up to the file that meets the class
    obtain ⟨b, hRoot⟩ := Path.exists_base hAbsolute
    obtain ⟨old, hs⟩ := (tidy_on.mpr (hx.attempted.tidy hRoot) : Tidy (ctx.on fs) b x).exists_start
    have hfs' : (ctx.on fs).files.WellNamed := hfs
    rw [scan_eq_run hfs' hRoot hAbsolute,
      run_eq_duplicate_iff hfs' hRoot hs (hx.not_mem_paths hRoot)]
    constructor
    · rintro ⟨front, dir, back, seen, n, unseen, p, hSplit, hListed, hSource, hOk, hCheck⟩
      obtain ⟨rfl, hOther, hHolder, before, c, after, hFile, hName, hFree⟩ :=
        (check_upTo_eq_duplicate_iff hfs' hRoot hs hSplit hListed hSource hOk).mp hCheck
      have hReaches : Reaches (ctx.on fs) root x path front _ :=
        ⟨dir, back, seen, n, unseen, hSplit, hListed, hSource, rfl, hOk⟩
      obtain ⟨rest, hSelected⟩ := hReaches.exists_selected_eq
      exact ⟨front, _, rest, before, c, after, rfl, hSelected, hReaches, hFile, hName, hOther,
        hHolder, hFree⟩
    · rintro ⟨front, checked, rest, before, c, after, -, -, ⟨dir, back, seen, n, unseen, hSplit,
        hListed, hSource, rfl, hOk⟩, hFile, hName, hOther, hHolder, hFree⟩
      exact ⟨front, dir, back, seen, n, unseen, path, hSplit, hListed, hSource, hOk,
        (check_upTo_eq_duplicate_iff hfs' hRoot hs hSplit hListed hSource hOk).mpr
          ⟨rfl, hOther, hHolder, before, c, after, hFile, hName, hFree⟩⟩

/-- A class that moves to a file which is checked first is met in the file where it was. -/
theorem scan_moved_class :
    (scan (usual.on (folder [("a.js", definition "X")])) "/r"
      (scan (usual.on (folder [("b.js", definition "X")])) "/r" {}).state).result =
        .error (.duplicate "X" "/r/b.js" "/r/a.js") := by
  decide +kernel

/-- A class that has moved from `b.js` to `a.js` is still held by `b.js` when `a.js` is checked. -/
theorem scan_eq_duplicate_of_moved_class :
    ∃ front checked,
      Reaches (usual.on (folder [("a.js", definition "X")])) "/r"
        (scan (usual.on (folder [("b.js", definition "X")])) "/r" {}).state "/r/a.js"
        front checked ∧
      Holds (usual.on (folder [("a.js", definition "X")]))
        (scan (usual.on (folder [("b.js", definition "X")])) "/r" {}).state front checked
        "/r/b.js" "X" := by
  have hHistory : Returned usual "/r"
      (scan (usual.on (folder [("b.js", definition "X")])) "/r" {}).state :=
    .scan .start (by decide) (by decide +kernel)
  have hNamed : (folder [("a.js", definition "X")]).WellNamed := by decide
  obtain ⟨front, checked, -, -, -, -, -, -, hReaches, -, -, -, hHolds, -⟩ :=
    (scan_eq_duplicate_iff hHistory hNamed "X" "/r/b.js" "/r/a.js").mp scan_moved_class
  exact ⟨front, checked, hReaches, hHolds⟩

/-- So a scan can fail because of a duplicate class although a single file is selected: after a scan
that returned, the class `X` has moved from `b.js` to `a.js`. -/
theorem duplicate_with_one_file :
    Returned usual "/r" (scan (usual.on (folder [("b.js", definition "X")])) "/r" {}).state ∧
    (folder [("a.js", definition "X")]).WellNamed ∧
    (scan (usual.on (folder [("a.js", definition "X")])) "/r"
      (scan (usual.on (folder [("b.js", definition "X")])) "/r" {}).state).result =
        .error (.duplicate "X" "/r/b.js" "/r/a.js") ∧
    selected (usual.on (folder [("a.js", definition "X")])) "/r" = ["/r/a.js"] := by
  refine ⟨.scan .start (by decide) ?_, by decide, scan_moved_class, ?_⟩
  · decide +kernel
  · decide +kernel

end Indexer

end ClassTags
