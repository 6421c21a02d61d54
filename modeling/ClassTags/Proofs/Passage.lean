import ClassTags.Proofs.Histories

/-!
# The passage of a scan

A scan works off one directory of its route after the other. Once it is through with some of them,
it is settled which of the old files and directories are left: a file goes when its own directory is
closed, and a file or a directory goes when one above it is found to be gone. What the scan has
checked is in the index as it is now. `Passage` says this of the directories done so far, and it
holds along the whole route, whatever tidy index the scan began with.

Main results:

* `Passage.step` — one more directory;
* `Passage.run` — any part of the route that has been worked off;
* `Passage.entries` — the middle of a directory.
-/

namespace ClassTags.Indexer

/-- No directory that is gone from one of the given directories lies above the path. -/
def Spared (ctx : IndexContext) (start : Indexer) (dirs : List Text) (q : Text) : Prop :=
  ∀ e ∈ dirs, ∀ d ∈ start.gone ctx e, Path.isUnder q d = false

/-- No known directory is a regular file now. -/
def Calm (ctx : IndexContext) (start : Indexer) : Prop :=
  ∀ d ∈ start.dirs, ctx.files.kind d ≠ .ok .file

/-- What a tidy index that a scan begins with holds. -/
structure Start (ctx : IndexContext) (b : Path.Base) (old : Holdings) (start : Indexer) : Prop where
  tidy : Tidy ctx b start
  sound : Holdings.Sound old
  registry_eq : start.registry = Holdings.registry old

/-- What a scan has made of an index when it is through with some directories of its route. -/
structure Passage (ctx : IndexContext) (b : Path.Base) (old : Holdings) (start : Indexer)
    (dirs : List Text) (x : Indexer) : Prop where
  tidy : Tidy ctx b x
  registry : Renewed ctx old (fun q => Path.parent q ∉ dirs ∧ Spared ctx start dirs q)
    (dirs.flatMap (sources ctx)) (Calm ctx start) x.registry
  mem_dirs : ∀ q, q ∈ x.dirs ↔ q ∈ dirs ∨ (q ∈ start.dirs ∧ Spared ctx start dirs q)

variable {ctx : IndexContext} {b : Path.Base} {old : Holdings} {start x : Indexer}

theorem Tidy.exists_start (h : Tidy ctx b start) : ∃ old, Start ctx b old start := by
  obtain ⟨old, hs, hEq⟩ := h.held
  exact ⟨old, h, hs, hEq⟩

/-- The files that are tracked at the start may be checked. -/
theorem Start.checkable (hs : Start ctx b old start) {p : Text} (hp : p ∈ Table.names old) :
    Checkable ctx b p := by
  apply hs.tidy.files
  rw [hs.registry_eq, Holdings.paths_registry]
  exact hp

/-- What is spared by one more directory is spared by those before it, and by what is gone from
it. -/
theorem spared_append {dirs : List Text} {dir q : Text} :
    Spared ctx start (dirs ++ [dir]) q ↔
      Spared ctx start dirs q ∧ ∀ d ∈ start.gone ctx dir, Path.isUnder q d = false := by
  unfold Spared
  rw [List.forall_mem_append, List.forall_mem_singleton]

/-- Before a scan, nothing has gone. -/
theorem Start.passage (hs : Start ctx b old start) : Passage ctx b old start [] start where
  tidy := hs.tidy
  registry := by
    rw [hs.registry_eq]
    refine (Renewed.start ctx hs.sound _).congr fun file _ => ?_
    simp [Spared]
  mem_dirs := by
    intro q
    simp [Spared]

-- ---------------------------------------------------------------------------
-- Directories that are gone
-- ---------------------------------------------------------------------------

/-- A known directory that is gone is right in the directory it is gone from. -/
theorem Confined.of_mem_gone (hx : Orderly x) {ns : List Path.Name} {d : Text}
    (hd : d ∈ x.gone ctx (b.path ns)) : ∃ n : Path.Name, d = b.path (ns ++ [n]) := by
  obtain ⟨hKnown, hParent, hOther, -⟩ := mem_gone.mp hd
  obtain ⟨hAbsolute, hNormal⟩ := Registry.accepts_iff.mp (hx.dirs d hKnown)
  exact b.exists_name_of_parent hAbsolute hNormal hParent hOther

/-- None of the directories that are gone from a directory lies below another. -/
theorem Confined.gone_apart (hx : Orderly x) (ns : List Path.Name) :
    (x.gone ctx (b.path ns)).Pairwise Path.Apart := by
  have hDistinct : (x.gone ctx (b.path ns)).Nodup := by
    unfold gone goneDirs
    exact (perm_sorted _).nodup_iff.mpr (hx.distinct.filter _)
  -- both have one name more than the directory they are in, so one in front of the other is it
  have hSame : ∀ {d e}, d ∈ x.gone ctx (b.path ns) → e ∈ x.gone ctx (b.path ns) → d ≠ e →
      Path.isUnder e d = false := by
    intro d e hd he hOther
    obtain ⟨m, rfl⟩ := hx.of_mem_gone hd
    obtain ⟨n, rfl⟩ := hx.of_mem_gone he
    rw [b.isUnder_path_eq_false]
    intro hPrefix
    exact hOther (congrArg b.path (hPrefix.eq_of_length (by simp)))
  exact hDistinct.imp_of_mem fun hd he hOther => ⟨hSame hd he hOther, hSame he hd hOther.symm⟩

/-- In a tidy index, its name is not an ignored one. -/
theorem Tidy.of_mem_gone (hx : Tidy ctx b x) {ns : List Path.Name} {d : Text}
    (hd : d ∈ x.gone ctx (b.path ns)) :
    ∃ n : Path.Name, d = b.path (ns ++ [n]) ∧ n.1 ∉ ctx.ignoredDirs := by
  obtain ⟨n, rfl⟩ := hx.orderly.of_mem_gone hd
  obtain ⟨ds, hEq, hds⟩ := hx.dirs _ (mem_gone.mp hd).1
  rw [← b.path_inj.mp hEq] at hds
  exact ⟨n, rfl, hds n (List.mem_append_right _ List.mem_cons_self)⟩

/-- A directory that is gone is no directory any more. -/
theorem Tidy.kind_of_mem_gone (hx : Tidy ctx b x) (hfs : ctx.files.WellNamed)
    {ns : List Path.Name} {names : List Text} (hList : ctx.files.list (b.path ns) = .ok names)
    {d : Text} (hd : d ∈ x.gone ctx (b.path ns)) : ctx.files.kind d ≠ .ok .directory := by
  obtain ⟨n, rfl, hIgnored⟩ := hx.of_mem_gone hd
  intro hKind
  exact (mem_gone.mp hd).2.2.2 ((mem_subdirs hfs hList).mpr ⟨n, rfl, hKind, hIgnored⟩)

/-- Where there is no directory, whatever is there can only stand in its very place. -/
theorem eq_of_isUnder_of_kind {ds ps : List Path.Name} {k : EntryKind}
    (hUnder : Path.isUnder (b.path ps) (b.path ds) = true)
    (hGone : ctx.files.kind (b.path ds) ≠ .ok .directory)
    (hThere : ctx.files.kind (b.path ps) = .ok k) : ps = ds := by
  obtain ⟨rest, rfl⟩ := b.isUnder_path.mp hUnder
  by_cases hRest : rest = []
  · rw [hRest, List.append_nil]
  · obtain ⟨fault, hResolve⟩ := FileSystem.resolve_below hRest hGone
    rw [FileSystem.kind_of_resolve_error hResolve] at hThere
    exact nomatch hThere

/-- Below a directory that is gone nothing can be read, unless it stands in its very place. -/
theorem Tidy.eq_of_readable_of_mem_gone (hx : Tidy ctx b x) (hfs : ctx.files.WellNamed)
    {ns : List Path.Name} {names : List Text} (hList : ctx.files.list (b.path ns) = .ok names)
    {d p : Text} (hd : d ∈ x.gone ctx (b.path ns)) (hp : Checkable ctx b p)
    (hUnder : Path.isUnder p d = true) (hRead : Readable ctx p) : p = d := by
  have hGone := hx.kind_of_mem_gone hfs hList hd
  obtain ⟨m, rfl, -⟩ := hx.of_mem_gone hd
  obtain ⟨ps, n, rfl, -⟩ := hp
  obtain ⟨bytes, hBytes⟩ := hRead.opens
  obtain ⟨k, hKind, -⟩ := FileSystem.kind_of_read hBytes
  rw [eq_of_isUnder_of_kind hUnder hGone hKind]

/-- A regular file does not lie below a directory that is gone, unless it stands where it was. -/
theorem Tidy.not_isUnder_of_kind_file (hx : Tidy ctx b x) (hfs : ctx.files.WellNamed)
    {ns ps : List Path.Name} {names : List Text} (hList : ctx.files.list (b.path ns) = .ok names)
    {d : Text} (hd : d ∈ x.gone ctx (b.path ns)) (hNot : ctx.files.kind d ≠ .ok .file)
    (hFile : ctx.files.kind (b.path ps) = .ok .file) : Path.isUnder (b.path ps) d = false := by
  have hKind := hx.kind_of_mem_gone hfs hList hd
  obtain ⟨m, rfl, -⟩ := hx.of_mem_gone hd
  rw [Bool.eq_false_iff]
  intro hUnder
  rw [eq_of_isUnder_of_kind hUnder hKind hFile] at hFile
  exact hNot hFile

/-- Nothing can be read below a root that is missing. -/
theorem Checkable.not_readable_of_missing {p : Text} (hp : Checkable ctx b p)
    (hMissing : ctx.files.list (b.path []) = .error .missing) : ¬ Readable ctx p := by
  intro hRead
  obtain ⟨ns, n, rfl, -⟩ := hp
  have hGone := FileSystem.resolve_below_missing (ns ++ [n]) hMissing
  have hKind := FileSystem.kind_of_resolve_error hGone
  obtain ⟨bytes, hBytes⟩ := hRead.opens
  obtain ⟨k, hThere, -⟩ := FileSystem.kind_of_read hBytes
  rw [List.nil_append, hThere] at hKind
  exact nomatch hKind

-- ---------------------------------------------------------------------------
-- One directory
-- ---------------------------------------------------------------------------

section Along

variable {root : Text} (hfs : ctx.files.WellNamed) (hRoot : Path.normalize root = b.path [])

include hfs hRoot

/-- A source file lies in the one directory it was found in. -/
theorem parent_of_mem_sources {dir p : Text} (hDir : dir ∈ route ctx root)
    (hp : p ∈ sources ctx dir) : Path.parent p = dir := by
  obtain ⟨ns, rfl⟩ := exists_names_of_mem_route hfs hRoot hDir
  obtain ⟨n, rfl, -⟩ := of_mem_sources hfs hp
  exact b.parent_path ns n

/-- The source files that a scan checks in some directories of its route. -/
theorem of_mem_flatMap_sources {dirs : List Text} (hDirs : ∀ dir ∈ dirs, dir ∈ route ctx root)
    {p : Text} (hp : p ∈ dirs.flatMap (sources ctx)) :
    ∃ ns n, p = b.path (ns ++ [n]) ∧ b.path ns ∈ dirs ∧ p ∈ sources ctx (b.path ns) ∧
      ctx.files.kind p = .ok .file := by
  obtain ⟨e, he, hSource⟩ := List.mem_flatMap.mp hp
  obtain ⟨ns, rfl⟩ := exists_names_of_mem_route hfs hRoot (hDirs e he)
  obtain ⟨n, hEq, hKind, -⟩ := of_mem_sources hfs hSource
  exact ⟨ns, n, hEq, he, hSource, hKind⟩

/-- The source files of the next directory have not been checked before. -/
theorem next_source {front back : List Text} {dir p : Text}
    (hSplit : route ctx root = front ++ dir :: back) (hp : p ∈ sources ctx dir) :
    Registry.accepts p = true ∧ p ∉ front.flatMap (sources ctx) ∧
      ctx.files.kind p = .ok .file := by
  have hNew : dir ∉ front := (route_split hfs hRoot hSplit).1
  have hDir : dir ∈ route ctx root := hSplit ▸ List.mem_append_right front List.mem_cons_self
  have hFront : ∀ e ∈ front, e ∈ route ctx root := fun e he => hSplit ▸ List.mem_append_left _ he
  obtain ⟨ns, rfl⟩ := exists_names_of_mem_route hfs hRoot hDir
  obtain ⟨n, rfl, hKind, -⟩ := of_mem_sources hfs hp
  refine ⟨accepts_path _, fun hOld => ?_, hKind⟩
  obtain ⟨ms, m, hEq, hEarlier, -⟩ := of_mem_flatMap_sources hfs hRoot hFront hOld
  obtain ⟨rfl, -⟩ := List.append_inj' (b.path_inj.mp hEq) rfl
  exact hNew hEarlier

/-- A directory that is gone keeps the scan away from all that lies below it. -/
theorem not_isUnder_of_mem_gone (hx : Orderly x) {e d dir : Text} (he : e ∈ route ctx root)
    (hd : d ∈ x.gone ctx e) (hDir : dir ∈ route ctx root) : Path.isUnder dir d = false := by
  obtain ⟨es, rfl⟩ := exists_names_of_mem_route hfs hRoot he
  obtain ⟨ns, rfl⟩ := exists_names_of_mem_route hfs hRoot hDir
  obtain ⟨n, rfl⟩ := hx.of_mem_gone hd
  rw [Bool.eq_false_iff]
  intro hUnder
  obtain ⟨rest, rfl⟩ := b.isUnder_path.mp hUnder
  have hHere := mem_route_above hfs hRoot hDir
  exact (mem_gone.mp hd).2.2.2 ((mem_route_snoc hfs hRoot).mp hHere).2

/-- Before a directory is closed, the known directories that are gone from it are those that were
known when the scan began. -/
theorem mem_gone_iff_start {front back : List Text} {dir d : Text}
    (hSplit : route ctx root = front ++ dir :: back) (hs : Orderly start) (hx : Orderly x)
    (hDirs : ∀ q, q ∈ x.dirs ↔ q ∈ front ∨ (q ∈ start.dirs ∧ Spared ctx start front q)) :
    d ∈ x.gone ctx dir ↔ d ∈ start.gone ctx dir := by
  have hNew : dir ∉ front := (route_split hfs hRoot hSplit).1
  have hDir : dir ∈ route ctx root := hSplit ▸ List.mem_append_right front List.mem_cons_self
  obtain ⟨ns, rfl⟩ := exists_names_of_mem_route hfs hRoot hDir
  constructor
  · intro hd
    obtain ⟨n, rfl⟩ := hx.of_mem_gone hd
    rw [mem_gone] at hd ⊢
    refine ⟨?_, hd.2⟩
    rcases (hDirs _).mp hd.1 with hFront | hOld
    · -- the scan has not come to a directory before the one it is in
      exact absurd (mem_front_above hfs hRoot hSplit hFront) hNew
    · exact hOld.1
  · intro hd
    obtain ⟨n, rfl⟩ := hs.of_mem_gone hd
    rw [mem_gone] at hd ⊢
    refine ⟨(hDirs _).mpr (Or.inr ⟨hd.1, ?_⟩), hd.2⟩
    -- nothing that was gone before took it along: it would have taken this directory too
    intro e he g hg
    have heRoute : e ∈ route ctx root := hSplit ▸ List.mem_append_left _ he
    have hAway := not_isUnder_of_mem_gone hfs hRoot hs heRoute hg hDir
    obtain ⟨es, rfl⟩ := exists_names_of_mem_route hfs hRoot heRoute
    obtain ⟨m, rfl⟩ := hs.of_mem_gone hg
    rw [Bool.eq_false_iff] at hAway ⊢
    intro hUnder
    rcases List.prefix_concat_iff.mp (b.isUnder_path.mp hUnder) with hEq | hAbove
    · obtain ⟨rfl, -⟩ := List.append_inj' hEq rfl
      exact hNew he
    · exact hAway (b.isUnder_path.mpr hAbove)

/-- What is known when one more directory has been closed. -/
theorem mem_dirs_close_iff {front back : List Text} {dir q : Text}
    (hSplit : route ctx root = front ++ dir :: back) (hs : Orderly start) (hx : Orderly x)
    (hDirs : ∀ q, q ∈ x.dirs ↔ q ∈ front ∨ (q ∈ start.dirs ∧ Spared ctx start front q))
    (hOk : (Step.run ctx (.close dir) x).result = .ok ()) :
    q ∈ (Step.run ctx (.close dir) x).state.dirs ↔
      q ∈ front ++ [dir] ∨ (q ∈ start.dirs ∧ Spared ctx start (front ++ [dir]) q) := by
  have hDir : dir ∈ route ctx root := hSplit ▸ List.mem_append_right front List.mem_cons_self
  have hApart : (x.gone ctx dir).Pairwise Path.Apart := by
    obtain ⟨ns, rfl⟩ := exists_names_of_mem_route hfs hRoot hDir
    exact hx.gone_apart ns
  rw [mem_dirs_close hApart hOk, hDirs, spared_append, List.mem_append, List.mem_singleton]
  simp only [mem_gone_iff_start hfs hRoot hSplit hs hx hDirs]
  constructor
  · rintro (hEq | ⟨hFrontMem | ⟨hOld, hSpared⟩, hUnder⟩)
    · exact Or.inl (Or.inr hEq)
    · exact Or.inl (Or.inl hFrontMem)
    · exact Or.inr ⟨hOld, hSpared, hUnder⟩
  · rintro ((hFrontMem | hEq) | ⟨hOld, hSpared, hUnder⟩)
    · -- a directory of the route does not lie below one that is gone
      refine Or.inr ⟨Or.inl hFrontMem, fun d hd => ?_⟩
      have hRouteMem : q ∈ route ctx root := hSplit ▸ List.mem_append_left _ hFrontMem
      exact not_isUnder_of_mem_gone hfs hRoot hs hDir hd hRouteMem
    · exact Or.inl hEq
    · exact Or.inr ⟨Or.inr ⟨hOld, hSpared⟩, hUnder⟩

namespace Passage

variable {front back : List Text} {dir : Text} (hs : Start ctx b old start)
  (hSplit : route ctx root = front ++ dir :: back) (hp : Passage ctx b old start front x)

include hs hSplit hp

/-- Checking files makes no difference to what is gone. -/
theorem mem_gone_iff {y : Indexer} (hDirs : y.dirs = x.dirs) {d : Text} :
    d ∈ y.gone ctx dir ↔ d ∈ start.gone ctx dir := by
  rw [← mem_gone_iff_start hfs hRoot hSplit hs.tidy.orderly hp.tidy.orderly hp.mem_dirs, mem_gone,
    mem_gone, hDirs]

omit hs in
/-- **In the middle of a directory.** When some names of a directory have been gone through, the
source files among them are new. -/
theorem entries {before after : List Text} (hListed : listed ctx dir = before ++ after)
    (hOk : (Action.forEach (Step.run ctx) (before.flatMap (entrySteps ctx dir)) x).result = .ok ()) :
    Renewed ctx old
      (fun q => (Path.parent q ∉ front ∧ Spared ctx start front q) ∧
        q ∉ before.filterMap (source? ctx dir))
      (front.flatMap (sources ctx) ++ before.filterMap (source? ctx dir)) (Calm ctx start)
      (Action.forEach (Step.run ctx) (before.flatMap (entrySteps ctx dir)) x).state.registry ∧
    (Action.forEach (Step.run ctx) (before.flatMap (entrySteps ctx dir)) x).state.dirs = x.dirs := by
  have hDir : dir ∈ route ctx root := hSplit ▸ List.mem_append_right front List.mem_cons_self
  have hFault : ∀ n ∈ before, ∀ f p, Step.fault f p ∉ entrySteps ctx dir n := by
    intro n hn f p hMem
    exact fault_not_mem_of_ok hOk f p (List.mem_flatMap.mpr ⟨n, hn, hMem⟩)
  obtain ⟨hState, hResult⟩ := entries_run hFault x
  rw [hState]
  rw [hResult] at hOk
  have hPart : sources ctx dir =
      before.filterMap (source? ctx dir) ++ after.filterMap (source? ctx dir) := by
    unfold sources
    rw [hListed, List.filterMap_append]
  have hMem : ∀ p ∈ before.filterMap (source? ctx dir), p ∈ sources ctx dir := by
    intro p hp
    rw [hPart]
    exact List.mem_append_left _ hp
  obtain ⟨ns, rfl⟩ := exists_names_of_mem_route hfs hRoot hDir
  have hDistinct : (sources ctx (b.path ns)).Nodup := nodup_sources hfs ns
  rw [hPart, List.nodup_append] at hDistinct
  have hNext := fun p hp => next_source hfs hRoot hSplit (hMem p hp)
  exact ⟨hp.registry.checks (fun p hp => (hNext p hp).1) hDistinct.1 (fun p hp => (hNext p hp).2.1)
    (fun p hp => (hNext p hp).2.2) hOk, dirs_checks _ x⟩

/-- The end of a directory, when all its source files have been checked. -/
theorem close {y : Indexer} {names : List Text} (hList : ctx.files.list dir = .ok names)
    (hTidy : Tidy ctx b y) (hDirs : y.dirs = x.dirs)
    (hRegistry : Renewed ctx old
      (fun q => (Path.parent q ∉ front ∧ Spared ctx start front q) ∧ q ∉ sources ctx dir)
      (front.flatMap (sources ctx) ++ sources ctx dir) (Calm ctx start) y.registry)
    (hOk : (Step.run ctx (.close dir) y).result = .ok ()) :
    Passage ctx b old start (front ++ [dir]) (Step.run ctx (.close dir) y).state := by
  have hDir : dir ∈ route ctx root := hSplit ▸ List.mem_append_right front List.mem_cons_self
  have hFront : ∀ e ∈ front, e ∈ route ctx root := fun e he => hSplit ▸ List.mem_append_left _ he
  have hDone : ∀ e ∈ front ++ [dir], e ∈ route ctx root :=
    List.forall_mem_append.mpr ⟨hFront, List.forall_mem_singleton.mpr hDir⟩
  have hGone : ∀ d, d ∈ y.gone ctx dir ↔ d ∈ start.gone ctx dir := fun d =>
    hp.mem_gone_iff hfs hRoot hs hSplit hDirs
  have hFiles : front.flatMap (sources ctx) ++ sources ctx dir =
      (front ++ [dir]).flatMap (sources ctx) := by
    rw [List.flatMap_append, List.flatMap_singleton]
  have hTidy' := tidy_close (searched_of_mem_route hfs hRoot hDir) y hTidy
  rw [hFiles] at hRegistry
  obtain ⟨ns, rfl⟩ := exists_names_of_mem_route hfs hRoot hDir
  have hRegistry' := hRegistry.close (hTidy.orderly.gone_apart ns)
    (fun p hMem => (hTidy.files p hMem).accepts)
    -- what is old below a directory that is gone cannot be read, unless it is in its place
    (fun d hd p hName _ hUnder => hTidy.eq_of_readable_of_mem_gone hfs hList hd
      (hs.checkable hName) hUnder)
    -- what is new does not lie there, if the scan is calm
    (fun hCalm d hd p hMem => by
      obtain ⟨ms, m, rfl, -, -, hFile⟩ := of_mem_flatMap_sources hfs hRoot hDone hMem
      have hKnown := (mem_gone.mp ((hGone d).mp hd)).1
      exact hTidy.not_isUnder_of_kind_file hfs hList hd (hCalm d hKnown) hFile)
    -- what is new in the directory is one of its source files
    (fun p hMem hParent => by
      obtain ⟨ms, m, rfl, -, hSource, -⟩ := of_mem_flatMap_sources hfs hRoot hDone hMem
      rw [b.parent_path] at hParent
      exact hParent ▸ hSource)
    (fun p hName => (hs.checkable hName).isSuffixOf)
    (fun p _ hKeep => hKeep.2)
    hOk
  refine ⟨hTidy', hRegistry'.congr fun file _ => ?_, fun q => ?_⟩
  · simp only [hGone]
    rw [spared_append, List.mem_append, List.mem_singleton, not_or]
    constructor
    · rintro ⟨⟨⟨hParent, hSpared⟩, -⟩, hUnder, hOther⟩
      exact ⟨⟨hParent, hOther⟩, hSpared, hUnder⟩
    · rintro ⟨⟨hParent, hOther⟩, hSpared, hUnder⟩
      refine ⟨⟨⟨hParent, hSpared⟩, fun hSource => ?_⟩, hUnder, hOther⟩
      exact hOther (parent_of_mem_sources hfs hRoot hDir hSource)
  · have hKnown : ∀ e, e ∈ y.dirs ↔ e ∈ front ∨ (e ∈ start.dirs ∧ Spared ctx start front e) := by
      intro e
      rw [hDirs, hp.mem_dirs]
    exact mem_dirs_close_iff hfs hRoot hSplit hs.tidy.orderly hTidy.orderly hKnown hOk

/-- **One more directory.** -/
theorem step {names : List Text} (hList : ctx.files.list dir = .ok names)
    (hOk : (Action.forEach (Step.run ctx) (steps ctx dir) x).result = .ok ()) :
    Passage ctx b old start (front ++ [dir])
      (Action.forEach (Step.run ctx) (steps ctx dir) x).state := by
  have hDir : dir ∈ route ctx root := hSplit ▸ List.mem_append_right front List.mem_cons_self
  rw [steps_of_list hList, Action.forEach_append, Action.forEach_singleton] at hOk ⊢
  obtain ⟨⟨⟩, hEntries, hClose⟩ := Action.result_bind_eq_ok.mp hOk
  rw [Action.state_bind_of_ok hEntries]
  obtain ⟨hRegistry, hDirs⟩ := hp.entries hfs hRoot hSplit (List.append_nil _).symm hEntries
  have hTidy := tidy_entries hfs (searched_of_mem_route hfs hRoot hDir)
    (fun n (hn : n ∈ listed ctx dir) => hn) x hp.tidy
  exact hp.close hfs hRoot hs hSplit hList hTidy hDirs hRegistry hClose

end Passage

-- ---------------------------------------------------------------------------
-- The whole route
-- ---------------------------------------------------------------------------

/-- **A part of the route.** -/
theorem Passage.run (hs : Start ctx b old start) {front back : List Text}
    (hSplit : route ctx root = front ++ back)
    (hList : ∀ dir ∈ front, ∃ names, ctx.files.list dir = .ok names)
    (hOk : (Indexer.run ctx front start).result = .ok ()) :
    Passage ctx b old start front (Indexer.run ctx front start).state := by
  refine run_along (P := fun dirs o => Passage ctx b old start dirs o.state) hSplit hList hOk
    hs.passage ?_
  intro front dir back names o hSplit hNames hHere hDir
  exact hHere.step hfs hRoot hs hSplit hNames hDir

/-- Only the root of a scan may be missing: the other directories have just been seen. -/
theorem list_ne_missing_of_mem_route {ns : List Path.Name} {n : Path.Name}
    (h : b.path (ns ++ [n]) ∈ route ctx root) :
    ctx.files.list (b.path (ns ++ [n])) ≠ .error .missing := by
  obtain ⟨-, -, hKind, -⟩ := of_mem_subdirs hfs ((mem_route_snoc hfs hRoot).mp h).2
  exact FileSystem.list_ne_missing hKind

/-- When the root is there, a scan that has worked off some directories has listed them all. -/
theorem list_of_run_ok (hThere : ctx.files.list (b.path []) ≠ .error .missing)
    {dirs : List Text} (hDirs : ∀ dir ∈ dirs, dir ∈ route ctx root)
    (hOk : (run ctx dirs x).result = .ok ()) {dir : Text} (hDir : dir ∈ dirs) :
    ∃ names, ctx.files.list dir = .ok names := by
  refine list_of_faultless (fun f hMem => ?_) ?_
  · exact fault_not_mem_of_ok hOk f dir (List.mem_flatMap.mpr ⟨dir, hDir, hMem⟩)
  · obtain ⟨ns, rfl⟩ := exists_names_of_mem_route hfs hRoot (hDirs dir hDir)
    rcases List.eq_nil_or_concat ns with rfl | ⟨ms, m, rfl⟩
    · exact hThere
    · rw [List.concat_eq_append] at *
      exact list_ne_missing_of_mem_route hfs hRoot (hDirs _ hDir)

/-- A scan that can list the directories of its route goes into the directories that are there. -/
theorem mem_route_iff_entered
    (hList : ∀ dir ∈ route ctx root, ∃ names, ctx.files.list dir = .ok names) {d : Text} :
    d ∈ route ctx root ↔ Entered ctx b d := by
  constructor
  · intro hd
    obtain ⟨names, hNames⟩ := hList d hd
    exact ⟨searched_of_mem_route hfs hRoot hd, FileSystem.kind_of_list hNames⟩
  · rintro ⟨⟨ns, rfl, hIgnored⟩, hKind⟩
    induction ns using List.reverseRecOn with
    | nil => exact root_mem_route hRoot
    | append_singleton ns n ih =>
      rw [List.forall_mem_append, List.forall_mem_singleton] at hIgnored
      have hAbove := ih hIgnored.1 (FileSystem.kind_directory_above hKind)
      obtain ⟨names, hNames⟩ := hList _ hAbove
      refine (mem_route_snoc hfs hRoot).mpr ⟨hAbove, ?_⟩
      exact (mem_subdirs hfs hNames).mpr ⟨n, rfl, hKind, hIgnored.2⟩

/-- A scan of a directory only goes into directories that are there. -/
theorem entered_of_mem_route (hKind : ctx.files.kind (b.path []) = .ok .directory) {d : Text}
    (hd : d ∈ route ctx root) : Entered ctx b d := by
  refine ⟨searched_of_mem_route hfs hRoot hd, ?_⟩
  obtain ⟨ns, rfl⟩ := exists_names_of_mem_route hfs hRoot hd
  rcases List.eq_nil_or_concat ns with rfl | ⟨ms, m, rfl⟩
  · exact hKind
  · rw [List.concat_eq_append] at hd ⊢
    obtain ⟨-, -, hDirectory, -⟩ := of_mem_subdirs hfs ((mem_route_snoc hfs hRoot).mp hd).2
    exact hDirectory

/-- A scan that can list the directories of its route checks the source files that are there. -/
theorem exists_mem_sources_iff
    (hList : ∀ d ∈ route ctx root, ∃ names, ctx.files.list d = .ok names) {p : Text} :
    (∃ d ∈ route ctx root, p ∈ sources ctx d) ↔
      Checkable ctx b p ∧ ctx.files.kind p = .ok .file := by
  constructor
  · rintro ⟨d, hd, hp⟩
    have hSearched := searched_of_mem_route hfs hRoot hd
    have hCheckable := checkable_of_mem_sources hfs hSearched hp
    obtain ⟨ns, rfl, -⟩ := hSearched
    obtain ⟨-, -, hThere, -⟩ := of_mem_sources hfs hp
    exact ⟨hCheckable, hThere⟩
  · rintro ⟨⟨ns, n, rfl, hIgnored, hExt⟩, hFile⟩
    -- above a file there is a directory, so the scan comes there
    have hAbove : ctx.files.kind (b.path ns) = .ok .directory :=
      FileSystem.kind_above (List.cons_ne_nil n []) hFile
    have hd : b.path ns ∈ route ctx root :=
      (mem_route_iff_entered hfs hRoot hList).mpr ⟨⟨ns, rfl, hIgnored⟩, hAbove⟩
    obtain ⟨names, hNames⟩ := hList _ hd
    exact ⟨_, hd, (mem_sources hfs hNames).mpr ⟨n, rfl, hFile, hExt⟩⟩

omit hfs in
/-- A scan whose root is missing forgets the root. -/
theorem run_of_missing (hMissing : ctx.files.list (b.path []) = .error .missing) :
    run ctx (route ctx root) = Step.run ctx (.absent (b.path [])) := by
  unfold run steps
  rw [route_of_error hRoot hMissing, List.flatMap_singleton, hMissing, Action.forEach_singleton]

omit hfs in
/-- With a root that was known, everything goes. -/
theorem run_of_missing_known (hx : Tidy ctx b start)
    (hMissing : ctx.files.list (b.path []) = .error .missing) (hKnown : b.path [] ∈ start.dirs)
    (hOk : (run ctx (route ctx root) start).result = .ok ()) :
    Renewed ctx [] (fun _ => True) [] (Calm ctx start)
      (run ctx (route ctx root) start).state.registry ∧
      (run ctx (route ctx root) start).state.dirs = [] := by
  rw [run_of_missing hRoot hMissing] at hOk ⊢
  obtain ⟨v, hv, hState⟩ := absent_step_of_ok hOk
  rw [hState]
  obtain ⟨old, hs⟩ := hx.exists_start
  obtain ⟨extra, hExtra, hRegistry⟩ := hs.passage.registry.remove hKnown
    (fun p hp => (hx.files p hp).accepts) (fun _ p hp => absurd hp List.not_mem_nil) hv
  have hNone : extra = [] := by
    rw [List.eq_nil_iff_forall_not_mem]
    intro p hp
    obtain ⟨hOld, -, -, -, hRead⟩ := hExtra p hp
    exact (hs.checkable hOld).not_readable_of_missing hMissing hRead
  rw [hNone] at hRegistry
  constructor
  · refine hRegistry.of_forall_not_keep fun p hp hKeep => ?_
    obtain ⟨ns, n, rfl, -⟩ := hs.checkable hp
    rw [b.isUnder_base] at hKeep
    exact Bool.false_ne_true hKeep.2.symm
  · rw [dirs_remove hKnown, List.filter_eq_nil_iff]
    intro d hd
    obtain ⟨ns, rfl, -⟩ := hx.dirs d hd
    simp [b.isUnder_base]

omit hfs in
/-- With a root that was not known, nothing changes. -/
theorem run_of_missing_unknown (hMissing : ctx.files.list (b.path []) = .error .missing)
    (hUnknown : b.path [] ∉ start.dirs) : (run ctx (route ctx root) start).state = start := by
  have hRemove := @remove_of_unknown ctx start _ hUnknown
  have hOk : (remove ctx (b.path []) start).result = .ok false := by rw [hRemove]
  rw [run_of_missing hRoot hMissing]
  refine (Action.state_bind_of_ok hOk).trans ?_
  rw [hRemove]
  rfl

end Along

end ClassTags.Indexer
