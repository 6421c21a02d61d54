import ClassTags.Proofs.Coherence
import ClassTags.Proofs.Renewal

/-!
# Histories of scans

One root is scanned again and again, and between two scans the file system changes in any way. A
history of **returned** scans has no failure in it; in a history of **attempted** scans any of them
may have failed, at any of its steps. Either way the index stays **tidy**: it knows only files and
directories that a scan of the root could have come to.

Whatever is called, an index stays **orderly**: its files and directories have normalized paths.
Both are cases of an index that is **confined** to some files and directories, and a step keeps it
so if the step only adds such files and directories.

Main results:

* `Indexer.confined_step` — a step keeps an index confined;
* `Indexer.tidy_scan` — a scan keeps an index tidy, whether it returns or fails;
* `Indexer.Attempted.tidy` — so every history leaves a tidy index;
* `Indexer.orderly_after_of_named` — every run of calls leaves an orderly index, as long as what is
  listed are names.
-/

namespace ClassTags

/-- The same settings on another file system. -/
def IndexContext.on (ctx : IndexContext) (fs : FileSystem) : IndexContext := { ctx with files := fs }

namespace Indexer

/-- The indexes that scans of a root lead to, each on a file system of its own. A scan may fail. -/
inductive Attempted (ctx : IndexContext) (root : Text) : Indexer → Prop
  | start : Attempted ctx root {}
  | scan {x : Indexer} {fs : FileSystem} (hx : Attempted ctx root x) (hfs : fs.WellNamed) :
    Attempted ctx root (Indexer.scan (ctx.on fs) root x).state

/-- The indexes that scans of a root lead to, each on a file system of its own, if every scan
returns. -/
inductive Returned (ctx : IndexContext) (root : Text) : Indexer → Prop
  | start : Returned ctx root {}
  | scan {x : Indexer} {fs : FileSystem} (hx : Returned ctx root x) (hfs : fs.WellNamed)
      (hOk : (Indexer.scan (ctx.on fs) root x).result = .ok ()) :
    Returned ctx root (Indexer.scan (ctx.on fs) root x).state

/-- A scan that has returned has been attempted. -/
theorem Returned.attempted {ctx : IndexContext} {root : Text} {x : Indexer}
    (h : Returned ctx root x) : Attempted ctx root x := by
  induction h with
  | start => exact .start
  | scan _ hfs _ ih => exact .scan ih hfs

/-- A directory that a scan below a base may come to. -/
def Searched (ctx : IndexContext) (b : Path.Base) (d : Text) : Prop :=
  ∃ ns, d = b.path ns ∧ ∀ m ∈ ns, m.1 ∉ ctx.ignoredDirs

/-- A directory that a scan below a base goes into. -/
def Entered (ctx : IndexContext) (b : Path.Base) (d : Text) : Prop :=
  Searched ctx b d ∧ ctx.files.kind d = .ok .directory

/-- A file that a scan below a base may check. -/
def Checkable (ctx : IndexContext) (b : Path.Base) (p : Text) : Prop :=
  ∃ ns n, p = b.path (ns ++ [n]) ∧ (∀ m ∈ ns, m.1 ∉ ctx.ignoredDirs) ∧
    ctx.sourceExtension.isSuffixOf n.1 = true

/-- An index that has only what a scan below a base may come to. -/
structure Tidy (ctx : IndexContext) (b : Path.Base) (x : Indexer) : Prop where
  held : x.registry.Held
  files : ∀ p ∈ x.registry.paths, Checkable ctx b p
  dirs : ∀ d ∈ x.dirs, Searched ctx b d
  distinct : x.dirs.Nodup

/-- An index whose files and directories are among the given ones. -/
structure Confined (F D : Text → Prop) (x : Indexer) : Prop where
  held : x.registry.Held
  files : ∀ p ∈ x.registry.paths, F p
  dirs : ∀ d ∈ x.dirs, D d
  distinct : x.dirs.Nodup

/-- An index whose files and directories have normalized paths. -/
abbrev Orderly : Indexer → Prop :=
  Confined (fun p => Registry.accepts p = true) (fun d => Registry.accepts d = true)

variable {ctx : IndexContext} {b : Path.Base}

theorem accepts_path (ns : List Path.Name) : Registry.accepts (b.path ns) = true :=
  Registry.accepts_iff.mpr ⟨b.isAbsolute_path ns, b.normalize_path ns⟩

/-- A file that a search may check has an acceptable path. -/
theorem Checkable.accepts {p : Text} (hp : Checkable ctx b p) : Registry.accepts p = true := by
  obtain ⟨ns, n, rfl, -⟩ := hp
  exact accepts_path _

/-- The name of a path ends as the path does. -/
theorem Checkable.isSuffixOf {p : Text} (hp : Checkable ctx b p) :
    ctx.sourceExtension.isSuffixOf p = true := by
  obtain ⟨ns, n, rfl, -, hExt⟩ := hp
  obtain ⟨front, hPath⟩ := b.exists_path_snoc_eq ns n
  rw [List.isSuffixOf_iff_suffix] at hExt ⊢
  rw [hPath]
  exact hExt.trans ((List.suffix_cons _ _).trans (List.suffix_append _ _))

end Indexer

/-- Checking a file tracks no other file that was not tracked. -/
theorem Registry.Held.mem_paths_check {defineCalls : List Text} {fs : FileSystem} {r : Registry}
    (hr : r.Held) {p q : Text} (hq : q ∈ (Registry.check defineCalls fs p r).state.paths) :
    q = p ∨ q ∈ r.paths := by
  cases hPath : Registry.accepts p with
  | false =>
    rw [Holdings.check_of_not_accepts hPath] at hq
    exact Or.inr hq
  | true =>
    obtain ⟨h, hs, rfl⟩ := hr
    obtain ⟨h', -, hState, hEnd⟩ := @Holdings.check_cases defineCalls fs p h hs hPath
    rw [hState, Holdings.paths_registry] at hq
    rw [Holdings.paths_registry]
    have hRest : q ∈ Table.names (h.remove p) → q ∈ Table.names h := by
      rw [Table.names_remove]
      exact fun hMem => List.mem_of_mem_filter hMem
    have hLast : ∀ t : Table ClassRecord, q ∈ Table.names (h.remove p ++ [(p, t)]) →
        q = p ∨ q ∈ Table.names h := by
      intro t hMem
      rw [Table.names_append] at hMem
      rcases List.mem_append.mp hMem with hMem | hMem
      · exact Or.inr (hRest hMem)
      · exact Or.inl (List.mem_singleton.mp hMem)
    generalize Registry.fileClasses defineCalls fs p = found at hEnd
    generalize (Registry.check defineCalls fs p (Holdings.registry h)).result = result at hEnd
    cases hEnd with
    | unread => exact Or.inr (hRest hq)
    | missing => exact Or.inr (hRest hq)
    | indexed => exact hLast _ hq
    | clash => exact hLast _ hq

namespace Indexer

-- ---------------------------------------------------------------------------
-- What every step keeps
-- ---------------------------------------------------------------------------

variable {ctx : IndexContext} {b : Path.Base}

section Confined

variable {F D : Text → Prop}

/-- A check tracks no other file than the one that is checked. -/
theorem confined_check {p : Text} (hp : Registry.accepts p = true → F p) :
    Action.Keeps (Confined F D) (Step.run ctx (.check p)) := by
  intro x hx
  rw [state_check_step]
  refine { hx with held := Registry.Held.check _ _ _ _ hx.held, files := ?_ }
  intro q hq
  cases hPath : Registry.accepts p with
  | false =>
    rw [Holdings.check_of_not_accepts hPath] at hq
    exact hx.files q hq
  | true =>
    rcases hx.held.mem_paths_check hq with rfl | hq
    · exact hp hPath
    · exact hx.files q hq

/-- To forget directories leaves an indexer within its bounds. -/
theorem Confined.forget {x : Indexer} (hx : Confined F D x) (d : Text) :
    Confined F D (x.forget d) where
  held := hx.held
  files := hx.files
  dirs e he := hx.dirs e (List.mem_of_mem_filter he)
  distinct := hx.distinct.filter _

/-- So does a removal, whose checks are for tracked files only. -/
theorem confined_remove (d : Text) : Action.Keeps (Confined F D) (remove ctx d) := by
  intro x hx
  by_cases hKnown : d ∈ x.dirs
  · rw [state_remove hKnown]
    refine Action.Keeps.forEach (fun p hp => confined_check fun _ => ?_) _ (hx.forget d)
    exact hx.files p (List.mem_of_mem_filter hp)
  · rw [remove_of_unknown hKnown]
    exact hx

theorem confined_retract (p : Text) :
    Action.Keeps (Confined F D) (retract p : Action Indexer IndexFailure Bool) := by
  refine Action.Keeps.bind Action.Keeps.state fun _ => ?_
  refine Action.Keeps.bind (Action.Keeps.update fun x hx => ?_) fun _ => Action.Keeps.pure _
  refine { hx with held := hx.held.retract p, files := ?_ }
  intro q hq
  apply hx.files q
  have hRemove : (x.registry.retract p).paths =
      x.registry.paths.filter fun q => decide (q ≠ p) := Table.names_remove p x.registry.sources
  rw [hRemove] at hq
  exact List.mem_of_mem_filter hq

/-- To learn of a directory within the bounds stays there. -/
theorem confined_learn {dir : Text} (hDir : D dir) :
    Action.Keeps (Confined F D) (learn dir : Action Indexer IndexFailure Unit) := by
  intro x hx
  rw [(learn_apply dir x).2]
  split
  · exact hx
  · rename_i hNew
    refine { hx with dirs := ?_, distinct := ?_ }
    · intro d hd
      rcases List.mem_append.mp hd with hd | hd
      · exact hx.dirs d hd
      · rw [List.mem_singleton.mp hd]
        exact hDir
    · rw [List.nodup_append]
      refine ⟨hx.distinct, List.nodup_singleton dir, ?_⟩
      intro d hd e he hEq
      rw [List.mem_singleton.mp he] at hEq
      exact hNew (hEq ▸ hd)

/-- To close a directory learns of that directory, and forgets and retracts others. -/
theorem confined_close {dir : Text} (hDir : D dir) :
    Action.Keeps (Confined F D) (Step.run ctx (.close dir)) := by
  refine Action.Keeps.bind ?_ fun _ => confined_learn hDir
  refine Action.Keeps.bind Action.Keeps.state fun x => ?_
  refine Action.Keeps.bind (Action.Keeps.forEach fun d _ => ?_) fun _ => ?_
  · exact Action.Keeps.bind (confined_remove d) fun _ => Action.Keeps.pure ()
  · refine Action.Keeps.bind Action.Keeps.state fun y => Action.Keeps.forEach fun p _ => ?_
    exact Action.Keeps.bind (confined_retract p) fun _ => Action.Keeps.pure ()

/-- A step in a directory keeps an index confined if it may have the directory and what is checked
in it. -/
theorem confined_step {dir : Text} (hDir : D dir)
    (hFiles : ∀ p ∈ sources ctx dir, Registry.accepts p = true → F p) {s : Step}
    (hs : s ∈ steps ctx dir) : Action.Keeps (Confined F D) (Step.run ctx s) := by
  rcases mem_steps hs with ⟨p, rfl⟩ | ⟨f, p, rfl⟩ | ⟨p, hp, rfl⟩ | ⟨rfl, -⟩ | ⟨rfl, -⟩
  · exact Action.Keeps.note _
  · exact Action.Keeps.fail _
  · exact confined_check (hFiles p hp)
  · exact confined_close hDir
  · exact Action.Keeps.bind (confined_remove dir) fun _ => Action.Keeps.pure ()

end Confined

/-- Being tidy is being confined to what a scan may come to. -/
theorem tidy_iff {x : Indexer} :
    Tidy ctx b x ↔ Confined (Checkable ctx b) (Searched ctx b) x :=
  ⟨fun h => ⟨h.held, h.files, h.dirs, h.distinct⟩, fun h => ⟨h.held, h.files, h.dirs, h.distinct⟩⟩

/-- Being tidy does not depend on the file system. -/
theorem tidy_on {fs : FileSystem} {x : Indexer} : Tidy (ctx.on fs) b x ↔ Tidy ctx b x :=
  ⟨fun h => ⟨h.held, h.files, h.dirs, h.distinct⟩, fun h => ⟨h.held, h.files, h.dirs, h.distinct⟩⟩

theorem tidy_empty : Tidy ctx b {} where
  held := Registry.Held.empty
  files := nofun
  dirs := nofun
  distinct := List.nodup_nil

/-- A tidy indexer is orderly. -/
theorem Tidy.orderly {x : Indexer} (hx : Tidy ctx b x) : Orderly x where
  held := hx.held
  files p hp := (hx.files p hp).accepts
  dirs := by
    intro d hd
    obtain ⟨ns, rfl, -⟩ := hx.dirs d hd
    exact accepts_path ns
  distinct := hx.distinct

theorem tidy_close {dir : Text} (hDir : Searched ctx b dir) :
    Action.Keeps (Tidy ctx b) (Step.run ctx (.close dir)) :=
  fun x hx => tidy_iff.mpr (confined_close hDir x (tidy_iff.mp hx))

/-- A source file of a directory that is searched is one that may be checked. -/
theorem checkable_of_mem_sources (hfs : ctx.files.WellNamed) {dir p : Text}
    (hDir : Searched ctx b dir) (hp : p ∈ sources ctx dir) : Checkable ctx b p := by
  obtain ⟨ns, rfl, hns⟩ := hDir
  obtain ⟨n, hEq, -, hExt⟩ := of_mem_sources hfs hp
  exact ⟨ns, n, hEq, hns, hExt⟩

/-- Every step for a directory of the search leaves the indexer tidy. -/
theorem tidy_step (hfs : ctx.files.WellNamed) {dir : Text} (hDir : Searched ctx b dir) {s : Step}
    (hs : s ∈ steps ctx dir) : Action.Keeps (Tidy ctx b) (Step.run ctx s) := by
  intro x hx
  have hFiles : ∀ p ∈ sources ctx dir, Registry.accepts p = true → Checkable ctx b p :=
    fun p hp _ => checkable_of_mem_sources hfs hDir hp
  exact tidy_iff.mpr (confined_step hDir hFiles hs x (tidy_iff.mp hx))

/-- So do the steps for some of its entries. -/
theorem tidy_entries (hfs : ctx.files.WellNamed) {dir : Text} (hDir : Searched ctx b dir)
    {names : List Text} (hNames : ∀ n ∈ names, n ∈ listed ctx dir) :
    Action.Keeps (Tidy ctx b)
      (Action.forEach (Step.run ctx) (names.flatMap (entrySteps ctx dir))) := by
  refine Action.Keeps.forEach fun s hs => ?_
  obtain ⟨name, hName, hs⟩ := List.mem_flatMap.mp hs
  exact tidy_step hfs hDir (mem_steps_of_entry (hNames name hName) hs)

-- ---------------------------------------------------------------------------
-- What every scan keeps
-- ---------------------------------------------------------------------------

/-- The directories on the route are those of the search. -/
theorem searched_of_mem_route {root dir : Text} (hfs : ctx.files.WellNamed)
    (hRoot : Path.normalize root = b.path []) (hDir : dir ∈ route ctx root) :
    Searched ctx b dir := by
  obtain ⟨ns, rfl⟩ := exists_names_of_mem_route hfs hRoot hDir
  refine ⟨ns, rfl, ?_⟩
  -- from the directory up to the root, every name has been found by the scan
  induction ns using List.reverseRecOn with
  | nil => exact nofun
  | append_singleton ns n ih =>
    obtain ⟨hParent, hSubdir⟩ := (mem_route_snoc hfs hRoot).mp hDir
    obtain ⟨m, hEq, -, hIgnored⟩ := of_mem_subdirs hfs hSubdir
    obtain ⟨-, hLast⟩ := List.append_inj' (b.path_inj.mp hEq) rfl
    intro k hk
    rcases List.mem_append.mp hk with hk | hk
    · exact ih hParent k hk
    · rw [List.mem_singleton.mp hk, List.singleton_inj.mp hLast]
      exact hIgnored

/-- The steps for directories on the route leave the indexer tidy. -/
theorem tidy_run {root : Text} (hfs : ctx.files.WellNamed)
    (hRoot : Path.normalize root = b.path []) {dirs : List Text}
    (hDirs : ∀ dir ∈ dirs, dir ∈ route ctx root) : Action.Keeps (Tidy ctx b) (run ctx dirs) := by
  refine Action.Keeps.forEach fun s hs => ?_
  obtain ⟨dir, hDir, hs⟩ := List.mem_flatMap.mp hs
  exact tidy_step hfs (searched_of_mem_route hfs hRoot (hDirs dir hDir)) hs

/-- **A scan keeps an index tidy, whether it returns or fails.** -/
theorem tidy_scan {root : Text} (hfs : ctx.files.WellNamed)
    (hRoot : Path.normalize root = b.path []) : Action.Keeps (Tidy ctx b) (scan ctx root) := by
  intro x hx
  cases hAbsolute : Path.isAbsolute root with
  | false =>
    rw [scan_of_relative hAbsolute]
    exact hx
  | true =>
    rw [scan_eq_run hfs hRoot hAbsolute]
    exact tidy_run hfs hRoot (fun _ h => h) x hx

/-- **Attempts leave the indexer tidy**, whether they return or fail. -/
theorem Attempted.tidy {root : Text} {x : Indexer} (hRoot : Path.normalize root = b.path [])
    (h : Attempted ctx root x) : Tidy ctx b x := by
  induction h with
  | start => exact tidy_empty
  | scan _ hfs ih => exact tidy_on.mp (tidy_scan hfs hRoot _ (tidy_on.mpr ih))

-- ---------------------------------------------------------------------------
-- What every call keeps
-- ---------------------------------------------------------------------------

/-- A name joined to an acceptable path gives an acceptable path. -/
theorem accepts_join {dir name : Text} (hDir : Registry.accepts dir = true)
    (hName : Path.IsName name) : Registry.accepts (Path.join dir name) = true := by
  obtain ⟨hAbsolute, hNormal⟩ := Registry.accepts_iff.mp hDir
  obtain ⟨b, hBase⟩ := Path.exists_base hAbsolute
  rw [← hNormal, hBase, b.join_path [] ⟨name, hName⟩]
  exact accepts_path _

/-- A normalized absolute path is acceptable. -/
theorem accepts_normalize {root : Text} (hAbsolute : Path.isAbsolute root = true) :
    Registry.accepts (Path.normalize root) = true := by
  obtain ⟨b, hBase⟩ := Path.exists_base hAbsolute
  rw [hBase]
  exact accepts_path []

section Named

variable (hNamed : ctx.files.Named)

include hNamed

/-- What is listed is a name. -/
theorem isName_of_mem_listed {dir name : Text} (hName : name ∈ listed ctx dir) :
    Path.IsName name := by
  cases hList : ctx.files.list dir with
  | error f =>
    rw [listed_of_error hList] at hName
    exact absurd hName List.not_mem_nil
  | ok names =>
    rw [listed_of_list hList, mem_sorted] at hName
    exact hNamed dir names hList name hName

/-- What a scan goes into from a directory with a normalized path has a normalized path too. -/
theorem accepts_of_mem_subdirs (dir : Text) (hDir : Registry.accepts dir = true) :
    ∀ e ∈ subdirs ctx dir, Registry.accepts e = true := by
  intro e he
  obtain ⟨name, hName, hSubdir⟩ := List.mem_filterMap.mp he
  obtain ⟨rfl, -⟩ := subdir?_eq_some.mp hSubdir
  exact accepts_join hDir (isName_of_mem_listed hNamed hName)

/-- So has what it checks there. -/
theorem accepts_of_mem_sources {dir : Text} (hDir : Registry.accepts dir = true) :
    ∀ p ∈ sources ctx dir, Registry.accepts p = true := by
  intro p hp
  obtain ⟨name, hName, hSource⟩ := List.mem_filterMap.mp hp
  obtain ⟨rfl, -⟩ := source?_eq_some.mp hSource
  exact accepts_join hDir (isName_of_mem_listed hNamed hName)

/-- A scan leaves an orderly indexer so. -/
theorem orderly_scan (root : Text) : Action.Keeps Orderly (scan ctx root) :=
  scan_of_steps Action.Keeps.compositional (accepts_of_mem_subdirs hNamed)
    (fun _ hDir _ hs => confined_step hDir (fun _ _ hp => hp) hs) accepts_normalize
    fun _ => Action.Keeps.fail _

/-- Every call leaves an orderly indexer so. -/
theorem orderly_call (call : Call) : Action.Keeps Orderly (call.run ctx) := by
  cases call with
  | check p => exact confined_check fun hp => hp
  | retract p => exact Action.Keeps.bind (confined_retract p) fun _ => Action.Keeps.pure ()
  | remove d => exact Action.Keeps.bind (confined_remove d) fun _ => Action.Keeps.pure ()
  | scan root => exact orderly_scan hNamed root

end Named

/-- **Every run of calls leaves an orderly index**, each call on a file system of its own and each
of them returning or failing. -/
theorem orderly_after_of_named {calls : List (IndexContext × Call)}
    (hCalls : ∀ call ∈ calls, call.1.files.Named) {x : Indexer} (hx : Orderly x) :
    Orderly (x.after calls) := by
  induction calls generalizing x with
  | nil => exact hx
  | cons call calls ih =>
    exact ih (fun c hc => hCalls c (List.mem_cons_of_mem call hc))
      (orderly_call (hCalls call List.mem_cons_self) call.2 x hx)

/-- **Every run of calls leaves an orderly indexer so**, by induction on the run. -/
theorem orderly_after {calls : List (IndexContext × Call)}
    (hCalls : ∀ call ∈ calls, call.1.files.WellNamed) {x : Indexer} (hx : Orderly x) :
    Orderly (x.after calls) :=
  orderly_after_of_named (fun call hCall => (hCalls call hCall).named) hx

end Indexer

end ClassTags
