import ClassTags.Proofs.Check
import ClassTags.Proofs.Histories

/-!
# Live files

Every operation of an indexer drops files before it reads them again, and closing a directory drops
files outright. Once a file has been indexed, it still keeps its classes for as long as its bytes
stay what they are and nobody asks to drop it, with one exception: a scan **sweeps** away what can
be opened without being a regular file, if it ends like a source file and the scan closes its
directory. Apart from that it does not matter where the file lies, how its name ends, which calls
come, or whether they fail.

The argument is one invariant, `Registry.Holds`: the file stands in the registry with the classes
that its bytes define.

* A check of the file itself puts the same classes back, for its names are free once it is dropped.
* A check of another file fails at the first class that the file holds, and takes nothing from it.
* Closing a directory drops only files that the scan has not found there, and a source file that is
  there is found, if it is a regular one.

Main definitions:

* `Registry.Indexed` — the last check of a file has read some bytes and indexed the file;
* `Registry.Kept` — a file stands in a registry as it stood in another;
* `Indexer.Irregular` — something that ends like a source file without being a regular file;
* `Indexer.Sweeps` — a scan that closes the directory of an irregular file.

Main results:

* `Indexer.exists_checked_after` — how the tracked files of an index came into it;
* `Registry.Holds.check` — checking any file keeps the classes of a file that has not changed;
* `Indexer.mem_sources_of_file` — a scan finds every source file that is in a directory;
* `Indexer.holds_scan`, `Indexer.not_mem_paths_of_sweeps` — what a scan leaves of a file;
* `Indexer.live_file_kept_iff` — a run of calls keeps a file that is there as long as no scan sweeps it
  away.
-/

namespace ClassTags

namespace Registry

/-- The registries in which the last check of a file has read the given bytes and ended as given.
Since then, other files may have been checked and dropped. -/
inductive Checked (defineCalls : List Text) (path : Text) (bytes : List UInt8)
    (result : Except IndexFailure Bool) : Registry → Prop
  | check {r : Registry} {fs : FileSystem} (hr : Reached r) (hRead : fs.read path = .ok bytes)
      (hEnd : (Registry.check defineCalls fs path r).result = result) :
    Checked defineCalls path bytes result (Registry.check defineCalls fs path r).state
  | checkOther {r : Registry} (hr : Checked defineCalls path bytes result r)
      (defineCalls' : List Text) (fs : FileSystem) {other : Text} (hOther : other ≠ path) :
    Checked defineCalls path bytes result (Registry.check defineCalls' fs other r).state
  | retractOther {r : Registry} (hr : Checked defineCalls path bytes result r) {other : Text}
      (hOther : other ≠ path) : Checked defineCalls path bytes result (r.retract other)

/-- The registries in which the last check of a file has read the given bytes and indexed the
file. -/
abbrev Indexed (defineCalls : List Text) (path : Text) (bytes : List UInt8) : Registry → Prop :=
  Checked defineCalls path bytes (.ok true)

/-- A file stands in a registry as it stood in another, with the same classes and records. -/
structure Kept (path : Text) (r r' : Registry) : Prop where
  tracked : r'.tracks path = true
  owned_eq : r'.owned path = r.owned path
  records : ∀ name ∈ r.owned path, ∃ c, r.record? name = some c ∧ r'.record? name = some c

theorem tracks_iff {path : Text} {r : Registry} : r.tracks path = true ↔ path ∈ r.paths := by
  have hNone : r.sources.lookup path = none ↔ path ∉ r.paths := Table.lookup_eq_none_iff_not_mem
  unfold tracks
  rw [← not_iff_not, Bool.not_eq_true, Option.isSome_eq_false_iff, Option.isNone_iff_eq_none, hNone]

/-- The file stands in the registry with the given classes. -/
def Holds (path : Text) (t : Table ClassRecord) (r : Registry) : Prop :=
  ∃ h, Holdings.Sound h ∧ r = Holdings.registry h ∧ (path, t) ∈ h

namespace Holds

variable {path : Text} {t : Table ClassRecord} {r : Registry}

-- ---------------------------------------------------------------------------
-- What a registry shows of a file
-- ---------------------------------------------------------------------------

/-- A file that is held is tracked. -/
theorem tracks (hr : Holds path t r) : r.tracks path = true := by
  obtain ⟨h, hs, rfl, hFile⟩ := hr
  have hLookup : (Holdings.registry h).sources.lookup path = (h.lookup path).map Table.names :=
    Table.lookup_map Table.names h
  unfold Registry.tracks
  rw [hLookup, (Table.lookup_eq_some_iff_mem hs.distinctPaths).mpr hFile]
  rfl

theorem owned_eq (hr : Holds path t r) : r.owned path = Table.names t := by
  obtain ⟨h, hs, rfl, hFile⟩ := hr
  rw [Holdings.owned_registry, (Table.lookup_eq_some_iff_mem hs.distinctPaths).mpr hFile]
  rfl

/-- The classes of a file that is held are found by their names. -/
theorem record?_eq (hr : Holds path t r) {name : Text} {c : ClassRecord} (hEntry : (name, c) ∈ t) :
    r.record? name = some c := by
  obtain ⟨h, hs, rfl, hFile⟩ := hr
  rw [Holdings.record?_registry, Table.lookup_eq_some_iff_mem hs.distinctClasses]
  exact List.mem_flatMap.mpr ⟨(path, t), hFile, hEntry⟩

-- ---------------------------------------------------------------------------
-- What the operations of a registry leave of a file
-- ---------------------------------------------------------------------------

theorem mem_remove_of_ne {h : Holdings} {other : Text} (hFile : (path, t) ∈ h) (hOther : other ≠ path) :
    (path, t) ∈ h.remove other := by
  rw [Table.remove, List.mem_filter]
  exact ⟨hFile, by simpa using hOther.symm⟩

/-- To retract another file leaves a file as it is held. -/
theorem retract_other (hr : Holds path t r) {other : Text} (hOther : other ≠ path) :
    Holds path t (r.retract other) := by
  obtain ⟨h, hs, rfl, hFile⟩ := hr
  exact ⟨h.remove other, hs.remove other, Holdings.registry_retract hs other,
    mem_remove_of_ne hFile hOther⟩

/-- To check another file does, even if that file has a class of the same name. -/
theorem check_other (hr : Holds path t r) (defineCalls : List Text) (fs : FileSystem) {other : Text}
    (hOther : other ≠ path) : Holds path t (Registry.check defineCalls fs other r).state := by
  cases hPath : accepts other with
  | false =>
    rw [Holdings.check_of_not_accepts hPath]
    exact hr
  | true =>
    obtain ⟨h, hs, rfl, hFile⟩ := hr
    obtain ⟨h', hs', hState, hEnd⟩ := @Holdings.check_cases defineCalls fs other h hs hPath
    have hRest : (path, t) ∈ h'.remove other := by
      rw [hEnd.remove_eq]
      exact mem_remove_of_ne hFile hOther
    exact ⟨h', hs', hState, List.mem_of_mem_filter hRest⟩

/-- To check a file that has not changed holds the same classes again. -/
theorem check_self {defineCalls : List Text} {fs : FileSystem} {cs : List ClassRecord}
    (hr : Holds path (Holdings.gather [] cs) r)
    (hFile : fileClasses defineCalls fs path = .ok (some cs)) :
    Holds path (Holdings.gather [] cs) (Registry.check defineCalls fs path r).state := by
  cases hPath : accepts path with
  | false =>
    rw [Holdings.check_of_not_accepts hPath]
    exact hr
  | true =>
    obtain ⟨h, hs, rfl, hMem⟩ := hr
    obtain ⟨h', hs', hState, hEnd⟩ := @Holdings.check_cases defineCalls fs path h hs hPath
    refine ⟨h', hs', hState, ?_⟩
    rw [hFile] at hEnd
    generalize (Registry.check defineCalls fs path _).result = result at hEnd
    cases hEnd with
    | indexed => exact List.mem_append_right _ List.mem_cons_self
    | clash before c after holder u hFree hHolder hName =>
      -- the class was held by the file, so no other file can hold it
      exfalso
      have hOwn : c.name ∈ Table.names (Holdings.gather [] (before ++ c :: after)) :=
        Holdings.mem_names_gather.mpr
          (Or.inr ⟨c, List.mem_append_right _ List.mem_cons_self, rfl⟩)
      have hSame : holder = path :=
        hs.path_unique (List.mem_of_mem_filter hHolder) hMem hName hOwn
      have hGone : path ∉ Table.names (h.remove path) := Table.not_mem_names_remove path h
      rw [hSame] at hHolder
      exact hGone (Table.mem_names_of_mem hHolder)

/-- Checking any file keeps the classes of a file that has not changed. -/
theorem check {defineCalls : List Text} {fs : FileSystem} {cs : List ClassRecord}
    (hFile : fileClasses defineCalls fs path = .ok (some cs)) (p : Text) :
    Action.Keeps (Holds path (Holdings.gather [] cs)) (Registry.check defineCalls fs p) := by
  intro r hr
  by_cases hp : p = path
  · subst hp
    exact hr.check_self hFile
  · exact hr.check_other defineCalls fs hp

end Holds

/-- A file that holds the same classes in two registries stands in the one as in the other. -/
theorem Holds.kept {path : Text} {t : Table ClassRecord} {r r' : Registry} (hr : Holds path t r)
    (hr' : Holds path t r') : Kept path r r' where
  tracked := hr'.tracks
  owned_eq := hr'.owned_eq.trans hr.owned_eq.symm
  records := by
    intro name hName
    rw [hr.owned_eq] at hName
    obtain ⟨c, hc⟩ := Table.mem_names.mp hName
    exact ⟨c, hr.record?_eq hc, hr'.record?_eq hc⟩

/-- A check of a file that leaves the file tracked has opened it. It has indexed the file, or it has
met a class of another file. -/
theorem Reached.checked_of_check {defineCalls : List Text} {fs : FileSystem} {path : Text}
    {r : Registry} (hr : Reached r) (hPath : accepts path = true)
    (hTracked : path ∈ (Registry.check defineCalls fs path r).state.paths) :
    ∃ bytes, Indexed defineCalls path bytes (Registry.check defineCalls fs path r).state ∨
      ∃ name holder, Checked defineCalls path bytes (.error (.duplicate name holder path))
        (Registry.check defineCalls fs path r).state := by
  have hRead : ∀ cs, fileClasses defineCalls fs path = .ok (some cs) →
      ∃ bytes, fs.read path = .ok bytes := by
    intro cs hcs
    unfold fileClasses at hcs
    split at hcs
    · exact nomatch hcs
    · exact nomatch hcs
    · exact ⟨_, ‹_›⟩
  obtain ⟨h, hs, hEq⟩ := hr.held
  obtain ⟨h', -, hState, hEnd⟩ := @Holdings.check_cases defineCalls fs path h hs hPath
  rw [← hEq] at hState hEnd
  have hGone : path ∉ Table.names (h.remove path) := Table.not_mem_names_remove path h
  rw [hState, Holdings.paths_registry] at hTracked
  generalize hFound : fileClasses defineCalls fs path = found at hEnd
  generalize hResult : (Registry.check defineCalls fs path r).result = result at hEnd
  -- a check that leaves the file tracked has opened it
  cases hEnd with
  | unread => exact absurd hTracked hGone
  | missing => exact absurd hTracked hGone
  | indexed cs =>
    obtain ⟨bytes, hBytes⟩ := hRead _ hFound
    exact ⟨bytes, Or.inl (.check hr hBytes hResult)⟩
  | clash before c after holder =>
    obtain ⟨bytes, hBytes⟩ := hRead _ hFound
    exact ⟨bytes, Or.inr ⟨c.name, holder, .check hr hBytes hResult⟩⟩

/-- **How a tracked file came into the registry.** Its last check has opened it, and has indexed it
or met a class of another file. -/
theorem Reached.exists_checked {path : Text} {r : Registry} (hr : Reached r)
    (hTracked : path ∈ r.paths) :
    ∃ defineCalls bytes, Indexed defineCalls path bytes r ∨
      ∃ name holder, Checked defineCalls path bytes (.error (.duplicate name holder path)) r := by
  induction hr with
  | empty => exact absurd hTracked List.not_mem_nil
  | @check r hr defineCalls fs q ih =>
    cases hPath : accepts q with
    | false =>
      rw [Holdings.check_of_not_accepts hPath] at hTracked ⊢
      exact ih hTracked
    | true =>
      -- a check of the file itself is its last one, a check of another file changes nothing
      by_cases hq : q = path
      · subst hq
        obtain ⟨bytes, hChecked⟩ := hr.checked_of_check hPath hTracked
        exact ⟨defineCalls, bytes, hChecked⟩
      · have hBefore := (hr.held.mem_paths_check hTracked).resolve_left (Ne.symm hq)
        obtain ⟨defineCalls', bytes, hLast⟩ := ih hBefore
        refine ⟨defineCalls', bytes, hLast.imp (fun h => h.checkOther defineCalls fs hq) ?_⟩
        rintro ⟨name, holder, h⟩
        exact ⟨name, holder, h.checkOther defineCalls fs hq⟩
  | @retract r hr q ih =>
    have hPaths : (r.retract q).paths = r.paths.filter fun p => decide (p ≠ q) :=
      Table.names_remove q r.sources
    rw [hPaths, List.mem_filter, decide_eq_true_eq] at hTracked
    obtain ⟨hBefore, hOther⟩ := hTracked
    obtain ⟨defineCalls, bytes, hLast⟩ := ih hBefore
    refine ⟨defineCalls, bytes, hLast.imp (fun h => h.retractOther (Ne.symm hOther)) ?_⟩
    rintro ⟨name, holder, h⟩
    exact ⟨name, holder, h.retractOther (Ne.symm hOther)⟩

/-- A file that has been indexed stands in the registry with the classes that its bytes define. -/
theorem Indexed.exists_holds {defineCalls : List Text} {path : Text} {bytes : List UInt8}
    {r : Registry} (hr : Indexed defineCalls path bytes r) :
    accepts path = true ∧ ∃ cs, classesOfBytes defineCalls path bytes = .ok cs ∧
      Holds path (Holdings.gather [] cs) r := by
  -- the induction is on what has happened since the last check of the file
  induction hr with
  | @check r fs hr hRead hOk =>
    have hPath : accepts path = true := by
      by_contra hNot
      rw [Holdings.check_of_not_accepts (Bool.eq_false_iff.mpr hNot)] at hOk
      exact nomatch hOk
    obtain ⟨h, hs, rfl⟩ := hr.held
    obtain ⟨h', hs', hState, hEnd⟩ := @Holdings.check_cases defineCalls fs path h hs hPath
    have hFile := @fileClasses_of_bytes defineCalls fs path bytes hRead
    refine ⟨hPath, ?_⟩
    rw [hOk, hFile] at hEnd
    cases hClasses : classesOfBytes defineCalls path bytes with
    | error cause =>
      rw [hClasses] at hEnd
      exact nomatch hEnd
    | ok cs =>
      rw [hClasses] at hEnd
      refine ⟨cs, rfl, h', hs', hState, ?_⟩
      cases hEnd with
      | indexed => exact List.mem_append_right _ List.mem_cons_self
  | checkOther _ defineCalls' fs hOther ih =>
    obtain ⟨hPath, cs, hClasses, hHolds⟩ := ih
    exact ⟨hPath, cs, hClasses, hHolds.check_other defineCalls' fs hOther⟩
  | retractOther _ hOther ih =>
    obtain ⟨hPath, cs, hClasses, hHolds⟩ := ih
    exact ⟨hPath, cs, hClasses, hHolds.retract_other hOther⟩

end Registry

namespace Indexer

-- ---------------------------------------------------------------------------
-- How files come into an index
-- ---------------------------------------------------------------------------

/-- **How a tracked file came into an index.** After any run of calls, each returning or failing,
the last check of the file has opened it, and has indexed it or met a class of another file. -/
theorem exists_checked_after (dirs : List Text) (calls : List (IndexContext × Call)) {path : Text}
    (hTracked : path ∈ (after { dirs } calls).registry.paths) :
    ∃ defineCalls bytes,
      (after { dirs } calls).registry.Indexed defineCalls path bytes ∨
        ∃ name holder, (after { dirs } calls).registry.Checked defineCalls path bytes
          (.error (.duplicate name holder path)) :=
  (reached_after dirs calls).exists_checked hTracked

/-- A check by name that has found the file has indexed it, with the bytes that it has now. -/
theorem indexed_of_check (dirs : List Text) (calls : List (IndexContext × Call))
    {ctx : IndexContext} {path : Text} {bytes : List UInt8} (hRead : ctx.files.read path = .ok bytes)
    (hOk : (check ctx path (after { dirs } calls)).result = .ok true) :
    (check ctx path (after { dirs } calls)).state.registry.Indexed ctx.defineCalls path bytes :=
  .check (reached_after dirs calls) hRead hOk

-- ---------------------------------------------------------------------------
-- What a scan finds
-- ---------------------------------------------------------------------------

/-- What can be opened lies in a directory. -/
theorem kind_parent_of_opens {ctx : IndexContext} {path : Text}
    (hPath : Registry.accepts path = true) (hOpens : Opens ctx path) :
    ctx.files.kind (Path.parent path) = .ok .directory := by
  obtain ⟨hAbsolute, hNormal⟩ := Registry.accepts_iff.mp hPath
  obtain ⟨bytes, hRead⟩ := hOpens
  obtain ⟨k, hKind, hNot⟩ := FileSystem.kind_of_read hRead
  obtain ⟨b, ⟨hNames, rfl⟩ | ⟨n, rfl⟩⟩ := Path.exists_base_snoc hAbsolute hNormal
  · -- the root is a directory
    rw [FileSystem.kind_root hNames] at hKind
    exact absurd (Except.ok.inj hKind).symm hNot
  · have hParent : Path.parent (b.path [n]) = b.path [] := b.parent_path [] n
    rw [hParent]
    exact FileSystem.kind_above (List.cons_ne_nil n []) hKind

/-- **A scan finds every source file that is in a directory.** The directory compares whole paths
with the extension and the scan compares names, but these agree if the extension has no slash. -/
theorem mem_sources_of_file {ctx : IndexContext} {path : Text} {names : List Text}
    (hPath : Registry.accepts path = true) (hSlash : Path.separator ∉ ctx.sourceExtension)
    (hKind : ctx.files.kind path = .ok .file)
    (hList : ctx.files.list (Path.parent path) = .ok names)
    (hExt : ctx.sourceExtension.isSuffixOf path = true) : path ∈ sources ctx (Path.parent path) := by
  obtain ⟨hAbsolute, hNormal⟩ := Registry.accepts_iff.mp hPath
  obtain ⟨b, ⟨hNames, rfl⟩ | ⟨n, rfl⟩⟩ := Path.exists_base_snoc hAbsolute hNormal
  · -- the root is a directory
    rw [FileSystem.kind_root hNames] at hKind
    exact nomatch hKind
  · have hParent : Path.parent (b.path [n]) = b.path [] := b.parent_path [] n
    have hJoin : Path.join (b.path []) n.1 = b.path [n] := b.join_path [] n
    have hName : ctx.sourceExtension.isSuffixOf n.1 = true := by
      rw [← List.nil_append [n]] at hExt
      exact b.isSuffixOf_name hSlash hExt
    rw [hParent] at hList ⊢
    have hMem : n.1 ∈ listed ctx (b.path []) := by
      rw [listed_of_list hList, mem_sorted]
      rw [← hJoin] at hKind
      exact FileSystem.mem_of_kind_join n.2 hList hKind
    exact List.mem_filterMap.mpr ⟨n.1, hMem, source?_eq_some.mpr ⟨hJoin.symm, hKind, hName⟩⟩

-- ---------------------------------------------------------------------------
-- What the operations of an indexer leave of a file
-- ---------------------------------------------------------------------------

section Live

variable {ctx : IndexContext} {path : Text} {cs : List ClassRecord}
  (hFile : Registry.fileClasses ctx.defineCalls ctx.files path = .ok (some cs))

include hFile

/-- Checks keep a file that has not changed. -/
theorem holds_check (p : Text) :
    Action.Keeps (fun x => x.registry.Holds path (Holdings.gather [] cs))
      (Step.run ctx (.check p)) := by
  intro x hx
  rw [state_check_step]
  exact Registry.Holds.check hFile p _ hx

/-- The removal of a directory keeps it, since it is found where it was. -/
theorem holds_remove (dir : Text) :
    Action.Keeps (fun x => x.registry.Holds path (Holdings.gather [] cs)) (remove ctx dir) := by
  intro x hx
  by_cases hKnown : dir ∈ x.dirs
  · rw [state_remove hKnown]
    exact Action.Keeps.forEach (fun p _ => holds_check hFile p) (x.forget dir) hx
  · rw [remove_of_unknown hKnown]
    exact hx

omit hFile in
theorem holds_retract {t : Table ClassRecord} {p : Text} (hp : p ≠ path) :
    Action.Keeps (fun x => x.registry.Holds path t)
      (retract p : Action Indexer IndexFailure Bool) := by
  refine Action.Keeps.bind Action.Keeps.state fun x => ?_
  refine Action.Keeps.bind (Action.Keeps.update ?_) fun _ => Action.Keeps.pure _
  intro y hy
  exact hy.retract_other hp

theorem holds_removeAll (ds : List Text) :
    Action.Keeps (fun x => x.registry.Holds path (Holdings.gather [] cs)) (removeAll ctx ds) :=
  Action.Keeps.forEach fun d _ => Action.Keeps.bind (holds_remove hFile d) fun _ => Action.Keeps.pure ()

/-- Closing a directory keeps a file, unless the file should have been found there. -/
theorem holds_close {dir : Text}
    (hFound : Path.parent path = dir → ctx.sourceExtension.isSuffixOf path = true →
      path ∈ sources ctx dir) :
    Action.Keeps (fun x => x.registry.Holds path (Holdings.gather [] cs))
      (Step.run ctx (.close dir)) := by
  refine Action.Keeps.bind ?_ fun _ => learn_keeps dir
  refine Action.Keeps.bind Action.Keeps.state fun x => ?_
  refine Action.Keeps.bind (holds_removeAll hFile _) fun _ => ?_
  refine Action.Keeps.bind Action.Keeps.state fun y => Action.Keeps.forEach fun p hp => ?_
  refine Action.Keeps.bind (holds_retract ?_) fun _ => Action.Keeps.pure ()
  rintro rfl
  obtain ⟨-, hParent, hExt, hNot⟩ := mem_goneFiles.mp hp
  exact hNot (hFound hParent hExt)

/-- When closing a directory fails, no file has been dropped yet. -/
theorem holds_close_of_error {dir : Text} {x : Indexer} {e : IndexFailure}
    (hError : (Step.run ctx (.close dir) x).result = .error e)
    (hx : x.registry.Holds path (Holdings.gather [] cs)) :
    (Step.run ctx (.close dir) x).state.registry.Holds path (Holdings.gather [] cs) := by
  rw [close_step_result] at hError
  rw [close_step_eq, Action.state_bind_of_error hError]
  exact holds_removeAll hFile _ x hx

/-- A step keeps a file, unless it closes the directory of a source file that it has not found. -/
theorem holds_step {dir : Text} {s : Step} (hs : s ∈ steps ctx dir)
    (hFound : Path.parent path = dir → ctx.sourceExtension.isSuffixOf path = true →
      ∀ names, ctx.files.list dir = .ok names → path ∈ sources ctx dir) :
    Action.Keeps (fun x => x.registry.Holds path (Holdings.gather [] cs)) (Step.run ctx s) := by
  rcases mem_steps hs with ⟨p, rfl⟩ | ⟨f, p, rfl⟩ | ⟨p, -, rfl⟩ | ⟨rfl, names, hList⟩ | ⟨rfl, -⟩
  · exact Action.Keeps.note _
  · exact Action.Keeps.fail _
  · exact holds_check hFile p
  · exact holds_close hFile fun hParent hExt => hFound hParent hExt names hList
  · exact Action.Keeps.bind (holds_remove hFile dir) fun _ => Action.Keeps.pure ()

/-- When the steps for a directory fail, no file has been dropped yet. -/
theorem holds_steps_of_error {dir : Text} {x : Indexer} {e : IndexFailure}
    (hError : (Action.forEach (Step.run ctx) (steps ctx dir) x).result = .error e)
    (hx : x.registry.Holds path (Holdings.gather [] cs)) :
    (Action.forEach (Step.run ctx) (steps ctx dir) x).state.registry.Holds path
      (Holdings.gather [] cs) := by
  -- the steps for entries only check, note or fail
  have hEntries : Action.Keeps (fun x => x.registry.Holds path (Holdings.gather [] cs))
      (Action.forEach (Step.run ctx) ((listed ctx dir).flatMap (entrySteps ctx dir))) := by
    refine Action.Keeps.forEach fun s hs => ?_
    obtain ⟨name, -, hs⟩ := List.mem_flatMap.mp hs
    rcases entrySteps_cases ctx dir name with ⟨hSteps, -⟩ | ⟨p, hSteps, -⟩ | ⟨f, p, hSteps, -⟩ |
      ⟨p, hSteps, -⟩
    · rw [hSteps] at hs
      exact absurd hs List.not_mem_nil
    · rw [hSteps, List.mem_singleton] at hs
      exact hs ▸ Action.Keeps.note _
    · rw [hSteps, List.mem_singleton] at hs
      exact hs ▸ Action.Keeps.fail _
    · rw [hSteps, List.mem_singleton] at hs
      exact hs ▸ holds_check hFile p
  cases hList : ctx.files.list dir with
  | error f =>
    refine Action.Keeps.forEach (fun s hs => holds_step hFile hs ?_) x hx
    intro _ _ names hNames
    exact nomatch hList.symm.trans hNames
  | ok names =>
    -- if an entry fails the directory is not closed, and otherwise it is the closing that fails
    rw [steps_of_list hList, Action.forEach_append, Action.forEach_singleton] at hError ⊢
    rcases Action.result_bind_eq_error.mp hError with hEnd | ⟨u, hEnd, hClose⟩
    · rw [Action.state_bind_of_error hEnd]
      exact hEntries x hx
    · rw [Action.state_bind_of_ok hEnd]
      exact holds_close_of_error hFile hClose (hEntries x hx)

end Live

-- ---------------------------------------------------------------------------
-- Scans
-- ---------------------------------------------------------------------------

/-- Something that ends like a source file without being a regular file. -/
structure Irregular (ctx : IndexContext) (path : Text) : Prop where
  kind : ctx.files.kind path ≠ .ok .file
  extension : ctx.sourceExtension.isSuffixOf path = true

/-- A scan sweeps an irregular file away: it closes its directory. -/
inductive Sweeps (ctx : IndexContext) (path : Text) (x : Indexer) : Call → Prop
  | scan {root : Text} {front back : List Text} (hAbsolute : Path.isAbsolute root = true)
      (hIrregular : Irregular ctx path)
      (hSplit : route ctx root = front ++ Path.parent path :: back)
      (hOk : (run ctx (front ++ [Path.parent path]) x).result = .ok ()) :
    Sweeps ctx path x (.scan root)

section Scan

variable {ctx : IndexContext} {path : Text} {x : Indexer} {root : Text}
  (hfs : ctx.files.WellNamed) (hPath : Registry.accepts path = true)

include hfs hPath

omit hfs hPath in
/-- Working off directories keeps a file that is found in each of them that it should be found in. -/
theorem holds_run {cs : List ClassRecord} {dirs : List Text}
    (hFile : Registry.fileClasses ctx.defineCalls ctx.files path = .ok (some cs))
    (hDirs : ∀ dir ∈ dirs, Path.parent path = dir → ctx.sourceExtension.isSuffixOf path = true →
      ∀ names, ctx.files.list dir = .ok names → path ∈ sources ctx dir) :
    Action.Keeps (fun x => x.registry.Holds path (Holdings.gather [] cs)) (run ctx dirs) := by
  refine Action.Keeps.forEach fun s hs => ?_
  obtain ⟨dir, hDir, hs⟩ := List.mem_flatMap.mp hs
  exact holds_step hFile hs (hDirs dir hDir)

/-- **A scan that does not sweep a file away keeps it**, whether it returns or fails. -/
theorem holds_scan {cs : List ClassRecord} (hSlash : Path.separator ∉ ctx.sourceExtension)
    (hFile : Registry.fileClasses ctx.defineCalls ctx.files path = .ok (some cs))
    (hNot : ¬ Sweeps ctx path x (.scan root))
    (hx : x.registry.Holds path (Holdings.gather [] cs)) :
    (scan ctx root x).state.registry.Holds path (Holdings.gather [] cs) := by
  cases hAbsolute : Path.isAbsolute root with
  | false =>
    rw [scan_of_relative hAbsolute]
    exact hx
  | true =>
    obtain ⟨b, hRoot⟩ := Path.exists_base hAbsolute
    rw [scan_eq_run hfs hRoot hAbsolute]
    by_cases hKind : ctx.files.kind path = .ok .file
    · -- a regular file is found
      refine holds_run hFile (fun dir _ hParent hExt names hList => ?_) x hx
      subst hParent
      exact mem_sources_of_file hPath hSlash hKind hList hExt
    by_cases hMeets : ctx.sourceExtension.isSuffixOf path = true ∧ Path.parent path ∈ route ctx root
    · obtain ⟨hExt, hMem⟩ := hMeets
      obtain ⟨front, back, hSplit⟩ := List.append_of_mem hMem
      have hNew : Path.parent path ∉ front := (route_split hfs hRoot hSplit).1
      have hFront := holds_run hFile (fun dir (hDir : dir ∈ front) hParent => absurd (hParent ▸ hDir) hNew) x hx
      -- the scan fails before it has closed the directory of the file
      have hEnds : (run ctx (front ++ [Path.parent path]) x).result ≠ .ok () :=
        fun hOk => hNot (.scan hAbsolute ⟨hKind, hExt⟩ hSplit hOk)
      have hRoute : route ctx root = (front ++ [Path.parent path]) ++ back := by
        rw [hSplit, List.append_assoc, List.singleton_append]
      cases hError : (run ctx (front ++ [Path.parent path]) x).result with
      | ok u => exact absurd hError hEnds
      | error e =>
        rw [hRoute, run_append, Action.state_bind_of_error hError]
        rw [run_append] at hError ⊢
        rcases Action.result_bind_eq_error.mp hError with hEnd | ⟨u, hEnd, hDir⟩
        · rw [Action.state_bind_of_error hEnd]
          exact hFront
        · rw [Action.state_bind_of_ok hEnd]
          unfold run at hDir ⊢
          rw [List.flatMap_singleton] at hDir ⊢
          exact holds_steps_of_error hFile hDir hFront
    · refine holds_run hFile (fun dir hDir hParent hExt => ?_) x hx
      exact absurd ⟨hExt, hParent ▸ hDir⟩ hMeets

omit hPath in
/-- A scan keeps an index orderly as far as it comes. -/
theorem orderly_run {b : Path.Base} (hRoot : Path.normalize root = b.path []) {dirs : List Text}
    (hDirs : ∀ dir ∈ dirs, dir ∈ route ctx root) : Action.Keeps Orderly (run ctx dirs) := by
  refine Action.Keeps.forEach fun s hs => ?_
  obtain ⟨dir, hDir, hs⟩ := List.mem_flatMap.mp hs
  obtain ⟨ns, rfl⟩ := exists_names_of_mem_route hfs hRoot (hDirs dir hDir)
  exact confined_step (accepts_path ns) (fun _ _ h => h) hs

omit hfs hPath in
/-- What has been swept away does not come back in the same scan. -/
theorem not_mem_paths_run (hKind : ctx.files.kind path ≠ .ok .file) {dirs : List Text}
    (hx : Orderly x) (hNot : path ∉ x.registry.paths) :
    path ∉ (run ctx dirs x).state.registry.paths := by
  have hHere : Confined (fun p => p ≠ path) (fun _ => True) x :=
    ⟨hx.held, fun p hp hEq => hNot (hEq ▸ hp), fun _ _ => trivial, hx.distinct⟩
  have hKeeps : Action.Keeps (Confined (fun p => p ≠ path) fun _ => True) (run ctx dirs) := by
    refine Action.Keeps.forEach fun s hs => ?_
    obtain ⟨dir, -, hs⟩ := List.mem_flatMap.mp hs
    refine confined_step trivial (fun p hp _ hEq => ?_) hs
    exact not_mem_sources hKind (hEq ▸ hp)
  exact fun hMem => (hKeeps x hHere).files path hMem rfl

/-- **A scan that sweeps a file away leaves it untracked.** -/
theorem not_mem_paths_of_sweeps (hOpens : Opens ctx path) (hx : Orderly x) {call : Call}
    (hSweeps : Sweeps ctx path x call) : path ∉ (call.run ctx x).state.registry.paths := by
  obtain ⟨hAbsolute, ⟨hKind, hExt⟩, hSplit, hOk⟩ := hSweeps
  rename_i root front back
  obtain ⟨b, hRoot⟩ := Path.exists_base hAbsolute
  have hRoute : route ctx root = (front ++ [Path.parent path]) ++ back := by
    rw [hSplit, List.append_assoc, List.singleton_append]
  show path ∉ (scan ctx root x).state.registry.paths
  rw [scan_eq_run hfs hRoot hAbsolute, hRoute, run_append, Action.state_bind_of_ok hOk]
  have hFrontRoute : ∀ dir ∈ front ++ [Path.parent path], dir ∈ route ctx root :=
    fun dir hDir => hRoute ▸ List.mem_append_left back hDir
  refine not_mem_paths_run hKind (orderly_run hfs hRoot hFrontRoute x hx) ?_
  -- the last step so far has closed the directory of the file
  rw [run_append] at hOk ⊢
  obtain ⟨⟨⟩, hFront, hDir⟩ := Action.result_bind_eq_ok.mp hOk
  rw [Action.state_bind_of_ok hFront]
  unfold run at hDir ⊢
  rw [List.flatMap_singleton] at hDir ⊢
  obtain ⟨names, hList⟩ := list_of_faultless (fun f => fault_not_mem_of_ok hDir f _)
    (FileSystem.list_ne_missing (kind_parent_of_opens hPath hOpens))
  rw [steps_of_list hList, Action.forEach_append, Action.forEach_singleton] at hDir ⊢
  obtain ⟨⟨⟩, hEntries, hClose⟩ := Action.result_bind_eq_ok.mp hDir
  rw [Action.state_bind_of_ok hEntries]
  rw [close_step_result] at hClose
  rw [close_step_state hClose, registry_learn, mem_paths_retractAll]
  rintro ⟨hTracked, hKept⟩
  exact hKept (mem_goneFiles.mpr ⟨hTracked, rfl, hExt, not_mem_sources hKind⟩)

end Scan

-- ---------------------------------------------------------------------------
-- Runs of calls
-- ---------------------------------------------------------------------------

/-- A call at a moment when a file has the given bytes, and that does not ask to drop the file. -/
structure Sparing (defineCalls : List Text) (path : Text) (bytes : List UInt8)
    (call : IndexContext × Call) : Prop where
  defineCalls_eq : call.1.defineCalls = defineCalls
  extension : Path.separator ∉ call.1.sourceExtension
  wellNamed : call.1.files.WellNamed
  read_eq : call.1.files.read path = .ok bytes
  other : call.2 ≠ .retract path

section Runs

variable {defineCalls : List Text} {path : Text} {bytes : List UInt8} {cs : List ClassRecord}
  {x : Indexer} (hPath : Registry.accepts path = true)
  (hClasses : classesOfBytes defineCalls path bytes = .ok cs)

include hPath hClasses

/-- A call keeps a file that has not changed unless it sweeps it away. -/
theorem holds_call {call : IndexContext × Call} (hCall : Sparing defineCalls path bytes call)
    (hNot : ¬ Sweeps call.1 path x call.2) (hx : x.registry.Holds path (Holdings.gather [] cs)) :
    (call.2.run call.1 x).state.registry.Holds path (Holdings.gather [] cs) := by
  have hFile : Registry.fileClasses call.1.defineCalls call.1.files path = .ok (some cs) := by
    rw [Registry.fileClasses_of_bytes hCall.read_eq, hCall.defineCalls_eq, hClasses]
  obtain ⟨ctx, call⟩ := call
  cases call with
  | check p => exact holds_check hFile p x hx
  | retract p =>
    have hp : p ≠ path := fun h => hCall.other (h ▸ rfl)
    exact Action.Keeps.bind (holds_retract hp) (fun _ => Action.Keeps.pure ()) x hx
  | scan root => exact holds_scan hCall.wellNamed hPath hCall.extension hFile hNot hx
  | remove dir =>
    exact Action.Keeps.bind (holds_remove hFile dir) (fun _ => Action.Keeps.pure ()) x hx

/-- So does a run of calls of which none sweeps it away, by induction on the run. -/
theorem holds_after {calls : List (IndexContext × Call)}
    (hCalls : ∀ call ∈ calls, Sparing defineCalls path bytes call)
    (hNot : ∀ front call back, calls = front ++ call :: back →
      ¬ Sweeps call.1 path (x.after front) call.2)
    (hx : x.registry.Holds path (Holdings.gather [] cs)) :
    (x.after calls).registry.Holds path (Holdings.gather [] cs) := by
  induction calls generalizing x with
  | nil => exact hx
  | cons call calls ih =>
    have hStep := holds_call hPath hClasses (hCalls call List.mem_cons_self)
      (hNot [] call calls rfl) hx
    refine ih (fun c hc => hCalls c (List.mem_cons_of_mem call hc)) ?_ hStep
    rintro front c back rfl
    exact hNot (call :: front) c back rfl

end Runs

/-- **When a run of calls keeps a file that is there.** In an index that any run of calls leads to,
the last check of a file has indexed it. Then come checks, scans and removals of anything and
retractions of other files, each returning or failing and each on a file system of its own in which
the file can be opened and has the same bytes. All along the file stays tracked with the same
classes and the same records just when no scan sweeps it away, as it may if the file is no regular
one. -/
theorem live_file_kept_iff {defineCalls : List Text} {path : Text} {bytes : List UInt8}
    {past calls : List (IndexContext × Call)} (hPast : ∀ call ∈ past, call.1.files.WellNamed)
    (hIndexed : (after {} past).registry.Indexed defineCalls path bytes)
    (hCalls : ∀ call ∈ calls, Sparing defineCalls path bytes call) :
    (∀ front back, calls = front ++ back →
      Registry.Kept path (after {} past).registry ((after {} past).after front).registry) ↔
    ∀ front call back, calls = front ++ call :: back →
      ¬ Sweeps call.1 path ((after {} past).after front) call.2 := by
  obtain ⟨hPath, cs, hClasses, hBefore⟩ := hIndexed.exists_holds
  have hOrderly : Orderly (after {} past) :=
    orderly_after hPast ⟨Registry.Held.empty, nofun, nofun, List.nodup_nil⟩
  constructor
  · rintro hKept front call back rfl hSweeps
    have hCall := hCalls call (List.mem_append_right _ List.mem_cons_self)
    have hHere : Orderly ((after {} past).after front) :=
      orderly_after (fun c hc => (hCalls c (List.mem_append_left _ hc)).wellNamed) hOrderly
    have hGone := not_mem_paths_of_sweeps hCall.wellNamed hPath ⟨bytes, hCall.read_eq⟩ hHere hSweeps
    have hNext := hKept (front ++ [call]) back (by simp)
    have hAfter : (after {} past).after (front ++ [call]) =
        (call.2.run call.1 ((after {} past).after front)).state := by
      simp [after]
    rw [hAfter] at hNext
    exact hGone (Registry.tracks_iff.mp hNext.tracked)
  · rintro hNot front back rfl
    refine hBefore.kept (holds_after hPath hClasses
      (fun call hCall => hCalls call (List.mem_append_left _ hCall)) ?_ hBefore)
    rintro front' call back' rfl
    exact hNot front' call (back' ++ back) (by simp)

/-- A text file in a directory that scans leave out, and a source file that defines the same
class. -/
def sheltered : IndexContext where
  files := { root := [("r", .directory [("b.js", .file (Registry.definitions ["A"])),
    ("lib", .directory [("a.txt", .file (Registry.definitions ["A"]))])])] }
  defineCalls := defaultDefineCalls
  sourceExtension := ".js"
  ignoredDirs := ["lib"]

/-- A scan of the directory `lib`, and a check of the text file in it. -/
def shelter : List (IndexContext × Call) :=
  [(sheltered, .scan "/r/lib"), (sheltered, .check "/r/lib/a.txt")]

/-- A scan fails at the source file, and then a removal checks the text file again. -/
theorem live_file_kept_in_sheltered :
    (after {} shelter).registry.owned "/r/lib/a.txt" = ["A".toList] ∧
    ((after {} shelter).after [(sheltered, .scan "/r"), (sheltered, .remove "/r/lib")]).registry.owned
      "/r/lib/a.txt" = ["A".toList] := by
  have hNamed : sheltered.files.WellNamed := by decide
  have hRead : sheltered.files.read "/r/lib/a.txt" = .ok (Registry.definitions ["A"]) := by
    decide +kernel
  have hFile : sheltered.files.kind "/r/lib/a.txt" = .ok .file := by decide
  have hPast : ∀ call ∈ shelter, call.1.files.WellNamed := by
    unfold shelter
    rw [List.forall_mem_cons, List.forall_mem_singleton]
    exact ⟨hNamed, hNamed⟩
  have hOk : (check sheltered "/r/lib/a.txt"
      (after {} [(sheltered, .scan "/r/lib")])).result = .ok true := by
    decide +kernel
  have hIndexed : (after {} shelter).registry.Indexed sheltered.defineCalls "/r/lib/a.txt"
      (Registry.definitions ["A"]) := by
    have hLast : after {} shelter =
        (check sheltered "/r/lib/a.txt" (after {} [(sheltered, .scan "/r/lib")])).state :=
      Action.state_bind_of_ok hOk
    rw [hLast]
    exact indexed_of_check [] [(sheltered, .scan "/r/lib")] hRead hOk
  have hOwned : (after {} shelter).registry.owned "/r/lib/a.txt" = ["A".toList] := by
    decide +kernel
  have hSlash : Path.separator ∉ sheltered.sourceExtension := by decide
  have hSparing : ∀ call : Call, call ≠ .retract "/r/lib/a.txt" →
      Sparing sheltered.defineCalls "/r/lib/a.txt" (Registry.definitions ["A"]) (sheltered, call) :=
    fun _ hOther => ⟨rfl, hSlash, hNamed, hRead, hOther⟩
  have hCalls : ∀ call ∈ [(sheltered, .scan "/r"), (sheltered, .remove "/r/lib")],
      Sparing sheltered.defineCalls "/r/lib/a.txt" (Registry.definitions ["A"]) call := by
    rw [List.forall_mem_cons, List.forall_mem_singleton]
    exact ⟨hSparing _ nofun, hSparing _ nofun⟩
  -- the file is regular, and nothing sweeps away a regular file
  have hNever : ∀ x call, ¬ Sweeps sheltered "/r/lib/a.txt" x call := by
    rintro x - ⟨-, hIrregular, -⟩
    exact hIrregular.kind hFile
  have hNot : ∀ front call back,
      [(sheltered, .scan "/r"), (sheltered, .remove "/r/lib")] = front ++ call :: back →
        ¬ Sweeps call.1 "/r/lib/a.txt" ((after {} shelter).after front) call.2 := by
    intro front call back hSplit hSweeps
    have hMem : call ∈ [(sheltered, .scan "/r"), (sheltered, .remove "/r/lib")] :=
      hSplit ▸ List.mem_append_right _ List.mem_cons_self
    have hContext : call.1 = sheltered := by
      rcases List.mem_cons.mp hMem with rfl | hMem
      · rfl
      · rw [List.mem_singleton.mp hMem]
    exact hNever _ _ (hContext ▸ hSweeps)
  have hKept := (live_file_kept_iff hPast hIndexed hCalls).mpr hNot _ [] (List.append_nil _).symm
  exact ⟨hOwned, hKept.owned_eq.trans hOwned⟩

/-- A device that opens like a source file. -/
def deviceInFolder : IndexContext where
  files := { root := [("r", .directory [("a.js", .device (Registry.definitions ["A"]))])] }
  defineCalls := defaultDefineCalls
  sourceExtension := ".js"
  ignoredDirs := []

/-- So a file that can be opened all the time need not stay: a check by name indexes the device, and
a scan of its directory, which returns, sweeps it away. -/
theorem device_lost_by_scan :
    (check deviceInFolder "/r/a.js" {}).result = .ok true ∧
    (check deviceInFolder "/r/a.js" {}).state.registry.owned "/r/a.js" = ["A"] ∧
    (scan deviceInFolder "/r" (check deviceInFolder "/r/a.js" {}).state).result = .ok () ∧
    deviceInFolder.files.read "/r/a.js" = .ok (Registry.definitions ["A"]) ∧
    (scan deviceInFolder "/r" (check deviceInFolder "/r/a.js" {}).state).state.registry.tracks
      "/r/a.js" = false := by
  decide +kernel

end Indexer

end ClassTags
