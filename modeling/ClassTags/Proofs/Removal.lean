import ClassTags.Proofs.Check
import ClassTags.Proofs.Events
import ClassTags.Proofs.Rescan

/-!
# The removal of a directory

A directory that has vanished is forgotten together with all that lies below it. Its files are not
dropped outright: each of them is checked again, and a file that is missing goes with its classes.
The checks work on the very tables that the list of files was taken from, so it has to be said what
each of them leaves to the next. Seen from the holdings, a missing file is one entry less, and all
other entries stay in their places.

Main definitions:

* `Indexer.without` — an index without a directory and all below it.

Main results:

* `Holdings.sources_filter`, `Holdings.classes_filter_owned` — the tables of some of the files;
* `Indexer.checks_of_missing` — files that are missing go, one after the other;
* `Indexer.remove_frame` — what a removal takes away, what it leaves and what it reports.
-/

namespace ClassTags

-- ---------------------------------------------------------------------------
-- Some of the files
-- ---------------------------------------------------------------------------

namespace Holdings

/-- The files of some holdings are some of the files. -/
theorem sources_filter (h : Holdings) (keep : Text → Bool) :
    (registry (h.filter fun file => keep file.1)).sources =
      (registry h).sources.filter fun file => keep file.1 := by
  show (h.filter _).map _ = (h.map _).filter _
  rw [List.filter_map]
  rfl

/-- A class goes with the file that owns it. -/
theorem classes_filter_owned {h : Holdings} (hs : Sound h) (keep : Text → Bool) :
    (registry (h.filter fun file => keep file.1)).classes =
      (registry h).classes.filter fun entry =>
        ((registry h).paths.filter fun p => !keep p).all fun p =>
          !((registry h).owned p).contains entry.1 := by
  refine classes_filter keep ?_
  rintro ⟨path, t⟩ hFile entry hEntry
  have hName : entry.1 ∈ Table.names t := Table.mem_names_of_mem hEntry
  have hTracked : path ∈ (registry h).paths := by
    rw [paths_registry]
    exact Table.mem_names_of_mem hFile
  have hOwner : ∀ p, entry.1 ∈ (registry h).owned p ↔ p = path := by
    intro p
    rw [mem_owned_registry hs.distinctPaths]
    constructor
    · rintro ⟨u, hOther, hOtherName⟩
      exact hs.path_unique hOther hFile hOtherName hName
    · rintro rfl
      exact ⟨t, hFile, hName⟩
  rw [Bool.eq_iff_iff, List.all_eq_true]
  simp only [List.mem_filter, List.contains_eq_mem, hOwner, Bool.not_eq_true', decide_eq_false_iff_not]
  constructor
  · intro hAll
    by_contra hGone
    exact hAll path ⟨hTracked, by simpa using hGone⟩ rfl
  · rintro hKeep p ⟨-, hp⟩ rfl
    exact Bool.false_ne_true (hp.symm.trans hKeep)

end Holdings

-- ---------------------------------------------------------------------------
-- Registries that have been reached
-- ---------------------------------------------------------------------------

/-- A registry only takes in files with normalized paths, whatever the file systems are. -/
theorem Registry.Reached.accepts {r : Registry} (hr : r.Reached) :
    ∀ p ∈ r.paths, Registry.accepts p = true := by
  induction hr with
  | empty => exact nofun
  | @check r hr defineCalls fs path ih =>
    intro p hp
    cases hPath : Registry.accepts path with
    | false =>
      rw [Holdings.check_of_not_accepts hPath] at hp
      exact ih p hp
    | true =>
      rcases hr.held.mem_paths_check hp with rfl | hp
      · exact hPath
      · exact ih p hp
  | @retract r hr path ih =>
    intro p hp
    have hRemove : (r.retract path).paths = r.paths.filter fun q => decide (q ≠ path) :=
      Table.names_remove path r.sources
    rw [hRemove] at hp
    exact ih p (List.mem_of_mem_filter hp)

namespace Indexer

variable {ctx : IndexContext} {x : Indexer} {d : Text}

-- ---------------------------------------------------------------------------
-- Files that are missing
-- ---------------------------------------------------------------------------

/-- The index without a directory, the directories and files below it, and the classes that these
files own. -/
def without (x : Indexer) (d : Text) : Indexer where
  registry :=
    { sources := x.registry.sources.filter fun file => !Path.isUnder file.1 d
      classes := x.registry.classes.filter fun entry =>
        (x.below d).all fun p => !(x.registry.owned p).contains entry.1 }
  dirs := x.dirs.filter fun q => !Path.isUnder q d

/-- The registry without a directory has the files that do not lie below it. -/
theorem registry_without {h : Holdings} (hs : h.Sound) (hx : x.registry = Holdings.registry h) :
    (x.without d).registry =
      Holdings.registry (h.filter fun file => !Path.isUnder file.1 d) := by
  have hSources := Holdings.sources_filter h fun p => !Path.isUnder p d
  have hClasses := Holdings.classes_filter_owned hs fun p => !Path.isUnder p d
  simp only [Bool.not_not, ← hx] at hSources hClasses
  unfold without below
  rw [← hSources, ← hClasses]

/-- Files that are missing go, one after the other, and the rest stays where it is. -/
theorem checks_of_missing {ps : List Text} {h : Holdings} (hs : h.Sound)
    (hx : x.registry = Holdings.registry h) (hPaths : ∀ p ∈ ps, Registry.accepts p = true)
    (hMissing : ∀ p ∈ ps, ctx.files.read p = .error .missing) :
    (checks ctx ps x).state =
      { x with registry := Holdings.registry (h.filter fun file => !ps.contains file.1) } := by
  induction ps generalizing x h with
  | nil => simp [← hx, checks, Action.forEach_nil, Action.pure_apply]
  | cons p ps ih =>
    rw [List.forall_mem_cons] at hPaths hMissing
    obtain ⟨hFirst, hState⟩ := check_step_of_missing hPaths.1 hMissing.1 x
    rw [hx, Holdings.registry_retract hs] at hState
    have hRest := ih (x := { x with registry := Holdings.registry (h.remove p) })
      (hs.remove p) rfl hPaths.2 hMissing.2
    rw [checks_cons, Action.state_bind_of_ok hFirst, hState]
    refine hRest.trans ?_
    have hBoth : (h.remove p).filter (fun file => !ps.contains file.1) =
        h.filter fun file => !(p :: ps).contains file.1 := by
      unfold Table.remove
      rw [List.filter_filter]
      apply List.filter_congr
      intro file _
      by_cases hp : file.1 = p <;> simp [hp]
    rw [hBoth]

/-- A known directory of which all files are missing goes, with all below it and with nothing
else. -/
theorem remove_of_missing (hx : x.registry.Reached) (hKnown : d ∈ x.dirs)
    (hMissing : ∀ p ∈ x.below d, ctx.files.read p = .error .missing) :
    (remove ctx d x).result = .ok true ∧ (remove ctx d x).state = x.without d ∧
      (remove ctx d x).events = [.removed d] := by
  obtain ⟨h, hs, hRegistry⟩ := hx.held
  have hPaths : ∀ p ∈ x.below d, Registry.accepts p = true :=
    fun p hp => hx.accepts p (List.mem_of_mem_filter hp)
  have hOk := checks_eq_ok_of_missing hPaths hMissing (x.forget d)
  have hState := checks_of_missing (x := x.forget d) hs hRegistry hPaths hMissing
  obtain ⟨hResult, hEvents⟩ := remove_of_checks hKnown hOk
  refine ⟨hResult, ?_, hEvents⟩
  -- a file is among those that have been checked just when it lies below the directory
  have hKeep : h.filter (fun file => !(x.below d).contains file.1) =
      h.filter fun file => !Path.isUnder file.1 d := by
    apply List.filter_congr
    intro file hFile
    have hTracked : file.1 ∈ x.registry.paths := by
      rw [hRegistry, Holdings.paths_registry]
      exact Table.mem_names_of_mem hFile
    have hBelow : file.1 ∈ x.below d ↔ Path.isUnder file.1 d = true := by
      unfold below
      rw [List.mem_filter]
      exact and_iff_right hTracked
    rw [Bool.eq_iff_iff]
    simp [hBelow]
  rw [state_remove hKnown, hState, hKeep, ← registry_without hs hRegistry]
  rfl

-- ---------------------------------------------------------------------------
-- Files that cannot be reached
-- ---------------------------------------------------------------------------

/-- A removal fails with the first of the files below the directory, if that one cannot be opened
and is not missing. By then the directory has been forgotten and the file has been dropped. -/
theorem remove_of_unreachable {p : Text} {rest : List Text} {fault : Fault} (hKnown : d ∈ x.dirs)
    (hBelow : x.below d = p :: rest) (hPath : Registry.accepts p = true) (hFault : fault ≠ .missing)
    (hRead : ctx.files.read p = .error fault) :
    (remove ctx d x).result = .error (.file fault p) ∧
      (remove ctx d x).state = { x.forget d with registry := x.registry.retract p } ∧
        (remove ctx d x).events = [] := by
  obtain ⟨hFirst, hState⟩ := check_step_of_fault hPath hFault hRead (x.forget d)
  have hChecks : (checks ctx (p :: rest) (x.forget d)).result = .error (.file fault p) :=
    Action.result_bind_eq_error.mpr (Or.inl hFirst)
  have hEvents := @events_checks ctx (p :: rest) (x.forget d)
  rw [remove_of_known hKnown, hBelow, Action.bind_of_error hChecks]
  refine ⟨rfl, ?_, hEvents⟩
  show (checks ctx (p :: rest) (x.forget d)).state = _
  rw [checks_cons, Action.state_bind_of_error hFirst, hState]
  rfl

/-- The other files below the directory stay. -/
theorem below_retract {p : Text} {rest : List Text} (hx : x.registry.Held)
    (hBelow : x.below d = p :: rest) :
    ({ x.forget d with registry := x.registry.retract p } : Indexer).below d = rest := by
  have hDistinct : (x.below d).Nodup := by
    obtain ⟨h, hs, hEq⟩ := hx
    unfold below
    rw [hEq, Holdings.paths_registry]
    exact hs.distinctPaths.filter _
  have hPaths : (x.registry.retract p).paths = x.registry.paths.filter fun q => decide (q ≠ p) :=
    Table.names_remove p x.registry.sources
  rw [hBelow, List.nodup_cons] at hDistinct
  unfold below at hBelow ⊢
  show (x.registry.retract p).paths.filter _ = _
  rw [hPaths, List.filter_comm, hBelow, List.filter_cons_of_neg (by simp), List.filter_eq_self]
  intro q hq
  rw [decide_eq_true_eq]
  rintro rfl
  exact hDistinct.1 hq

/-- Closing a directory goes no further than the first removal, if that one fails. -/
theorem close_of_remove_error {dir : Text} {ds : List Text} {e : IndexFailure}
    (hGone : x.gone ctx dir = d :: ds) (hRemove : (remove ctx d x).result = .error e) :
    Step.run ctx (.close dir) x = ⟨(remove ctx d x).state, (remove ctx d x).notices, .error e⟩ := by
  have hFirst : Step.run ctx (.absent d) x =
      ⟨(remove ctx d x).state, (remove ctx d x).notices, .error e⟩ := Action.bind_of_error hRemove
  have hAll : removeAll ctx (d :: ds) x =
      ⟨(remove ctx d x).state, (remove ctx d x).notices, .error e⟩ := by
    unfold removeAll
    rw [Action.forEach_cons, Action.bind_of_error (congrArg Outcome.result hFirst), hFirst]
  rw [close_step_eq, hGone, Action.bind_of_error (congrArg Outcome.result hAll), hAll]

/-- A scan goes no further than the end of a directory, if that one cannot be closed. -/
theorem run_of_close_error {dir : Text} {front names : List Text} {y : Indexer} {e : IndexFailure}
    (back : List Text) (hList : ctx.files.list dir = .ok names)
    (hFront : (run ctx front x).result = .ok ())
    (hEntries : (Action.forEach (Step.run ctx) ((listed ctx dir).flatMap (entrySteps ctx dir))
      (run ctx front x).state).result = .ok ())
    (hy : (Action.forEach (Step.run ctx) ((listed ctx dir).flatMap (entrySteps ctx dir))
      (run ctx front x).state).state = y)
    (hClose : (Step.run ctx (.close dir) y).result = .error e) :
    (run ctx (front ++ dir :: back) x).result = .error e ∧
      (run ctx (front ++ dir :: back) x).state = (Step.run ctx (.close dir) y).state ∧
        (run ctx (front ++ dir :: back) x).events =
          (run ctx front x).events ++ (Step.run ctx (.close dir) y).events := by
  have hSilent := (@entries_silent ctx dir (listed ctx dir)).1.events (run ctx front x).state
  -- the entries are silent, so the events are those of the closing
  have hDir : (run ctx [dir] (run ctx front x).state).result = .error e ∧
      (run ctx [dir] (run ctx front x).state).state = (Step.run ctx (.close dir) y).state ∧
        (run ctx [dir] (run ctx front x).state).events = (Step.run ctx (.close dir) y).events := by
    have hSteps : run ctx [dir] = (Action.forEach (Step.run ctx)
        ((listed ctx dir).flatMap (entrySteps ctx dir)) >>= fun _ => Step.run ctx (.close dir)) := by
      unfold run
      rw [List.flatMap_singleton, steps_of_list hList, Action.forEach_append,
        Action.forEach_singleton]
    rw [hSteps, Action.events_bind_of_ok hEntries, Action.bind_of_ok hEntries, hSilent, hy,
      List.nil_append]
    exact ⟨hClose, rfl, rfl⟩
  obtain ⟨hResult, hState, hEvents⟩ := hDir
  have hRest : run ctx (dir :: back) (run ctx front x).state =
      ⟨(run ctx [dir] (run ctx front x).state).state,
        (run ctx [dir] (run ctx front x).state).notices, .error e⟩ := by
    rw [← List.singleton_append, run_append, Action.bind_of_error hResult]
  rw [run_append, Action.events_bind_of_ok hFront, Action.bind_of_ok hFront, hRest]
  exact ⟨rfl, hState, congrArg ((run ctx front x).events ++ ·) hEvents⟩

-- ---------------------------------------------------------------------------
-- Removals after any run of calls
-- ---------------------------------------------------------------------------

/-- **What a removal takes away, and what it leaves.** After any run of calls, each on a file system
of its own and each returning or failing: if a directory is known and none of the tracked files at
or below it can be found, removing it takes away the known directories and the files at or below it,
with the classes that these files own. All other entries stay as they are and in their order, and
one event tells of the directory. Where a directory is not known, nothing happens. -/
theorem remove_frame (calls : List (IndexContext × Call)) (ctx : IndexContext) (d : Text) :
    (d ∈ (after {} calls).dirs →
      (∀ p ∈ (after {} calls).registry.paths, Path.isUnder p d = true →
        ctx.files.read p = .error .missing) →
      (remove ctx d (after {} calls)).result = .ok true ∧
        (remove ctx d (after {} calls)).state = (after {} calls).without d ∧
          (remove ctx d (after {} calls)).events = [.removed d]) ∧
    (d ∉ (after {} calls).dirs → remove ctx d (after {} calls) = ⟨after {} calls, [], .ok false⟩) := by
  constructor
  · intro hKnown hMissing
    refine remove_of_missing (reached_after [] calls) hKnown fun p hp => ?_
    obtain ⟨hTracked, hUnder⟩ := List.mem_filter.mp hp
    exact hMissing p hTracked hUnder
  · exact fun hUnknown => remove_of_unknown hUnknown

/-- Scans of two directories whose names begin alike. The first has a source file one level down. -/
def scanBranches : List (IndexContext × Call) :=
  [(usual.on (folder [("s", .directory [("t", .directory [("b.js", definition "B")])])]),
      .scan "/r/s"),
    (usual.on (folder [("sx", .directory [("c.js", definition "C")])]), .scan "/r/sx")]

/-- When both have vanished, the removal of the first leaves all of the second. -/
theorem remove_frame_of_scanBranches :
    (after {} scanBranches).registry.paths = ["/r/s/t/b.js", "/r/sx/c.js"].map String.toList ∧
      (after {} scanBranches).dirs = ["/r/s", "/r/s/t", "/r/sx"].map String.toList ∧
      (remove (usual.on (folder [])) "/r/s" (after {} scanBranches)).result = .ok true ∧
      (remove (usual.on (folder [])) "/r/s" (after {} scanBranches)).state.registry.sources =
        [("/r/sx/c.js".toList, ["C".toList])] ∧
      (remove (usual.on (folder [])) "/r/s" (after {} scanBranches)).state.dirs = ["/r/sx".toList] ∧
      (remove (usual.on (folder [])) "/r/s" (after {} scanBranches)).events = [.removed "/r/s"] := by
  obtain ⟨hPaths, hDirs, hMissing, hSources, hRest⟩ :
      (after {} scanBranches).registry.paths = ["/r/s/t/b.js", "/r/sx/c.js"].map String.toList ∧
        (after {} scanBranches).dirs = ["/r/s", "/r/s/t", "/r/sx"].map String.toList ∧
        (∀ p ∈ (after {} scanBranches).registry.paths, Path.isUnder p "/r/s" = true →
          (usual.on (folder [])).files.read p = .error .missing) ∧
        ((after {} scanBranches).without "/r/s").registry.sources =
          [("/r/sx/c.js".toList, ["C".toList])] ∧
        ((after {} scanBranches).without "/r/s").dirs = ["/r/sx".toList] := by
    decide +kernel
  have hKnown : "/r/s".toList ∈ (after {} scanBranches).dirs := by
    rw [hDirs]
    decide
  obtain ⟨hResult, hState, hEvents⟩ :=
    (remove_frame scanBranches (usual.on (folder [])) "/r/s").1 hKnown hMissing
  rw [hState]
  exact ⟨hPaths, hDirs, hResult, hSources, hRest, hEvents⟩

end Indexer

end ClassTags
