import ClassTags.Proofs.Check
import ClassTags.Proofs.Events
import ClassTags.Proofs.Rescan

/-!
# The first scan

A scan of an empty index does no more than walk through the directories, level by level and in the
order of their names, and check the source files it comes to. Nothing is dropped on the way, for all
that is known has just been seen. So the walk can be written down without a queue and without an
index (`Indexer.breadthFirst`), together with all that can go wrong on it (`Indexer.failures`): a
directory that cannot be listed, an entry that cannot be looked at, a source file that cannot be
read or that defines a class of a file before it. If nothing goes wrong, the scan leaves just the
files and directories of the walk; otherwise it fails with what goes wrong first.

Main definitions:

* `Indexer.breadthFirst`, `Indexer.Reachable` — the directories of the walk;
* `Indexer.failures` — what goes wrong on the walk;
* `Indexer.holding` — the index that has some files as they are now.

Main results:

* `Indexer.route_eq_breadthFirst` — the queue comes to the directories level by level;
* `Indexer.check_holding` — how one more file is checked;
* `Indexer.walk_rest` — the rest of the walk, from any point on;
* `Indexer.first_scan` — what a first scan leaves, reports or fails with.
-/

namespace ClassTags.Indexer

-- ---------------------------------------------------------------------------
-- Level by level
-- ---------------------------------------------------------------------------

/-- Some directories and those in them, some levels deep: a level comes after the one above it. -/
def levels (ctx : IndexContext) : (depth : Nat) → (dirs : List Text) → List Text
  | 0, _ => []
  | depth + 1, dirs => dirs ++ levels ctx depth (dirs.flatMap (subdirs ctx))

/-- The root and all directories that are searched below it, level by level. No directory lies
deeper than the file system has entries. -/
def breadthFirst (ctx : IndexContext) (root : Text) : List Text :=
  levels ctx (ctx.files.size + 1) [Path.normalize root]

/-- The root, and what is searched in a directory that is searched. -/
inductive Reachable (ctx : IndexContext) (root : Text) : Text → Prop
  | root : Reachable ctx root (Path.normalize root)
  | inside {dir e : Text} (hDir : Reachable ctx root dir) (he : e ∈ subdirs ctx dir) :
    Reachable ctx root e

variable {ctx : IndexContext} {b : Path.Base} {root : Text}

/-- The queue gives the directories that wait in it, and then what is in them. -/
theorem routeFrom_append (fuel : Nat) (ds es : List Text) :
    routeFrom ctx (ds.length + fuel) (ds ++ es) =
      ds ++ routeFrom ctx fuel (es ++ ds.flatMap (subdirs ctx)) := by
  induction ds generalizing es with
  | nil => simp
  | cons d ds ih =>
    have hFuel : (d :: ds).length + fuel = (ds.length + fuel) + 1 := by
      rw [List.length_cons]
      omega
    rw [hFuel, List.cons_append, routeFrom, List.append_assoc, ih, List.flatMap_cons,
      List.append_assoc, List.cons_append]

/-- A level weighs less than the one above it, by one for each directory there. -/
theorem weight_flatMap_subdirs (hfs : ctx.files.WellNamed) (dirs : List Text) :
    ((dirs.flatMap (subdirs ctx)).map ctx.files.weight).sum + dirs.length ≤
      (dirs.map ctx.files.weight).sum := by
  induction dirs with
  | nil => simp
  | cons dir dirs ih =>
    have hDir := weight_subdirs hfs dir
    simp only [List.flatMap_cons, List.map_append, List.sum_append, List.map_cons, List.sum_cons,
      List.length_cons]
    omega

/-- A queue that is long enough is served level by level, if the levels go deep enough. -/
theorem routeFrom_eq_levels (hfs : ctx.files.WellNamed) {fuel depth : Nat} {dirs : List Text}
    (hFuel : (dirs.map ctx.files.weight).sum ≤ fuel)
    (hDepth : (dirs.map ctx.files.weight).sum ≤ depth) :
    routeFrom ctx fuel dirs = levels ctx depth dirs := by
  have hNext := weight_flatMap_subdirs hfs dirs
  -- on the depth: what is below the directories weighs less, by one for each of them
  induction depth generalizing fuel dirs with
  | zero =>
    obtain rfl : dirs = [] := List.eq_nil_of_length_eq_zero (by omega)
    cases fuel <;> rfl
  | succ depth ih =>
    rcases Nat.eq_zero_or_pos dirs.length with hNone | hSome
    · obtain rfl : dirs = [] := List.eq_nil_of_length_eq_zero hNone
      have hBelow := @ih 0 [] (by simp) (by simp) (by simp)
      cases fuel <;> exact hBelow
    · obtain ⟨rest, rfl⟩ : ∃ rest, fuel = dirs.length + rest := ⟨fuel - dirs.length, by omega⟩
      have hRoute := @routeFrom_append ctx rest dirs []
      rw [List.append_nil, List.nil_append] at hRoute
      rw [hRoute, levels, ih (by omega) (by omega) (weight_flatMap_subdirs hfs _)]

/-- **The queue comes to the directories level by level.** -/
theorem route_eq_breadthFirst (hfs : ctx.files.WellNamed) :
    route ctx root = breadthFirst ctx root := by
  have hWeight := FileSystem.weight_le_size hfs (Path.normalize root)
  have hSum : ([Path.normalize root].map ctx.files.weight).sum ≤ ctx.files.size + 1 := by
    rw [List.map_singleton, List.sum_singleton]
    omega
  exact routeFrom_eq_levels hfs hSum hSum

/-- All directories on the levels can be reached from the root. -/
theorem reachable_of_mem_levels {depth : Nat} {dirs : List Text}
    (hDirs : ∀ d ∈ dirs, Reachable ctx root d) : ∀ d ∈ levels ctx depth dirs, Reachable ctx root d := by
  induction depth generalizing dirs with
  | zero => exact nofun
  | succ depth ih =>
    refine List.forall_mem_append.mpr ⟨hDirs, ih fun e he => ?_⟩
    obtain ⟨d, hd, he⟩ := List.mem_flatMap.mp he
    exact .inside (hDirs d hd) he

/-- The walk comes to what can be reached, and to nothing else. -/
theorem mem_breadthFirst_iff (hfs : ctx.files.WellNamed) (hRoot : Path.normalize root = b.path [])
    {d : Text} : d ∈ breadthFirst ctx root ↔ Reachable ctx root d := by
  constructor
  · exact reachable_of_mem_levels (List.forall_mem_singleton.mpr .root) d
  · intro hd
    rw [← route_eq_breadthFirst hfs]
    induction hd with
    | root => exact hRoot ▸ root_mem_route hRoot
    | inside _ he ih => exact route_closed hfs hRoot ih he

-- ---------------------------------------------------------------------------
-- What goes wrong
-- ---------------------------------------------------------------------------

/-- The first of some files that defines a class with the given name. -/
def definer? (ctx : IndexContext) (files : List Text) (name : Text) : Option Text :=
  files.find? fun q => (Table.names (defined ctx q)).contains name

/-- Why a source file cannot be indexed, if it cannot: it cannot be read, or one of the files before
it defines one of its classes. The first such class counts. -/
def refusal? (ctx : IndexContext) (earlier : List Text) (path : Text) : Option IndexFailure :=
  match Registry.fileClasses ctx.defineCalls ctx.files path with
  | .error e => some e
  | .ok none => none
  | .ok (some cs) =>
    cs.findSome? fun c => (definer? ctx earlier c.name).map fun q => .duplicate c.name q path

/-- What goes wrong with a name in a directory, when a walk checks the given files. A name with
nothing behind it is passed over. -/
def entryFailure? (ctx : IndexContext) (files : List Text) (dir name : Text) : Option IndexFailure :=
  match ctx.files.kind (Path.join dir name) with
  | .error .missing => none
  | .error f => some (.file f (Path.join dir name))
  | .ok .file =>
    if ctx.sourceExtension.isSuffixOf name then
      refusal? ctx (files.takeWhile fun q => decide (q ≠ Path.join dir name)) (Path.join dir name)
    else none
  | .ok _ => none

/-- What goes wrong in a directory, in order. -/
def failuresIn (ctx : IndexContext) (files : List Text) (dir : Text) : List IndexFailure :=
  match ctx.files.list dir with
  | .error f => [.file f dir]
  | .ok _ => (listed ctx dir).filterMap (entryFailure? ctx files dir)

/-- The source files of the walk, in order. -/
def walkFiles (ctx : IndexContext) (root : Text) : List Text :=
  (breadthFirst ctx root).flatMap (sources ctx)

/-- What goes wrong on the walk, in order. -/
def failures (ctx : IndexContext) (root : Text) : List IndexFailure :=
  (breadthFirst ctx root).flatMap (failuresIn ctx (walkFiles ctx root))

-- ---------------------------------------------------------------------------
-- One more file
-- ---------------------------------------------------------------------------

/-- The index that has some files as they are now, and knows some directories. -/
def holding (ctx : IndexContext) (files dirs : List Text) : Indexer where
  registry := Holdings.registry (files.map (entry ctx))
  dirs := dirs

theorem paths_holding (files dirs : List Text) : (holding ctx files dirs).registry.paths = files := by
  show (Holdings.registry _).paths = _
  rw [Holdings.paths_registry, names_map_entry]

section Definer

variable {files : List Text} {name : Text}

/-- A name that no file has defined has no definer. -/
theorem definer?_eq_none (h : name ∉ Table.names (Holdings.classes (files.map (entry ctx)))) :
    definer? ctx files name = none := by
  rw [definer?, List.find?_eq_none]
  intro q hq hName
  apply h
  rw [Holdings.mem_names_classes]
  exact ⟨q, defined ctx q, List.mem_map_of_mem hq, by simpa using hName⟩

/-- Where no two files define a class, there is no other file than the one that defines it. -/
theorem definer?_eq_some (hs : Holdings.Sound (files.map (entry ctx))) {q : Text} (hq : q ∈ files)
    (hName : name ∈ Table.names (defined ctx q)) : definer? ctx files name = some q := by
  cases hFind : definer? ctx files name with
  | none => exact absurd hName (by simpa using List.find?_eq_none.mp hFind q hq)
  | some p =>
    have hp : name ∈ Table.names (defined ctx p) := by simpa using List.find?_some hFind
    have hMem := List.mem_map_of_mem (f := entry ctx) (List.mem_of_find?_eq_some hFind)
    rw [hs.path_unique hMem (List.mem_map_of_mem hq) hp hName]

end Definer

/-- **One more file.** Checking a new source file fails if it is refused; otherwise the file comes
last among those that are held. -/
theorem check_holding {files : List Text} {p : Text}
    (hs : Holdings.Sound (files.map (entry ctx))) (hPath : Registry.accepts p = true)
    (hNew : p ∉ files) (hThere : ctx.files.kind p = .ok .file) :
    (∀ e, refusal? ctx files p = some e →
      (Registry.check ctx.defineCalls ctx.files p
        (Holdings.registry (files.map (entry ctx)))).result = .error e) ∧
    (refusal? ctx files p = none →
      (Registry.check ctx.defineCalls ctx.files p
        (Holdings.registry (files.map (entry ctx)))).result = .ok true ∧
      (Registry.check ctx.defineCalls ctx.files p
        (Holdings.registry (files.map (entry ctx)))).state =
          Holdings.registry ((files ++ [p]).map (entry ctx)) ∧
      Holdings.Sound ((files ++ [p]).map (entry ctx))) := by
  obtain ⟨h', hs', hState, hEnd⟩ := @Holdings.check_cases ctx.defineCalls ctx.files p _ hs hPath
  have hRemove : Table.remove p (files.map (entry ctx)) = files.map (entry ctx) := by
    apply Table.remove_of_not_mem
    rwa [names_map_entry]
  rw [hRemove] at hEnd
  rw [hState]
  generalize (Registry.check ctx.defineCalls ctx.files p
    (Holdings.registry (files.map (entry ctx)))).result = result at hEnd ⊢
  unfold refusal?
  cases hFile : Registry.fileClasses ctx.defineCalls ctx.files p with
  | error e =>
    rw [hFile] at hEnd
    cases hEnd with
    | unread => exact ⟨fun e' he => by rw [Option.some.inj he], nofun⟩
  | ok found =>
    rw [hFile] at hEnd
    cases hEnd with
    | missing => exact absurd hFile (fileClasses_ne_none (FileSystem.read_ne_missing hThere))
    | indexed cs hFree =>
      have hNone : (cs.findSome? fun c => (definer? ctx files c.name).map fun q =>
          IndexFailure.duplicate c.name q p) = none := by
        rw [List.findSome?_eq_none_iff]
        intro c hc
        rw [definer?_eq_none (hFree c hc), Option.map_none]
      have hLast : files.map (entry ctx) ++ [(p, Holdings.gather [] cs)] =
          (files ++ [p]).map (entry ctx) := by
        rw [List.map_append, List.map_singleton, defined_of_readable hFile]
      rw [hLast] at hs' ⊢
      exact ⟨fun e he => (nomatch hNone.symm.trans he), fun _ => ⟨rfl, rfl, hs'⟩⟩
    | clash before c after holder u hFree hHolder hName =>
      obtain ⟨q, hq, hEntry⟩ := List.mem_map.mp hHolder
      obtain ⟨rfl, rfl⟩ := Prod.mk.inj hEntry
      -- the classes before the clash are free, and the one that clashes has one definer
      have hBefore : (before.findSome? fun c => (definer? ctx files c.name).map fun q =>
          IndexFailure.duplicate c.name q p) = none := by
        rw [List.findSome?_eq_none_iff]
        intro d hd
        rw [definer?_eq_none (hFree d hd), Option.map_none]
      have hSome : ((before ++ c :: after).findSome? fun c => (definer? ctx files c.name).map fun q =>
          IndexFailure.duplicate c.name q p) = some (.duplicate c.name q p) := by
        rw [List.findSome?_append, hBefore, List.findSome?_cons, definer?_eq_some hs hq hName]
        rfl
      refine ⟨fun e he => ?_, fun hNone => ?_⟩
      · rw [Option.some.inj (hSome.symm.trans he)]
      · exact nomatch hSome.symm.trans hNone

-- ---------------------------------------------------------------------------
-- The walk, step by step
-- ---------------------------------------------------------------------------

namespace Step

/-- The file that a step checks. -/
def checked? : Step → Option Text
  | .check p => some p
  | _ => none

/-- The directory that a step closes. -/
def closed? : Step → Option Text
  | .close dir => some dir
  | _ => none

/-- What goes wrong with a step, when a walk checks the given files. -/
def failure? (ctx : IndexContext) (files : List Text) : Step → Option IndexFailure
  | .fault f p => some (.file f p)
  | .check p => refusal? ctx (files.takeWhile fun q => decide (q ≠ p)) p
  | _ => none

end Step

/-- The steps of the walk. -/
def walk (ctx : IndexContext) (root : Text) : List Step := (route ctx root).flatMap (steps ctx)

/-- The index that some steps of the walk lead to, if nothing goes wrong. -/
def reached (ctx : IndexContext) (before : List Step) : Indexer :=
  holding ctx (before.filterMap Step.checked?) (before.filterMap Step.closed?)

/-- One more step checks one more file at most. -/
theorem checked_snoc (before : List Step) (s : Step) :
    (before ++ [s]).filterMap Step.checked? =
      before.filterMap Step.checked? ++ s.checked?.toList := by
  rw [List.filterMap_append]
  cases s <;> rfl

theorem closed_snoc (before : List Step) (s : Step) :
    (before ++ [s]).filterMap Step.closed? = before.filterMap Step.closed? ++ s.closed?.toList := by
  rw [List.filterMap_append]
  cases s <;> rfl

/-- The steps for an entry fail as the entry does. -/
theorem entrySteps_failure (files : List Text) (dir name : Text) :
    (entrySteps ctx dir name).filterMap (Step.failure? ctx files) =
      (entryFailure? ctx files dir name).toList := by
  unfold entrySteps entryFailure?
  cases ctx.files.kind (Path.join dir name) with
  | error f => cases f <;> rfl
  | ok k =>
    cases k with
    | file =>
      dsimp only
      split
      · rw [List.filterMap_cons, List.filterMap_nil, Step.failure?]
        cases refusal? ctx (files.takeWhile fun q => decide (q ≠ Path.join dir name))
          (Path.join dir name) <;> rfl
      · rfl
    | _ => rfl

/-- The steps for a directory that is there fail as its entries do. -/
theorem steps_failure (files : List Text) {dir : Text}
    (hThere : ctx.files.list dir ≠ .error .missing) :
    (steps ctx dir).filterMap (Step.failure? ctx files) = failuresIn ctx files dir := by
  unfold steps failuresIn
  cases hList : ctx.files.list dir with
  | error f =>
    cases f with
    | missing => exact absurd hList hThere
    | _ => rfl
  | ok names =>
    dsimp only
    have hClose : [Step.close dir].filterMap (Step.failure? ctx files) = [] := rfl
    rw [List.filterMap_append, hClose, List.append_nil, List.filterMap_flatMap,
      List.filterMap_eq_flatMap_toList]
    simp only [entrySteps_failure]

/-- The steps for a directory check its source files. -/
theorem steps_checked (dir : Text) :
    (steps ctx dir).filterMap Step.checked? = sources ctx dir := by
  have hEntry : ∀ name, (entrySteps ctx dir name).filterMap Step.checked? =
      (source? ctx dir name).toList := by
    intro name
    rcases entrySteps_cases ctx dir name with ⟨hSteps, hSource⟩ | ⟨p, hSteps, hSource⟩ |
      ⟨f, p, hSteps, hSource⟩ | ⟨p, hSteps, hSource⟩
    all_goals
      rw [hSteps, hSource]
      rfl
  unfold steps sources
  cases hList : ctx.files.list dir with
  | error f =>
    rw [listed_of_error hList]
    cases f <;> rfl
  | ok names =>
    have hClose : [Step.close dir].filterMap Step.checked? = [] := rfl
    dsimp only
    rw [List.filterMap_append, hClose, List.append_nil, List.filterMap_flatMap,
      List.filterMap_eq_flatMap_toList]
    simp only [hEntry]

/-- The steps for a directory close it if it can be listed. -/
theorem steps_closed (dir : Text) :
    (steps ctx dir).filterMap Step.closed? =
      [dir].filter fun dir => (ctx.files.list dir).toBool := by
  have hEntry : ∀ name, (entrySteps ctx dir name).filterMap Step.closed? = [] := by
    intro name
    rcases entrySteps_cases ctx dir name with ⟨hSteps, -⟩ | ⟨p, hSteps, -⟩ | ⟨f, p, hSteps, -⟩ |
      ⟨p, hSteps, -⟩
    all_goals
      rw [hSteps]
      rfl
  unfold steps
  cases hList : ctx.files.list dir with
  | error f =>
    simp only [List.filter_cons, hList, List.filter_nil]
    cases f <;> rfl
  | ok names =>
    dsimp only
    rw [List.filterMap_append, List.filterMap_flatMap]
    simp only [hEntry, List.filter_cons, hList, List.filter_nil]
    simp [Step.closed?, Except.toBool]

/-- The walk checks the files that a scan selects. -/
theorem walk_checked : (walk ctx root).filterMap Step.checked? = selected ctx root := by
  unfold walk selected
  rw [List.filterMap_flatMap]
  simp only [steps_checked]

/-- The walk closes the directories that a scan closes. -/
theorem walk_closed : (walk ctx root).filterMap Step.closed? = closed ctx root := by
  unfold walk closed
  rw [List.filterMap_flatMap]
  simp only [steps_closed]
  induction route ctx root with
  | nil => rfl
  | cons dir dirs ih => rw [List.flatMap_cons, ih, ← List.filter_append, List.singleton_append]

/-- In a list without repetitions, what comes before an element is all up to it. -/
theorem takeWhile_ne {as bs : List Text} {p : Text} (h : (as ++ p :: bs).Nodup) :
    ((as ++ p :: bs).takeWhile fun q => decide (q ≠ p)) = as := by
  rw [List.nodup_append] at h
  have hBefore : ∀ q ∈ as, decide (q ≠ p) = true := fun q hq =>
    decide_eq_true (h.2.2 q hq p List.mem_cons_self)
  rw [List.takeWhile_append_of_pos hBefore, List.takeWhile_cons_of_neg (by simp), List.append_nil]

section Walk

variable (hfs : ctx.files.WellNamed) (hRoot : Path.normalize root = b.path [])

include hfs hRoot

/-- Nothing that the walk has seen is gone from a directory of the walk. -/
theorem gone_eq_nil {x : Indexer} {dir : Text} (hDir : dir ∈ route ctx root)
    (hDirs : ∀ d ∈ x.dirs, d ∈ route ctx root) : x.gone ctx dir = [] := by
  rw [List.eq_nil_iff_forall_not_mem]
  intro d hd
  obtain ⟨hKnown, hParent, hOther, hNot⟩ := mem_gone.mp hd
  obtain ⟨ns, rfl⟩ := exists_names_of_mem_route hfs hRoot hDir
  obtain ⟨ms, rfl⟩ := exists_names_of_mem_route hfs hRoot (hDirs d hKnown)
  obtain ⟨n, hEq⟩ := b.exists_name_of_parent (b.isAbsolute_path ms) (b.normalize_path ms) hParent hOther
  rw [hEq] at hKnown hNot
  exact hNot ((mem_route_snoc hfs hRoot).mp (hDirs _ hKnown)).2

/-- If only files that the scan selects are tracked, none of them is gone. -/
theorem goneFiles_eq_nil {x : Indexer} {dir : Text}
    (hFiles : ∀ p ∈ x.registry.paths, p ∈ selected ctx root) :
    x.goneFiles ctx.sourceExtension dir (listing ctx dir) = [] := by
  rw [List.eq_nil_iff_forall_not_mem]
  intro p hp
  obtain ⟨hTracked, rfl, -, hNot⟩ := mem_goneFiles.mp hp
  obtain ⟨ns, n, rfl, -, hSource, -⟩ :=
    of_mem_flatMap_sources hfs hRoot (fun _ h => h) (hFiles p hTracked)
  rw [b.parent_path] at hNot
  exact hNot hSource

/-- **One more directory.** When the walk closes a directory, nothing is dropped and the directory
is added. -/
theorem reached_close {before after : List Step} {dir : Text}
    (hSplit : walk ctx root = before ++ .close dir :: after) :
    Step.run ctx (.close dir) (reached ctx before) =
      ⟨reached ctx (before ++ [.close dir]), [.directoryAdded dir], .ok ()⟩ := by
  have hClosed : closed ctx root =
      before.filterMap Step.closed? ++ dir :: after.filterMap Step.closed? := by
    rw [← walk_closed, hSplit, List.filterMap_append]
    rfl
  have hChecked : selected ctx root =
      before.filterMap Step.checked? ++ after.filterMap Step.checked? := by
    rw [← walk_checked, hSplit, List.filterMap_append]
    rfl
  have hRoute : ∀ d ∈ closed ctx root, d ∈ route ctx root := fun d hd => (mem_closed.mp hd).1
  have hDistinct : (closed ctx root).Nodup := (nodup_route hfs hRoot).filter _
  rw [hClosed] at hRoute hDistinct
  rw [List.nodup_append] at hDistinct
  have hNew : dir ∉ (reached ctx before).dirs := fun hMem =>
    hDistinct.2.2 dir hMem dir List.mem_cons_self rfl
  -- the index holds only what the walk has come to, so nothing can be gone
  have hGone : (reached ctx before).gone ctx dir = [] :=
    gone_eq_nil hfs hRoot (hRoute dir (List.mem_append_right _ List.mem_cons_self))
      fun d hd => hRoute d (List.mem_append_left _ hd)
  have hFiles : (reached ctx before).goneFiles ctx.sourceExtension dir (listing ctx dir) = [] := by
    refine goneFiles_eq_nil hfs hRoot fun p hp => ?_
    rw [hChecked]
    rw [reached, paths_holding] at hp
    exact List.mem_append_left _ hp
  have hClose : Step.run ctx (.close dir) (reached ctx before) = learn dir (reached ctx before) := by
    rw [close_step_eq, hGone, removeAll, Action.forEach_nil, pure_bind, Action.state_bind, hFiles,
      retractAll, Action.forEach_nil, pure_bind]
  rw [hClose, learn_of_unknown hNew, reached, reached, checked_snoc, closed_snoc]
  simp [holding, Step.checked?, Step.closed?]

/-- **One more source file.** -/
theorem reached_check {before after : List Step} {p : Text}
    (hSplit : walk ctx root = before ++ .check p :: after)
    (hs : Holdings.Sound ((before.filterMap Step.checked?).map (entry ctx))) :
    (∀ e, (Step.check p).failure? ctx (selected ctx root) = some e →
      (Step.run ctx (.check p) (reached ctx before)).result = .error e) ∧
    ((Step.check p).failure? ctx (selected ctx root) = none →
      (Step.run ctx (.check p) (reached ctx before)).result = .ok () ∧
      (Step.run ctx (.check p) (reached ctx before)).state = reached ctx (before ++ [.check p]) ∧
      Holdings.Sound ((before.filterMap Step.checked? ++ [p]).map (entry ctx))) := by
  have hMem : Step.check p ∈ walk ctx root := hSplit ▸ List.mem_append_right before List.mem_cons_self
  have hChecked : selected ctx root =
      before.filterMap Step.checked? ++ p :: after.filterMap Step.checked? := by
    rw [← walk_checked, hSplit, List.filterMap_append]
    rfl
  have hDistinct := nodup_selected hfs hRoot
  rw [hChecked] at hDistinct
  -- the files that have been checked are those before this one
  have hFailure : (Step.check p).failure? ctx (selected ctx root) =
      refusal? ctx (before.filterMap Step.checked?) p := by
    rw [Step.failure?, hChecked, takeWhile_ne hDistinct]
  have hNew : p ∉ before.filterMap Step.checked? := fun hOld =>
    (List.nodup_append.mp hDistinct).2.2 p hOld p List.mem_cons_self rfl
  obtain ⟨ns, n, rfl, -, -, hKind⟩ : ∃ ns n, p = b.path (ns ++ [n]) ∧ b.path ns ∈ route ctx root ∧
      p ∈ sources ctx (b.path ns) ∧ ctx.files.kind p = .ok .file := by
    refine of_mem_flatMap_sources hfs hRoot (fun _ h => h) ?_
    rw [← selected, hChecked]
    exact List.mem_append_right _ List.mem_cons_self
  obtain ⟨hRefused, hTaken⟩ := check_holding hs (accepts_path _) hNew hKind
  rw [hFailure]
  refine ⟨fun e he => check_step_eq_error.mpr (hRefused e he), fun hNone => ?_⟩
  obtain ⟨hResult, hState, hSound⟩ := hTaken hNone
  refine ⟨check_step_eq_ok.mpr ⟨true, hResult⟩, ?_, hSound⟩
  rw [state_check_step]
  rw [reached, reached, checked_snoc, closed_snoc]
  simp only [holding, Step.checked?, Step.closed?, Option.toList_some, Option.toList_none,
    List.append_nil]
  rw [hState]

/-- **One more step.** A step of the walk fails if something goes wrong with it; otherwise it leads
on. -/
theorem reached_step {before after : List Step} {s : Step}
    (hThere : ctx.files.list (b.path []) ≠ .error .missing)
    (hSplit : walk ctx root = before ++ s :: after)
    (hs : Holdings.Sound ((before.filterMap Step.checked?).map (entry ctx))) :
    (∀ e, s.failure? ctx (selected ctx root) = some e →
      (Step.run ctx s (reached ctx before)).result = .error e) ∧
    (s.failure? ctx (selected ctx root) = none →
      (Step.run ctx s (reached ctx before)).result = .ok () ∧
      (Step.run ctx s (reached ctx before)).state = reached ctx (before ++ [s]) ∧
      (Step.run ctx s (reached ctx before)).events = s.closed?.toList.map .added ∧
      Holdings.Sound (((before ++ [s]).filterMap Step.checked?).map (entry ctx))) := by
  have hMem : s ∈ walk ctx root := hSplit ▸ List.mem_append_right before List.mem_cons_self
  obtain ⟨dir, hDir, hStep⟩ := List.mem_flatMap.mp hMem
  rw [checked_snoc]
  rcases mem_steps hStep with ⟨p, rfl⟩ | ⟨f, p, rfl⟩ | ⟨p, hp, rfl⟩ | ⟨rfl, -⟩ | ⟨rfl, hMissing⟩
  · -- a name with nothing behind it
    have hSame : reached ctx (before ++ [.vanished p]) = reached ctx before := by
      rw [reached, reached, checked_snoc, closed_snoc]
      simp [Step.checked?, Step.closed?]
    refine ⟨nofun, fun _ => ⟨rfl, hSame.symm, rfl, ?_⟩⟩
    simpa [Step.checked?] using hs
  · exact ⟨fun e he => congrArg Except.error (Option.some.inj he), nofun⟩
  · obtain ⟨hRefused, hTaken⟩ := reached_check hfs hRoot hSplit hs
    refine ⟨hRefused, fun hNone => ?_⟩
    obtain ⟨hResult, hState, hSound⟩ := hTaken hNone
    have hCheck : Step.run ctx (.check p) = checks ctx [p] :=
      (Action.forEach_singleton (fun p => Step.run ctx (.check p)) p).symm
    refine ⟨hResult, hState, ?_, hSound⟩
    rw [hCheck, events_checks]
    rfl
  · rw [reached_close hfs hRoot hSplit]
    refine ⟨nofun, fun _ => ⟨rfl, rfl, rfl, ?_⟩⟩
    simpa [Step.checked?] using hs
  · -- only the root could be missing
    exfalso
    obtain ⟨ns, rfl⟩ := exists_names_of_mem_route hfs hRoot hDir
    rcases List.eq_nil_or_concat ns with rfl | ⟨ms, m, rfl⟩
    · exact hThere hMissing
    · rw [List.concat_eq_append] at *
      exact list_ne_missing_of_mem_route hfs hRoot hDir hMissing

/-- **The rest of the walk**, from any point on: it fails with what goes wrong first, if anything
does; otherwise it leads to the end. -/
theorem walk_rest {before after : List Step}
    (hThere : ctx.files.list (b.path []) ≠ .error .missing)
    (hSplit : walk ctx root = before ++ after)
    (hs : Holdings.Sound ((before.filterMap Step.checked?).map (entry ctx))) :
    (∀ e es, after.filterMap (Step.failure? ctx (selected ctx root)) = e :: es →
      (Action.forEach (Step.run ctx) after (reached ctx before)).result = .error e) ∧
    (after.filterMap (Step.failure? ctx (selected ctx root)) = [] →
      (Action.forEach (Step.run ctx) after (reached ctx before)).result = .ok () ∧
      (Action.forEach (Step.run ctx) after (reached ctx before)).state = reached ctx (walk ctx root) ∧
      (Action.forEach (Step.run ctx) after (reached ctx before)).events =
        (after.filterMap Step.closed?).map .added) := by
  -- the induction is on the steps to come; those before have led to a known state
  induction after generalizing before with
  | nil =>
    rw [List.append_nil] at hSplit
    rw [hSplit]
    exact ⟨nofun, fun _ => ⟨rfl, rfl, rfl⟩⟩
  | cons s after ih =>
    obtain ⟨hFails, hLeads⟩ := reached_step hfs hRoot hThere hSplit hs
    rw [Action.forEach_cons]
    cases hFailure : s.failure? ctx (selected ctx root) with
    | some e =>
      rw [List.filterMap_cons_some hFailure, Action.bind_of_error (hFails e hFailure)]
      exact ⟨fun e' es hEq => congrArg Except.error (List.cons.inj hEq).1, nofun⟩
    | none =>
      obtain ⟨hResult, hState, hEvents, hSound⟩ := hLeads hFailure
      -- a step without failure leads to the state that the next one starts from
      have hNext : walk ctx root = (before ++ [s]) ++ after := by
        rw [hSplit, List.append_assoc, List.singleton_append]
      obtain ⟨hRestFails, hRestLeads⟩ := ih hNext hSound
      rw [← hState] at hRestFails hRestLeads
      rw [List.filterMap_cons_none hFailure, Action.events_bind_of_ok hResult, hEvents,
        Action.bind_of_ok hResult]
      refine ⟨hRestFails, fun hNone => ?_⟩
      obtain ⟨hRest, hRestState, hRestEvents⟩ := hRestLeads hNone
      refine ⟨hRest, hRestState, ?_⟩
      rw [hRestEvents, ← List.map_append]
      cases s <;> rfl

/-- On the walk, what goes wrong with the steps is what goes wrong in the directories. -/
theorem walk_failure (hThere : ctx.files.list (b.path []) ≠ .error .missing) :
    (walk ctx root).filterMap (Step.failure? ctx (selected ctx root)) = failures ctx root := by
  have hDirs : ∀ dir ∈ route ctx root, ctx.files.list dir ≠ .error .missing := by
    intro dir hDir
    obtain ⟨ns, rfl⟩ := exists_names_of_mem_route hfs hRoot hDir
    rcases List.eq_nil_or_concat ns with rfl | ⟨ms, m, rfl⟩
    · exact hThere
    · rw [List.concat_eq_append] at *
      exact list_ne_missing_of_mem_route hfs hRoot hDir
  unfold walk failures walkFiles
  rw [← route_eq_breadthFirst hfs, ← selected, List.filterMap_flatMap]
  exact List.flatMap_congr fun dir hDir => steps_failure _ (hDirs dir hDir)

omit hRoot in
/-- Where nothing goes wrong, all directories of the walk can be listed. -/
theorem closed_eq_route (hNone : failures ctx root = []) : closed ctx root = route ctx root := by
  unfold closed
  rw [List.filter_eq_self]
  intro dir hDir
  unfold failures at hNone
  rw [← route_eq_breadthFirst hfs] at hNone
  have hHere := List.flatMap_eq_nil_iff.mp hNone dir hDir
  unfold failuresIn at hHere
  cases hList : ctx.files.list dir with
  | error f =>
    rw [hList] at hHere
    exact nomatch hHere
  | ok names => rfl

end Walk

/-- **The first scan.** A scan of an empty index whose root is missing does nothing. Any other walks
through the root and all that can be reached from it, level by level, and in every directory through
the names in order. If nothing goes wrong, it leaves the source files of the walk and the
directories of the walk, both in the order of the walk, and it reports the directories in this
order. Otherwise it fails with what goes wrong first. -/
theorem first_scan (hfs : ctx.files.WellNamed) (hAbsolute : Path.isAbsolute root = true) :
    (ctx.files.list (Path.normalize root) = .error .missing →
      scan ctx root {} = ⟨{}, [], .ok ()⟩) ∧
    (ctx.files.list (Path.normalize root) ≠ .error .missing →
      (∀ e es, failures ctx root = e :: es → (scan ctx root {}).result = .error e) ∧
      (failures ctx root = [] →
        (scan ctx root {}).result = .ok () ∧
        (scan ctx root {}).state.registry.paths = (breadthFirst ctx root).flatMap (sources ctx) ∧
        (scan ctx root {}).state.dirs = breadthFirst ctx root ∧
        (scan ctx root {}).events = (breadthFirst ctx root).map .added)) ∧
    ∀ d, d ∈ breadthFirst ctx root ↔ Reachable ctx root d := by
  obtain ⟨b, hRoot⟩ := Path.exists_base hAbsolute
  refine ⟨fun hMissing => ?_, fun hThere => ?_, fun d => mem_breadthFirst_iff hfs hRoot⟩
  · rw [hRoot] at hMissing
    rw [scan_eq_run hfs hRoot hAbsolute, run_of_missing hRoot hMissing]
    have hRemove := @remove_of_unknown ctx {} (b.path []) List.not_mem_nil
    show (remove ctx (b.path []) >>= fun _ => pure () : Action Indexer IndexFailure Unit) {} = _
    rw [Action.bind_of_ok (a := false) (by rw [hRemove]), hRemove]
    rfl
  · rw [hRoot] at hThere
    obtain ⟨hFails, hLeads⟩ := @walk_rest ctx b root hfs hRoot [] (walk ctx root) hThere rfl
      Holdings.Sound.nil
    rw [walk_failure hfs hRoot hThere] at hFails hLeads
    rw [scan_eq_run hfs hRoot hAbsolute]
    refine ⟨hFails, fun hNone => ?_⟩
    obtain ⟨hResult, hState, hEvents⟩ := hLeads hNone
    rw [walk_closed, closed_eq_route hfs hNone, route_eq_breadthFirst hfs] at hEvents
    -- without failures every directory on the route is closed
    have hEnd : reached ctx (walk ctx root) =
        holding ctx ((breadthFirst ctx root).flatMap (sources ctx)) (breadthFirst ctx root) := by
      rw [reached, walk_checked, walk_closed, closed_eq_route hfs hNone, selected,
        route_eq_breadthFirst hfs]
    rw [hEnd] at hState
    refine ⟨hResult, ?_, ?_, hEvents⟩
    · exact (congrArg (fun x => x.registry.paths) hState).trans (paths_holding _ _)
    · exact congrArg Indexer.dirs hState

/-- A tree whose names are not in order, with a name that has nothing behind it and a directory that
is ignored. One of its source files is given. -/
def orchard (bytes : List UInt8) : IndexContext :=
  { usual with
    files := folder [("t", .directory [("c.js", .file bytes)]), ("a.js", definition "A"),
      ("z", .ghost), ("s", .directory [("x", .directory [("x.js", definition "X")])])]
    ignoredDirs := ["x"] }

/-- The walk through a small tree: its directories by level, its source files, and a listing. -/
theorem orchard_walk (bytes : List UInt8) :
    breadthFirst (orchard bytes) "/r/" = ["/r", "/r/s", "/r/t"].map String.toList ∧
      walkFiles (orchard bytes) "/r/" = ["/r/a.js", "/r/t/c.js"].map String.toList ∧
      listed (orchard bytes) "/r" = ["a.js", "s", "t", "z"].map String.toList := by
  have hListed : listed (orchard bytes) "/r" = ["a.js", "s", "t", "z"].map String.toList := by
    have hList : (orchard bytes).files.list "/r" = .ok (["t", "a.js", "z", "s"].map String.toList) := rfl
    exact (listed_of_list hList).trans (sorted_eq (by decide) (by decide))
  have hListedS : listed (orchard bytes) "/r/s" = ["x"].map String.toList := by
    have hList : (orchard bytes).files.list "/r/s" = .ok (["x"].map String.toList) := rfl
    exact (listed_of_list hList).trans (sorted_eq (.refl _) (by decide))
  have hListedT : listed (orchard bytes) "/r/t" = ["c.js"].map String.toList := by
    have hList : (orchard bytes).files.list "/r/t" = .ok (["c.js"].map String.toList) := rfl
    exact (listed_of_list hList).trans (sorted_eq (.refl _) (by decide))
  have hSubdirs : subdirs (orchard bytes) "/r" = ["/r/s", "/r/t"].map String.toList := by
    rw [subdirs, hListed]
    rfl
  have hSubdirsS : subdirs (orchard bytes) "/r/s" = [] := by
    rw [subdirs, hListedS]
    rfl
  have hSubdirsT : subdirs (orchard bytes) "/r/t" = [] := by
    rw [subdirs, hListedT]
    rfl
  -- two levels, each from the listings of the one above
  have hWalk : breadthFirst (orchard bytes) "/r/" = ["/r", "/r/s", "/r/t"].map String.toList := by
    show levels (orchard bytes) 10 [("/r" : Text)] = _
    rw [levels, List.flatMap_singleton, hSubdirs, levels]
    simp only [List.map_cons, List.map_nil, List.flatMap_cons, List.flatMap_nil]
    rw [hSubdirsS, hSubdirsT]
    rfl
  refine ⟨hWalk, ?_, hListed⟩
  rw [walkFiles, hWalk]
  simp only [List.map_cons, List.map_nil, List.flatMap_cons, List.flatMap_nil, sources]
  rw [hListed, hListedS, hListedT]
  rfl

/-- In that tree a scan fails just when the same class is defined twice. -/
theorem orchard_failures :
    failures (orchard (Registry.definitions ["C"])) "/r/" = [] ∧
      failures (orchard (Registry.definitions ["A"])) "/r/" =
        [.duplicate "A" "/r/a.js" "/r/t/c.js"] := by
  simp only [failures, orchard_walk, failuresIn, List.map_cons, List.map_nil, List.flatMap_cons,
    List.flatMap_nil]
  decide +kernel

/-- With a class of its own, the file in the deepest directory is indexed last; with a class of
another file, the scan fails there. -/
theorem first_scan_of_orchard :
    ((scan (orchard (Registry.definitions ["C"])) "/r/" {}).result = .ok () ∧
      (scan (orchard (Registry.definitions ["C"])) "/r/" {}).state.registry.paths =
        ["/r/a.js", "/r/t/c.js"].map String.toList ∧
      (scan (orchard (Registry.definitions ["C"])) "/r/" {}).state.dirs =
        ["/r", "/r/s", "/r/t"].map String.toList ∧
      (scan (orchard (Registry.definitions ["C"])) "/r/" {}).events =
        [.added "/r", .added "/r/s", .added "/r/t"]) ∧
    (scan (orchard (Registry.definitions ["A"])) "/r/" {}).result =
      .error (.duplicate "A" "/r/a.js" "/r/t/c.js") ∧
    scan (orchard []) "/q" {} = ⟨{}, [], .ok ()⟩ := by
  obtain ⟨hNone, hDuplicate⟩ := orchard_failures
  obtain ⟨hWalk, hFiles, -⟩ := orchard_walk (Registry.definitions ["C"])
  have hNamed : ∀ names ∈ [["A"], ["C"], []],
      (orchard (Registry.definitions names)).files.WellNamed := by decide
  have hThere : ∀ names ∈ [["A"], ["C"]], (orchard (Registry.definitions names)).files.list
      (Path.normalize "/r/") ≠ .error .missing := by decide
  have hFirst := ((first_scan (hNamed ["C"] (by decide)) (by decide)).2.1
    (hThere ["C"] (by decide))).2 hNone
  have hSecond := ((first_scan (hNamed ["A"] (by decide)) (by decide)).2.1
    (hThere ["A"] (by decide))).1 _ _ hDuplicate
  have hThird := (first_scan (hNamed [] (by decide)) (by decide)).1
    (by decide : (orchard []).files.list (Path.normalize "/q") = .error .missing)
  rw [← walkFiles, hWalk, hFiles] at hFirst
  exact ⟨hFirst, hSecond, hThird⟩

end ClassTags.Indexer
