import ClassTags.Proofs.Action
import ClassTags.Proofs.FileTree

/-!
# The route of a scan

Where a scan goes does not depend on the index it works on. On a file system that does not change
during the call, the directories of a scan and what it does in each of them are known in advance:
the **route** is the list of the directories, breadth first, and every directory on it is worked off
in a list of **steps**. A scan is the run of these steps (`Indexer.scan_eq_run`), so that a
statement about scans is proved by induction on a list, with no queue and no bound in it.

Main definitions:

* `Indexer.subdirs`, `Indexer.sources` — what a scan goes into and what it checks in a directory;
* `Indexer.route` — the directories of a scan, in order;
* `Indexer.Step`, `Indexer.steps` — what is done in a directory.

Main results:

* `Indexer.run_along` — an induction along the directories of a scan;
* `Indexer.scan_of_steps` — what the steps have in common holds of a scan;
* `Indexer.route_closed` — a scan leaves out none of the directories it has found;
* `Indexer.route_split` — it comes to a directory once, and after the directory above it;
* `Indexer.scan_eq_run` — it does just the steps of its route.
-/

namespace ClassTags.Indexer

-- ---------------------------------------------------------------------------
-- What is in a directory
-- ---------------------------------------------------------------------------

/-- The directory with the given name, if it is searched. -/
def subdir? (ctx : IndexContext) (dir name : Text) : Option Text :=
  match ctx.files.kind (Path.join dir name) with
  | .ok .directory =>
    if ctx.ignoredDirs.contains name then none else some (Path.join dir name)
  | _ => none

/-- The file with the given name, if it is a source file. -/
def source? (ctx : IndexContext) (dir name : Text) : Option Text :=
  match ctx.files.kind (Path.join dir name) with
  | .ok .file =>
    if ctx.sourceExtension.isSuffixOf name then some (Path.join dir name) else none
  | _ => none

/-- The names in a directory, in order. There are none if it cannot be listed. -/
def listed (ctx : IndexContext) (dir : Text) : List Text :=
  match ctx.files.list dir with
  | .ok names => sorted names
  | .error _ => []

/-- The directories in a directory that are searched. -/
def subdirs (ctx : IndexContext) (dir : Text) : List Text :=
  (listed ctx dir).filterMap (subdir? ctx dir)

/-- The source files in a directory. -/
def sources (ctx : IndexContext) (dir : Text) : List Text :=
  (listed ctx dir).filterMap (source? ctx dir)

/-- The directories that a scan comes to from a queue of them, at most `fuel` many. -/
def routeFrom (ctx : IndexContext) : (fuel : Nat) → (queue : List Text) → List Text
  | 0, _ => []
  | _ + 1, [] => []
  | fuel + 1, dir :: queue => dir :: routeFrom ctx fuel (queue ++ subdirs ctx dir)

/-- The directories that a scan comes to, in order. -/
def route (ctx : IndexContext) (root : Text) : List Text :=
  routeFrom ctx (ctx.files.size + 1) [Path.normalize root]

-- ---------------------------------------------------------------------------
-- Steps
-- ---------------------------------------------------------------------------

/-- What a scan does at one moment. -/
inductive Step where
  /-- Takes note of a name with nothing behind it. -/
  | vanished (path : Text)
  /-- Gives up. -/
  | fault (f : Fault) (path : Text)
  | check (path : Text)
  /-- Drops what is no longer in a directory, and makes the directory known. -/
  | close (dir : Text)
  /-- Forgets a directory that is missing. -/
  | absent (dir : Text)
deriving DecidableEq, Repr

/-- The listing that is made of a directory. -/
def listing (ctx : IndexContext) (dir : Text) : Listing where
  dirs := subdirs ctx dir
  files := sources ctx dir

/-- Takes a step. -/
def Step.run (ctx : IndexContext) : Step → Action Indexer IndexFailure Unit
  | vanished path => Action.note (.entryVanished path)
  | fault f path => Action.fail (.file f path)
  | check path => do
    let _ ← Indexer.check ctx path
    pure ()
  | close dir => do
    prune ctx dir (listing ctx dir)
    learn dir
  | absent dir => do
    let _ ← remove ctx dir
    pure ()

/-- The steps for a name in a directory. -/
def entrySteps (ctx : IndexContext) (dir name : Text) : List Step :=
  match ctx.files.kind (Path.join dir name) with
  | .error .missing => [.vanished (Path.join dir name)]
  | .error f => [.fault f (Path.join dir name)]
  | .ok .file =>
    if ctx.sourceExtension.isSuffixOf name then [.check (Path.join dir name)] else []
  | .ok _ => []

/-- The steps for a directory. -/
def steps (ctx : IndexContext) (dir : Text) : List Step :=
  match ctx.files.list dir with
  | .error .missing => [.absent dir]
  | .error f => [.fault f dir]
  | .ok _ => (listed ctx dir).flatMap (entrySteps ctx dir) ++ [.close dir]

/-- Takes all steps for some directories. -/
def run (ctx : IndexContext) (dirs : List Text) : Action Indexer IndexFailure Unit :=
  Action.forEach (Step.run ctx) (dirs.flatMap (steps ctx))

variable {ctx : IndexContext}

/-- The steps for a directory that can be listed: those for its entries, and its closing. -/
theorem steps_of_list {dir : Text} {names : List Text} (h : ctx.files.list dir = .ok names) :
    steps ctx dir = (listed ctx dir).flatMap (entrySteps ctx dir) ++ [.close dir] := by
  unfold steps
  rw [h]

/-- Directories are served one after the other. -/
theorem run_cons (dir : Text) (dirs : List Text) :
    run ctx (dir :: dirs) =
      Action.forEach (Step.run ctx) (steps ctx dir) >>= fun _ => run ctx dirs := by
  unfold run
  rw [List.flatMap_cons, Action.forEach_append]

theorem run_append (ds es : List Text) :
    run ctx (ds ++ es) = run ctx ds >>= fun _ => run ctx es := by
  unfold run
  rw [List.flatMap_append, Action.forEach_append]

/-- **Along some directories.** What holds at the start and is passed on from directory to directory
holds when all of them have been worked off. -/
theorem run_along {P : List Text → Outcome Indexer IndexFailure Unit → Prop} {start : Indexer}
    {whole front back : List Text} (hSplit : whole = front ++ back)
    (hList : ∀ dir ∈ front, ∃ names, ctx.files.list dir = .ok names)
    (hOk : (run ctx front start).result = .ok ()) (hStart : P [] ⟨start, [], .ok ()⟩)
    (hStep : ∀ front dir back names o, whole = front ++ dir :: back →
      ctx.files.list dir = .ok names → P front o →
      (Action.forEach (Step.run ctx) (steps ctx dir) o.state).result = .ok () →
      P (front ++ [dir]) ⟨(Action.forEach (Step.run ctx) (steps ctx dir) o.state).state,
        o.notices ++ (Action.forEach (Step.run ctx) (steps ctx dir) o.state).notices, .ok ()⟩) :
    P front (run ctx front start) := by
  -- on the directories from the last one back, since a step adds one at the end
  induction front using List.reverseRecOn generalizing back with
  | nil => exact hStart
  | append_singleton front dir ih =>
    have hRun : run ctx [dir] = Action.forEach (Step.run ctx) (steps ctx dir) := by
      unfold run
      rw [List.flatMap_singleton]
    rw [run_append, hRun] at hOk ⊢
    obtain ⟨⟨⟩, hFront, hDir⟩ := Action.result_bind_eq_ok.mp hOk
    rw [List.append_assoc, List.singleton_append] at hSplit
    rw [List.forall_mem_append, List.forall_mem_singleton] at hList
    obtain ⟨names, hNames⟩ := hList.2
    rw [Action.bind_of_ok hFront, hDir]
    exact hStep front dir back names _ hSplit hNames (ih hSplit hList.1 hFront) hDir

-- ---------------------------------------------------------------------------
-- Listings
-- ---------------------------------------------------------------------------

/-- The entries of a directory come in sorted order. -/
theorem listed_of_list {dir : Text} {names : List Text} (h : ctx.files.list dir = .ok names) :
    listed ctx dir = sorted names := by
  unfold listed
  rw [h]

theorem listed_of_error {dir : Text} {f : Fault} (h : ctx.files.list dir = .error f) :
    listed ctx dir = [] := by
  unfold listed
  rw [h]

theorem subdirs_of_error {dir : Text} {f : Fault} (h : ctx.files.list dir = .error f) :
    subdirs ctx dir = [] := by
  unfold subdirs
  rw [listed_of_error h]
  rfl

/-- A directory with another one in it can be listed. -/
theorem list_of_mem_subdirs {dir e : Text} (he : e ∈ subdirs ctx dir) :
    ∃ names, ctx.files.list dir = .ok names := by
  cases hList : ctx.files.list dir with
  | ok names => exact ⟨names, rfl⟩
  | error f =>
    rw [subdirs_of_error hList] at he
    exact absurd he List.not_mem_nil

/-- A directory with a source file in it can be listed. -/
theorem list_of_mem_sources {dir e : Text} (he : e ∈ sources ctx dir) :
    ∃ names, ctx.files.list dir = .ok names := by
  cases hList : ctx.files.list dir with
  | ok names => exact ⟨names, rfl⟩
  | error f =>
    unfold sources at he
    rw [listed_of_error hList] at he
    exact absurd he List.not_mem_nil

theorem mem_sorted {n : Text} {ts : List Text} : n ∈ sorted ts ↔ n ∈ ts := List.mem_mergeSort

theorem perm_sorted (ts : List Text) : (sorted ts).Perm ts := List.mergeSort_perm _ _

/-- The order of texts is transitive. -/
theorem textLe_trans (s t u : Text) (hst : textLe s t = true) (htu : textLe t u = true) :
    textLe s u = true := by
  unfold textLe at *
  rw [Bool.not_eq_true', decide_eq_false_iff_not] at *
  exact List.le_trans hst htu

/-- Of two texts one comes first. -/
theorem textLe_total (s t : Text) : (textLe s t || textLe t s) = true := by
  unfold textLe
  rw [Bool.or_eq_true, Bool.not_eq_true', Bool.not_eq_true', decide_eq_false_iff_not,
    decide_eq_false_iff_not]
  exact List.le_total s t

/-- Only equal texts come before each other. -/
theorem textLe_antisymm (s t : Text) (hst : textLe s t = true) (hts : textLe t s = true) : s = t := by
  unfold textLe at hst hts
  rw [Bool.not_eq_true', decide_eq_false_iff_not] at hst hts
  exact List.le_antisymm hst hts

/-- Texts that are in order are the same texts sorted. -/
theorem sorted_eq {ss ts : List Text} (h : ss.Perm ts)
    (hOrder : ts.Pairwise fun s t => textLe s t = true) : sorted ss = ts :=
  List.Perm.eq_of_pairwise (fun s t _ _ => textLe_antisymm s t)
    (List.pairwise_mergeSort textLe_trans textLe_total ss) hOrder ((perm_sorted ss).trans h)

/-- The same texts have one order. -/
theorem sorted_of_perm {ss ts : List Text} (h : ss.Perm ts) : sorted ss = sorted ts :=
  sorted_eq (h.trans (perm_sorted ts).symm) (List.pairwise_mergeSort textLe_trans textLe_total ts)

/-- The names that a scan meets in a directory are distinct names. -/
theorem listed_wellNamed (hfs : ctx.files.WellNamed) (dir : Text) :
    (listed ctx dir).Nodup ∧ ∀ n ∈ listed ctx dir, Path.IsName n := by
  cases hList : ctx.files.list dir with
  | error f =>
    rw [listed_of_error hList]
    exact ⟨List.nodup_nil, nofun⟩
  | ok names =>
    obtain ⟨hDistinct, hNames⟩ := FileSystem.list_wellNamed hfs hList
    rw [listed_of_list hList]
    exact ⟨(perm_sorted names).nodup_iff.mpr hDistinct, fun n hn => hNames n (mem_sorted.mp hn)⟩

/-- An entry is searched if it is a directory that is not ignored. -/
theorem subdir?_eq_some {dir name e : Text} :
    subdir? ctx dir name = some e ↔
      e = Path.join dir name ∧ ctx.files.kind e = .ok .directory ∧ name ∉ ctx.ignoredDirs := by
  unfold subdir?
  split
  · rename_i hKind
    by_cases hIgnored : name ∈ ctx.ignoredDirs
    · simp [hIgnored]
    · simp only [List.contains_iff_mem, hIgnored, if_false, Option.some.injEq, not_false_eq_true,
        and_true]
      constructor
      · rintro rfl
        exact ⟨rfl, hKind⟩
      · exact fun h => h.1.symm
  · rename_i hOther
    constructor
    · exact nofun
    · rintro ⟨rfl, hKind, -⟩
      exact absurd hKind hOther

/-- An entry is checked if it is a regular file with the extension of source files. -/
theorem source?_eq_some {dir name e : Text} :
    source? ctx dir name = some e ↔
      e = Path.join dir name ∧ ctx.files.kind e = .ok .file ∧
        ctx.sourceExtension.isSuffixOf name = true := by
  unfold source?
  split
  · rename_i hKind
    cases hExt : ctx.sourceExtension.isSuffixOf name with
    | false => simp
    | true =>
      simp only [if_true, Option.some.injEq, and_true]
      constructor
      · rintro rfl
        exact ⟨rfl, hKind⟩
      · exact fun h => h.1.symm
  · rename_i hOther
    constructor
    · exact nofun
    · rintro ⟨rfl, hKind, -⟩
      exact absurd hKind hOther

/-- A scan finds regular files only. -/
theorem not_mem_sources {dir e : Text} (he : ctx.files.kind e ≠ .ok .file) : e ∉ sources ctx dir := by
  intro hMem
  obtain ⟨name, -, hSource⟩ := List.mem_filterMap.mp hMem
  exact he (source?_eq_some.mp hSource).2.1

variable {b : Path.Base}

/-- The directories in a directory are one name below it. -/
theorem of_mem_subdirs (hfs : ctx.files.WellNamed) {ns : List Path.Name} {e : Text}
    (he : e ∈ subdirs ctx (b.path ns)) :
    ∃ n : Path.Name, e = b.path (ns ++ [n]) ∧ ctx.files.kind e = .ok .directory ∧
      n.1 ∉ ctx.ignoredDirs := by
  obtain ⟨name, hName, hSubdir⟩ := List.mem_filterMap.mp he
  obtain ⟨rfl, hKind, hIgnored⟩ := subdir?_eq_some.mp hSubdir
  have hIsName := (listed_wellNamed hfs _).2 name hName
  exact ⟨⟨name, hIsName⟩, b.join_path ns ⟨name, hIsName⟩, hKind, hIgnored⟩

/-- The source files in a directory are one name below it. -/
theorem of_mem_sources (hfs : ctx.files.WellNamed) {ns : List Path.Name} {e : Text}
    (he : e ∈ sources ctx (b.path ns)) :
    ∃ n : Path.Name, e = b.path (ns ++ [n]) ∧ ctx.files.kind e = .ok .file ∧
      ctx.sourceExtension.isSuffixOf n.1 = true := by
  obtain ⟨name, hName, hSource⟩ := List.mem_filterMap.mp he
  obtain ⟨rfl, hKind, hExt⟩ := source?_eq_some.mp hSource
  have hIsName := (listed_wellNamed hfs _).2 name hName
  exact ⟨⟨name, hIsName⟩, b.join_path ns ⟨name, hIsName⟩, hKind, hExt⟩

/-- The directories that a scan goes into from a directory that can be listed. -/
theorem mem_subdirs (hfs : ctx.files.WellNamed) {ns : List Path.Name} {names : List Text}
    (hList : ctx.files.list (b.path ns) = .ok names) {e : Text} :
    e ∈ subdirs ctx (b.path ns) ↔
      ∃ n : Path.Name, e = b.path (ns ++ [n]) ∧ ctx.files.kind e = .ok .directory ∧
        n.1 ∉ ctx.ignoredDirs := by
  refine ⟨of_mem_subdirs hfs, ?_⟩
  rintro ⟨n, rfl, hKind, hIgnored⟩
  rw [← b.join_path] at hKind ⊢
  refine List.mem_filterMap.mpr ⟨n.1, ?_, subdir?_eq_some.mpr ⟨rfl, hKind, hIgnored⟩⟩
  rw [listed_of_list hList, mem_sorted]
  exact FileSystem.mem_of_kind_join n.2 hList hKind

/-- The files that a scan checks in a directory that can be listed. -/
theorem mem_sources (hfs : ctx.files.WellNamed) {ns : List Path.Name} {names : List Text}
    (hList : ctx.files.list (b.path ns) = .ok names) {e : Text} :
    e ∈ sources ctx (b.path ns) ↔
      ∃ n : Path.Name, e = b.path (ns ++ [n]) ∧ ctx.files.kind e = .ok .file ∧
        ctx.sourceExtension.isSuffixOf n.1 = true := by
  refine ⟨of_mem_sources hfs, ?_⟩
  rintro ⟨n, rfl, hKind, hExt⟩
  rw [← b.join_path] at hKind ⊢
  refine List.mem_filterMap.mpr ⟨n.1, ?_, source?_eq_some.mpr ⟨rfl, hKind, hExt⟩⟩
  rw [listed_of_list hList, mem_sorted]
  exact FileSystem.mem_of_kind_join n.2 hList hKind

/-- No entry is listed twice. -/
theorem nodup_filterMap_listed (hfs : ctx.files.WellNamed) (ns : List Path.Name)
    {f : Text → Option Text} (hf : ∀ name e, f name = some e → e = Path.join (b.path ns) name) :
    ((listed ctx (b.path ns)).filterMap f).Nodup := by
  obtain ⟨hDistinct, hNames⟩ := listed_wellNamed hfs (b.path ns)
  -- different names in one directory give different paths
  have hInjective : ∀ m ∈ listed ctx (b.path ns), ∀ n ∈ listed ctx (b.path ns),
      Path.join (b.path ns) m = Path.join (b.path ns) n → m = n := by
    intro m hm n hn hEq
    have hPaths : b.path (ns ++ [⟨m, hNames m hm⟩]) = b.path (ns ++ [⟨n, hNames n hn⟩]) := by
      rw [← b.join_path, ← b.join_path]
      exact hEq
    have hLast := List.append_cancel_left (b.path_inj.mp hPaths)
    exact congrArg Subtype.val (List.singleton_inj.mp hLast)
  generalize listed ctx (b.path ns) = names at hDistinct hInjective
  induction names with
  | nil => exact List.nodup_nil
  | cons name names ih =>
    rw [List.nodup_cons] at hDistinct
    have hRest := ih hDistinct.2 fun m hm n hn =>
      hInjective m (List.mem_cons_of_mem _ hm) n (List.mem_cons_of_mem _ hn)
    rw [List.filterMap_cons]
    split
    · exact hRest
    · rename_i e he
      rw [List.nodup_cons]
      refine ⟨?_, hRest⟩
      intro hMem
      obtain ⟨other, hOther, he'⟩ := List.mem_filterMap.mp hMem
      have hSame := hInjective name List.mem_cons_self other (List.mem_cons_of_mem _ hOther)
        ((hf name e he).symm.trans (hf other e he'))
      exact hDistinct.1 (hSame ▸ hOther)

theorem nodup_subdirs (hfs : ctx.files.WellNamed) (ns : List Path.Name) :
    (subdirs ctx (b.path ns)).Nodup :=
  nodup_filterMap_listed hfs ns fun _ _ h => (subdir?_eq_some.mp h).1

theorem nodup_sources (hfs : ctx.files.WellNamed) (ns : List Path.Name) :
    (sources ctx (b.path ns)).Nodup :=
  nodup_filterMap_listed hfs ns fun _ _ h => (source?_eq_some.mp h).1

-- ---------------------------------------------------------------------------
-- The visit of a directory
-- ---------------------------------------------------------------------------

/-- To visit an entry takes its steps, and adds it to the listing. -/
theorem visitEntry_eq (dir : Text) (found : Listing) (name : Text) :
    visitEntry ctx dir found name =
      Action.forEach (Step.run ctx) (entrySteps ctx dir name) >>= fun _ =>
        pure { dirs := found.dirs ++ (subdir? ctx dir name).toList
               files := found.files ++ (source? ctx dir name).toList } := by
  unfold visitEntry entrySteps subdir? source?
  dsimp only
  cases ctx.files.kind (Path.join dir name) with
  | error f =>
    cases f with
    | missing =>
      simp only [Action.forEach_singleton, Step.run, Option.toList_none, List.append_nil]
    | _ =>
      rw [Action.forEach_singleton]
      rfl
  | ok k =>
    cases k with
    | file =>
      by_cases hExt : ctx.sourceExtension.isSuffixOf name = true
      · simp only [hExt, if_true, Action.forEach_singleton, Step.run, bind_assoc, pure_bind,
          Option.toList_none, Option.toList_some, List.append_nil]
      · simp only [hExt, Bool.false_eq_true, if_false, Action.forEach_nil, pure_bind,
          Option.toList_none, List.append_nil]
    | directory =>
      by_cases hIgnored : ctx.ignoredDirs.contains name = true
      · simp only [hIgnored, if_true, Action.forEach_nil, pure_bind, Option.toList_none,
          List.append_nil]
      · simp only [hIgnored, Bool.false_eq_true, if_false, Action.forEach_nil, pure_bind,
          Option.toList_none, Option.toList_some, List.append_nil]
    | other =>
      simp only [Action.forEach_nil, pure_bind, Option.toList_none, List.append_nil]

/-- To visit entries takes their steps in order, and adds them to the listing. -/
theorem visitEntries_eq (dir : Text) (found : Listing) (names : List Text) :
    visitEntries ctx dir found names =
      Action.forEach (Step.run ctx) (names.flatMap (entrySteps ctx dir)) >>= fun _ =>
        pure { dirs := found.dirs ++ names.filterMap (subdir? ctx dir)
               files := found.files ++ names.filterMap (source? ctx dir) } := by
  induction names generalizing found with
  | nil =>
    simp only [visitEntries, List.flatMap_nil, Action.forEach_nil, pure_bind, List.filterMap_nil,
      List.append_nil]
  | cons name names ih =>
    have hCons : ∀ f : Text → Option Text,
        (name :: names).filterMap f = (f name).toList ++ names.filterMap f := by
      intro f
      rw [List.filterMap_cons]
      cases f name <;> rfl
    simp only [visitEntries, visitEntry_eq, ih, List.flatMap_cons, Action.forEach_append,
      bind_assoc, pure_bind, hCons, List.append_assoc]

/-- A name in a directory asks for one step at most. -/
theorem entrySteps_cases (ctx : IndexContext) (dir name : Text) :
    (entrySteps ctx dir name = [] ∧ source? ctx dir name = none) ∨
    (∃ p, entrySteps ctx dir name = [.vanished p] ∧ source? ctx dir name = none) ∨
    (∃ f p, entrySteps ctx dir name = [.fault f p] ∧ source? ctx dir name = none) ∨
    ∃ p, entrySteps ctx dir name = [.check p] ∧ source? ctx dir name = some p := by
  unfold entrySteps source?
  cases ctx.files.kind (Path.join dir name) with
  | error f =>
    cases f with
    | missing => exact Or.inr (Or.inl ⟨_, rfl, rfl⟩)
    | _ => exact Or.inr (Or.inr (Or.inl ⟨_, _, rfl, rfl⟩))
  | ok k =>
    cases k with
    | file =>
      dsimp only
      split
      · exact Or.inr (Or.inr (Or.inr ⟨_, rfl, rfl⟩))
      · exact Or.inl ⟨rfl, rfl⟩
    | _ => exact Or.inl ⟨rfl, rfl⟩

/-- The one step for a source file is to check it. -/
theorem entrySteps_of_source {dir name p : Text} (h : source? ctx dir name = some p) :
    entrySteps ctx dir name = [.check p] := by
  rcases entrySteps_cases ctx dir name with ⟨-, hNone⟩ | ⟨_, -, hNone⟩ | ⟨_, _, -, hNone⟩ |
    ⟨q, hSteps, hSource⟩
  · exact nomatch hNone.symm.trans h
  · exact nomatch hNone.symm.trans h
  · exact nomatch hNone.symm.trans h
  · rw [hSteps, Option.some.inj (hSource.symm.trans h)]

/-- Checks some files, in order. -/
def checks (ctx : IndexContext) (ps : List Text) : Action Indexer IndexFailure Unit :=
  Action.forEach (fun p => Step.run ctx (.check p)) ps

theorem checks_cons (p : Text) (ps : List Text) :
    checks ctx (p :: ps) = Step.run ctx (.check p) >>= fun _ => checks ctx ps := rfl

/-- Where no name stands for a fault, the steps for some names leave what checking their source
files leaves. -/
theorem entries_run {dir : Text} {names : List Text}
    (hFault : ∀ n ∈ names, ∀ f p, Step.fault f p ∉ entrySteps ctx dir n) (x : Indexer) :
    (Action.forEach (Step.run ctx) (names.flatMap (entrySteps ctx dir)) x).state =
        (checks ctx (names.filterMap (source? ctx dir)) x).state ∧
      (Action.forEach (Step.run ctx) (names.flatMap (entrySteps ctx dir)) x).result =
        (checks ctx (names.filterMap (source? ctx dir)) x).result := by
  induction names generalizing x with
  | nil => exact ⟨rfl, rfl⟩
  | cons name names ih =>
    have ih := ih fun n hn => hFault n (List.mem_cons_of_mem name hn)
    rw [List.flatMap_cons, Action.forEach_append, List.filterMap_cons]
    rcases entrySteps_cases ctx dir name with ⟨hSteps, hSource⟩ | ⟨p, hSteps, hSource⟩ |
      ⟨f, p, hSteps, -⟩ | ⟨p, hSteps, hSource⟩
    · rw [hSteps, hSource]
      exact ih x
    · rw [hSteps, hSource]
      exact ih x
    · exact absurd (hSteps ▸ List.mem_cons_self) (hFault name List.mem_cons_self f p)
    · rw [hSteps, hSource, Action.forEach_singleton, checks_cons]
      cases hCheck : (Step.run ctx (.check p) x).result with
      | error e =>
        rw [Action.bind_of_error hCheck, Action.bind_of_error hCheck]
        exact ⟨rfl, rfl⟩
      | ok u =>
        rw [Action.bind_of_ok hCheck, Action.bind_of_ok hCheck]
        exact ih _

/-- Whatever a directory lists can be looked at, unless it is missing. -/
def Visible (ctx : IndexContext) (dir : Text) : Prop :=
  ∀ name ∈ listed ctx dir, ∀ f, ctx.files.kind (Path.join dir name) = .error f → f = .missing

/-- What can be looked at stands for no fault. -/
theorem fault_not_mem_entrySteps {dir name : Text} (h : Visible ctx dir)
    (hName : name ∈ listed ctx dir) (f : Fault) (p : Text) :
    Step.fault f p ∉ entrySteps ctx dir name := by
  unfold entrySteps
  cases hKind : ctx.files.kind (Path.join dir name) with
  | error fault =>
    rw [h name hName fault hKind]
    simp
  | ok k =>
    cases k with
    | file =>
      dsimp only
      split <;> simp
    | _ => simp

/-- Steps that have been taken had no fault among them. -/
theorem fault_not_mem_of_ok {ss : List Step} {x : Indexer}
    (hOk : (Action.forEach (Step.run ctx) ss x).result = .ok ()) (f : Fault) (p : Text) :
    Step.fault f p ∉ ss := by
  induction ss generalizing x with
  | nil => exact List.not_mem_nil
  | cons s ss ih =>
    obtain ⟨hFirst, hRest, -⟩ := Action.forEach_cons_of_ok hOk
    rw [List.mem_cons, not_or]
    refine ⟨?_, ih hRest⟩
    rintro rfl
    exact nomatch hFirst

/-- The visit of a directory is its steps. -/
theorem visit_eq {dir : Text} {names : List Text} (hList : ctx.files.list dir = .ok names) :
    visit ctx dir names =
      Action.forEach (Step.run ctx) (steps ctx dir) >>= fun _ => pure (subdirs ctx dir) := by
  have hListed := listed_of_list hList
  unfold visit steps
  rw [hList, hListed, visitEntries_eq, Action.forEach_append, Action.forEach_singleton]
  simp only [bind_assoc, pure_bind, List.nil_append, Step.run, listing, subdirs, sources, hListed]

-- ---------------------------------------------------------------------------
-- What the steps keep
-- ---------------------------------------------------------------------------

/-- The steps that a directory can ask for. -/
theorem mem_steps {dir : Text} {s : Step} (h : s ∈ steps ctx dir) :
    (∃ p, s = .vanished p) ∨ (∃ f p, s = .fault f p) ∨ (∃ p ∈ sources ctx dir, s = .check p) ∨
      (s = .close dir ∧ ∃ names, ctx.files.list dir = .ok names) ∨
        (s = .absent dir ∧ ctx.files.list dir = .error .missing) := by
  unfold steps at h
  split at h
  · rename_i hList
    exact Or.inr (Or.inr (Or.inr (Or.inr ⟨List.mem_singleton.mp h, hList⟩)))
  · exact Or.inr (Or.inl ⟨_, _, List.mem_singleton.mp h⟩)
  · rename_i names hList
    rcases List.mem_append.mp h with h | h
    · obtain ⟨name, hName, hs⟩ := List.mem_flatMap.mp h
      rcases entrySteps_cases ctx dir name with ⟨hSteps, -⟩ | ⟨p, hSteps, -⟩ | ⟨f, p, hSteps, -⟩ |
        ⟨p, hSteps, hSource⟩
      · rw [hSteps] at hs
        exact absurd hs List.not_mem_nil
      · rw [hSteps] at hs
        exact Or.inl ⟨p, List.mem_singleton.mp hs⟩
      · rw [hSteps] at hs
        exact Or.inr (Or.inl ⟨f, p, List.mem_singleton.mp hs⟩)
      · rw [hSteps] at hs
        have hMem : p ∈ sources ctx dir := List.mem_filterMap.mpr ⟨name, hName, hSource⟩
        exact Or.inr (Or.inr (Or.inl ⟨p, hMem, List.mem_singleton.mp hs⟩))
    · exact Or.inr (Or.inr (Or.inr (Or.inl ⟨List.mem_singleton.mp h, names, hList⟩)))

/-- The steps for an entry are among those for its directory. -/
theorem mem_steps_of_entry {dir name : Text} {s : Step} (hName : name ∈ listed ctx dir)
    (hs : s ∈ entrySteps ctx dir name) : s ∈ steps ctx dir := by
  cases hList : ctx.files.list dir with
  | error f =>
    rw [listed_of_error hList] at hName
    exact absurd hName List.not_mem_nil
  | ok names =>
    rw [steps_of_list hList]
    exact List.mem_append_left _ (List.mem_flatMap.mpr ⟨name, hName, hs⟩)

/-- A directory that is there and whose steps have no fault can be listed. -/
theorem list_of_faultless {dir : Text} (hFault : ∀ f, Step.fault f dir ∉ steps ctx dir)
    (hThere : ctx.files.list dir ≠ .error .missing) :
    ∃ names, ctx.files.list dir = .ok names := by
  cases hList : ctx.files.list dir with
  | ok names => exact ⟨names, rfl⟩
  | error f =>
    exfalso
    unfold steps at hFault
    rw [hList] at hFault
    cases f with
    | missing => exact hThere hList
    | _ => exact hFault _ List.mem_cons_self

/-- A scan that has worked off a directory has looked at all that it lists. -/
theorem visible_of_run_ok {dirs : List Text} {x : Indexer} (hOk : (run ctx dirs x).result = .ok ())
    {dir : Text} (hDir : dir ∈ dirs) : Visible ctx dir := by
  intro name hName f hKind
  by_contra hOther
  have hFault : Step.fault f (Path.join dir name) ∈ entrySteps ctx dir name := by
    unfold entrySteps
    rw [hKind]
    cases f with
    | missing => exact absurd rfl hOther
    | _ => exact List.mem_cons_self
  have hStep := mem_steps_of_entry hName hFault
  exact fault_not_mem_of_ok hOk f _ (List.mem_flatMap.mpr ⟨dir, hDir, hStep⟩)

/-- The loop over the queue takes the steps for the first directory, unless it has been visited, and
goes on with what it has found there. -/
theorem drain_cons (fuel : Nat) (dir : Text) (queue visited : List Text) :
    drain ctx (fuel + 1) (dir :: queue) visited =
      if visited.contains dir then drain ctx fuel queue visited
      else
        Action.forEach (Step.run ctx) (steps ctx dir) >>= fun _ =>
          drain ctx fuel (queue ++ subdirs ctx dir)
            (if (ctx.files.list dir).isOk then visited ++ [dir] else visited) := by
  rw [drain]
  split
  · rfl
  · cases hList : ctx.files.list dir with
    | error f =>
      unfold steps
      rw [hList, subdirs_of_error hList, List.append_nil]
      cases f with
      | missing =>
        simp only [Action.forEach_singleton, Step.run, bind_assoc, pure_bind]
        rfl
      | _ =>
        rw [Action.forEach_singleton]
        rfl
    | ok names =>
      dsimp only
      rw [visit_eq hList]
      simp only [bind_assoc, pure_bind]
      rfl

section Loop

-- the directories of the queue have a property that is passed on to those found in them
variable {D : Text → Prop} {Q : (α : Type) → Action Indexer IndexFailure α → Prop}
  (hQ : Action.Compositional Q) (hFound : ∀ dir, D dir → ∀ e ∈ subdirs ctx dir, D e)
  (hSteps : ∀ dir, D dir → ∀ s ∈ steps ctx dir, Q Unit (Step.run ctx s))

include hQ hFound hSteps

/-- **From the steps to the loop.** What the steps have in common and passes to sequences holds of
the loop over the queue. -/
theorem drain_of_steps (fuel : Nat) {queue : List Text} (hQueue : ∀ dir ∈ queue, D dir)
    (visited : List Text) : Q _ (drain ctx fuel queue visited) := by
  induction fuel generalizing queue visited with
  | zero => exact hQ.pure _
  | succ fuel ih =>
    cases queue with
    | nil => exact hQ.pure _
    | cons dir queue =>
      rw [List.forall_mem_cons] at hQueue
      rw [drain_cons]
      split
      · exact ih hQueue.2 visited
      · refine hQ.bind (hQ.forEach (hSteps dir hQueue.1)) fun _ => ih ?_ _
        exact List.forall_mem_append.mpr ⟨hQueue.2, hFound dir hQueue.1⟩

/-- **From the steps to the scan.** -/
theorem scan_of_steps {root : Text} (hStart : Path.isAbsolute root = true → D (Path.normalize root))
    (hRefused : Path.isAbsolute root = false → Q Unit (Action.fail (.relativePath root))) :
    Q Unit (scan ctx root) := by
  unfold scan
  split
  · rename_i hAbsolute
    have hQueue := List.forall_mem_singleton.mpr (hStart hAbsolute)
    exact hQ.bind (drain_of_steps hQ hFound hSteps _ hQueue _) fun _ => hQ.pure ()
  · rename_i hRelative
    exact hRefused (Bool.eq_false_iff.mpr hRelative)

end Loop

-- ---------------------------------------------------------------------------
-- Where the route goes
-- ---------------------------------------------------------------------------

/-- Directories that have been visited and directories that wait: all are distinct, and each but the
first has been found in a visited one. -/
structure Fresh (ctx : IndexContext) (b : Path.Base) (visited queue : List Text) : Prop where
  distinct : (visited ++ queue).Nodup
  found : ∀ e ∈ visited ++ queue, e = b.path [] ∨
    ∃ ns n, e = b.path (ns ++ [n]) ∧ b.path ns ∈ visited ∧ e ∈ subdirs ctx (b.path ns)

namespace Fresh

variable {visited queue : List Text} {dir : Text}

/-- At the start the root is in the queue, and nothing has been visited. -/
theorem start : Fresh ctx b [] [b.path []] where
  distinct := List.nodup_singleton _
  found := by
    intro e he
    exact Or.inl (List.mem_singleton.mp he)

/-- All that is in the queue is below the root. -/
theorem exists_names (h : Fresh ctx b visited (dir :: queue)) : ∃ ns, dir = b.path ns := by
  rcases h.found dir (List.mem_append_right _ List.mem_cons_self) with hRoot | ⟨ns, n, hEq, -⟩
  · exact ⟨[], hRoot⟩
  · exact ⟨ns ++ [n], hEq⟩

/-- The directory at the head of the queue has not been visited. -/
theorem not_mem (h : Fresh ctx b visited (dir :: queue)) : dir ∉ visited := by
  intro hMem
  exact (List.nodup_append.mp h.distinct).2.2 dir hMem dir List.mem_cons_self rfl

/-- The queue stays fresh without its head. -/
theorem skip (h : Fresh ctx b visited (dir :: queue)) : Fresh ctx b visited queue where
  distinct := h.distinct.sublist ((List.sublist_cons_self dir queue).append_left visited)
  found := by
    intro e he
    apply h.found e
    rcases List.mem_append.mp he with he | he
    · exact List.mem_append_left _ he
    · exact List.mem_append_right _ (List.mem_cons_of_mem _ he)

/-- What is found in a directory that waits is new: whatever else has been found lies in a directory
that has been visited. -/
theorem not_mem_subdirs (hfs : ctx.files.WellNamed) (h : Fresh ctx b visited (dir :: queue))
    {e : Text} (he : e ∈ visited ++ dir :: queue) : e ∉ subdirs ctx dir := by
  obtain ⟨ms, rfl⟩ := h.exists_names
  intro hChild
  obtain ⟨m, rfl, -⟩ := of_mem_subdirs hfs hChild
  rcases h.found _ he with hRoot | ⟨ns, n, hEq, hParent, -⟩
  · exact absurd (b.path_inj.mp hRoot) (by simp)
  · have hns : ms = ns := by
      have := congrArg Path.parent hEq
      rwa [b.parent_path, b.parent_path, b.path_inj] at this
    subst hns
    exact h.not_mem hParent

/-- The queue stays fresh when its head is visited and the directories in it are put at the end. -/
theorem next (hfs : ctx.files.WellNamed) (h : Fresh ctx b visited (dir :: queue)) :
    Fresh ctx b (visited ++ [dir]) (queue ++ subdirs ctx dir) where
  distinct := by
    have hSplit : visited ++ [dir] ++ (queue ++ subdirs ctx dir) =
        (visited ++ dir :: queue) ++ subdirs ctx dir := by simp
    rw [hSplit, List.nodup_append]
    obtain ⟨ns, rfl⟩ := h.exists_names
    refine ⟨h.distinct, nodup_subdirs hfs ns, ?_⟩
    rintro e he _ hChild rfl
    exact h.not_mem_subdirs hfs he hChild
  found := by
    intro e he
    obtain ⟨ms, rfl⟩ := h.exists_names
    have hSplit : e ∈ visited ++ b.path ms :: queue ∨ e ∈ subdirs ctx (b.path ms) := by
      simp only [List.mem_append, List.mem_cons, List.not_mem_nil, or_false] at he ⊢
      tauto
    rcases hSplit with he | he
    · rcases h.found e he with hRoot | ⟨ns, n, hEq, hParent, hChild⟩
      · exact Or.inl hRoot
      · exact Or.inr ⟨ns, n, hEq, List.mem_append_left _ hParent, hChild⟩
    · obtain ⟨m, rfl, -⟩ := of_mem_subdirs hfs he
      exact Or.inr ⟨ms, m, rfl, List.mem_append_right _ List.mem_cons_self, he⟩

end Fresh

/-- The route comes to a directory once, and only after the directory that it is in. -/
theorem routeFrom_split (hfs : ctx.files.WellNamed) {fuel : Nat} {queue visited : List Text}
    (h : Fresh ctx b visited queue) {front back : List Text} {dir : Text}
    (hSplit : routeFrom ctx fuel queue = front ++ dir :: back) :
    dir ∉ visited ++ front ∧ (dir = b.path [] ∨
      ∃ ns n, dir = b.path (ns ++ [n]) ∧ b.path ns ∈ visited ++ front ∧
        dir ∈ subdirs ctx (b.path ns)) := by
  induction fuel generalizing queue visited front with
  | zero => exact absurd hSplit (by simp [routeFrom])
  | succ fuel ih =>
    cases queue with
    | nil => exact absurd hSplit (by simp [routeFrom])
    | cons first queue =>
      rw [routeFrom] at hSplit
      cases front with
      | nil =>
        obtain ⟨rfl, -⟩ := List.cons.inj hSplit
        rw [List.append_nil]
        exact ⟨h.not_mem, h.found _ (List.mem_append_right _ List.mem_cons_self)⟩
      | cons first' front =>
        obtain ⟨rfl, hRest⟩ := List.cons.inj hSplit
        have hNext := ih (h.next hfs) hRest
        rwa [List.append_assoc, List.singleton_append] at hNext

/-- The directories in a directory weigh less than it does. -/
theorem weight_subdirs (hfs : ctx.files.WellNamed) (dir : Text) :
    ((subdirs ctx dir).map ctx.files.weight).sum < ctx.files.weight dir := by
  have hLe : ∀ names : List Text,
      ((names.filterMap (subdir? ctx dir)).map ctx.files.weight).sum ≤
        (names.map fun n => ctx.files.weight (Path.join dir n)).sum := by
    intro names
    induction names with
    | nil => simp
    | cons name names ih =>
      rw [List.filterMap_cons]
      split
      · simp only [List.map_cons, List.sum_cons]
        omega
      · rename_i e he
        rw [(subdir?_eq_some.mp he).1]
        simp only [List.map_cons, List.sum_cons]
        omega
  cases hList : ctx.files.list dir with
  | error f =>
    rw [subdirs_of_error hList]
    exact FileSystem.weight_pos dir
  | ok names =>
    have hChildren := FileSystem.weight_children hfs hList
    have hSorted := ((perm_sorted names).map fun n => ctx.files.weight (Path.join dir n)).sum_eq
    have hSub := hLe (sorted names)
    unfold subdirs
    rw [listed_of_list hList]
    omega

/-- With enough fuel, the route leaves out none of the directories it has found. -/
theorem routeFrom_closed (hfs : ctx.files.WellNamed) {fuel : Nat} {queue : List Text}
    (hFuel : (queue.map ctx.files.weight).sum ≤ fuel) :
    (∀ e ∈ queue, e ∈ routeFrom ctx fuel queue) ∧
      ∀ dir ∈ routeFrom ctx fuel queue, ∀ e ∈ subdirs ctx dir, e ∈ routeFrom ctx fuel queue := by
  induction fuel generalizing queue with
  | zero =>
    cases queue with
    | nil => exact ⟨nofun, nofun⟩
    | cons dir queue =>
      have hPos : 0 < ctx.files.weight dir := FileSystem.weight_pos dir
      simp only [List.map_cons, List.sum_cons] at hFuel
      omega
  | succ fuel ih =>
    cases queue with
    | nil => exact ⟨nofun, nofun⟩
    | cons dir queue =>
      have hWeight := weight_subdirs hfs dir
      -- a directory weighs more than the directories in it, so the fuel suffices for those
      have hFuel' : ((queue ++ subdirs ctx dir).map ctx.files.weight).sum ≤ fuel := by
        simp only [List.map_cons, List.sum_cons, List.map_append, List.sum_append] at hFuel ⊢
        omega
      obtain ⟨hQueue, hClosed⟩ := ih hFuel'
      rw [routeFrom]
      constructor
      · intro e he
        rcases List.mem_cons.mp he with rfl | he
        · exact List.mem_cons_self
        · exact List.mem_cons_of_mem _ (hQueue e (List.mem_append_left _ he))
      · intro d hd e he
        rcases List.mem_cons.mp hd with rfl | hd
        · exact List.mem_cons_of_mem _ (hQueue e (List.mem_append_right _ he))
        · exact List.mem_cons_of_mem _ (hClosed d hd e he)

/-- The loop over the queue takes the steps of the route. -/
theorem drain_eq (hfs : ctx.files.WellNamed) {fuel : Nat} {queue visited : List Text}
    (h : Fresh ctx b visited queue) :
    (drain ctx fuel queue visited >>= fun _ => pure ()) = run ctx (routeFrom ctx fuel queue) := by
  induction fuel generalizing queue visited with
  | zero => rfl
  | succ fuel ih =>
    cases queue with
    | nil => rfl
    | cons dir queue =>
      have hNew : ¬ visited.contains dir = true := by
        rw [List.contains_iff_mem]
        exact h.not_mem
      rw [drain_cons, if_neg hNew, routeFrom, run_cons, bind_assoc]
      cases hList : ctx.files.list dir with
      | error f =>
        rw [subdirs_of_error hList, List.append_nil]
        exact congrArg _ (funext fun _ => ih h.skip)
      | ok names => exact congrArg _ (funext fun _ => ih (h.next hfs))

-- ---------------------------------------------------------------------------
-- The route of a whole scan
-- ---------------------------------------------------------------------------

section Whole

variable {root : Text} (hfs : ctx.files.WellNamed) (hRoot : Path.normalize root = b.path [])

include hfs hRoot

omit hfs in
theorem route_eq : route ctx root = routeFrom ctx (ctx.files.size + 1) [b.path []] := by
  rw [route, hRoot]

/-- A scan comes to a directory once, and after the directory above it. -/
theorem route_split {front back : List Text} {dir : Text}
    (hSplit : route ctx root = front ++ dir :: back) :
    dir ∉ front ∧ (dir = b.path [] ∨
      ∃ ns n, dir = b.path (ns ++ [n]) ∧ b.path ns ∈ front ∧ dir ∈ subdirs ctx (b.path ns)) := by
  rw [route_eq hRoot] at hSplit
  exact routeFrom_split hfs Fresh.start hSplit

/-- No directory is on the route twice. -/
theorem nodup_route : (route ctx root).Nodup := by
  have hFront : ∀ front back, route ctx root = front ++ back → front.Nodup := by
    intro front
    induction front using List.reverseRecOn with
    | nil => exact fun _ _ => List.nodup_nil
    | append_singleton front dir ih =>
      intro back hSplit
      rw [List.append_assoc, List.singleton_append] at hSplit
      rw [List.nodup_append]
      refine ⟨ih _ hSplit, List.nodup_singleton dir, ?_⟩
      rintro e he _ hLast rfl
      rw [List.mem_singleton.mp hLast] at he
      exact (route_split hfs hRoot hSplit).1 he
  exact hFront _ [] (List.append_nil _).symm

omit hfs in
theorem root_mem_route : b.path [] ∈ route ctx root := by
  rw [route_eq hRoot, routeFrom]
  exact List.mem_cons_self

/-- A scan leaves out none of the directories it has found. -/
theorem route_closed {dir e : Text} (hDir : dir ∈ route ctx root) (he : e ∈ subdirs ctx dir) :
    e ∈ route ctx root := by
  rw [route_eq hRoot] at hDir ⊢
  have hWeight := FileSystem.weight_le_size hfs (b.path [])
  refine (routeFrom_closed hfs ?_).2 dir hDir e he
  rw [List.map_singleton, List.sum_singleton]
  omega

/-- All directories on the route are below the root. -/
theorem exists_names_of_mem_route {dir : Text} (hDir : dir ∈ route ctx root) :
    ∃ ns, dir = b.path ns := by
  obtain ⟨front, back, hSplit⟩ := List.append_of_mem hDir
  rcases (route_split hfs hRoot hSplit).2 with h | ⟨ns, n, h, -⟩
  · exact ⟨[], h⟩
  · exact ⟨ns ++ [n], h⟩

/-- The route has the root and, with a directory, what the scan goes into from there. -/
theorem mem_route_snoc {ns : List Path.Name} {n : Path.Name} :
    b.path (ns ++ [n]) ∈ route ctx root ↔
      b.path ns ∈ route ctx root ∧ b.path (ns ++ [n]) ∈ subdirs ctx (b.path ns) := by
  constructor
  · intro hMem
    obtain ⟨front, back, hSplit⟩ := List.append_of_mem hMem
    rcases (route_split hfs hRoot hSplit).2 with h | ⟨ms, m, h, hFront, hSubdir⟩
    · simp at h
    · obtain ⟨rfl, -⟩ := List.append_inj' (b.path_inj.mp h) rfl
      rw [hSplit]
      exact ⟨List.mem_append_left _ hFront, hSubdir⟩
  · rintro ⟨hDir, hSubdir⟩
    exact route_closed hfs hRoot hDir hSubdir

/-- When a scan has come to a directory, it has come to all those above it. -/
theorem mem_front_above {front back : List Text} (hSplit : route ctx root = front ++ back)
    {ms ks : List Path.Name} (h : b.path (ms ++ ks) ∈ front) : b.path ms ∈ front := by
  induction ks using List.reverseRecOn with
  | nil => simpa using h
  | append_singleton ks k ih =>
    apply ih
    obtain ⟨before, after, rfl⟩ := List.append_of_mem h
    rw [List.append_assoc, List.cons_append] at hSplit
    rcases (route_split hfs hRoot hSplit).2 with hEq | ⟨ns, n, hEq, hMem, -⟩
    · simp at hEq
    · rw [← List.append_assoc] at hEq
      obtain ⟨rfl, -⟩ := List.append_inj' (b.path_inj.mp hEq) rfl
      exact List.mem_append_left _ hMem

/-- What is above a directory on the route is on the route. -/
theorem mem_route_above {ms ks : List Path.Name} (h : b.path (ms ++ ks) ∈ route ctx root) :
    b.path ms ∈ route ctx root :=
  mem_front_above hfs hRoot (List.append_nil _).symm h

omit hfs in
/-- From a root that cannot be listed a scan goes nowhere. -/
theorem route_of_error {f : Fault} (h : ctx.files.list (b.path []) = .error f) :
    route ctx root = [b.path []] := by
  rw [route_eq hRoot, routeFrom, subdirs_of_error h]
  cases ctx.files.size <;> rfl

/-- **A scan takes just the steps of its route.** -/
theorem scan_eq_run (hAbsolute : Path.isAbsolute root = true) :
    scan ctx root = run ctx (route ctx root) := by
  unfold scan
  rw [if_pos hAbsolute, route_eq hRoot, hRoot]
  exact drain_eq hfs Fresh.start

end Whole

/-- A scan of a relative path fails, and nothing changes. -/
theorem scan_of_relative {root : Text} (h : Path.isAbsolute root = false) (x : Indexer) :
    scan ctx root x = ⟨x, [], .error (.relativePath root)⟩ := by
  unfold scan
  rw [h]
  rfl

end ClassTags.Indexer
