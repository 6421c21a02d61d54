import ClassTags.Proofs.Removal
import ClassTags.Proofs.Replacement

/-!
# A directory is lost

Between two scans a known directory is deleted, or something else is put in its place, and nothing
else changes. The next scan goes where the last one went, except below the lost directory, and it
finds the same source files there. So nothing but the removal of the directory can go wrong: the
files that were tracked below it are checked once more. If the directory is missing, they are
missing too, and they go. If there is something in its place, they cannot be reached, and that is
not the same: the first of them makes the scan fail.

Main definitions:

* `Indexer.ReturnedOn` — the indexes that returned scans lead to, the last on a given file system;
* `Indexer.Lost` — a directory of the last scan has given way;
* `Indexer.AtParent` — the next scan has come to where it was.

Main results:

* `Indexer.Lost.mem_route_iff`, `Indexer.Lost.mem_selected_iff` — where the next scan goes and what it
  selects;
* `Indexer.Lost.mem_gone_iff` — what is gone from each directory;
* `Indexer.Lost.run_eq_ok`, `Indexer.Lost.run_of_unreachable` — when the next scan returns and how it
  fails;
* `Indexer.rescan_without_directory` — the next scan after a directory is lost.
-/

namespace ClassTags.Indexer

/-- The indexes that scans of a root lead to, if every scan returns and the last of them is on the
given file system. -/
inductive ReturnedOn (ctx : IndexContext) (root : Text) (fs : FileSystem) : Indexer → Prop
  | scan {x : Indexer} (hx : Returned ctx root x) (hfs : fs.WellNamed)
      (hOk : (Indexer.scan (ctx.on fs) root x).result = .ok ()) :
    ReturnedOn ctx root fs (Indexer.scan (ctx.on fs) root x).state

/-- In the place of a directory that a scan of one file system goes into, the other file system has
something that is no directory and that a scan does not select, or nothing. Elsewhere they are the
same. -/
structure Lost (ctx : IndexContext) (fs fs' : FileSystem) (b : Path.Base) (root : Text)
    (ps : List Path.Name) (n : Path.Name) (new : Option Entry) : Prop where
  wellNamed : fs.WellNamed
  wellNamed' : fs'.WellNamed
  root_eq : Path.normalize root = b.path []
  list_ok : ∀ dir ∈ route (ctx.on fs) root, ∃ names, fs.list dir = .ok names
  visible : ∀ dir ∈ route (ctx.on fs) root, Visible (ctx.on fs) dir
  known : b.path (ps ++ [n]) ∈ route (ctx.on fs) root
  replacement : FileSystem.Replacement fs fs' (b.path (ps ++ [n])) new
  kind_ne : fs'.kind (b.path (ps ++ [n])) ≠ .ok .directory
  seen : new ≠ some .barred
  not_selected : b.path (ps ++ [n]) ∉ selected (ctx.on fs') root

/-- A scan that began with an index `x` has gone through the names of a directory, but it has not
closed it. So far it has reported nothing, and it knows what it knew. One known directory is gone
from the directory, and no file below that one has been dropped. -/
structure AtParent (ctx : IndexContext) (x : Indexer) (front : List Text) (dir d : Text)
    (y : Indexer) : Prop where
  list_ok : ∃ names, ctx.files.list dir = .ok names
  front_ok : (run ctx front x).result = .ok ()
  front_events : (run ctx front x).events = []
  entries_ok : (Action.forEach (Step.run ctx) ((listed ctx dir).flatMap (entrySteps ctx dir))
    (run ctx front x).state).result = .ok ()
  state_eq : (Action.forEach (Step.run ctx) ((listed ctx dir).flatMap (entrySteps ctx dir))
    (run ctx front x).state).state = y
  held : y.registry.Held
  dirs_eq : y.dirs = x.dirs
  gone_eq : y.gone ctx dir = [d]
  below_eq : y.below d = x.below d

namespace Lost

variable {ctx : IndexContext} {fs fs' : FileSystem} {b : Path.Base} {root : Text}
  {ps : List Path.Name} {n : Path.Name} {new : Option Entry} {x : Indexer} {calm : Prop}

variable (h : Lost ctx fs fs' b root ps n new)

include h

-- ---------------------------------------------------------------------------
-- Where the next scan goes
-- ---------------------------------------------------------------------------

/-- Away from the lost directory all is of the kind it was. -/
theorem kind_eq {ns : List Path.Name} (hAway : Path.isUnder (b.path ns) (b.path (ps ++ [n])) = false) :
    fs'.kind (b.path ns) = fs.kind (b.path ns) :=
  h.replacement.kind_eq (b.isUnder_path_eq_false.mp hAway)

theorem kind_root : fs'.kind (b.path []) = .ok .directory := by
  obtain ⟨names, hNames⟩ := h.list_ok _ (root_mem_route h.root_eq)
  rw [h.replacement.kind_eq (by simp), FileSystem.kind_of_list hNames]

/-- Below the lost directory there are no directories. -/
theorem not_isUnder_of_kind {ns : List Path.Name} (hKind : fs'.kind (b.path ns) = .ok .directory) :
    Path.isUnder (b.path ns) (b.path (ps ++ [n])) = false := by
  rw [b.isUnder_path_eq_false]
  rintro ⟨rest, rfl⟩
  exact h.kind_ne (FileSystem.kind_directory_above hKind)

/-- What can still be reached could be reached before, and is away from the lost directory. -/
theorem of_mem_route {q : Text} (hq : q ∈ route (ctx.on fs') root) :
    q ∈ route (ctx.on fs) root ∧ Path.isUnder q (b.path (ps ++ [n])) = false := by
  obtain ⟨hSearched, hKind⟩ := entered_of_mem_route h.wellNamed' h.root_eq h.kind_root hq
  obtain ⟨ns, rfl, hIgnored⟩ := hSearched
  have hAway := h.not_isUnder_of_kind hKind
  refine ⟨?_, hAway⟩
  rw [mem_route_iff_entered h.wellNamed h.root_eq h.list_ok]
  exact ⟨⟨ns, rfl, hIgnored⟩, (h.kind_eq hAway).symm.trans hKind⟩

/-- The next scan can list its directories. -/
theorem list_ok' : ∀ dir ∈ route (ctx.on fs') root, ∃ names, fs'.list dir = .ok names := by
  intro dir hDir
  obtain ⟨hOld, hAway⟩ := h.of_mem_route hDir
  obtain ⟨names, hNames⟩ := h.list_ok dir hOld
  obtain ⟨ns, rfl⟩ := exists_names_of_mem_route h.wellNamed h.root_eq hOld
  exact h.replacement.list_ok (b.isUnder_path_eq_false.mp hAway) hNames

/-- The next scan can look at what its directories list. -/
theorem visible' : ∀ dir ∈ route (ctx.on fs') root, Visible (ctx.on fs') dir := by
  intro dir hDir name hName f hKind
  obtain ⟨hOld, hAway⟩ := h.of_mem_route hDir
  obtain ⟨names, hNames⟩ := h.list_ok dir hOld
  have hIsName : Path.IsName name :=
    (@listed_wellNamed (ctx.on fs') h.wellNamed' dir).2 name hName
  obtain ⟨ns, rfl⟩ := exists_names_of_mem_route h.wellNamed h.root_eq hOld
  have hJoin : Path.join (b.path ns) name = b.path (ns ++ [⟨name, hIsName⟩]) :=
    b.join_path ns ⟨name, hIsName⟩
  change fs'.kind _ = _ at hKind
  rw [hJoin] at hKind
  by_cases hPlace : ps ++ [n] = ns ++ [⟨name, hIsName⟩]
  · -- this is where the lost directory was
    obtain ⟨lost, hLost⟩ := h.list_ok _ h.known
    obtain ⟨entries, hResolve, -⟩ := FileSystem.list_eq_ok.mp hLost
    rw [← hPlace] at hKind
    exact h.replacement.eq_missing_of_kind_at hResolve h.seen hKind
  · have hElsewhere : ¬ (ps ++ [n]) <+: (ns ++ [⟨name, hIsName⟩]) := by
      intro hPrefix
      rcases List.prefix_concat_iff.mp hPrefix with hEq | hAbove
      · exact hPlace hEq
      · exact b.isUnder_path_eq_false.mp hAway hAbove
    rw [h.kind_eq (b.isUnder_path_eq_false.mpr hElsewhere), ← hJoin] at hKind
    by_cases hMem : name ∈ names
    · refine h.visible _ hOld name ?_ f hKind
      rw [@listed_of_list (ctx.on fs) _ _ hNames, mem_sorted]
      exact hMem
    · rw [FileSystem.kind_join_of_not_mem hIsName hNames hMem] at hKind
      exact (Except.error.inj hKind).symm

/-- **Where the next scan goes.** -/
theorem mem_route_iff {q : Text} :
    q ∈ route (ctx.on fs') root ↔
      q ∈ route (ctx.on fs) root ∧ Path.isUnder q (b.path (ps ++ [n])) = false := by
  refine ⟨h.of_mem_route, ?_⟩
  rintro ⟨hOld, hAway⟩
  obtain ⟨⟨ns, rfl, hIgnored⟩, hKind⟩ :=
    (mem_route_iff_entered h.wellNamed h.root_eq h.list_ok).mp hOld
  rw [mem_route_iff_entered h.wellNamed' h.root_eq h.list_ok']
  exact ⟨⟨ns, rfl, hIgnored⟩, (h.kind_eq hAway).trans hKind⟩

/-- It comes to the directory that the lost one was in. -/
theorem parent_mem_route : b.path ps ∈ route (ctx.on fs') root := by
  refine h.mem_route_iff.mpr ⟨mem_route_above h.wellNamed h.root_eq h.known, ?_⟩
  rw [b.isUnder_path_eq_false]
  intro hPrefix
  have hLength := hPrefix.length_le
  rw [List.length_append, List.length_singleton] at hLength
  omega

/-- **What the next scan selects.** -/
theorem mem_selected_iff {p : Text} :
    p ∈ selected (ctx.on fs') root ↔
      p ∈ selected (ctx.on fs) root ∧ Path.isUnder p (b.path (ps ++ [n])) = false := by
  rw [Indexer.mem_selected_iff h.wellNamed h.root_eq h.list_ok]
  constructor
  · intro hp
    have hNot : p ≠ b.path (ps ++ [n]) := fun hEq => h.not_selected (hEq ▸ hp)
    rw [Indexer.mem_selected_iff h.wellNamed' h.root_eq h.list_ok'] at hp
    obtain ⟨hCheckable, hKind⟩ := hp
    obtain ⟨ns, m, rfl, hRest⟩ := hCheckable
    have hAway : Path.isUnder (b.path (ns ++ [m])) (b.path (ps ++ [n])) = false := by
      rw [Bool.eq_false_iff]
      intro hUnder
      exact hNot (congrArg b.path (@eq_of_isUnder_of_kind (ctx.on fs') _ _ _ _ hUnder h.kind_ne hKind))
    exact ⟨⟨⟨ns, m, rfl, hRest⟩, (h.kind_eq hAway).symm.trans hKind⟩, hAway⟩
  · rintro ⟨⟨⟨ns, m, rfl, hRest⟩, hKind⟩, hAway⟩
    rw [Indexer.mem_selected_iff h.wellNamed' h.root_eq h.list_ok']
    exact ⟨⟨ns, m, rfl, hRest⟩, (h.kind_eq hAway).trans hKind⟩

/-- Files elsewhere have the classes that they had. -/
theorem fileClasses_eq {ns : List Path.Name}
    (hAway : Path.isUnder (b.path ns) (b.path (ps ++ [n])) = false) :
    Registry.fileClasses ctx.defineCalls fs' (b.path ns) =
      Registry.fileClasses ctx.defineCalls fs (b.path ns) := by
  unfold Registry.fileClasses
  rw [h.replacement.read_eq (b.isUnder_path_eq_false.mp hAway)]

-- ---------------------------------------------------------------------------
-- What the next scan finds
-- ---------------------------------------------------------------------------

/-- The files that are still selected have the classes they had. -/
theorem entry_eq {p : Text} (hp : p ∈ selected (ctx.on fs') root) :
    entry (ctx.on fs') p = entry (ctx.on fs) p := by
  obtain ⟨hOld, hAway⟩ := h.mem_selected_iff.mp hp
  obtain ⟨⟨ns, m, rfl, -⟩, -⟩ := (Indexer.mem_selected_iff h.wellNamed h.root_eq h.list_ok).mp hOld
  exact entry_congr (h.fileClasses_eq hAway)

theorem defined_eq {p : Text} (hp : p ∈ selected (ctx.on fs') root) :
    defined (ctx.on fs') p = defined (ctx.on fs) p := congrArg Prod.snd (h.entry_eq hp)

/-- What is left of the files that were selected is selected again. -/
theorem perm_selected {files : List Text} (hPerm : files.Perm (selected (ctx.on fs) root)) :
    (files.filter fun p => !Path.isUnder p (b.path (ps ++ [n]))).Perm
      (selected (ctx.on fs') root) := by
  have hDistinct := hPerm.nodup_iff.mpr (nodup_selected h.wellNamed h.root_eq)
  rw [List.perm_ext_iff_of_nodup (hDistinct.filter _) (nodup_selected h.wellNamed' h.root_eq)]
  intro p
  rw [List.mem_filter, hPerm.mem_iff, h.mem_selected_iff, Bool.not_eq_true']

section Known

variable (hx : Current (ctx.on fs) b root calm x)

include hx

theorem mem_dirs_iff {q : Text} : q ∈ x.dirs ↔ q ∈ route (ctx.on fs) root := by
  rw [hx.mem_dirs, mem_closed]
  exact and_iff_left_of_imp (h.list_ok q)

/-- **What is gone from each directory**: the lost one, from the one it was in. -/
theorem mem_gone_iff {q e : Text} (hq : q ∈ route (ctx.on fs') root) :
    e ∈ x.gone (ctx.on fs') q ↔ e = b.path (ps ++ [n]) ∧ q = b.path ps := by
  have hfs' : (ctx.on fs').files.WellNamed := h.wellNamed'
  obtain ⟨names, hNames⟩ := h.list_ok' q hq
  obtain ⟨-, hAway⟩ := h.of_mem_route hq
  obtain ⟨ns, rfl⟩ := exists_names_of_mem_route h.wellNamed' h.root_eq hq
  constructor
  · intro he
    obtain ⟨hKnown, -, -, hNot⟩ := mem_gone.mp he
    obtain ⟨m, rfl⟩ := hx.tidy.orderly.of_mem_gone he
    rw [h.mem_dirs_iff hx] at hKnown
    obtain ⟨⟨ks, hEq, hIgnored⟩, hKind⟩ :=
      (mem_route_iff_entered h.wellNamed h.root_eq h.list_ok).mp hKnown
    rw [← b.path_inj.mp hEq] at hIgnored
    -- elsewhere the directory would still be there
    have hUnder : (ps ++ [n]) <+: (ns ++ [m]) := by
      by_contra hElsewhere
      have hKind' := (h.kind_eq (b.isUnder_path_eq_false.mpr hElsewhere)).trans hKind
      exact hNot ((mem_subdirs hfs' hNames).mpr
        ⟨m, rfl, hKind', hIgnored m (List.mem_append_right _ List.mem_cons_self)⟩)
    rcases List.prefix_concat_iff.mp hUnder with hEq | hAbove
    · obtain ⟨rfl, -⟩ := List.append_inj' hEq rfl
      exact ⟨congrArg b.path hEq.symm, rfl⟩
    · exact absurd hAbove (b.isUnder_path_eq_false.mp hAway)
  · rintro ⟨rfl, hEq⟩
    rw [b.path_inj.mp hEq, mem_gone, h.mem_dirs_iff hx]
    refine ⟨h.known, b.parent_path ps n, by simp, fun hSubdir => ?_⟩
    obtain ⟨-, -, hKind, -⟩ := of_mem_subdirs hfs' hSubdir
    exact h.kind_ne hKind

/-- In the parent of the lost directory just that directory is gone. -/
theorem gone_parent : x.gone (ctx.on fs') (b.path ps) = [b.path (ps ++ [n])] := by
  have hDistinct : (x.gone (ctx.on fs') (b.path ps)).Nodup := by
    unfold gone goneDirs
    exact (perm_sorted _).nodup_iff.mpr (hx.tidy.distinct.filter _)
  have hPerm : (x.gone (ctx.on fs') (b.path ps)).Perm [b.path (ps ++ [n])] := by
    rw [List.perm_ext_iff_of_nodup hDistinct (List.nodup_singleton _)]
    intro e
    rw [h.mem_gone_iff hx h.parent_mem_route, List.mem_singleton]
    exact and_iff_left rfl
  exact List.perm_singleton.mp hPerm

/-- In all other directories nothing is gone. -/
theorem gone_other {q : Text} (hq : q ∈ route (ctx.on fs') root) (hOther : q ≠ b.path ps) :
    x.gone (ctx.on fs') q = [] := by
  rw [List.eq_nil_iff_forall_not_mem]
  exact fun e he => hOther ((h.mem_gone_iff hx hq).mp he).2

/-- A tracked file below the lost directory is not the directory itself. -/
theorem exists_names_of_mem_below {p : Text} (hp : p ∈ x.below (b.path (ps ++ [n]))) :
    ∃ ms : List Path.Name, ms ≠ [] ∧ p = b.path ((ps ++ [n]) ++ ms) := by
  obtain ⟨hTracked, hUnder⟩ := List.mem_filter.mp hp
  have hSelected : p ∈ selected (ctx.on fs) root := by
    rcases hx.registry.mem_paths.mp hTracked with ⟨hOld, -⟩ | hNew
    · exact absurd hOld List.not_mem_nil
    · exact hNew
  obtain ⟨⟨ks, m, rfl, -⟩, hKind⟩ :=
    (Indexer.mem_selected_iff h.wellNamed h.root_eq h.list_ok).mp hSelected
  obtain ⟨ms, hEq⟩ := b.isUnder_path.mp hUnder
  rw [← hEq] at hKind ⊢
  refine ⟨ms, ?_, rfl⟩
  rintro rfl
  obtain ⟨names, hNames⟩ := h.list_ok _ h.known
  rw [List.append_nil] at hKind
  exact nomatch hKind.symm.trans (FileSystem.kind_of_list hNames)

-- ---------------------------------------------------------------------------
-- The next scan
-- ---------------------------------------------------------------------------

omit h in
/-- The index is a start for the scan that finds the directory lost. -/
theorem exists_start :
    ∃ files : List Text, files.Perm (selected (ctx.on fs) root) ∧
      Start (ctx.on fs') b (files.map (entry (ctx.on fs))) x := by
  obtain ⟨files, hPerm, hs⟩ := hx.exists_files
  exact ⟨files, hPerm, tidy_on.mpr (tidy_on.mp hs.tidy), hs.sound, hs.registry_eq⟩

/-- What could be read can still be read. -/
theorem readable : ∀ p ∈ selected (ctx.on fs') root, Readable (ctx.on fs') p := by
  intro p hp
  obtain ⟨hOld, hAway⟩ := h.mem_selected_iff.mp hp
  obtain ⟨cs, hcs⟩ := hx.registry.readable p hOld
  obtain ⟨⟨ns, m, rfl, -⟩, -⟩ := (Indexer.mem_selected_iff h.wellNamed h.root_eq h.list_ok).mp hOld
  exact ⟨cs, (h.fileClasses_eq hAway).trans hcs⟩

/-- The files that are still selected define no class twice. -/
theorem apart : Apart (ctx.on fs') (selected (ctx.on fs') root) := by
  intro p hp q hq name hpName hqName
  rw [h.defined_eq hp] at hpName
  rw [h.defined_eq hq] at hqName
  exact hx.registry.apart p (h.mem_selected_iff.mp hp).1 q (h.mem_selected_iff.mp hq).1 name hpName
    hqName

/-- A class that a file defines now has been its own all the time. -/
theorem apartFrom {files : List Text} (hPerm : files.Perm (selected (ctx.on fs) root)) :
    ∀ p ∈ selected (ctx.on fs') root, ApartFrom (ctx.on fs') (files.map (entry (ctx.on fs))) p := by
  intro p hp file hFile hOther name hName hHere
  obtain ⟨q, hq, rfl⟩ := List.mem_map.mp hFile
  rw [h.defined_eq hp] at hHere
  exact hOther (hx.registry.apart q (hPerm.mem_iff.mp hq) p (h.mem_selected_iff.mp hp).1 name hName
    hHere)

section Front

variable {front back : List Text} (hSplit : route (ctx.on fs') root = front ++ back)

include hSplit

omit h hx in
/-- Source files of directories on the route are selected. -/
theorem mem_selected_of_front {p : Text} (hp : p ∈ front.flatMap (sources (ctx.on fs'))) :
    p ∈ selected (ctx.on fs') root := by
  unfold selected
  rw [hSplit, List.flatMap_append]
  exact List.mem_append_left _ hp

/-- As long as no file is lost but those that are missing, the next scan goes on. -/
theorem run_eq_ok
    (hMissing : b.path ps ∈ front →
      ∀ p ∈ x.below (b.path (ps ++ [n])), fs'.read p = .error .missing) :
    (run (ctx.on fs') front x).result = .ok () := by
  obtain ⟨files, hPerm, hs⟩ := exists_start hx
  have hFront : ∀ dir ∈ front, dir ∈ route (ctx.on fs') root :=
    fun dir hDir => hSplit ▸ List.mem_append_left back hDir
  have hSelected := fun p hp => mem_selected_of_front (p := p) hSplit hp
  refine Indexer.run_eq_ok h.wellNamed' h.root_eq hs hSplit
    (fun dir hDir => h.list_ok' dir (hFront dir hDir))
    (fun dir hDir => h.visible' dir (hFront dir hDir))
    (fun p hp => h.readable hx p (hSelected p hp))
    (fun p hp q hq => h.apart hx p (hSelected p hp) q (hSelected q hq))
    (fun p hp => h.apartFrom hx hPerm p (hSelected p hp)) ?_
  intro dir hDir d hd p hp hUnder
  obtain ⟨rfl, rfl⟩ := (h.mem_gone_iff hx (hFront dir hDir)).mp hd
  rcases hp with hTracked | hNew
  · exact hMissing hDir p (List.mem_filter.mpr ⟨hTracked, hUnder⟩)
  · rw [(h.mem_selected_iff.mp (hSelected p hNew)).2] at hUnder
    exact absurd hUnder Bool.false_ne_true

omit h hx hSplit in
/-- So are those of the directory that comes next. -/
theorem mem_selected_up_to {dir q : Text} (hSplit : route (ctx.on fs') root = front ++ dir :: back)
    (hq : q ∈ front.flatMap (sources (ctx.on fs')) ++ sources (ctx.on fs') dir) :
    q ∈ selected (ctx.on fs') root := by
  unfold selected
  rw [hSplit, List.flatMap_append, List.flatMap_cons, ← List.append_assoc]
  exact List.mem_append_left _ hq

end Front

/-- Before the next scan comes to the end of the directory that the lost one was in, it has dropped
no file below the lost one. -/
theorem below_eq {files front back : List Text} {calm' : Prop}
    (hSplit : route (ctx.on fs') root = front ++ b.path ps :: back)
    (hs : Start (ctx.on fs') b (files.map (entry (ctx.on fs))) x) {y : Indexer}
    (hy : Renewed (ctx.on fs') (files.map (entry (ctx.on fs)))
      (fun q => (Path.parent q ∉ front ∧ Spared (ctx.on fs') x front q) ∧
        q ∉ sources (ctx.on fs') (b.path ps))
      (front.flatMap (sources (ctx.on fs')) ++ sources (ctx.on fs') (b.path ps)) calm' y.registry) :
    y.below (b.path (ps ++ [n])) = x.below (b.path (ps ++ [n])) := by
  have hNotFront : b.path ps ∉ front := (route_split h.wellNamed' h.root_eq hSplit).1
  have hFront : ∀ dir ∈ front, dir ∈ route (ctx.on fs') root :=
    fun dir hDir => hSplit ▸ List.mem_append_left _ hDir
  have hPaths : x.registry.paths = files := by
    rw [hs.registry_eq, Holdings.paths_registry, names_map_entry]
  -- what has been checked so far is away from the lost directory
  have hNew : ∀ p ∈ front.flatMap (sources (ctx.on fs')) ++ sources (ctx.on fs') (b.path ps),
      Path.isUnder p (b.path (ps ++ [n])) = false :=
    fun p hp => (h.mem_selected_iff.mp (mem_selected_up_to hSplit hp)).2
  have hOld : ∀ p ∈ files, Path.isUnder p (b.path (ps ++ [n])) = true →
      (Path.parent p ∉ front ∧ Spared (ctx.on fs') x front p) ∧
        p ∉ sources (ctx.on fs') (b.path ps) := by
    intro p hp hUnder
    have hBelow : p ∈ x.below (b.path (ps ++ [n])) := by
      rw [← hPaths] at hp
      exact List.mem_filter.mpr ⟨hp, hUnder⟩
    refine ⟨⟨fun hParent => ?_, fun e he d hd => ?_⟩, fun hSource => ?_⟩
    · -- the file lies in the lost directory or deeper
      obtain ⟨ms, hms, rfl⟩ := h.exists_names_of_mem_below hx hBelow
      rcases List.eq_nil_or_concat ms with rfl | ⟨ks, k, rfl⟩
      · exact hms rfl
      · rw [List.concat_eq_append, ← List.append_assoc, b.parent_path] at hParent
        have hAway := (h.of_mem_route (hFront _ hParent)).2
        exact b.isUnder_path_eq_false.mp hAway (List.prefix_append _ _)
    · rw [((h.mem_gone_iff hx (hFront e he)).mp hd).2] at he
      exact absurd he hNotFront
    · rw [hNew p (List.mem_append_right _ hSource)] at hUnder
      exact Bool.false_ne_true hUnder
  have hDistinct := hs.sound.distinctPaths
  rw [hy.below_eq hDistinct (by rwa [names_map_entry]) hNew, names_map_entry]
  unfold below
  rw [hPaths]

-- ---------------------------------------------------------------------------
-- What the next scan reports
-- ---------------------------------------------------------------------------

/-- Only the parent of the lost directory has news. -/
theorem news_other {q : Text} (hq : q ∈ route (ctx.on fs') root) (hOther : q ≠ b.path ps) :
    news (ctx.on fs') x q = [] := by
  unfold news
  rw [h.gone_other hx hq hOther, if_pos ((h.mem_dirs_iff hx).mpr (h.of_mem_route hq).1)]
  rfl

/-- Its news is that the directory is removed. -/
theorem news_parent : news (ctx.on fs') x (b.path ps) = [.removed (b.path (ps ++ [n]))] := by
  unfold news
  rw [h.gone_parent hx, if_pos ((h.mem_dirs_iff hx).mpr (h.of_mem_route h.parent_mem_route).1)]
  rfl

/-- Before it comes to the directory that the lost one was in, there is nothing to report. -/
theorem told_front {front back : List Text} (hSplit : route (ctx.on fs') root = front ++ back)
    (hNot : b.path ps ∉ front) (hOk : (run (ctx.on fs') front x).result = .ok ()) :
    (run (ctx.on fs') front x).events = [] ∧ (run (ctx.on fs') front x).state.dirs = x.dirs := by
  have hFront : ∀ q ∈ front, q ∈ route (ctx.on fs') root ∧ q ≠ b.path ps := fun q hq =>
    ⟨hSplit ▸ List.mem_append_left back hq, fun hEq => hNot (hEq ▸ hq)⟩
  have hTold := Told.run h.wellNamed' h.root_eq hx.tidy.orderly hSplit
    (fun q hq => h.list_ok' q (hFront q hq).1) hOk
  rw [hTold.events_eq, hTold.dirs_eq]
  constructor
  · exact List.flatMap_eq_nil_iff.mpr fun q hq => h.news_other hx (hFront q hq).1 (hFront q hq).2
  · have hNone : ∀ q ∈ front, x.gone (ctx.on fs') q = [] := fun q hq =>
      h.gone_other hx (hFront q hq).1 (hFront q hq).2
    have hOld : (x.dirs.filter fun q => front.all fun e =>
        (x.gone (ctx.on fs') e).all fun d => !Path.isUnder q d) = x.dirs := by
      rw [List.filter_eq_self]
      intro q _
      rw [List.all_eq_true]
      intro e he
      rw [hNone e he]
      rfl
    have hNew : (front.filter fun dir => decide (dir ∉ x.dirs)) = [] := by
      rw [List.filter_eq_nil_iff]
      intro q hq
      simpa using (h.mem_dirs_iff hx).mpr (h.of_mem_route (hFront q hq).1).1
    rw [hOld, hNew, List.append_nil]

/-- A scan that returns reports the lost directory and nothing else. -/
theorem told (hOk : (run (ctx.on fs') (route (ctx.on fs') root) x).result = .ok ()) :
    (run (ctx.on fs') (route (ctx.on fs') root) x).events = [.removed (b.path (ps ++ [n]))] ∧
      (run (ctx.on fs') (route (ctx.on fs') root) x).state.dirs =
        (x.without (b.path (ps ++ [n]))).dirs := by
  have hTold := Told.run h.wellNamed' h.root_eq hx.tidy.orderly (List.append_nil _).symm h.list_ok' hOk
  rw [hTold.events_eq, hTold.dirs_eq]
  constructor
  · -- of all directories on the route only the parent has news
    obtain ⟨front, back, hSplit⟩ := List.append_of_mem h.parent_mem_route
    have hDistinct := @nodup_route (ctx.on fs') b root h.wellNamed' h.root_eq
    have hOthers : ∀ q ∈ front ++ back, q ∈ route (ctx.on fs') root ∧ q ≠ b.path ps := by
      rw [hSplit, List.nodup_middle, List.nodup_cons] at hDistinct
      refine fun q hq => ⟨?_, fun hEq => hDistinct.1 (hEq ▸ hq)⟩
      rw [hSplit]
      exact List.mem_append.mpr ((List.mem_append.mp hq).imp_right (List.mem_cons_of_mem _))
    have hNone : ∀ q ∈ front ++ back, news (ctx.on fs') x q = [] := fun q hq =>
      h.news_other hx (hOthers q hq).1 (hOthers q hq).2
    rw [List.forall_mem_append] at hNone
    rw [hSplit, List.flatMap_append, List.flatMap_cons, List.flatMap_eq_nil_iff.mpr hNone.1,
      List.flatMap_eq_nil_iff.mpr hNone.2, h.news_parent hx]
    rfl
  · have hNew : ((route (ctx.on fs') root).filter fun dir => decide (dir ∉ x.dirs)) = [] := by
      rw [List.filter_eq_nil_iff]
      intro q hq
      simpa using (h.mem_dirs_iff hx).mpr (h.of_mem_route hq).1
    rw [hNew, List.append_nil]
    apply List.filter_congr
    intro q _
    rw [Bool.eq_iff_iff, List.all_eq_true]
    constructor
    · intro hAll
      have hHere := hAll _ h.parent_mem_route
      rwa [h.gone_parent hx, List.all_cons, List.all_nil, Bool.and_true] at hHere
    · intro hAway e he
      rw [List.all_eq_true]
      intro d hd
      rwa [((h.mem_gone_iff hx he).mp hd).1]

-- ---------------------------------------------------------------------------
-- What the next scan leaves
-- ---------------------------------------------------------------------------

/-- A scan that returns leaves the tables without the lost directory. -/
theorem tables (hOk : (run (ctx.on fs') (route (ctx.on fs') root) x).result = .ok ()) :
    (run (ctx.on fs') (route (ctx.on fs') root) x).state.registry.sources.Perm
        (x.without (b.path (ps ++ [n]))).registry.sources ∧
      (run (ctx.on fs') (route (ctx.on fs') root) x).state.registry.classes.Perm
        (x.without (b.path (ps ++ [n]))).registry.classes := by
  have hTidy : Tidy (ctx.on fs') b x := tidy_on.mpr (tidy_on.mp hx.tidy)
  have hSettled := hx.settled h.wellNamed h.root_eq
  have hCurrent := current_of_run h.wellNamed' h.root_eq hTidy hSettled hOk
  obtain ⟨files, hPerm, hs⟩ := hx.exists_files
  obtain ⟨files', hPerm', hs'⟩ := hCurrent.exists_files
  have hKeep : ((files.map (entry (ctx.on fs))).filter fun file =>
      !Path.isUnder file.1 (b.path (ps ++ [n]))) =
        (files.filter fun p => !Path.isUnder p (b.path (ps ++ [n]))).map (entry (ctx.on fs')) := by
    have hFiles := h.perm_selected hPerm
    rw [List.filter_map]
    refine List.map_congr_left fun p hp => ?_
    exact (h.entry_eq (hFiles.mem_iff.mp hp)).symm
  rw [hs'.registry_eq, registry_without hs.sound hs.registry_eq, hKeep]
  exact Holdings.registry_perm ((hPerm'.trans (h.perm_selected hPerm).symm).map _)

/-- The next scan comes to the end of the directory that the lost one was in. -/
theorem exists_atParent :
    ∃ front back y, route (ctx.on fs') root = front ++ b.path ps :: back ∧
      AtParent (ctx.on fs') x front (b.path ps) (b.path (ps ++ [n])) y := by
  have hfs' : (ctx.on fs').files.WellNamed := h.wellNamed'
  obtain ⟨files, hPerm, hs⟩ := exists_start hx
  obtain ⟨front, back, hSplit⟩ := List.append_of_mem h.parent_mem_route
  have hNotFront : b.path ps ∉ front := (route_split hfs' h.root_eq hSplit).1
  have hFront := h.run_eq_ok hx hSplit fun hMem => absurd hMem hNotFront
  obtain ⟨hEvents, hFrontDirs⟩ := h.told_front hx hSplit hNotFront hFront
  have hPassage := Passage.run hfs' h.root_eq hs hSplit
    (fun dir hDir => h.list_ok' dir (hSplit ▸ List.mem_append_left _ hDir)) hFront
  -- its source files can be checked once more
  have hSelected := fun q hq => mem_selected_up_to (q := q) hSplit hq
  obtain ⟨names, hNames⟩ := h.list_ok' _ h.parent_mem_route
  have hEntries := hPassage.entries_eq_ok hfs' h.root_eq hSplit (h.visible' _ h.parent_mem_route)
    (fun q hq => h.readable hx q (hSelected q (List.mem_append_right _ hq)))
    (fun q hq r hr => h.apart hx q (hSelected q hq) r (hSelected r hr))
    (fun q hq => h.apartFrom hx hPerm q (hSelected q (List.mem_append_right _ hq)))
  obtain ⟨hRegistry, hDirs⟩ := hPassage.entries hfs' h.root_eq hSplit (List.append_nil _).symm hEntries
  have hTidy := tidy_entries hfs' (searched_of_mem_route hfs' h.root_eq h.parent_mem_route)
    (fun m (hm : m ∈ listed (ctx.on fs') (b.path ps)) => hm) _ hPassage.tidy
  have hGone := gone_eq_of_mem_iff hTidy.distinct hx.tidy.distinct fun d =>
    hPassage.mem_gone_iff hfs' h.root_eq hs hSplit hDirs
  exact ⟨front, back, _, hSplit, ⟨names, hNames⟩, hFront, hEvents, hEntries, rfl, hTidy.held,
    hDirs.trans hFrontDirs, hGone.trans (h.gone_parent hx), h.below_eq hx hSplit hs hRegistry⟩

/-- **How the next scan fails.** If something is in the place of the lost directory, the first of
the files that were tracked below it cannot be reached. By then the directory has been forgotten and
the file has been dropped; the other files below it stay, and nothing has been reported. -/
theorem run_of_unreachable {k : EntryKind} {p : Text} {rest : List Text}
    (hKind : fs'.kind (b.path (ps ++ [n])) = .ok k)
    (hBelow : x.below (b.path (ps ++ [n])) = p :: rest) :
    (run (ctx.on fs') (route (ctx.on fs') root) x).result = .error (.file .notDirectory p) ∧
      (run (ctx.on fs') (route (ctx.on fs') root) x).state.dirs =
        (x.without (b.path (ps ++ [n]))).dirs ∧
      (run (ctx.on fs') (route (ctx.on fs') root) x).state.below (b.path (ps ++ [n])) = rest ∧
      (run (ctx.on fs') (route (ctx.on fs') root) x).events = [] := by
  obtain ⟨front, back, y, hSplit, hy⟩ := h.exists_atParent hx
  obtain ⟨names, hNames⟩ := hy.list_ok
  have hFirst := hy.below_eq.trans hBelow
  -- the first file below the directory is looked for
  obtain ⟨ms, hms, hp⟩ := h.exists_names_of_mem_below hx (hBelow ▸ List.mem_cons_self)
  have hRead : (ctx.on fs').files.read p = .error .notDirectory := by
    rw [hp]
    exact FileSystem.read_below_other hKind (fun hk => h.kind_ne (hk ▸ hKind)) hms
  have hFault : Fault.notDirectory ≠ .missing := nofun
  have hKnown := (mem_gone.mp (hy.gone_eq ▸ List.mem_cons_self)).1
  obtain ⟨hRemove, hRemoveState, hRemoveEvents⟩ :=
    remove_of_unreachable hKnown hFirst (hp ▸ accepts_path _) hFault hRead
  have hClose := close_of_remove_error hy.gone_eq hRemove
  obtain ⟨hResult, hState, hEvents⟩ := run_of_close_error back hNames hy.front_ok hy.entries_ok
    hy.state_eq (congrArg Outcome.result hClose)
  rw [hSplit, hResult, hState, hEvents, hClose, hy.front_events, hRemoveState]
  refine ⟨rfl, ?_, below_retract hy.held hFirst, hRemoveEvents⟩
  show (y.dirs.filter _) = _
  rw [hy.dirs_eq]
  rfl

end Known

end Lost

-- ---------------------------------------------------------------------------
-- Histories
-- ---------------------------------------------------------------------------

variable {ctx : IndexContext} {b : Path.Base} {fs : FileSystem} {root d : Text} {x : Indexer}

theorem ReturnedOn.wellNamed (hx : ReturnedOn ctx root fs x) : fs.WellNamed := by
  cases hx with
  | scan _ hfs _ => exact hfs

theorem ReturnedOn.isAbsolute (hx : ReturnedOn ctx root fs x) : Path.isAbsolute root = true := by
  cases hx with
  | scan _ _ hOk => exact isAbsolute_of_scan_ok hOk

/-- What returned scans lead to is current. If any directory is known, the last scan could list all
that it went into, and look at what it found there. -/
theorem ReturnedOn.current (hx : ReturnedOn ctx root fs x)
    (hRoot : Path.normalize root = b.path []) :
    (∃ calm, Current (ctx.on fs) b root calm x) ∧
      (d ∈ x.dirs → ∀ dir ∈ route (ctx.on fs) root,
        (∃ names, fs.list dir = .ok names) ∧ Visible (ctx.on fs) dir) := by
  have hAbsolute := hx.isAbsolute
  cases hx with
  | @scan x hx hfs hOk =>
    have hfs' : (ctx.on fs).files.WellNamed := hfs
    have hTidy : Tidy (ctx.on fs) b x := tidy_on.mpr (hx.attempted.tidy hRoot)
    rw [scan_eq_run hfs' hRoot hAbsolute] at hOk ⊢
    have hCurrent := current_of_run hfs' hRoot hTidy (hx.settled hRoot) hOk
    refine ⟨⟨_, hCurrent⟩, fun hd => ?_⟩
    -- below a root that is missing no directory would be known
    rw [hCurrent.mem_dirs, mem_closed] at hd
    obtain ⟨hRoute, names, hNames⟩ := hd
    obtain ⟨ns, rfl⟩ := exists_names_of_mem_route hfs' hRoot hRoute
    have hThere : fs.kind (b.path ([] ++ ns)) = .ok .directory := FileSystem.kind_of_list hNames
    have hKind := FileSystem.kind_directory_above hThere
    exact fun dir hDir => ⟨list_of_run_ok hfs' hRoot (FileSystem.list_ne_missing hKind)
      (fun _ h => h) hOk hDir, visible_of_run_ok hOk hDir⟩

/-- A known directory that gives way to something else is lost. -/
theorem ReturnedOn.lost {new : Option Entry} (hx : ReturnedOn ctx root fs x)
    (hRoot : Path.normalize root = b.path []) (hd : d ∈ x.dirs) (hBelow : d ≠ b.path [])
    (hNew : ∀ e ∈ new, e.kind ≠ .directory) (hSeen : new ≠ some .barred)
    (hSource : d ∉ selected (ctx.on (fs.replaceAt d new)) root) :
    ∃ ps n, d = b.path (ps ++ [n]) ∧ Lost ctx fs (fs.replaceAt d new) b root ps n new := by
  have hfs : (ctx.on fs).files.WellNamed := hx.wellNamed
  obtain ⟨⟨calm, hCurrent⟩, hList⟩ := hx.current hRoot (d := d)
  obtain ⟨hRoute, names, hNames⟩ := mem_closed.mp ((hCurrent.mem_dirs d).mp hd)
  obtain ⟨ns, rfl⟩ := exists_names_of_mem_route hfs hRoot hRoute
  rcases List.eq_nil_or_concat ns with rfl | ⟨ps, n, rfl⟩
  · exact absurd rfl hBelow
  · rw [List.concat_eq_append] at *
    obtain ⟨entries, hResolve, -⟩ := FileSystem.list_eq_ok.mp hNames
    have hComponents : Path.components (b.path (ps ++ [n])) ≠ [] := by
      rw [b.components_path]
      simp
    have hReplacement := FileSystem.replacement_replaceAt new hComponents hResolve
    exact ⟨ps, n, rfl, hfs,
      FileSystem.wellNamed_replaceAt hfs fun e he => Entry.wellNamed_of_kind (hNew e he),
      hRoot, fun dir hDir => (hList hd dir hDir).1, fun dir hDir => (hList hd dir hDir).2, hRoute,
      hReplacement, hReplacement.kind_at_ne hResolve hNew, hSeen, hSource⟩

/-- **The next scan after a directory is lost.** After a history of returned scans, something that
is no directory and no source file takes the place of a known directory below the root, or nothing
does, and nothing else changes. What takes its place can be looked at. If the directory is missing
then, or no file was tracked below it, the next scan returns. It leaves what was there, in some
order, without the directory and all below it, and one event tells of it. Otherwise the next scan
fails, because the first file below the directory cannot be reached. By then the directory has been
forgotten and the file has been dropped. The other files below it stay, and no event tells of it. -/
theorem rescan_without_directory (new : Option Entry) (hx : ReturnedOn ctx root fs x)
    (hd : d ∈ x.dirs) (hBelow : d ≠ Path.normalize root) (hNew : ∀ e ∈ new, e.kind ≠ .directory)
    (hSeen : new ≠ some .barred) (hSource : d ∉ selected (ctx.on (fs.replaceAt d new)) root) :
    ((fs.replaceAt d new).kind d = .error .missing ∨ x.below d = [] →
      (scan (ctx.on (fs.replaceAt d new)) root x).result = .ok () ∧
      (scan (ctx.on (fs.replaceAt d new)) root x).state.registry.sources.Perm
        (x.without d).registry.sources ∧
      (scan (ctx.on (fs.replaceAt d new)) root x).state.registry.classes.Perm
        (x.without d).registry.classes ∧
      (scan (ctx.on (fs.replaceAt d new)) root x).state.dirs = (x.without d).dirs ∧
      (scan (ctx.on (fs.replaceAt d new)) root x).events = [.removed d]) ∧
    ∀ p rest, (fs.replaceAt d new).kind d ≠ .error .missing → x.below d = p :: rest →
      (scan (ctx.on (fs.replaceAt d new)) root x).result = .error (.file .notDirectory p) ∧
      (scan (ctx.on (fs.replaceAt d new)) root x).state.dirs = (x.without d).dirs ∧
      (scan (ctx.on (fs.replaceAt d new)) root x).state.below d = rest ∧
      (scan (ctx.on (fs.replaceAt d new)) root x).events = [] := by
  have hAbsolute := hx.isAbsolute
  obtain ⟨b, hRoot⟩ := Path.exists_base hAbsolute
  rw [hRoot] at hBelow
  obtain ⟨⟨calm, hCurrent⟩, -⟩ := hx.current hRoot (d := d)
  obtain ⟨ps, n, rfl, hLost⟩ := hx.lost hRoot hd hBelow hNew hSeen hSource
  rw [scan_eq_run hLost.wellNamed' hRoot hAbsolute]
  constructor
  · -- the files below cannot be opened, or there are none, so the removal returns
    intro hGone
    have hOk := hLost.run_eq_ok hCurrent (List.append_nil _).symm fun _ p hp => by
      rcases hGone with hMissing | hNone
      · obtain ⟨ms, -, rfl⟩ := hLost.exists_names_of_mem_below hCurrent hp
        exact FileSystem.read_below_missing hMissing ms
      · rw [hNone] at hp
        exact absurd hp List.not_mem_nil
    obtain ⟨hSources, hClasses⟩ := hLost.tables hCurrent hOk
    obtain ⟨hEvents, hDirs⟩ := hLost.told hCurrent hOk
    exact ⟨hOk, hSources, hClasses, hDirs, hEvents⟩
  · -- something else stands there, and the first file below meets it
    intro p rest hThere hFirst
    obtain ⟨names, hNames⟩ := hLost.list_ok _ hLost.known
    obtain ⟨entries, hResolve, -⟩ := FileSystem.list_eq_ok.mp hNames
    obtain ⟨k, hKind⟩ := hLost.replacement.exists_kind_at hResolve hSeen hThere
    exact hLost.run_of_unreachable hCurrent hKind hFirst

/-- A source file two levels down. -/
def nest : FileSystem := folder [("s", .directory [("t", .directory [("b.js", definition "B")])])]

/-- The index of a scan of it. -/
def nestIndex : Indexer := (scan (usual.on nest) "/r" {}).state

/-- The index of a small tree comes from a scan that has returned. -/
theorem returnedOn_nest : ReturnedOn usual "/r" nest nestIndex :=
  .scan .start (by decide) (by decide +kernel)

/-- Its directories, and the file below the one that will be lost. -/
theorem nestIndex_known :
    nestIndex.dirs = ["/r", "/r/s", "/r/s/t"].map String.toList ∧
      nestIndex.below "/r/s" = ["/r/s/t/b.js".toList] := by
  decide +kernel

/-- When the directory `s` is deleted, the next scan forgets it and reports it. When an empty
regular file is put in its place, the next scan fails. -/
theorem rescan_without_directory_of_nest :
    (scan (usual.on (nest.replaceAt "/r/s" none)) "/r" nestIndex).result = .ok () ∧
      (scan (usual.on (nest.replaceAt "/r/s" none)) "/r" nestIndex).state.dirs = ["/r".toList] ∧
      (scan (usual.on (nest.replaceAt "/r/s" none)) "/r" nestIndex).events = [.removed "/r/s"] ∧
      (scan (usual.on (nest.replaceAt "/r/s" (some (.file [])))) "/r" nestIndex).result =
        .error (.file .notDirectory "/r/s/t/b.js") := by
  obtain ⟨hDirs, hBelow⟩ := nestIndex_known
  have hKnown : "/r/s".toList ∈ nestIndex.dirs := by
    rw [hDirs]
    decide
  have hInside : "/r/s".toList ≠ Path.normalize "/r" := by decide
  obtain ⟨hOk, -, -, hLeft, hEvents⟩ :=
    (rescan_without_directory none returnedOn_nest hKnown hInside nofun nofun
      (by decide +kernel)).1 (Or.inl (by decide))
  obtain ⟨hFails, -⟩ := (rescan_without_directory (some (.file [])) returnedOn_nest hKnown
    hInside (by decide) nofun (by decide +kernel)).2 _ _ (by decide) hBelow
  refine ⟨hOk, ?_, hEvents, hFails⟩
  rw [hLeft]
  unfold without
  rw [hDirs]
  decide

/-- So a known directory need not be gone without trouble: an empty regular file is in the place of
`s` and is not selected, and yet the next scan neither returns nor reports the directory. -/
theorem scan_fails_of_replaced_directory :
    ReturnedOn usual "/r" nest nestIndex ∧ "/r/s".toList ∈ nestIndex.dirs ∧
      "/r/s".toList ∉ selected (usual.on (nest.replaceAt "/r/s" (some (.file [])))) "/r" ∧
      (scan (usual.on (nest.replaceAt "/r/s" (some (.file [])))) "/r" nestIndex).result =
        .error (.file .notDirectory "/r/s/t/b.js") ∧
      (scan (usual.on (nest.replaceAt "/r/s" (some (.file [])))) "/r" nestIndex).events = [] := by
  obtain ⟨hKnown, hSource, hResult, hEvents⟩ :
      "/r/s".toList ∈ nestIndex.dirs ∧
        "/r/s".toList ∉ selected (usual.on (nest.replaceAt "/r/s" (some (.file [])))) "/r" ∧
        (scan (usual.on (nest.replaceAt "/r/s" (some (.file [])))) "/r" nestIndex).result =
          .error (.file .notDirectory "/r/s/t/b.js") ∧
        (scan (usual.on (nest.replaceAt "/r/s" (some (.file [])))) "/r" nestIndex).events = [] := by
    decide +kernel
  exact ⟨returnedOn_nest, hKnown, hSource, hResult, hEvents⟩

end ClassTags.Indexer
