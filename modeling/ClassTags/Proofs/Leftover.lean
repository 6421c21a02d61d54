import ClassTags.Proofs.Rescan

/-!
# What failed scans leave behind

A scan makes a directory known only after it has checked the source files in it. If it fails in
between, the index has files of a directory that it does not know. A later scan drops such a file
when it comes to its directory again. But if the directory has vanished, nothing tells the scan that
it has ever been there, and the file stays.

After scans that may have failed, the files that a returned scan leaves in the index and that are no
regular files now are just those that are **left behind**: the uppermost directory above them that
is not there any more was not known.

Main results:

* `Indexer.exists_last_on_route` — where the route of a scan ends on the way to a file;
* `Indexer.tracked_not_file_iff` — which files a returned scan leaves behind.
-/

namespace ClassTags.Indexer

/-- A tracked file is left behind below a base when the uppermost directory above it that is not
there was not known. -/
inductive LeftBehind (fs : FileSystem) (b : Path.Base) (x : Indexer) (p : Text) : Prop
  | intro (ds ms : List Path.Name) (hPath : p = b.path (ds ++ ms)) (hBelow : ms ≠ [])
      (hTracked : p ∈ x.registry.paths) (hUnknown : b.path ds ∉ x.dirs)
      (hGone : fs.kind (b.path ds) ≠ .ok .directory)
      (hFirst : ds = [] ∨ fs.kind (Path.parent (b.path ds)) = .ok .directory)

variable {ctx : IndexContext} {b : Path.Base} {old : Holdings} {start x : Indexer} {root : Text}

/-- Below a root that is missing, all is left behind or nothing: the root is what is gone. -/
theorem leftBehind_of_missing_iff (hx : Tidy ctx b start)
    (hMissing : ctx.files.list (b.path []) = .error .missing) {p : Text} :
    LeftBehind ctx.files b start p ↔ p ∈ start.registry.paths ∧ b.path [] ∉ start.dirs := by
  have hKind : ∀ ns, ctx.files.kind (b.path ns) = .error .missing := fun ns =>
    FileSystem.kind_of_resolve_error (FileSystem.resolve_below_missing ns hMissing)
  constructor
  · rintro ⟨ds, ms, rfl, -, hTracked, hUnknown, -, hFirst⟩
    rcases List.eq_nil_or_concat ds with rfl | ⟨front, d, rfl⟩
    · exact ⟨hTracked, hUnknown⟩
    · rw [List.concat_eq_append, b.parent_path, hKind] at hFirst
      rcases hFirst with hNil | hParent
      · simp at hNil
      · exact nomatch hParent
  · rintro ⟨hTracked, hUnknown⟩
    obtain ⟨ns, n, rfl, -⟩ := hx.files p hTracked
    refine .intro [] (ns ++ [n]) rfl (by simp) hTracked hUnknown ?_ (Or.inl rfl)
    rw [hKind]
    exact nofun

section Along

variable (hfs : ctx.files.WellNamed) (hRoot : Path.normalize root = b.path [])

include hfs hRoot

omit hfs in
/-- On the way to a directory off the route there is a last directory on it. -/
theorem exists_last_on_route {ns : List Path.Name} (hOff : b.path ns ∉ route ctx root) :
    ∃ ms m rest, ns = ms ++ m :: rest ∧ b.path ms ∈ route ctx root ∧
      b.path (ms ++ [m]) ∉ route ctx root := by
  induction ns using List.reverseRecOn with
  | nil => exact absurd (root_mem_route hRoot) hOff
  | append_singleton ns n ih =>
    by_cases hOn : b.path ns ∈ route ctx root
    · exact ⟨ns, n, [], rfl, hOn, hOff⟩
    · obtain ⟨ms, m, rest, rfl, hms, hm⟩ := ih hOn
      exact ⟨ms, m, rest ++ [n], by simp, hms, hm⟩

/-- A file that a scan has not come near is left behind. -/
theorem leftBehind_of_spared (hx : Tidy ctx b start)
    (hList : ∀ dir ∈ route ctx root, ∃ names, ctx.files.list dir = .ok names) {p : Text}
    (hTracked : p ∈ start.registry.paths) (hParent : Path.parent p ∉ route ctx root)
    (hSpared : Spared ctx start (route ctx root) p) : LeftBehind ctx.files b start p := by
  obtain ⟨ns, n, rfl, hIgnored, -⟩ := hx.files p hTracked
  rw [b.parent_path] at hParent
  obtain ⟨ms, m, rest, rfl, hms, hm⟩ := exists_last_on_route hRoot hParent
  obtain ⟨names, hNames⟩ := hList _ hms
  have hSubdir : b.path (ms ++ [m]) ∉ subdirs ctx (b.path ms) :=
    fun h => hm ((mem_route_snoc hfs hRoot).mpr ⟨hms, h⟩)
  have hPath : ms ++ m :: rest ++ [n] = (ms ++ [m]) ++ (rest ++ [n]) := by simp
  refine .intro (ms ++ [m]) (rest ++ [n]) (by rw [hPath]) (by simp) hTracked ?_ ?_ (Or.inr ?_)
  · -- a known directory would be gone, and would have taken the file along
    intro hKnown
    have hGone : b.path (ms ++ [m]) ∈ start.gone ctx (b.path ms) :=
      mem_gone.mpr ⟨hKnown, b.parent_path ms m, by simp, hSubdir⟩
    have hAway := hSpared _ hms _ hGone
    rw [hPath, b.isUnder_path.mpr (List.prefix_append _ _)] at hAway
    exact Bool.false_ne_true hAway.symm
  · intro hKind
    have hName : m.1 ∉ ctx.ignoredDirs :=
      hIgnored m (List.mem_append_right _ List.mem_cons_self)
    exact hSubdir ((mem_subdirs hfs hNames).mpr ⟨m, rfl, hKind, hName⟩)
  · rw [b.parent_path]
    exact FileSystem.kind_of_list hNames

/-- A scan does not come near a file that is left behind. -/
theorem LeftBehind.spared (hx : Tidy ctx b start)
    (hList : ∀ dir ∈ route ctx root, ∃ names, ctx.files.list dir = .ok names) {p : Text}
    (h : LeftBehind ctx.files b start p) :
    Path.parent p ∉ route ctx root ∧ Spared ctx start (route ctx root) p ∧
      ctx.files.kind p ≠ .ok .file := by
  obtain ⟨ds, ms, rfl, hBelow, -, hUnknown, hGone, hFirst⟩ := h
  -- no directory on the route lies below the one that is gone
  have hOff : ∀ es, b.path (ds ++ es) ∉ route ctx root := by
    intro es hOn
    obtain ⟨names, hNames⟩ := hList _ (mem_route_above hfs hRoot hOn)
    exact hGone (FileSystem.kind_of_list hNames)
  obtain ⟨front, m, rfl⟩ : ∃ front m, ms = front ++ [m] := by
    rcases List.eq_nil_or_concat ms with hNil | ⟨front, m, hEq⟩
    · exact absurd hNil hBelow
    · exact ⟨front, m, by rw [hEq, List.concat_eq_append]⟩
  refine ⟨?_, ?_, ?_⟩
  · rw [← List.append_assoc, b.parent_path]
    exact hOff front
  · intro e he g hg
    obtain ⟨names, hNames⟩ := hList e he
    obtain ⟨es, rfl⟩ := exists_names_of_mem_route hfs hRoot he
    have hKind := hx.kind_of_mem_gone hfs hNames hg
    have hKnown := (mem_gone.mp hg).1
    obtain ⟨k, rfl, -⟩ := hx.of_mem_gone hg
    rw [Bool.eq_false_iff]
    intro hUnder
    have hPrefix := b.isUnder_path.mp hUnder
    rcases List.prefix_or_prefix_of_prefix hPrefix (List.prefix_append ds _) with hAbove | hDown
    · obtain ⟨rest, rfl⟩ := hAbove
      rcases List.eq_nil_or_concat rest with rfl | ⟨rest, r, rfl⟩
      · rw [List.append_nil] at hUnknown
        exact hUnknown hKnown
      · -- strictly above the one that is gone, all directories are there
        rw [List.concat_eq_append, ← List.append_assoc] at hFirst
        rcases hFirst with hNil | hParent
        · simp at hNil
        · rw [b.parent_path] at hParent
          exact hKind (FileSystem.kind_directory_above hParent)
    · rcases List.prefix_concat_iff.mp hDown with rfl | ⟨rest, rfl⟩
      · exact hUnknown hKnown
      · -- it would be gone from a directory that the scan cannot have come to
        exact hOff rest he
  · intro hFile
    obtain ⟨fault, hResolve⟩ := FileSystem.resolve_below hBelow hGone
    rw [FileSystem.kind_of_resolve_error hResolve] at hFile
    exact nomatch hFile

/-- What a scan that returns leaves of a tidy index that is not there. -/
theorem run_tracked_not_file_iff (hx : Tidy ctx b start)
    (hOk : (run ctx (route ctx root) start).result = .ok ()) {p : Text} :
    p ∈ (run ctx (route ctx root) start).state.registry.paths ∧ ctx.files.kind p ≠ .ok .file ↔
      LeftBehind ctx.files b start p := by
  by_cases hMissing : ctx.files.list (b.path []) = .error .missing
  · rw [leftBehind_of_missing_iff hx hMissing]
    by_cases hKnown : b.path [] ∈ start.dirs
    · -- the known root takes everything along
      have hRegistry := (run_of_missing_known hRoot hx hMissing hKnown hOk).1
      rw [hRegistry.mem_paths]
      simp [hKnown, Table.names]
    · -- a root that was not known leaves all as it was
      rw [run_of_missing_unknown hRoot hMissing hKnown]
      refine and_congr_right fun hTracked => iff_of_true ?_ hKnown
      intro hFile
      obtain ⟨ns, n, rfl, -⟩ := hx.files p hTracked
      have hResolve := FileSystem.resolve_below_missing (ns ++ [n]) hMissing
      rw [List.nil_append] at hResolve
      rw [FileSystem.kind_of_resolve_error hResolve] at hFile
      cases hFile
  · -- otherwise the old files that are left are those that the scan has not come near
    obtain ⟨old, hs⟩ := hx.exists_start
    have hList : ∀ dir ∈ route ctx root, ∃ names, ctx.files.list dir = .ok names :=
      fun dir hDir => list_of_run_ok hfs hRoot hMissing (fun _ h => h) hOk hDir
    have hPassage := Passage.run hfs hRoot hs (List.append_nil _).symm hList hOk
    have hTracked : ∀ q, q ∈ start.registry.paths ↔ q ∈ Table.names old := by
      intro q
      rw [hs.registry_eq, Holdings.paths_registry]
    rw [hPassage.registry.mem_paths]
    constructor
    · rintro ⟨⟨hOld, hParent, hSpared⟩ | hSelected, hNotFile⟩
      · exact leftBehind_of_spared hfs hRoot hx hList ((hTracked p).mpr hOld) hParent hSpared
      · obtain ⟨ns, n, -, -, -, hFile⟩ := of_mem_flatMap_sources hfs hRoot (fun _ h => h) hSelected
        exact absurd hFile hNotFile
    · intro hLeft
      obtain ⟨hParent, hSpared, hNotFile⟩ := hLeft.spared hfs hRoot hx hList
      have hOld : p ∈ start.registry.paths := by
        obtain ⟨ds, ms, -, -, hMem, -⟩ := hLeft
        exact hMem
      exact ⟨Or.inl ⟨(hTracked p).mp hOld, hParent, hSpared⟩, hNotFile⟩

end Along

/-- **What failed scans leave behind.** After any history of scans of a root, each of which returned
or failed, a scan that returns leaves a tracked file that is no regular file now just when the file
is left behind below the root. -/
theorem tracked_not_file_iff {fs : FileSystem} (hx : Attempted ctx root x) (hfs : fs.WellNamed)
    (hOk : (scan (ctx.on fs) root x).result = .ok ()) (p : Text) :
    p ∈ (scan (ctx.on fs) root x).state.registry.paths ∧ fs.kind p ≠ .ok .file ↔
      ∃ b : Path.Base, Path.normalize root = b.path [] ∧ LeftBehind fs b x p := by
  have hAbsolute := isAbsolute_of_scan_ok hOk
  have hfs' : (ctx.on fs).files.WellNamed := hfs
  have hRun : ∀ b : Path.Base, Path.normalize root = b.path [] →
      (p ∈ (scan (ctx.on fs) root x).state.registry.paths ∧ fs.kind p ≠ .ok .file ↔
        LeftBehind fs b x p) := by
    intro b hRoot
    rw [scan_eq_run hfs' hRoot hAbsolute] at hOk ⊢
    exact run_tracked_not_file_iff hfs' hRoot (tidy_on.mpr (hx.tidy hRoot)) hOk
  constructor
  · intro h
    obtain ⟨b, hRoot⟩ := Path.exists_base hAbsolute
    exact ⟨b, hRoot, (hRun b hRoot).mp h⟩
  · rintro ⟨b, hRoot, hLeft⟩
    exact (hRun b hRoot).mpr hLeft

/-- A directory in which the second of two source files has no program. -/
def halfBroken : FileSystem :=
  folder [("s", .directory [("a.js", definition "A"), ("b.js", .file "(".toUTF8.toList)])]

/-- Two source files in one directory, whatever they contain. -/
def twoSources (first second : List UInt8) : IndexContext :=
  usual.on (folder [("s", .directory [("a.js", .file first), ("b.js", .file second)])])

/-- The steps of a scan of two source files in one directory. -/
theorem steps_of_two_sources (first second : List UInt8) :
    (route (twoSources first second) "/r").flatMap (steps (twoSources first second)) =
      [.close "/r", .check "/r/s/a.js", .check "/r/s/b.js", .close "/r/s"] := by
  have hList : (twoSources first second).files.list "/r" = .ok [("s" : Text)] := rfl
  have hList' : (twoSources first second).files.list "/r/s" = .ok [("a.js" : Text), "b.js"] := rfl
  have hListed : listed (twoSources first second) "/r" = [("s" : Text)] :=
    (listed_of_list hList).trans (sorted_eq (.refl _) (by decide))
  have hListed' : listed (twoSources first second) "/r/s" = [("a.js" : Text), "b.js"] :=
    (listed_of_list hList').trans (sorted_eq (.refl _) (by decide))
  have hSubdirs : subdirs (twoSources first second) "/r" = [("/r/s" : Text)] := by
    rw [subdirs, hListed]
    rfl
  have hSubdirs' : subdirs (twoSources first second) "/r/s" = [] := by
    rw [subdirs, hListed']
    rfl
  have hRoute : route (twoSources first second) "/r" = [("/r" : Text), "/r/s"] := by
    show routeFrom (twoSources first second) 6 [("/r" : Text)] = _
    rw [routeFrom, hSubdirs, List.nil_append, routeFrom, hSubdirs', List.nil_append]
    rfl
  rw [hRoute, List.flatMap_cons, List.flatMap_singleton, steps_of_list hList, steps_of_list hList',
    hListed, hListed']
  rfl

/-- A scan of the half-broken tree, step by step. -/
theorem scan_halfBroken (x : Indexer) :
    scan (usual.on halfBroken) "/r" x =
      Action.forEach (Step.run (usual.on halfBroken))
        [.close "/r", .check "/r/s/a.js", .check "/r/s/b.js", .close "/r/s"] x := by
  have hNamed : (usual.on halfBroken).files.WellNamed := by decide
  obtain ⟨b, hRoot⟩ := Path.exists_base (p := "/r") rfl
  rw [scan_eq_run hNamed hRoot rfl]
  exact congrArg (fun ss => Action.forEach (Step.run _) ss x) (steps_of_two_sources _ _)

/-- What is in the index after the directory has vanished. -/
theorem scan_folder_after_halfBroken :
    (scan (usual.on (folder [])) "/r" (scan (usual.on halfBroken) "/r" {}).state).result = .ok () ∧
    (scan (usual.on (folder [])) "/r"
      (scan (usual.on halfBroken) "/r" {}).state).state.registry.sources =
        [("/r/s/a.js".toList, ["A".toList])] := by
  rw [scan_halfBroken]
  decide +kernel

/-- The file `a.js` has been checked when the scan fails, and its directory is not known. After the
directory has vanished, the file is left behind. -/
theorem leftBehind_of_half_checked_directory :
    ∃ b : Path.Base, Path.normalize "/r" = b.path [] ∧
      LeftBehind (folder []) b (scan (usual.on halfBroken) "/r" {}).state "/r/s/a.js" := by
  have hHistory : Attempted usual "/r" (scan (usual.on halfBroken) "/r" {}).state :=
    .scan .start (by decide)
  have hNamed : (folder []).WellNamed := by decide
  obtain ⟨hOk, hSources⟩ := scan_folder_after_halfBroken
  refine (tracked_not_file_iff hHistory hNamed hOk _).mp ⟨?_, by decide⟩
  rw [Registry.paths, hSources]
  exact List.mem_cons_self

/-- So a class can outlive its file: after a scan that failed, the directory `s` has vanished, and a
scan that returns leaves the class `A` of the file `a.js` that was in it. -/
theorem class_outlives_file :
    Attempted usual "/r" (scan (usual.on halfBroken) "/r" {}).state ∧ (folder []).WellNamed ∧
    (scan (usual.on (folder [])) "/r" (scan (usual.on halfBroken) "/r" {}).state).result =
      .ok () ∧
    (scan (usual.on (folder [])) "/r"
      (scan (usual.on halfBroken) "/r" {}).state).state.registry.owned "/r/s/a.js" = ["A"] ∧
    (folder []).kind "/r/s/a.js" = .error .missing := by
  obtain ⟨hOk, hSources⟩ := scan_folder_after_halfBroken
  refine ⟨.scan .start (by decide), by decide, hOk, ?_, by decide⟩
  rw [Registry.owned, hSources]
  rfl

end ClassTags.Indexer
