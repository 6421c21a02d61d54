import ClassTags.CommandLine
import ClassTags.Proofs.Gathering
import ClassTags.Proofs.PlainText

/-!
# The order of the arguments

The command indexes its arguments one after the other, and they may overlap: a file may also lie in
a directory that is given, a directory in another one, and an argument may stand there twice. What
the command makes of its arguments depends only on the paths that they stand for: which files it
**selects**, whether all of these can be had, and so the classes that it prints. There is one
exception. An argument that can be opened without being a regular file is **exposed** if another one
leads a scan into its directory: if that one comes later, the classes of the file are gone again.

The reason is that an argument gathers the files that it **offers**, and that actions which gather
files can be exchanged if none drops what another one leaves. In particular, a file that is checked
again keeps its classes, and a directory that is given by name and left out of a scan later on only
loses its mark as a known directory.

Main definitions:

* `CommandLine.Selected` — the files that some paths stand for;
* `CommandLine.Clean` — nothing is in the way of indexing them;
* `CommandLine.Remaining` — the files that are left when all paths have been indexed in order;
* `CommandLine.Lists` — classes that are those of the given files;
* `CommandLine.Prints` — how some classes are printed.

Main results:

* `CommandLine.gathers_argument` — what an argument gathers;
* `CommandLine.code_eq_zero_of_clean`, `CommandLine.of_code_eq_zero` — when the command ends well, and
  what it prints then;
* `CommandLine.argument_order_irrelevant` — arguments that stand for the same paths.
-/

namespace ClassTags.CommandLine

open Indexer

/-- The files that a path stands for: the file itself, or the source files that a scan comes to. -/
inductive Offers (ctx : IndexContext) (root p : Text) : Prop
  | itself (hSelf : p = root) (hOpens : Opens ctx p)
  | inside (b : Path.Base) (hRoot : root = b.path []) (hFound : Checkable ctx b p)
      (hFile : ctx.files.kind p = .ok .file)

/-- The files that some paths stand for. -/
def Selected (ctx : IndexContext) (roots : List Text) (p : Text) : Prop :=
  ∃ root ∈ roots, Offers ctx root p

/-- A scan of a path drops the file: it is irregular, and the scan goes into its directory. -/
def SweptBy (ctx : IndexContext) (root p : Text) : Prop :=
  ∃ b : Path.Base, root = b.path [] ∧ Irregular ctx p ∧ Entered ctx b (Path.parent p)

/-- The files that are left when the paths have been indexed in order. -/
abbrev Remaining (ctx : IndexContext) : List Text → Text → Prop := Remains (Offers ctx) (SweptBy ctx)

/-- A path that can be opened, and that a scan of some path drops. -/
structure Exposed (ctx : IndexContext) (roots : List Text) (p : Text) : Prop where
  given : p ∈ roots
  opens : Opens ctx p
  swept : ∃ root ∈ roots, SweptBy ctx root p

/-- A path that can be scanned, if it is a directory, and otherwise can be read or is missing. -/
structure Accessible (ctx : IndexContext) (root : Text) : Prop where
  dirs : ∀ b : Path.Base, root = b.path [] → ∀ d, Entered ctx b d → Passable ctx d
  reads : ctx.files.kind root ≠ .ok .directory →
    ∀ f, ctx.files.read root = .error f → f = .missing

/-- Nothing is in the way of indexing some paths: what they lead to is accessible, every file that
they stand for can be read and has classes, and no class is defined in two of the files. -/
structure Clean (ctx : IndexContext) (roots : List Text) : Prop where
  accessible : ∀ root ∈ roots, Accessible ctx root
  readable : ∀ p, Selected ctx roots p → Readable ctx p
  apart : ApartAll ctx (Selected ctx roots)

/-- Every class of the given files once, as its file defines it last. -/
structure Lists (ctx : IndexContext) (F : Text → Prop) (classes : List ClassRecord) : Prop where
  distinct : (classes.map ClassRecord.name).Nodup
  mem : ∀ c, c ∈ classes ↔ ∃ p cs, F p ∧
    Registry.fileClasses ctx.defineCalls ctx.files p = .ok (some cs) ∧
      ClassRecord.lastNamed? cs c.name = some c

/-- The output is the tag file of some classes, in this order. Control sequences are left out, and
if there are none, it is the tag file as it stands. -/
structure Prints (s : Settings) (classes : List ClassRecord) (output : Text) : Prop where
  blocks : output = s.printedHeader ++ classes.flatMap ClassRecord.printedRows
  whole : output = s.tagFile classes ↔ ¬ Text.HasControl (s.tagFile classes)

variable {ctx : IndexContext} {s : Surroundings} {roots roots' paths : List Text}

-- ---------------------------------------------------------------------------
-- The same paths
-- ---------------------------------------------------------------------------

/-- The files that arguments select depend on which arguments there are, not on their order. -/
theorem selected_congr (hSame : ∀ p, p ∈ roots ↔ p ∈ roots') :
    Selected ctx roots = Selected ctx roots' := by
  unfold Selected
  simp only [hSame]

/-- So does whether all arguments can be searched and their files read. -/
theorem Clean.congr (h : Clean ctx roots) (hSame : ∀ p, p ∈ roots ↔ p ∈ roots') :
    Clean ctx roots' where
  accessible root hRoot := h.accessible root ((hSame root).mpr hRoot)
  readable := selected_congr hSame ▸ h.readable
  apart := selected_congr hSame ▸ h.apart

/-- Where no argument is exposed, all selected files are left in the end. -/
theorem remaining_iff_selected (hSafe : ∀ p, ¬ Exposed ctx roots p) {p : Text} :
    Remaining ctx roots p ↔ Selected ctx roots p := by
  refine remains_iff fun root hRoot hOffers e he hSwept => ?_
  cases hOffers with
  | itself hSelf hOpens => exact hSafe p ⟨hSelf ▸ hRoot, hOpens, e, he, hSwept⟩
  | inside b _ _ hFile =>
    obtain ⟨-, -, hIrregular, -⟩ := hSwept
    exact hIrregular.kind hFile

/-- So does whether a file is swept away by a search. -/
theorem Exposed.congr {p : Text} (h : Exposed ctx roots p) (hSame : ∀ p, p ∈ roots ↔ p ∈ roots') :
    Exposed ctx roots' p := by
  obtain ⟨hGiven, hOpens, root, hRoot, hSwept⟩ := h
  exact ⟨(hSame p).mp hGiven, hOpens, root, (hSame root).mp hRoot, hSwept⟩

/-- A list of classes depends on which files are selected. -/
theorem Lists.congr {F G : Text → Prop} {classes : List ClassRecord} (h : Lists ctx F classes)
    (hSame : ∀ p, F p ↔ G p) : Lists ctx G classes where
  distinct := h.distinct
  mem c := by
    rw [h.mem]
    simp only [hSame]

/-- The classes of some files are the same up to order. -/
theorem Lists.perm {F : Text → Prop} {classes classes' : List ClassRecord}
    (h : Lists ctx F classes) (h' : Lists ctx F classes') : classes.Perm classes' := by
  rw [List.perm_ext_iff_of_nodup h.distinct.of_map h'.distinct.of_map]
  intro c
  rw [h.mem, h'.mem]

-- ---------------------------------------------------------------------------
-- One argument
-- ---------------------------------------------------------------------------

theorem indexArgument_of_directory {a : Text}
    (h : s.files.kind (Path.absolute s.directory a) = .ok .directory) :
    indexArgument s a = Indexer.scan s.context (Path.absolute s.directory a) :=
  if_pos (FileSystem.isDirectory_iff.mpr h)

/-- An argument that is no directory is checked. -/
theorem indexArgument_of_not_directory {a : Text}
    (hNot : s.files.kind (Path.absolute s.directory a) ≠ .ok .directory) (x : Indexer) :
    (indexArgument s a x).result =
        (Step.run s.context (.check (Path.absolute s.directory a)) x).result ∧
      (indexArgument s a x).state =
        (Step.run s.context (.check (Path.absolute s.directory a)) x).state := by
  have hArgument : indexArgument s a =
      Indexer.check s.context (Path.absolute s.directory a) >>= fun found =>
        if found then pure () else Action.note (.argumentMissing a) :=
    if_neg (mt FileSystem.isDirectory_iff.mp hNot)
  show _ = ((Indexer.check s.context _ >>= fun _ => pure ()) x).result ∧
    _ = ((Indexer.check s.context _ >>= fun _ => pure ()) x).state
  rw [hArgument]
  cases hCheck : (Indexer.check s.context (Path.absolute s.directory a) x).result with
  | error e =>
    rw [Action.bind_of_error hCheck, Action.bind_of_error hCheck]
    exact ⟨rfl, rfl⟩
  | ok found =>
    rw [Action.bind_of_ok hCheck, Action.bind_of_ok hCheck]
    cases found <;> exact ⟨rfl, rfl⟩

variable {b : Path.Base}

/-- A directory is accessible if every directory that its search enters can be passed. -/
theorem accessible_of_directory (hKind : ctx.files.kind (b.path []) = .ok .directory) :
    Accessible ctx (b.path []) ↔ ∀ d, Entered ctx b d → Passable ctx d := by
  constructor
  · exact fun h => h.dirs b rfl
  · refine fun h => ⟨fun c hc => ?_, fun hNot => absurd hKind hNot⟩
    obtain rfl := Path.Base.eq_of_path_nil hc
    exact h

/-- A directory offers the files that its search checks, if they are regular. -/
theorem offers_of_directory (hKind : ctx.files.kind (b.path []) = .ok .directory) {p : Text} :
    Offers ctx (b.path []) p ↔ Checkable ctx b p ∧ ctx.files.kind p = .ok .file := by
  constructor
  · rintro (⟨rfl, bytes, hRead⟩ | ⟨c, hc, hFound, hFile⟩)
    · obtain ⟨k, hThere, hNot⟩ := FileSystem.kind_of_read hRead
      exact absurd (Except.ok.inj (hThere.symm.trans hKind)) hNot
    · obtain rfl := Path.Base.eq_of_path_nil hc
      exact ⟨hFound, hFile⟩
  · exact fun h => .inside b rfl h.1 h.2

/-- The search of a directory sweeps away what stands in a directory that it enters and is no
regular file. -/
theorem sweptBy_of_directory {p : Text} :
    SweptBy ctx (b.path []) p ↔ Irregular ctx p ∧ Entered ctx b (Path.parent p) := by
  constructor
  · rintro ⟨c, hc, hSwept⟩
    obtain rfl := Path.Base.eq_of_path_nil hc
    exact hSwept
  · exact fun h => ⟨b, rfl, h⟩

section NoDirectory

variable (hNot : ctx.files.kind (b.path []) ≠ .ok .directory)

include hNot

/-- Nothing lies below a path that is no directory. -/
theorem not_entered {d : Text} : ¬ Entered ctx b d := by
  rintro ⟨⟨ns, rfl, -⟩, hKind⟩
  have hBelow : ctx.files.kind (b.path ([] ++ ns)) = .ok .directory := hKind
  exact hNot (FileSystem.kind_directory_above hBelow)

/-- Anything else is accessible if it is missing or can be read. -/
theorem accessible_of_not_directory :
    Accessible ctx (b.path []) ↔ ∀ f, ctx.files.read (b.path []) = .error f → f = .missing := by
  refine ⟨fun h => h.reads hNot, fun h => ⟨?_, fun _ => h⟩⟩
  intro c hc d hEntered
  obtain rfl := Path.Base.eq_of_path_nil hc
  exact absurd hEntered (not_entered hNot)

/-- Anything else offers itself, if it can be opened. -/
theorem offers_of_not_directory {p : Text} :
    Offers ctx (b.path []) p ↔ p = b.path [] ∧ Opens ctx (b.path []) := by
  constructor
  · rintro (⟨rfl, hOpens⟩ | ⟨c, hc, ⟨ns, n, rfl, -⟩, hFile⟩)
    · exact ⟨rfl, hOpens⟩
    · obtain rfl := Path.Base.eq_of_path_nil hc
      have hBelow : ctx.files.kind (b.path ([] ++ (ns ++ [n]))) = .ok .file := hFile
      exact absurd (FileSystem.kind_above (by simp) hBelow) hNot
  · rintro ⟨rfl, hOpens⟩
    exact .itself rfl hOpens

/-- To check a file by its name sweeps nothing away. -/
theorem not_sweptBy {p : Text} : ¬ SweptBy ctx (b.path []) p :=
  fun h => not_entered hNot (sweptBy_of_directory.mp h).2

end NoDirectory

section Index

variable (hDirectory : Path.isAbsolute s.directory = true) (hfs : s.files.WellNamed)
  (hSlash : Path.separator ∉ s.settings.sourceExtension)

include hDirectory hfs hSlash

/-- **What an argument gathers**: it takes and leaves the files that it stands for, and drops the
irregular files that a scan of it sweeps away. -/
theorem gathers_argument (a : Text) :
    Gathers s.context (indexArgument s a) (Accessible s.context (Path.absolute s.directory a))
      (Offers s.context (Path.absolute s.directory a))
      (Offers s.context (Path.absolute s.directory a))
      (SweptBy s.context (Path.absolute s.directory a)) := by
  obtain ⟨b, hb⟩ := Path.exists_base_absolute hDirectory a
  by_cases hKind : s.context.files.kind (b.path []) = .ok .directory
  · rw [indexArgument_of_directory (hb ▸ hKind), hb]
    exact (gathers_scan hfs hSlash hKind).congr (accessible_of_directory hKind).symm
      (fun _ p => (offers_of_directory hKind).symm) (fun _ p => (offers_of_directory hKind).symm)
      fun _ p => sweptBy_of_directory.symm
  · -- anything else than a directory is checked by its name
    have hCheck := indexArgument_of_not_directory (hb ▸ hKind)
    rw [hb] at hCheck ⊢
    have hAccessible := accessible_of_not_directory hKind
    have hSwept : ∀ p, False ↔ SweptBy s.context (b.path []) p :=
      fun p => iff_of_false id (not_sweptBy hKind)
    by_cases hOpens : Opens s.context (b.path [])
    · obtain ⟨bytes, hRead⟩ := id hOpens
      have hThere : s.context.files.read (b.path []) ≠ .error .missing := by
        rw [hRead]
        exact nofun
      have hDemand := (gathers_check (accepts_path []) hThere).demand (B := Accessible s.context _)
        fun _ => hAccessible.mpr fun f hf => nomatch hRead.symm.trans hf
      have hOffers : ∀ p, p = b.path [] ↔ Offers s.context (b.path []) p :=
        fun p => by rw [offers_of_not_directory hKind, and_iff_left hOpens]
      exact (hDemand.of_same hCheck).congr Iff.rfl (fun _ => hOffers) (fun _ => hOffers)
        fun _ => hSwept
    · have hNone := gathers_check_other (accepts_path []) hOpens
      have hOffers : ∀ p, False ↔ Offers s.context (b.path []) p :=
        fun p => by rw [offers_of_not_directory hKind, false_iff, not_and]; exact fun _ => hOpens
      exact (hNone.of_same hCheck).congr hAccessible.symm (fun _ => hOffers) (fun _ => hOffers)
        fun _ => hSwept

/-- **Arguments one after the other gather the files they select**, apart from those that a later
search sweeps away. -/
theorem gathers_arguments (paths : List Text) :
    Gathers s.context (Action.forEach (indexArgument s) paths)
      (∀ root ∈ paths.map (Path.absolute s.directory), Accessible s.context root)
      (Selected s.context (paths.map (Path.absolute s.directory)))
      (Remaining s.context (paths.map (Path.absolute s.directory)))
      fun p => ∃ root ∈ paths.map (Path.absolute s.directory), SweptBy s.context root p := by
  refine (Gathers.forEach fun a _ => gathers_argument hDirectory hfs hSlash a).congr ?_
    (fun _ p => ?_) (fun _ p => remains_map) fun _ p => ?_
  · rw [List.forall_mem_map]
  · unfold Selected
    simp only [List.mem_map, exists_exists_and_eq_and]
  · simp only [List.mem_map, exists_exists_and_eq_and]

-- ---------------------------------------------------------------------------
-- All arguments
-- ---------------------------------------------------------------------------

omit hDirectory hfs hSlash in
/-- The command ends well just when all arguments have been indexed. -/
theorem code_index_eq_zero {threshold : Nat} :
    (index s threshold paths).1.code = 0 ↔
      (Action.forEach (indexArgument s) paths {}).result = .ok () := by
  unfold index
  cases hResult : (Action.forEach (indexArgument s) paths {}).result with
  | ok u => simp [hResult]
  | error e => cases hReported : IndexFailure.isReported e <;> simp [hResult, hReported]

/-- **The command ends well if nothing is in its way.** -/
theorem code_eq_zero_of_clean {threshold : Nat}
    (hClean : Clean s.context (paths.map (Path.absolute s.directory))) :
    (index s threshold paths).1.code = 0 := by
  rw [code_index_eq_zero]
  refine (gathers_arguments hDirectory hfs hSlash paths).returns _ {} Covers.empty hClean.accessible
    hClean.readable ?_
  exact hClean.apart.mono fun p hp => hp.resolve_left id

/-- **A command that ends well** has come to everything and could read all files that its arguments
stand for, and it prints the classes of those that are left. These files define different
classes. -/
theorem of_code_eq_zero {threshold : Nat} (hOk : (index s threshold paths).1.code = 0) :
    (∀ root ∈ paths.map (Path.absolute s.directory), Accessible s.context root) ∧
    (∀ p, Selected s.context (paths.map (Path.absolute s.directory)) p → Readable s.context p) ∧
    ApartAll s.context (Remaining s.context (paths.map (Path.absolute s.directory))) ∧
    ∃ classes, Prints s.settings classes (index s threshold paths).1.output ∧
      Lists s.context (Remaining s.context (paths.map (Path.absolute s.directory))) classes := by
  rw [code_index_eq_zero] at hOk
  have hGathers := gathers_arguments hDirectory hfs hSlash paths
  obtain ⟨hAccessible, hRead⟩ := hGathers.demands _ {} Covers.empty hOk
  have hCovers := (hGathers.registry _ {} Covers.empty hOk).congr fun p =>
    or_iff_right fun h => h.1
  have hOutput : (index s threshold paths).1.output = Text.plain
      (s.settings.tagFile (Action.forEach (indexArgument s) paths {}).state.registry.records) := by
    unfold index
    simp only [hOk]
  refine ⟨hAccessible, hRead, hCovers.apart, _, ⟨?_, ?_⟩, hCovers.nodup_records,
    fun c => hCovers.mem_records⟩
  · rw [hOutput, Settings.plain_tagFile]
  · rw [hOutput, Text.plain_eq_self_iff]

/-- Where no argument is exposed, the command ends well only if nothing is in its way. -/
theorem clean_of_code_eq_zero {threshold : Nat}
    (hSafe : ∀ p, ¬ Exposed s.context (paths.map (Path.absolute s.directory)) p)
    (hOk : (index s threshold paths).1.code = 0) :
    Clean s.context (paths.map (Path.absolute s.directory)) := by
  obtain ⟨hAccessible, hRead, hApart, -⟩ := of_code_eq_zero hDirectory hfs hSlash hOk
  exact ⟨hAccessible, hRead, hApart.mono fun p hp => (remaining_iff_selected hSafe).mpr hp⟩

end Index

/-- **When the order of the arguments does not matter.** Let the arguments of two commands stand for
the same paths, in any order, spelling and number. If nothing is in their way, both end well. A
command that ends well has come to everything and prints every class of the files that are left in
the end once, as its file defines it last. Where no argument is exposed, those are all selected
files: the commands both end well or both fail, they end well just when nothing is in their way, and
they print the same classes up to order. -/
theorem argument_order_irrelevant {args args' paths' : List Text} {threshold : Nat}
    (hDirectory : Path.isAbsolute s.directory = true) (hfs : s.files.WellNamed)
    (hLevel : threshold? s.settings.logLevel = some threshold)
    (hSlash : Path.separator ∉ s.settings.sourceExtension)
    (hArgs : request args = .ok (.index paths)) (hArgs' : request args' = .ok (.index paths'))
    (hRoots : paths.map (Path.absolute s.directory) = roots)
    (hSame : ∀ p, p ∈ roots ↔ p ∈ paths'.map (Path.absolute s.directory)) :
    (Clean s.context roots → (run s args).1.code = 0 ∧ (run s args').1.code = 0) ∧
    ((run s args).1.code = 0 →
      (∀ root ∈ roots, Accessible s.context root) ∧
      (∀ p, Selected s.context roots p → Readable s.context p) ∧
      ∃ classes, Prints s.settings classes (run s args).1.output ∧
        Lists s.context (Remaining s.context roots) classes) ∧
    ((∀ p, ¬ Exposed s.context roots p) →
      ((run s args).1.code = 0 ↔ (run s args').1.code = 0) ∧
      ((run s args).1.code = 0 ↔ Clean s.context roots) ∧
      ((run s args).1.code = 0 → ∃ classes classes',
        Prints s.settings classes (run s args).1.output ∧
        Prints s.settings classes' (run s args').1.output ∧
        Lists s.context (Selected s.context roots) classes ∧ classes.Perm classes')) := by
  have hRun : run s args = index s threshold paths := by simp only [run, hArgs, hLevel]
  have hRun' : run s args' = index s threshold paths' := by simp only [run, hArgs', hLevel]
  rw [hRun, hRun']
  subst hRoots
  have hEnds := fun hClean : Clean s.context (paths.map (Path.absolute s.directory)) =>
    @code_eq_zero_of_clean _ _ hDirectory hfs hSlash threshold hClean
  have hEnds' := fun hClean : Clean s.context (paths.map (Path.absolute s.directory)) =>
    @code_eq_zero_of_clean _ _ hDirectory hfs hSlash threshold (hClean.congr hSame)
  refine ⟨fun hClean => ⟨hEnds hClean, hEnds' hClean⟩, fun hOk => ?_, fun hSafe => ?_⟩
  · obtain ⟨hAccessible, hRead, -, hPrints⟩ := of_code_eq_zero hDirectory hfs hSlash hOk
    exact ⟨hAccessible, hRead, hPrints⟩
  · -- nothing is exposed in either order, so both list all that is selected
    have hSafe' : ∀ p, ¬ Exposed s.context (paths'.map (Path.absolute s.directory)) p :=
      fun p hp => hSafe p (hp.congr fun p => (hSame p).symm)
    have hClean : (index s threshold paths).1.code = 0 ↔
        Clean s.context (paths.map (Path.absolute s.directory)) :=
      ⟨clean_of_code_eq_zero hDirectory hfs hSlash hSafe, hEnds⟩
    have hBoth : (index s threshold paths).1.code = 0 ↔ (index s threshold paths').1.code = 0 := by
      refine ⟨fun hOk => hEnds' (hClean.mp hOk), fun hOk => hEnds ?_⟩
      exact (clean_of_code_eq_zero hDirectory hfs hSlash hSafe' hOk).congr fun p => (hSame p).symm
    refine ⟨hBoth, hClean, fun hOk => ?_⟩
    obtain ⟨-, -, -, classes, hPrints, hLists⟩ := of_code_eq_zero hDirectory hfs hSlash hOk
    obtain ⟨-, -, -, classes', hPrints', hLists'⟩ :=
      of_code_eq_zero hDirectory hfs hSlash (hBoth.mp hOk)
    -- two lists of the same classes without repetition are permutations of each other
    have hAll := hLists.congr fun p => remaining_iff_selected hSafe
    have hAll' := hLists'.congr fun p => remaining_iff_selected hSafe'
    rw [← selected_congr hSame] at hAll'
    exact ⟨classes, classes', hPrints, hPrints', hAll, hAll.perm hAll'⟩

/-- A source file that defines some classes. -/
def sourceFile (names : List String) : Entry := .file (Registry.definitions names)

/-- A directory with nothing in it but a directory that scans leave out, and a directory of its
own. -/
def overlapping : Surroundings where
  files := { root := [
    ("r", .directory [("build", .directory [("b.js", sourceFile ["B", "D", "B"])])]),
    ("s", .directory [("c.js", sourceFile ["C"])])] }
  settings := { ignoredDirs := ["build"] }

/-- The directory that scans leave out comes before the directory around it. -/
def innerFirst : List Text := ["r/build", "r", "s/c.js", "s", "z.js"]

/-- The same paths in another order and spelling. One of them stands there twice. -/
def outerFirst : List Text := ["/z.js", "./s/", "r/../s/c.js", "r", "/r/build", "s"]

/-- Both commands end well and print the class `B` of the directory that scans leave out, although
the first one scans the directory around it afterwards. -/
theorem argument_order_irrelevant_of_overlapping :
    (run overlapping innerFirst).1.code = 0 ∧ (run overlapping outerFirst).1.code = 0 ∧
    Clean overlapping.context (innerFirst.map (Path.absolute overlapping.directory)) ∧
    (∃ classes classes',
      Prints overlapping.settings classes (run overlapping innerFirst).1.output ∧
      Prints overlapping.settings classes' (run overlapping outerFirst).1.output ∧
      Lists overlapping.context
        (Selected overlapping.context (innerFirst.map (Path.absolute overlapping.directory)))
        classes ∧
      classes.Perm classes') ∧
    "B\t/r/build/b.js\t".toList <:+: (run overlapping innerFirst).1.output ∧
    "B\t/r/build/b.js\t".toList <:+: (run overlapping outerFirst).1.output := by
  have hInner : ∀ p ∈ innerFirst.map (Path.absolute overlapping.directory),
      p ∈ outerFirst.map (Path.absolute overlapping.directory) := by decide +kernel
  have hOuter : ∀ p ∈ outerFirst.map (Path.absolute overlapping.directory),
      p ∈ innerFirst.map (Path.absolute overlapping.directory) := by decide +kernel
  have hArgs : request innerFirst = .ok (.index innerFirst) := by decide
  have hArgs' : request outerFirst = .ok (.index outerFirst) := by decide
  have hLevel : threshold? overlapping.settings.logLevel = some 30 := by decide
  obtain ⟨hOk, hOutput⟩ : (run overlapping innerFirst).1.code = 0 ∧
      "B\t/r/build/b.js\t".toList <:+: (run overlapping innerFirst).1.output := by
    decide +kernel
  have hRegular : ∀ root ∈ innerFirst.map (Path.absolute overlapping.directory),
      overlapping.context.sourceExtension.isSuffixOf root = true →
        overlapping.context.files.kind root = .ok .file ∨
          overlapping.context.files.read root = .error .missing := by decide +kernel
  -- every argument that looks like a source file is regular or missing
  have hSafe : ∀ p, ¬ Exposed overlapping.context
      (innerFirst.map (Path.absolute overlapping.directory)) p := by
    rintro p ⟨hGiven, ⟨bytes, hRead⟩, root, -, b, -, hIrregular, -⟩
    rcases hRegular p hGiven hIrregular.extension with hFile | hMissing
    · exact hIrregular.kind hFile
    · exact nomatch hRead.symm.trans hMissing
  obtain ⟨-, -, hOrder⟩ := argument_order_irrelevant (by decide) (by decide) hLevel (by decide) hArgs
    hArgs' rfl fun p => ⟨hInner p, hOuter p⟩
  obtain ⟨hBoth, hClean, hLists⟩ := hOrder hSafe
  exact ⟨hOk, hBoth.mp hOk, hClean.mp hOk, hLists hOk, hOutput, by decide +kernel⟩

/-- A device that opens like a source file, and a source file that defines the same class. -/
def exposed : Surroundings where
  files := { root := [
    ("b.js", sourceFile ["X"]),
    ("s", .directory [("d.js", .device (Registry.definitions ["X"]))])] }

/-- A class whose name has a control sequence in it. -/
def controlled : Surroundings where
  files := { root := [("a.js", sourceFile ["\x1b[1mA"])] }

/-- So the order matters for a device and its directory: the class is printed if the device comes
last, and if it comes first, the class may even be defined once more. And what is printed of a class
need not be its block in the tag file. -/
theorem argument_order_matters :
    ("X\t/s/d.js\t".toList <:+: (run exposed ["s", "s/d.js"]).1.output ∧
      ¬ "X\t/s/d.js\t".toList <:+: (run exposed ["s/d.js", "s"]).1.output) ∧
    ((run exposed ["s", "s/d.js", "b.js"]).1.code = 1 ∧
      (run exposed ["s/d.js", "s", "b.js"]).1.code = 0) ∧
    ("A\t/a.js\t".toList <:+: (run controlled ["a.js"]).1.output ∧
      ¬ "\x1b[1mA\t/a.js\t".toList <:+: (run controlled ["a.js"]).1.output) := by
  decide +kernel

end ClassTags.CommandLine
