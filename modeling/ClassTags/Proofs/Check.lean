import ClassTags.Proofs.Coherence
import Mathlib.Data.List.Induction

/-!
# The outcome of a check

Checking a file has five ways out: the path is refused, the file is missing, it cannot be read or
has no program, all its classes are placed, or one of them belongs to another file. For each of them
it is said what the check answers and what the registry is then, in terms of the registry before and
of what the file defines. Whatever the way out, the entries of the other files stay as they are.

Main definitions:

* `Registry.Reached` — the registries that checks and retractions lead to;
* `Registry.appendFile` — a file with its classes, put behind all others;
* `Registry.CheckOutcome` — what a check has to answer and to leave.

Main results:

* `Holdings.gather_eq` — the table of some classes, name by name;
* `Holdings.filter_classes_ne` — the classes of the other files;
* `Registry.check_outcome` — every check has its outcome.
-/

namespace ClassTags

namespace ClassRecord

/-- The names of some classes, each of them once, in the order in which they first come. -/
def distinctNames (cs : List ClassRecord) : List Text := (cs.map name).eraseDups

/-- The last of some classes that has the given name. -/
def lastNamed? (cs : List ClassRecord) (name : Text) : Option ClassRecord :=
  cs.reverse.find? fun c => c.name == name

end ClassRecord

/-- The text that the bytes of a file stand for. -/
def contents (bytes : List UInt8) : Text := Text.unifyLineEnds (Text.decode bytes)

/-- The classes that the bytes of a file define. -/
def classesOfBytes (defineCalls : List Text) (path : Text) (bytes : List UInt8) :
    Except SourceFailure (List ClassRecord) :=
  (classesOfSource defineCalls path (Text.unifyLineEnds (Text.decode bytes))).result

namespace Registry

/-- The registries that checks and retractions lead to from an empty one. -/
inductive Reached : Registry → Prop
  | empty : Reached {}
  | check {r : Registry} (hr : Reached r) (defineCalls : List Text) (fs : FileSystem) (path : Text) :
    Reached (Registry.check defineCalls fs path r).state
  | retract {r : Registry} (hr : Reached r) (path : Text) : Reached (r.retract path)

/-- A registry that is reached by checks and retractions holds what its files have defined. -/
theorem Reached.held {r : Registry} (hr : Reached r) : Held r := by
  induction hr with
  | empty => exact Held.empty
  | check _ defineCalls fs path ih => exact Held.check defineCalls fs path _ ih
  | retract _ path ih => exact ih.retract path

/-- The registry with a file that comes last. The file owns the names of its classes in the order in
which they first come, and a name stands for the last of the classes that have it. -/
def appendFile (r : Registry) (path : Text) (cs : List ClassRecord) : Registry where
  sources := r.sources ++ [(path, ClassRecord.distinctNames cs)]
  classes := r.classes ++ (ClassRecord.distinctNames cs).filterMap fun name =>
    (ClassRecord.lastNamed? cs name).map fun c => (name, c)

/-- What the check of a file answers and leaves, for every way out. -/
structure CheckOutcome (defineCalls : List Text) (fs : FileSystem) (path : Text) (s : Registry)
    (o : Outcome Registry IndexFailure Bool) : Prop where
  /-- A path that is not absolute or not normalized is refused, and nothing changes. -/
  refused : (Path.isAbsolute path = false ∨ Path.normalize path ≠ path) →
    o.result = .error (.pathForm path) ∧ o.state = s
  missing : Path.isAbsolute path = true → Path.normalize path = path →
    fs.read path = .error .missing → o.result = .ok false ∧ o.state = s.retract path
  unreadable : Path.isAbsolute path = true → Path.normalize path = path →
    ∀ fault, fault ≠ .missing → fs.read path = .error fault →
      o.result = .error (.file fault path) ∧ o.state = s.retract path
  malformed : Path.isAbsolute path = true → Path.normalize path = path →
    ∀ bytes cause, fs.read path = .ok bytes →
      classesOfBytes defineCalls path bytes = .error cause →
      o.result = .error (.source cause) ∧ o.state = s.retract path
  /-- If no name is taken, the file comes last with all its classes. -/
  indexed : Path.isAbsolute path = true → Path.normalize path = path →
    ∀ bytes cs, fs.read path = .ok bytes → classesOfBytes defineCalls path bytes = .ok cs →
      (∀ c ∈ cs, (s.retract path).record? c.name = none) →
      o.result = .ok true ∧ o.state = (s.retract path).appendFile path cs
  /-- The first class whose name is taken is reported together with the file that has it. The
  classes that come before it are placed. -/
  clash : Path.isAbsolute path = true → Path.normalize path = path →
    ∀ bytes before c after previous, fs.read path = .ok bytes →
      classesOfBytes defineCalls path bytes = .ok (before ++ c :: after) →
      (∀ d ∈ before, (s.retract path).record? d.name = none) →
      (s.retract path).record? c.name = some previous →
      o.result = .error (.duplicate c.name previous.path path) ∧
        o.state = (s.retract path).appendFile path before
  /-- The other files keep their entries and the order of these. -/
  otherFiles : o.state.sources.remove path = s.sources.remove path
  /-- So do the classes of the other files. -/
  otherClasses : (o.state.classes.filter fun entry => entry.2.path ≠ path) =
    s.classes.filter fun entry => entry.2.path ≠ path

end Registry

namespace Holdings

-- ---------------------------------------------------------------------------
-- The table of some classes
-- ---------------------------------------------------------------------------

/-- Classes are gathered one by one, the last of a name in the place of the others. -/
theorem gather_snoc (t : Table ClassRecord) (cs : List ClassRecord) (c : ClassRecord) :
    gather t (cs ++ [c]) = (gather t cs).assign c.name c := by
  unfold gather
  rw [List.foldl_append]
  rfl

/-- The names that are gathered are the distinct ones, in the order in which they first come. -/
theorem names_gather (cs : List ClassRecord) :
    Table.names (gather [] cs) = ClassRecord.distinctNames cs := by
  unfold ClassRecord.distinctNames
  -- a class at the end adds its name if the name is new
  induction cs using List.reverseRecOn with
  | nil => rfl
  | append_singleton cs c ih =>
    have hMem : c.name ∈ Table.names (gather [] cs) ↔ c.name ∈ cs.map ClassRecord.name := by
      rw [ih, List.mem_eraseDups]
    rw [gather_snoc, Table.names_assign, List.map_append, List.map_singleton,
      List.eraseDups_append]
    by_cases hKnown : c.name ∈ cs.map ClassRecord.name
    · have hNone : [c.name].removeAll (cs.map ClassRecord.name) = [] := by
        rw [List.cons_removeAll, List.nil_removeAll]
        simpa using hKnown
      rw [if_pos (hMem.mpr hKnown), hNone, ih, List.eraseDups_nil, List.append_nil]
    · have hOne : [c.name].removeAll (cs.map ClassRecord.name) = [c.name] := by
        rw [List.cons_removeAll, List.nil_removeAll]
        simpa using hKnown
      rw [if_neg fun h => hKnown (hMem.mp h), hOne, ih]
      rfl

/-- Under a name the last class of that name is gathered. -/
theorem lookup_gather (cs : List ClassRecord) (name : Text) :
    (gather [] cs).lookup name = ClassRecord.lastNamed? cs name := by
  unfold ClassRecord.lastNamed?
  induction cs using List.reverseRecOn with
  | nil => rfl
  | append_singleton cs c ih =>
    rw [gather_snoc, List.reverse_append, List.reverse_singleton, List.singleton_append,
      List.find?_cons]
    by_cases hName : c.name = name
    · subst hName
      rw [Table.lookup_assign_self]
      simp
    · have hb : (c.name == name) = false := beq_eq_false_iff_ne.mpr hName
      rw [Table.lookup_assign_of_ne _ _ fun e => hName e.symm, ih, hb]

/-- No name is gathered twice. -/
theorem nodup_names_gather (cs : List ClassRecord) : (Table.names (gather [] cs)).Nodup := by
  induction cs using List.reverseRecOn with
  | nil => exact List.nodup_nil
  | append_singleton cs c ih =>
    rw [gather_snoc]
    exact Table.nodup_names_assign ih

/-- **The table of some classes, name by name.** -/
theorem gather_eq (cs : List ClassRecord) :
    gather [] cs = (ClassRecord.distinctNames cs).filterMap fun name =>
      (ClassRecord.lastNamed? cs name).map fun c => (name, c) := by
  have hLookup : ∀ t : Table ClassRecord, (Table.names t).Nodup →
      (Table.names t).filterMap (fun name => (t.lookup name).map fun c => (name, c)) = t := by
    intro t hDistinct
    rw [Table.names, List.filterMap_map]
    refine (List.filterMap_congr ?_).trans List.filterMap_some
    rintro ⟨name, c⟩ hEntry
    simp [(Table.lookup_eq_some_iff_mem hDistinct).mpr hEntry]
  conv_lhs => rw [← hLookup (gather [] cs) (nodup_names_gather cs)]
  rw [names_gather]
  simp only [lookup_gather]

/-- A registry with one more file is the registry with the file appended. -/
theorem registry_snoc_gather (rest : Holdings) (path : Text) (cs : List ClassRecord) :
    registry (rest ++ [(path, gather [] cs)]) = (registry rest).appendFile path cs := by
  have hSources : (registry (rest ++ [(path, gather [] cs)])).sources =
      (registry rest).sources ++ [(path, ClassRecord.distinctNames cs)] := by
    rw [sources_registry_append, ← names_gather]
    rfl
  have hClasses : (registry (rest ++ [(path, gather [] cs)])).classes =
      (registry rest).classes ++ gather [] cs := by
    show classes _ = classes _ ++ _
    rw [classes_append, classes_singleton]
  unfold Registry.appendFile
  rw [← gather_eq, ← hSources, ← hClasses]

-- ---------------------------------------------------------------------------
-- The other files
-- ---------------------------------------------------------------------------

/-- The classes of the other files are those that do not name the file. -/
theorem filter_classes_ne {h : Holdings} (hs : Sound h) (path : Text) :
    (h.classes.filter fun entry => entry.2.path ≠ path) = classes (h.remove path) := by
  refine (classes_filter (fun q => decide (q ≠ path)) ?_).symm
  rintro ⟨q, t⟩ hFile entry hEntry
  simp only [(hs.placed q t hFile entry.1 entry.2 hEntry).2]

/-- Holdings that agree on the other files have the same entries for them. -/
theorem others_eq {h h' : Holdings} (hs : Sound h) (hs' : Sound h') {path : Text}
    (hOthers : h'.remove path = h.remove path) :
    (registry h').sources.remove path = (registry h).sources.remove path ∧
      ((registry h').classes.filter fun entry => entry.2.path ≠ path) =
        (registry h).classes.filter fun entry => entry.2.path ≠ path := by
  constructor
  · rw [sources_registry_remove, sources_registry_remove, hOthers]
  · show (classes h').filter _ = (classes h).filter _
    rw [filter_classes_ne hs', filter_classes_ne hs, hOthers]

/-- A check leaves the other files alone. -/
theorem CheckEnd.remove_eq {path : Text} {h h' : Holdings}
    {found : Except IndexFailure (Option (List ClassRecord))} {result : Except IndexFailure Bool}
    (hEnd : CheckEnd path (h.remove path) found h' result) : h'.remove path = h.remove path := by
  have hTwice : Table.remove path (h.remove path) = h.remove path :=
    Table.remove_of_not_mem (Table.not_mem_names_remove path h)
  have hLast : ∀ t : Table ClassRecord, Table.remove path (h.remove path ++ [(path, t)]) =
      h.remove path := by
    intro t
    rw [Table.remove_append, hTwice]
    simp [Table.remove]
  cases hEnd with
  | unread => exact hTwice
  | missing => exact hTwice
  | indexed => exact hLast _
  | clash => exact hLast _

/-- The file that holds a class is the one that its record names. -/
theorem Sound.path_of_record {h : Holdings} (hs : Sound h) {holder name : Text}
    {u : Table ClassRecord} {c : ClassRecord} (hHolder : (holder, u) ∈ h)
    (hName : name ∈ Table.names u) (hRecord : (registry h).record? name = some c) :
    c.path = holder := by
  rw [record?_registry, Table.lookup_eq_some_iff_mem hs.distinctClasses] at hRecord
  obtain ⟨⟨q, t⟩, hFile, hEntry⟩ := List.mem_flatMap.mp hRecord
  rw [(hs.placed q t hFile name c hEntry).2]
  exact hs.path_unique hFile hHolder (Table.mem_names.mpr ⟨c, hEntry⟩) hName

/-- A name is free if no file has a class of that name. -/
theorem record?_eq_none {h : Holdings} {name : Text} :
    (registry h).record? name = none ↔ name ∉ Table.names (classes h) :=
  Table.lookup_eq_none_iff_not_mem

end Holdings

namespace Registry

-- ---------------------------------------------------------------------------
-- The ways out
-- ---------------------------------------------------------------------------

/-- The classes of a file are those of the bytes that are read. -/
theorem fileClasses_of_bytes {defineCalls : List Text} {fs : FileSystem} {path : Text}
    {bytes : List UInt8} (hRead : fs.read path = .ok bytes) :
    fileClasses defineCalls fs path =
      match classesOfBytes defineCalls path bytes with
      | .error cause => .error (.source cause)
      | .ok cs => .ok (some cs) := by
  unfold fileClasses
  rw [hRead]
  rfl

section Accepted

variable {defineCalls : List Text} {fs : FileSystem} {path : Text} {h : Holdings}
  (hs : Holdings.Sound h) (hPath : accepts path = true)

include hs hPath

omit hs in
/-- A file that gives no classes is dropped. -/
theorem check_of_no_classes {result : Except IndexFailure (Option (List ClassRecord))}
    (hFile : fileClasses defineCalls fs path = result) (hNone : ∀ cs, result ≠ .ok (some cs))
    (r : Registry) :
    (check defineCalls fs path r).result = result.map Option.isSome ∧
      (check defineCalls fs path r).state = r.retract path := by
  obtain ⟨notices, hCheck⟩ := Holdings.check_apply defineCalls fs hPath r
  rw [hCheck, hFile]
  cases result with
  | error e => exact ⟨rfl, rfl⟩
  | ok found =>
    cases found with
    | none => exact ⟨rfl, rfl⟩
    | some cs => exact absurd rfl (hNone cs)

/-- **A file whose classes are free is indexed**: what it had before is retracted, and its classes
are appended. -/
theorem check_of_free {cs : List ClassRecord}
    (hFile : fileClasses defineCalls fs path = .ok (some cs))
    (hFree : ∀ c ∈ cs, ((Holdings.registry h).retract path).record? c.name = none) :
    (check defineCalls fs path (Holdings.registry h)).result = .ok true ∧
      (check defineCalls fs path (Holdings.registry h)).state =
        ((Holdings.registry h).retract path).appendFile path cs := by
  obtain ⟨notices, hCheck⟩ := Holdings.check_apply defineCalls fs hPath (Holdings.registry h)
  have hNew : path ∉ Table.names (h.remove path) := Table.not_mem_names_remove path h
  rw [Holdings.registry_retract hs] at hFree hCheck ⊢
  have hClaims := Holdings.forEach_claim_of_free ((hs.remove path).track hNew)
    (fun c hc => fileClasses_path hFile hc)
    (fun c hc => Holdings.record?_eq_none.mp (hFree c hc))
  rw [hCheck, hFile]
  simp only [Holdings.registry_track hNew, hClaims]
  exact ⟨rfl, Holdings.registry_snoc_gather _ _ _⟩

/-- **A class of another file stops the check there**, with the classes before it appended. -/
theorem check_of_taken {before after : List ClassRecord} {c previous : ClassRecord}
    (hFile : fileClasses defineCalls fs path = .ok (some (before ++ c :: after)))
    (hFree : ∀ d ∈ before, ((Holdings.registry h).retract path).record? d.name = none)
    (hTaken : ((Holdings.registry h).retract path).record? c.name = some previous) :
    (check defineCalls fs path (Holdings.registry h)).result =
        .error (.duplicate c.name previous.path path) ∧
      (check defineCalls fs path (Holdings.registry h)).state =
        ((Holdings.registry h).retract path).appendFile path before := by
  obtain ⟨notices, hCheck⟩ := Holdings.check_apply defineCalls fs hPath (Holdings.registry h)
  have hNew : path ∉ Table.names (h.remove path) := Table.not_mem_names_remove path h
  rw [Holdings.registry_retract hs] at hFree hTaken hCheck ⊢
  have hName : c.name ∈ Table.names (Holdings.classes (h.remove path)) := by
    by_contra hNot
    rw [Holdings.record?_eq_none.mpr hNot] at hTaken
    exact nomatch hTaken
  obtain ⟨holder, u, hHolder, hOwn, hClaims⟩ := Holdings.forEach_claim_of_taken after
    ((hs.remove path).track hNew)
    (fun d hd => fileClasses_path hFile (List.mem_append_left _ hd))
    (fun d hd => Holdings.record?_eq_none.mp (hFree d hd)) hName
  rw [(hs.remove path).path_of_record hHolder hOwn hTaken, hCheck, hFile]
  simp only [Holdings.registry_track hNew, hClaims]
  exact ⟨rfl, Holdings.registry_snoc_gather _ _ _⟩

end Accepted

/-- A check leaves the entries of all other files alone. -/
theorem check_others {h : Holdings} (hs : h.Sound) (defineCalls : List Text) (fs : FileSystem)
    (path : Text) :
    (check defineCalls fs path (Holdings.registry h)).state.sources.remove path =
        (Holdings.registry h).sources.remove path ∧
      ((check defineCalls fs path (Holdings.registry h)).state.classes.filter
        fun entry => entry.2.path ≠ path) =
          (Holdings.registry h).classes.filter fun entry => entry.2.path ≠ path := by
  cases hPath : accepts path with
  | false =>
    rw [Holdings.check_of_not_accepts hPath]
    exact ⟨rfl, rfl⟩
  | true =>
    obtain ⟨h', hs', hState, hEnd⟩ := @Holdings.check_cases defineCalls fs path h hs hPath
    rw [hState]
    exact Holdings.others_eq hs hs' hEnd.remove_eq

/-- **Every check has its outcome.** In every registry that has been reached, for every path and
every file system, the check of a file answers and leaves what its way out says, and leaves the
entries of all other files alone. -/
theorem check_outcome {s : Registry} (hs : Reached s) (defineCalls : List Text) (fs : FileSystem)
    (path : Text) :
    CheckOutcome defineCalls fs path s (check defineCalls fs path s) := by
  obtain ⟨h, hSound, rfl⟩ := hs.held
  have hOthers := check_others hSound defineCalls fs path
  refine ⟨?_, ?_, ?_, ?_, ?_, ?_, hOthers.1, hOthers.2⟩
  · intro hForm
    have hPath : accepts path = false := by
      rw [Bool.eq_false_iff]
      intro hAccepted
      obtain ⟨hAbsolute, hNormal⟩ := accepts_iff.mp hAccepted
      rcases hForm with hRelative | hOther
      · exact Bool.false_ne_true (hRelative.symm.trans hAbsolute)
      · exact hOther hNormal
    rw [Holdings.check_of_not_accepts hPath]
    exact ⟨rfl, rfl⟩
  · intro hAbsolute hNormal hRead
    have hFile : fileClasses defineCalls fs path = .ok none := by
      unfold fileClasses
      rw [hRead]
    exact check_of_no_classes (accepts_iff.mpr ⟨hAbsolute, hNormal⟩) hFile nofun _
  · intro hAbsolute hNormal fault hFault hRead
    have hFile : fileClasses defineCalls fs path = .error (.file fault path) := by
      unfold fileClasses
      rw [hRead]
      cases fault with
      | missing => exact absurd rfl hFault
      | _ => rfl
    exact check_of_no_classes (accepts_iff.mpr ⟨hAbsolute, hNormal⟩) hFile nofun _
  · intro hAbsolute hNormal bytes cause hRead hCause
    have hFile : fileClasses defineCalls fs path = .error (.source cause) := by
      rw [fileClasses_of_bytes hRead, hCause]
    exact check_of_no_classes (accepts_iff.mpr ⟨hAbsolute, hNormal⟩) hFile nofun _
  · intro hAbsolute hNormal bytes cs hRead hClasses hFree
    have hFile : fileClasses defineCalls fs path = .ok (some cs) := by
      rw [fileClasses_of_bytes hRead, hClasses]
    exact check_of_free hSound (accepts_iff.mpr ⟨hAbsolute, hNormal⟩) hFile hFree
  · intro hAbsolute hNormal bytes before c after previous hRead hClasses hFree hTaken
    have hFile : fileClasses defineCalls fs path = .ok (some (before ++ c :: after)) := by
      rw [fileClasses_of_bytes hRead, hClasses]
    exact check_of_taken hSound (accepts_iff.mpr ⟨hAbsolute, hNormal⟩) hFile hFree hTaken

/-- The bytes of a source text that defines some classes. -/
def definitions (names : List String) : List UInt8 :=
  names.flatMap fun name => ("qx.Class.define(\"" ++ name ++ "\", \x7b\x7d);").toUTF8.toList

/-- Two source files: `a.js` defines a class `A`, and so does `b.js` between two classes of its
own. -/
def rivals : FileSystem where
  root := [("a.js", .file (definitions ["A"])), ("b.js", .file (definitions ["B", "A", "C"]))]

/-- When `a.js` has been checked, the check of `b.js` places `B`, fails at `A` and does not come to
`C`. -/
theorem check_outcome_of_rivals :
    (check defaultDefineCalls rivals "/b.js"
      (check defaultDefineCalls rivals "/a.js" {}).state).result =
        .error (.duplicate "A" "/a.js" "/b.js") ∧
    ∃ b : ClassRecord, b.name = "B" ∧
      (check defaultDefineCalls rivals "/b.js"
        (check defaultDefineCalls rivals "/a.js" {}).state).state =
          ((check defaultDefineCalls rivals "/a.js" {}).state.retract "/b.js").appendFile "/b.js"
            [b] := by
  have hReached : Reached (check defaultDefineCalls rivals "/a.js" {}).state :=
    .check .empty defaultDefineCalls rivals "/a.js"
  obtain ⟨cs, hClasses, hNames⟩ : ∃ cs,
      classesOfBytes defaultDefineCalls "/b.js" (definitions ["B", "A", "C"]) = .ok cs ∧
        cs.map ClassRecord.name = ["B", "A", "C"].map String.toList := by
    have hNames : ((classesOfBytes defaultDefineCalls "/b.js"
        (definitions ["B", "A", "C"])).toOption.map fun cs => cs.map ClassRecord.name) =
          some (["B", "A", "C"].map String.toList) := by
      decide +kernel
    cases hClasses : classesOfBytes defaultDefineCalls "/b.js" (definitions ["B", "A", "C"]) with
    | error cause =>
      rw [hClasses] at hNames
      exact nomatch hNames
    | ok cs =>
      rw [hClasses] at hNames
      exact ⟨cs, rfl, Option.some.inj hNames⟩
  -- only the names of the classes are computed; their records stay opaque
  obtain ⟨b, cs, rfl, hb, hRest⟩ := List.map_eq_cons_iff.mp hNames
  obtain ⟨a, cs, rfl, ha, -⟩ := List.map_eq_cons_iff.mp hRest
  have hFree : ((check defaultDefineCalls rivals "/a.js" {}).state.retract "/b.js").record? "B" =
      none := by
    rw [← Option.isNone_iff_eq_none]
    decide +kernel
  obtain ⟨previous, hTaken, hOwner⟩ : ∃ previous,
      ((check defaultDefineCalls rivals "/a.js" {}).state.retract "/b.js").record? "A" =
        some previous ∧ previous.path = "/a.js" := by
    rw [← Option.map_eq_some_iff]
    decide +kernel
  obtain ⟨hResult, hState⟩ := (check_outcome hReached defaultDefineCalls rivals "/b.js").clash
    (by decide) (by decide) (definitions ["B", "A", "C"]) [b] a cs previous (by decide +kernel)
    hClasses (by simpa [hb] using hFree) (by rw [ha]; exact hTaken)
  rw [ha, hOwner] at hResult
  exact ⟨hResult, b, hb, hState⟩

end Registry

/-- All that an indexer does to its registry is checks and retractions. -/
theorem Indexer.reached_after (dirs : List Text) (calls : List (IndexContext × Call)) :
    (after { dirs } calls).registry.Reached :=
  after_keeps ⟨fun _ hr path => hr.retract path, fun defineCalls fs path _ hr =>
    hr.check defineCalls fs path⟩ .empty calls

end ClassTags
