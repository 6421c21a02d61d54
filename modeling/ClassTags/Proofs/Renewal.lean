import ClassTags.Proofs.Holdings
import ClassTags.Proofs.Route

/-!
# Renewal of an index

In the middle of a scan the registry is part old and part new. What the scan has checked stands at
the end with the classes that the files define now; before it stands what is left of the old
holdings. `Renewed` says this, and one lemma for each operation says how the line between old and
new moves: checking a source file moves it into the new part, and forgetting a directory or dropping
a file takes something out of the old one.

A scan may check a file of the new part once more, if it lies where a directory was. The file then
moves to the end of the new part. In a **calm** scan this does not happen, and the new part is in
the order of the scan. An old file that is checked once more because a directory above it is gone
leaves the old part. If it can still be read, it is new for as long as the directory is not closed.

Main results:

* `Renewed.checks` — source files that are there become new;
* `Renewed.removes` — directories that are gone take the old files below them along;
* `Renewed.retracts` — files that are dropped leave the part that they are in;
* `Renewed.close` — so closing a directory takes away what was old in it.
-/

namespace ClassTags.Indexer

/-- The classes that a file defines now. -/
def defined (ctx : IndexContext) (path : Text) : Table ClassRecord :=
  match Registry.fileClasses ctx.defineCalls ctx.files path with
  | .ok (some cs) => Holdings.gather [] cs
  | _ => []

/-- The entry of a file among the holdings, if it were checked now. -/
def entry (ctx : IndexContext) (path : Text) : Text × Table ClassRecord := (path, defined ctx path)

/-- Whether a file is there and its text can be read. -/
def Readable (ctx : IndexContext) (path : Text) : Prop :=
  ∃ cs, Registry.fileClasses ctx.defineCalls ctx.files path = .ok (some cs)

/-- Whether a file can be opened. It need not be a regular file. -/
def Opens (ctx : IndexContext) (path : Text) : Prop := ∃ bytes, ctx.files.read path = .ok bytes

/-- Whether no class is defined by two of some files. -/
def Apart (ctx : IndexContext) (files : List Text) : Prop :=
  ∀ p ∈ files, ∀ q ∈ files, ∀ name, name ∈ Table.names (defined ctx p) →
    name ∈ Table.names (defined ctx q) → p = q

/-- Whether a file defines no class that another of the old files has. -/
def ApartFrom (ctx : IndexContext) (old : Holdings) (p : Text) : Prop :=
  ∀ file ∈ old, file.1 ≠ p → ∀ name ∈ Table.names file.2, name ∉ Table.names (defined ctx p)

/-- Holdings that are part old and part new: `rest` is what is left of the `old` ones, namely the
files that meet `keep`, and `done` are the `files` that have been checked. -/
structure Layout (ctx : IndexContext) (old : Holdings) (keep : Text → Prop) (files : List Text)
    (calm : Prop) (rest : Holdings) (done : List Text) : Prop where
  sound : Holdings.Sound (rest ++ done.map (entry ctx))
  rest_sublist : rest.Sublist old
  mem_rest : ∀ file ∈ old, file ∈ rest ↔ keep file.1
  done_perm : done.Perm files
  done_eq : calm → done = files
  readable : ∀ p ∈ files, Readable ctx p

/-- A registry that is part old and part new. -/
def Renewed (ctx : IndexContext) (old : Holdings) (keep : Text → Prop) (files : List Text)
    (calm : Prop) (r : Registry) : Prop :=
  ∃ rest done, Layout ctx old keep files calm rest done ∧
    r = Holdings.registry (rest ++ done.map (entry ctx))

variable {ctx : IndexContext} {old : Holdings} {keep keep' : Text → Prop} {files : List Text}
  {calm : Prop}

-- ---------------------------------------------------------------------------
-- The two parts
-- ---------------------------------------------------------------------------

theorem names_map_entry (done : List Text) : Table.names (done.map (entry ctx)) = done := by
  rw [Table.names, List.map_map]
  exact List.map_id done

/-- A file that can be read enters with its classes. -/
theorem defined_of_readable {path : Text} {cs : List ClassRecord}
    (h : Registry.fileClasses ctx.defineCalls ctx.files path = .ok (some cs)) :
    entry ctx path = (path, Holdings.gather [] cs) := by
  unfold entry defined
  rw [h]

/-- The entry of a file depends on nothing but its classes. -/
theorem entry_congr {ctx' : IndexContext} {path : Text}
    (h : Registry.fileClasses ctx'.defineCalls ctx'.files path =
      Registry.fileClasses ctx.defineCalls ctx.files path) : entry ctx' path = entry ctx path := by
  unfold entry defined
  rw [h]

/-- A file whose classes can be read can be opened. -/
theorem Readable.opens {path : Text} (h : Readable ctx path) : Opens ctx path := by
  obtain ⟨cs, hcs⟩ := h
  unfold Registry.fileClasses at hcs
  split at hcs
  · exact nomatch hcs
  · exact nomatch hcs
  · rename_i bytes hRead
    exact ⟨bytes, hRead⟩

/-- A file that can be read is not missing. -/
theorem Readable.read_ne_missing {path : Text} (h : Readable ctx path) :
    ctx.files.read path ≠ .error .missing := by
  obtain ⟨bytes, hRead⟩ := h.opens
  rw [hRead]
  exact nofun

/-- A file is taken for missing only if it is. -/
theorem fileClasses_ne_none {path : Text} (hThere : ctx.files.read path ≠ .error .missing) :
    Registry.fileClasses ctx.defineCalls ctx.files path ≠ .ok none := by
  intro h
  unfold Registry.fileClasses at h
  split at h
  · rename_i hMissing
    exact hThere hMissing
  · exact nomatch h
  · split at h <;> exact nomatch h

namespace Layout

variable {rest : Holdings} {done : List Text}

theorem keep_of_mem (hl : Layout ctx old keep files calm rest done) {p : Text}
    (hRest : p ∈ Table.names rest) : keep p := by
  obtain ⟨t, hFile⟩ := Table.mem_names.mp hRest
  exact (hl.mem_rest _ (hl.rest_sublist.subset hFile)).mp hFile

/-- A file that has not been checked was tracked at the start. -/
theorem mem_names_old (hl : Layout ctx old keep files calm rest done) {p : Text}
    (hRest : p ∈ Table.names rest) : p ∈ Table.names old :=
  (hl.rest_sublist.map _).subset hRest

/-- The old part without a file. -/
theorem mem_rest_remove (hl : Layout ctx old keep files calm rest done) (p : Text) :
    ∀ file ∈ old, file ∈ rest.remove p ↔ keep file.1 ∧ file.1 ≠ p := by
  intro file hFile
  rw [Table.remove, List.mem_filter, hl.mem_rest file hFile]
  simp

theorem rest_remove_sublist (hl : Layout ctx old keep files calm rest done) (p : Text) :
    (rest.remove p).Sublist old :=
  List.filter_sublist.trans hl.rest_sublist

theorem nodup_done (hl : Layout ctx old keep files calm rest done) : done.Nodup := by
  have hDistinct := hl.sound.distinctPaths
  rw [Table.names_append, names_map_entry, List.nodup_append] at hDistinct
  exact hDistinct.2.1

/-- Taking a file out of holdings that are part old and part new. -/
theorem remove_append (hl : Layout ctx old keep files calm rest done) (p : Text) :
    Table.remove p (rest ++ done.map (entry ctx)) =
      rest.remove p ++ (done.erase p).map (entry ctx) := by
  have hDone : Table.remove p (done.map (entry ctx)) = (done.erase p).map (entry ctx) := by
    rw [hl.nodup_done.erase_eq_filter, Table.remove, List.filter_map]
    congr 1
    apply List.filter_congr
    intro q _
    by_cases hq : q = p <;> simp [entry, hq]
  rw [Table.remove_append, hDone]

end Layout

namespace Renewed

variable {r : Registry}

/-- Before a scan, all is old. -/
theorem start (ctx : IndexContext) (hs : Holdings.Sound old) (calm : Prop) :
    Renewed ctx old (fun _ => True) [] calm (Holdings.registry old) := by
  refine ⟨old, [], ?_, by simp⟩
  exact ⟨by simpa using hs, List.Sublist.refl old, by simp, List.Perm.refl _, fun _ => rfl, nofun⟩

/-- What is to be kept counts for the files of the start only. -/
theorem congr (hr : Renewed ctx old keep files calm r)
    (h : ∀ file ∈ old, keep file.1 ↔ keep' file.1) : Renewed ctx old keep' files calm r := by
  obtain ⟨rest, done, hl, rfl⟩ := hr
  refine ⟨rest, done, { hl with mem_rest := ?_ }, rfl⟩
  intro file hFile
  rw [hl.mem_rest file hFile, h file hFile]

/-- It is always allowed that a check has failed. -/
theorem uncalm (hr : Renewed ctx old keep files calm r) : Renewed ctx old keep files False r := by
  obtain ⟨rest, done, hl, rfl⟩ := hr
  exact ⟨rest, done, { hl with done_eq := False.elim }, rfl⟩

/-- The tracked files are those to keep and those that have been checked. -/
theorem mem_paths (hr : Renewed ctx old keep files calm r) {p : Text} :
    p ∈ r.paths ↔ (p ∈ Table.names old ∧ keep p) ∨ p ∈ files := by
  obtain ⟨rest, done, hl, rfl⟩ := hr
  rw [Holdings.paths_registry, Table.names_append, names_map_entry, List.mem_append,
    hl.done_perm.mem_iff]
  refine or_congr_left ?_
  constructor
  · exact fun hRest => ⟨hl.mem_names_old hRest, hl.keep_of_mem hRest⟩
  · rintro ⟨hOld, hKeep⟩
    obtain ⟨t, hFile⟩ := Table.mem_names.mp hOld
    exact Table.mem_names.mpr ⟨t, (hl.mem_rest _ hFile).mpr hKeep⟩

theorem nodup_paths (hr : Renewed ctx old keep files calm r) : r.paths.Nodup := by
  obtain ⟨rest, done, hl, rfl⟩ := hr
  rw [Holdings.paths_registry]
  exact hl.sound.distinctPaths

/-- Files that have been checked define different classes. -/
theorem apart (hr : Renewed ctx old keep files calm r) : Apart ctx files := by
  obtain ⟨rest, done, hl, -⟩ := hr
  have hEntry : ∀ p ∈ files, entry ctx p ∈ rest ++ done.map (entry ctx) := fun p hp =>
    List.mem_append_right _ (List.mem_map_of_mem (hl.done_perm.mem_iff.mpr hp))
  intro p hp q hq name hpName hqName
  exact hl.sound.path_unique (hEntry p hp) (hEntry q hq) hpName hqName

theorem readable (hr : Renewed ctx old keep files calm r) : ∀ p ∈ files, Readable ctx p := by
  obtain ⟨rest, done, hl, -⟩ := hr
  exact hl.readable

/-- A registry with nothing old in it. -/
theorem of_forall_not_keep (hr : Renewed ctx old keep files calm r)
    (hOld : ∀ p ∈ Table.names old, ¬ keep p) :
    Renewed ctx [] (fun _ => True) files calm r := by
  obtain ⟨rest, done, hl, rfl⟩ := hr
  have hRest : rest = [] := by
    rw [List.eq_nil_iff_forall_not_mem]
    intro file hFile
    have hName := Table.mem_names_of_mem hFile
    exact hOld file.1 (hl.mem_names_old hName) (hl.keep_of_mem hName)
  subst hRest
  exact ⟨[], done, { hl with rest_sublist := List.Sublist.refl [], mem_rest := nofun }, rfl⟩

/-- Two registries with nothing old in them and the same files have the same entries. -/
theorem perm {keep' : Text → Prop} {calm' : Prop} {r' : Registry}
    (hr : Renewed ctx [] keep files calm r) (hr' : Renewed ctx [] keep' files calm' r') :
    r.sources.Perm r'.sources ∧ r.classes.Perm r'.classes ∧ (calm → calm' → r = r') := by
  obtain ⟨rest, done, hl, rfl⟩ := hr
  obtain ⟨rest', done', hl', rfl⟩ := hr'
  obtain rfl : rest = [] := List.sublist_nil.mp hl.rest_sublist
  obtain rfl : rest' = [] := List.sublist_nil.mp hl'.rest_sublist
  have hPerm : (done.map (entry ctx)).Perm (done'.map (entry ctx)) :=
    (hl.done_perm.trans hl'.done_perm.symm).map _
  obtain ⟨hSources, hClasses⟩ := Holdings.registry_perm hPerm
  refine ⟨hSources, hClasses, fun hCalm hCalm' => ?_⟩
  rw [hl.done_eq hCalm, hl'.done_eq hCalm']

-- ---------------------------------------------------------------------------
-- Operations of the registry
-- ---------------------------------------------------------------------------

/-- Dropping a file takes it out of the part that it is in. -/
theorem retract (hr : Renewed ctx old keep files calm r) (p : Text) :
    Renewed ctx old (fun q => keep q ∧ q ≠ p) (files.filter fun q => decide (q ≠ p)) calm
      (r.retract p) := by
  obtain ⟨rest, done, hl, rfl⟩ := hr
  have hDone : done.erase p = done.filter fun q => decide (q ≠ p) := by
    rw [hl.nodup_done.erase_eq_filter]
    exact List.filter_congr fun q _ => by simp [bne, beq_eq_decide]
  have hRemove := hl.remove_append p
  rw [hDone] at hRemove
  refine ⟨rest.remove p, done.filter fun q => decide (q ≠ p), ⟨?_, hl.rest_remove_sublist p,
    hl.mem_rest_remove p, hl.done_perm.filter _, ?_, ?_⟩, ?_⟩
  · rw [← hRemove]
    exact hl.sound.remove p
  · intro hCalm
    rw [hl.done_eq hCalm]
  · exact fun q hq => hl.readable q (List.mem_of_mem_filter hq)
  · rw [Holdings.registry_retract hl.sound, hRemove]

/-- A file that is not missing and can be checked becomes new. -/
theorem check (hr : Renewed ctx old keep files calm r) {p : Text}
    (hPath : Registry.accepts p = true) (hNew : p ∉ files)
    (hThere : ctx.files.read p ≠ .error .missing) {v : Bool}
    (hOk : (Registry.check ctx.defineCalls ctx.files p r).result = .ok v) :
    Renewed ctx old (fun q => keep q ∧ q ≠ p) (files ++ [p]) calm
      (Registry.check ctx.defineCalls ctx.files p r).state := by
  obtain ⟨rest, done, hl, rfl⟩ := hr
  obtain ⟨h', hs', hState, hEnd⟩ := Holdings.check_cases hl.sound hPath
  have hDone : done.erase p = done :=
    List.erase_of_not_mem fun hMem => hNew (hl.done_perm.mem_iff.mp hMem)
  rw [hl.remove_append p, hDone, hOk] at hEnd
  rw [hState]
  cases hFile : Registry.fileClasses ctx.defineCalls ctx.files p with
  | error e =>
    rw [hFile] at hEnd
    exact nomatch hEnd
  | ok found =>
    rw [hFile] at hEnd
    cases hEnd with
    | missing => exact absurd hFile (fileClasses_ne_none hThere)
    | indexed cs hFree =>
      -- the file leaves the old part, if it was there, and comes last in the new one
      have hEntry := defined_of_readable hFile
      have hh' : (rest.remove p ++ done.map (entry ctx)) ++ [(p, Holdings.gather [] cs)] =
          rest.remove p ++ (done ++ [p]).map (entry ctx) := by
        rw [List.map_append, List.map_singleton, hEntry, List.append_assoc]
      rw [hh'] at hs' ⊢
      refine ⟨rest.remove p, done ++ [p], ⟨hs', hl.rest_remove_sublist p, hl.mem_rest_remove p,
        hl.done_perm.append_right [p], ?_, ?_⟩, rfl⟩
      · intro hCalm
        rw [hl.done_eq hCalm]
      · intro q hq
        rcases List.mem_append.mp hq with hq | hq
        · exact hl.readable q hq
        · rw [List.mem_singleton.mp hq]
          exact ⟨cs, hFile⟩

/-- A file that is missing and can be checked goes. -/
theorem check_missing (hr : Renewed ctx old keep files calm r) {p : Text}
    (hPath : Registry.accepts p = true) (hNew : p ∉ files)
    (hMissing : ctx.files.read p = .error .missing) :
    Renewed ctx old (fun q => keep q ∧ q ≠ p) files calm
      (Registry.check ctx.defineCalls ctx.files p r).state := by
  obtain ⟨notices, hCheck⟩ := Holdings.check_apply ctx.defineCalls ctx.files hPath r
  have hFile : Registry.fileClasses ctx.defineCalls ctx.files p = .ok none := by
    unfold Registry.fileClasses
    rw [hMissing]
  have hFiles : (files.filter fun q => decide (q ≠ p)) = files := by
    rw [List.filter_eq_self]
    intro q hq
    rw [decide_eq_true_eq]
    rintro rfl
    exact hNew hq
  have hRetract := hr.retract p
  rw [hFiles] at hRetract
  rw [hFile] at hCheck
  rw [hCheck]
  exact hRetract

/-- A file that is new already moves to the end when it is checked again. -/
theorem check_moves (hr : Renewed ctx old keep files calm r) {p : Text}
    (hPath : Registry.accepts p = true) (hp : p ∈ files) (hCalm : ¬ calm) {v : Bool}
    (hOk : (Registry.check ctx.defineCalls ctx.files p r).result = .ok v) :
    Renewed ctx old (fun q => keep q ∧ q ≠ p) files calm
      (Registry.check ctx.defineCalls ctx.files p r).state := by
  obtain ⟨rest, done, hl, rfl⟩ := hr
  obtain ⟨h', hs', hState, hEnd⟩ := Holdings.check_cases hl.sound hPath
  have hpDone : p ∈ done := hl.done_perm.mem_iff.mpr hp
  obtain ⟨cs, hFile⟩ := hl.readable p hp
  rw [hl.remove_append p, hOk, hFile] at hEnd
  rw [hState]
  have hEntry := defined_of_readable hFile
  cases hEnd with
  | indexed _ hFree =>
    have hh' : (rest.remove p ++ (done.erase p).map (entry ctx)) ++
        [(p, Holdings.gather [] cs)] =
          rest.remove p ++ (done.erase p ++ [p]).map (entry ctx) := by
      rw [List.map_append, List.map_singleton, hEntry, List.append_assoc]
    rw [hh'] at hs' ⊢
    refine ⟨rest.remove p, done.erase p ++ [p], ⟨hs', hl.rest_remove_sublist p,
      hl.mem_rest_remove p, ?_, ?_, hl.readable⟩, rfl⟩
    · have hMove : (done.erase p ++ [p]).Perm done :=
        List.perm_append_comm.trans (List.perm_cons_erase hpDone).symm
      exact hMove.trans hl.done_perm
    · exact fun h => absurd h hCalm

/-- Checking a file again: an old one goes, or becomes new if it can still be read, and one that is
new already moves to the end. -/
theorem check_again (hr : Renewed ctx old keep files calm r) {p : Text}
    (hPath : Registry.accepts p = true) (hCalm : calm → p ∉ files) {v : Bool}
    (hOk : (Registry.check ctx.defineCalls ctx.files p r).result = .ok v) :
    ∃ extra, (∀ q ∈ extra, q = p ∧ q ∉ files ∧ Readable ctx q) ∧
      Renewed ctx old (fun q => keep q ∧ q ≠ p) (files ++ extra) calm
        (Registry.check ctx.defineCalls ctx.files p r).state := by
  by_cases hp : p ∈ files
  · refine ⟨[], nofun, ?_⟩
    rw [List.append_nil]
    exact hr.check_moves hPath hp (fun h => hCalm h hp) hOk
  by_cases hMissing : ctx.files.read p = .error .missing
  · refine ⟨[], nofun, ?_⟩
    rw [List.append_nil]
    exact hr.check_missing hPath hp hMissing
  · have hNew := hr.check hPath hp hMissing hOk
    refine ⟨[p], ?_, hNew⟩
    intro q hq
    rw [List.mem_singleton.mp hq]
    exact ⟨rfl, hp, hNew.readable p (List.mem_append_right _ List.mem_cons_self)⟩

/-- Checking a file that can be read fails for no other reason than a class of another file. -/
theorem exists_check_eq_ok (hr : Renewed ctx old keep files calm r) {p : Text}
    (hPath : Registry.accepts p = true) (hRead : Readable ctx p)
    (hApart : Apart ctx (files ++ [p])) (hOld : ApartFrom ctx old p) :
    ∃ v, (Registry.check ctx.defineCalls ctx.files p r).result = .ok v := by
  obtain ⟨rest, done, hl, rfl⟩ := hr
  obtain ⟨cs, hcs⟩ := hRead
  obtain ⟨h', -, -, hEnd⟩ := @Holdings.check_cases ctx.defineCalls ctx.files p _ hl.sound hPath
  rw [hl.remove_append p] at hEnd
  have hDefined : defined ctx p = Holdings.gather [] cs := congrArg Prod.snd (defined_of_readable hcs)
  rw [hcs] at hEnd
  generalize (Registry.check ctx.defineCalls ctx.files p _).result = result at hEnd ⊢
  cases hEnd with
  | indexed _ hFree => exact ⟨true, rfl⟩
  | clash before c after holder u hFree hHolder hName =>
    -- the holder is another file, old or new, and both have the class
    exfalso
    have hHere : c.name ∈ Table.names (defined ctx p) := by
      rw [hDefined, Holdings.mem_names_gather]
      exact Or.inr ⟨c, List.mem_append_right _ List.mem_cons_self, rfl⟩
    rcases List.mem_append.mp hHolder with hRest | hDone
    · obtain ⟨hRest, hOther⟩ := List.mem_filter.mp hRest
      exact hOld _ (hl.rest_sublist.subset hRest) (by simpa using hOther) c.name hName hHere
    · obtain ⟨q, hq, hEq⟩ := List.mem_map.mp hDone
      obtain ⟨rfl, rfl⟩ := Prod.mk.inj hEq
      obtain ⟨hOther, hMem⟩ := hl.nodup_done.mem_erase_iff.mp hq
      exact hOther (hApart q (List.mem_append_left _ (hl.done_perm.mem_iff.mp hMem)) p
        (List.mem_append_right _ List.mem_cons_self) c.name hName hHere)

end Renewed

-- ---------------------------------------------------------------------------
-- The operations of the indexer
-- ---------------------------------------------------------------------------

/-- A check changes the registry only. -/
theorem state_check_step (p : Text) (x : Indexer) :
    (Step.run ctx (.check p) x).state =
      { x with registry := (Registry.check ctx.defineCalls ctx.files p x.registry).state } := by
  show ((check ctx p >>= fun _ => pure () : Action Indexer IndexFailure Unit) x).state = _
  cases h : (check ctx p x).result with
  | error e => exact Action.state_bind_of_error h
  | ok v => exact Action.state_bind_of_ok h

/-- A check of a step returns just when the check of the registry does. -/
theorem check_step_eq_ok {p : Text} {x : Indexer} :
    (Step.run ctx (.check p) x).result = .ok () ↔
      ∃ v, (Registry.check ctx.defineCalls ctx.files p x.registry).result = .ok v := by
  show ((check ctx p >>= fun _ => pure () : Action Indexer IndexFailure Unit) x).result = _ ↔ _
  rw [Action.result_bind_eq_ok]
  constructor
  · rintro ⟨v, hv, -⟩
    exact ⟨v, hv⟩
  · rintro ⟨v, hv⟩
    exact ⟨v, hv, rfl⟩

/-- A check of a step fails as the check of the registry does. -/
theorem check_step_eq_error {p : Text} {x : Indexer} {e : IndexFailure} :
    (Step.run ctx (.check p) x).result = .error e ↔
      (Registry.check ctx.defineCalls ctx.files p x.registry).result = .error e := by
  show ((check ctx p >>= fun _ => pure () : Action Indexer IndexFailure Unit) x).result = _ ↔ _
  rw [Action.result_bind_eq_error]
  constructor
  · rintro (h | ⟨v, -, h⟩)
    · exact h
    · exact nomatch h
  · exact fun h => Or.inl h

/-- A file that is missing is dropped. -/
theorem check_step_of_missing {p : Text} (hPath : Registry.accepts p = true)
    (hRead : ctx.files.read p = .error .missing) (x : Indexer) :
    (Step.run ctx (.check p) x).result = .ok () ∧
      (Step.run ctx (.check p) x).state = { x with registry := x.registry.retract p } := by
  obtain ⟨notices, hCheck⟩ := Holdings.check_apply ctx.defineCalls ctx.files hPath x.registry
  have hFile : Registry.fileClasses ctx.defineCalls ctx.files p = .ok none := by
    unfold Registry.fileClasses
    rw [hRead]
  rw [hFile] at hCheck
  rw [state_check_step, check_step_eq_ok, hCheck]
  exact ⟨⟨false, rfl⟩, rfl⟩

/-- A file that cannot be opened for another reason is dropped too, and the check fails. -/
theorem check_step_of_fault {p : Text} {fault : Fault} (hPath : Registry.accepts p = true)
    (hFault : fault ≠ .missing) (hRead : ctx.files.read p = .error fault) (x : Indexer) :
    (Step.run ctx (.check p) x).result = .error (.file fault p) ∧
      (Step.run ctx (.check p) x).state = { x with registry := x.registry.retract p } := by
  obtain ⟨notices, hCheck⟩ := Holdings.check_apply ctx.defineCalls ctx.files hPath x.registry
  have hFile : Registry.fileClasses ctx.defineCalls ctx.files p = .error (.file fault p) := by
    unfold Registry.fileClasses
    rw [hRead]
    cases fault with
    | missing => exact absurd rfl hFault
    | _ => rfl
  rw [hFile] at hCheck
  rw [state_check_step, check_step_eq_error, hCheck]
  exact ⟨rfl, rfl⟩

/-- The tracked files that lie below a directory. -/
def below (x : Indexer) (dir : Text) : List Text :=
  x.registry.paths.filter fun p => Path.isUnder p dir

/-- The index that no longer knows a directory nor those below it. -/
def forget (x : Indexer) (dir : Text) : Indexer :=
  { x with dirs := x.dirs.filter fun d => !Path.isUnder d dir }

/-- To remove a known directory forgets it, checks the files below it, and reports it. -/
theorem remove_of_known {x : Indexer} {dir : Text} (h : dir ∈ x.dirs) :
    remove ctx dir x =
      (checks ctx (x.below dir) >>= fun _ =>
        Action.note (.directoryRemoved dir) >>= fun _ => pure true) (x.forget dir) := by
  unfold remove
  rw [Action.state_bind, if_pos (by simpa using h), Action.update_bind]
  rfl

/-- To remove a directory that is not known does nothing. -/
theorem remove_of_unknown {x : Indexer} {dir : Text} (h : dir ∉ x.dirs) :
    remove ctx dir x = ⟨x, [], .ok false⟩ := by
  unfold remove
  rw [Action.state_bind, if_neg (by simpa using h)]
  rfl

/-- Forgetting a known directory leaves what checking the files below it leaves. -/
theorem state_remove {x : Indexer} {dir : Text} (h : dir ∈ x.dirs) :
    (remove ctx dir x).state = (checks ctx (x.below dir) (x.forget dir)).state := by
  rw [remove_of_known h]
  cases hResult : (checks ctx (x.below dir) (x.forget dir)).result with
  | error e => rw [Action.state_bind_of_error hResult]
  | ok u =>
    rw [Action.state_bind_of_ok hResult]
    rfl

/-- Checks leave the directories alone. -/
theorem dirs_checks (ps : List Text) (x : Indexer) : (checks ctx ps x).state.dirs = x.dirs := by
  refine Action.Keeps.forEach (P := fun y => y.dirs = x.dirs) (fun p _ => ?_) x rfl
  intro y hy
  rw [state_check_step]
  exact hy

/-- Forgetting a known directory takes those below it along, whether it fails or not. -/
theorem dirs_remove {x : Indexer} {dir : Text} (h : dir ∈ x.dirs) :
    (remove ctx dir x).state.dirs = x.dirs.filter fun d => !Path.isUnder d dir := by
  rw [state_remove h, dirs_checks]
  rfl

/-- Known directories that lie apart from the one that is forgotten are still known. -/
theorem mem_dirs_remove_of_apart {x : Indexer} {dir : Text} {ds : List Text}
    (hKnown : ∀ d ∈ dir :: ds, d ∈ x.dirs) (hApart : ∀ d ∈ ds, Path.Apart dir d) :
    ∀ d ∈ ds, d ∈ (remove ctx dir x).state.dirs := by
  intro d hd
  rw [dirs_remove (hKnown dir List.mem_cons_self), List.mem_filter]
  exact ⟨hKnown d (List.mem_cons_of_mem dir hd), by simp [(hApart d hd).1]⟩

/-- A removal that returns has checked the files below. -/
theorem remove_eq_ok {x : Indexer} {dir : Text} {v : Bool} (h : dir ∈ x.dirs)
    (hOk : (remove ctx dir x).result = .ok v) :
    (checks ctx (x.below dir) (x.forget dir)).result = .ok () := by
  rw [remove_of_known h] at hOk
  obtain ⟨⟨⟩, hChecks, -⟩ := Action.result_bind_eq_ok.mp hOk
  exact hChecks

/-- A step for an absent directory is its removal. -/
theorem absent_step_of_ok {x : Indexer} {dir : Text}
    (h : (Step.run ctx (.absent dir) x).result = .ok ()) :
    ∃ v, (remove ctx dir x).result = .ok v ∧
      (Step.run ctx (.absent dir) x).state = (remove ctx dir x).state := by
  obtain ⟨v, hv, -⟩ := Action.result_bind_eq_ok.mp h
  exact ⟨v, hv, Action.state_bind_of_ok hv⟩

/-- Drops some files, in order. -/
def retractAll (ps : List Text) : Action Indexer IndexFailure Unit :=
  Action.forEach (fun p => do
    let _ ← retract p
    pure ()) ps

/-- Files are retracted one after the other. -/
theorem retractAll_cons (p : Text) (ps : List Text) (x : Indexer) :
    retractAll (p :: ps) x = retractAll ps { x with registry := x.registry.retract p } := by
  unfold retractAll
  rw [Action.forEach_cons]
  exact Action.bind_of_ok (a := ()) rfl

/-- Dropping files never fails. -/
theorem retractAll_result (ps : List Text) (x : Indexer) : (retractAll ps x).result = .ok () := by
  induction ps generalizing x with
  | nil => rfl
  | cons p ps ih => rw [retractAll_cons, ih]

/-- To learn of a directory always returns, and puts it last if it is new. -/
theorem learn_apply (dir : Text) (x : Indexer) :
    (learn dir x).result = .ok () ∧
      (learn dir x).state = if dir ∈ x.dirs then x else { x with dirs := x.dirs ++ [dir] } := by
  unfold learn
  rw [Action.state_bind]
  by_cases h : dir ∈ x.dirs
  · rw [if_pos (by simpa using h), if_pos h]
    exact ⟨rfl, rfl⟩
  · rw [if_neg (by simpa using h), if_neg h]
    exact ⟨rfl, rfl⟩

theorem registry_learn (dir : Text) (x : Indexer) : (learn dir x).state.registry = x.registry := by
  rw [(learn_apply dir x).2]
  split <;> rfl

/-- What is known then is the directory and what was known before. -/
theorem mem_dirs_learn {dir e : Text} {x : Indexer} :
    e ∈ (learn dir x).state.dirs ↔ e = dir ∨ e ∈ x.dirs := by
  rw [(learn_apply dir x).2]
  split
  · rename_i hKnown
    constructor
    · exact Or.inr
    · rintro (rfl | he)
      · exact hKnown
      · exact he
  · rw [List.mem_append, List.mem_singleton, or_comm]

theorem dirs_retractAll (ps : List Text) (x : Indexer) : (retractAll ps x).state.dirs = x.dirs := by
  induction ps generalizing x with
  | nil => rfl
  | cons p ps ih => rw [retractAll_cons, ih]

/-- The files that are retracted are no longer tracked. -/
theorem mem_paths_retractAll {ps : List Text} {x : Indexer} {p : Text} :
    p ∈ (retractAll ps x).state.registry.paths ↔ p ∈ x.registry.paths ∧ p ∉ ps := by
  induction ps generalizing x with
  | nil =>
    show p ∈ x.registry.paths ↔ _
    simp
  | cons q ps ih =>
    have hRemove : (x.registry.retract q).paths =
        x.registry.paths.filter fun p => decide (p ≠ q) := Table.names_remove q x.registry.sources
    rw [retractAll_cons, ih, hRemove, List.mem_filter, decide_eq_true_eq, List.mem_cons, not_or,
      and_assoc]

/-- The known directories right in a directory that a scan no longer finds there. -/
def gone (ctx : IndexContext) (x : Indexer) (dir : Text) : List Text :=
  x.goneDirs dir (listing ctx dir)

/-- What is gone from a directory: the known directories in it that are not found there. -/
theorem mem_gone {x : Indexer} {dir d : Text} :
    d ∈ x.gone ctx dir ↔ d ∈ x.dirs ∧ Path.parent d = dir ∧ d ≠ dir ∧ d ∉ subdirs ctx dir := by
  unfold gone goneDirs
  rw [mem_sorted, List.mem_filter]
  simp [listing, and_assoc]

/-- The tracked source files in a directory that are not found there. -/
theorem mem_goneFiles {x : Indexer} {dir p : Text} :
    p ∈ x.goneFiles ctx.sourceExtension dir (listing ctx dir) ↔
      p ∈ x.registry.paths ∧ Path.parent p = dir ∧ ctx.sourceExtension.isSuffixOf p = true ∧
        p ∉ sources ctx dir := by
  unfold goneFiles
  rw [List.mem_filter]
  simp [listing, and_assoc]

/-- Forgets some directories, in order. -/
def removeAll (ctx : IndexContext) (ds : List Text) : Action Indexer IndexFailure Unit :=
  Action.forEach (fun d => Step.run ctx (.absent d)) ds

/-- Directories of which none lies below another are forgotten with those below them. -/
theorem dirs_removeAll {ds : List Text} {x : Indexer} (hKnown : ∀ d ∈ ds, d ∈ x.dirs)
    (hApart : ds.Pairwise Path.Apart)
    (hOk : (removeAll ctx ds x).result = .ok ()) :
    (removeAll ctx ds x).state.dirs =
      x.dirs.filter fun e => ds.all fun d => !Path.isUnder e d := by
  induction ds generalizing x with
  | nil =>
    unfold removeAll
    rw [Action.forEach_nil, Action.pure_apply]
    simp
  | cons d ds ih =>
    obtain ⟨hFirst, hRest, hState⟩ := Action.forEach_cons_of_ok hOk
    obtain ⟨v, hv, hAbsent⟩ := absent_step_of_ok hFirst
    rw [hAbsent] at hRest hState
    rw [List.pairwise_cons] at hApart
    have hDirs := @dirs_remove ctx x d (hKnown d List.mem_cons_self)
    have hDirs' := ih (mem_dirs_remove_of_apart hKnown hApart.1) hApart.2 hRest
    unfold removeAll at hDirs' ⊢
    rw [hState, hDirs', hDirs, List.filter_filter]
    apply List.filter_congr
    intro e _
    rw [List.all_cons, Bool.and_comm]

/-- Closing a directory in three stages: it forgets directories, drops files and learns. -/
theorem close_step_eq (dir : Text) (x : Indexer) :
    Step.run ctx (.close dir) x =
      (removeAll ctx (x.gone ctx dir) >>= fun _ => Action.state >>= fun y =>
        retractAll (y.goneFiles ctx.sourceExtension dir (listing ctx dir)) >>= fun _ =>
          learn dir) x := by
  show (prune ctx dir (listing ctx dir) >>= fun _ => learn dir) x = _
  unfold prune
  rw [bind_assoc, Action.state_bind, bind_assoc]
  simp only [bind_assoc]
  rfl

/-- Only forgetting directories can fail when a directory is closed. -/
theorem close_step_result (dir : Text) (x : Indexer) :
    (Step.run ctx (.close dir) x).result = (removeAll ctx (x.gone ctx dir) x).result := by
  rw [close_step_eq]
  cases hRemoves : (removeAll ctx (x.gone ctx dir) x).result with
  | error e => rw [Action.bind_of_error hRemoves]
  | ok u =>
    refine Action.result_bind_eq_ok.mpr ⟨(), hRemoves, ?_⟩
    rw [Action.state_bind]
    exact Action.result_bind_eq_ok.mpr ⟨(), retractAll_result _ _, (learn_apply dir _).1⟩

/-- To close a directory removes what is gone, retracts the files that are gone, and learns of the
directory. -/
theorem close_step_state {dir : Text} {x : Indexer}
    (hRemoves : (removeAll ctx (x.gone ctx dir) x).result = .ok ()) :
    (Step.run ctx (.close dir) x).state =
      (learn dir (retractAll
        ((removeAll ctx (x.gone ctx dir) x).state.goneFiles ctx.sourceExtension dir
          (listing ctx dir))
        (removeAll ctx (x.gone ctx dir) x).state).state).state := by
  rw [close_step_eq, Action.state_bind_of_ok hRemoves, Action.state_bind,
    Action.state_bind_of_ok (retractAll_result _ _)]

/-- The known directories after a directory has been closed: the directory itself, and those that do
not lie below one that is gone from it. -/
theorem mem_dirs_close {dir e : Text} {x : Indexer}
    (hApart : (x.gone ctx dir).Pairwise Path.Apart)
    (hOk : (Step.run ctx (.close dir) x).result = .ok ()) :
    e ∈ (Step.run ctx (.close dir) x).state.dirs ↔
      e = dir ∨ (e ∈ x.dirs ∧ ∀ d ∈ x.gone ctx dir, Path.isUnder e d = false) := by
  have hRemoves := (close_step_result dir x).symm.trans hOk
  have hDirs := dirs_removeAll (fun d hd => (mem_gone.mp hd).1) hApart hRemoves
  rw [close_step_state hRemoves, mem_dirs_learn, dirs_retractAll, hDirs, List.mem_filter,
    List.all_eq_true]
  simp only [Bool.not_eq_true']

namespace Renewed

variable {x : Indexer}

/-- Source files that are there become new, one after the other. -/
theorem checks {ps : List Text} (hr : Renewed ctx old keep files calm x.registry)
    (hPaths : ∀ p ∈ ps, Registry.accepts p = true) (hDistinct : ps.Nodup)
    (hNew : ∀ p ∈ ps, p ∉ files) (hThere : ∀ p ∈ ps, ctx.files.kind p = .ok .file)
    (hOk : (Indexer.checks ctx ps x).result = .ok ()) :
    Renewed ctx old (fun q => keep q ∧ q ∉ ps) (files ++ ps) calm
      (Indexer.checks ctx ps x).state.registry := by
  induction ps generalizing x keep files with
  | nil =>
    rw [List.append_nil]
    exact hr.congr (by simp)
  | cons p ps ih =>
    obtain ⟨hFirst, hRest, hState⟩ := Action.forEach_cons_of_ok hOk
    rw [state_check_step] at hRest hState
    obtain ⟨v, hv⟩ := check_step_eq_ok.mp hFirst
    rw [List.nodup_cons] at hDistinct
    have hStep := hr.check (hPaths p List.mem_cons_self) (hNew p List.mem_cons_self)
      (FileSystem.read_ne_missing (hThere p List.mem_cons_self)) hv
    have hRegistry := ih hStep (fun q hq => hPaths q (List.mem_cons_of_mem p hq))
      hDistinct.2
      (fun q hq => by
        rw [List.mem_append, List.mem_singleton, not_or]
        refine ⟨hNew q (List.mem_cons_of_mem p hq), ?_⟩
        rintro rfl
        exact hDistinct.1 hq)
      (fun q hq => hThere q (List.mem_cons_of_mem p hq)) hRest
    rw [List.append_assoc, List.singleton_append] at hRegistry
    unfold Indexer.checks at hRegistry ⊢
    rw [hState]
    refine hRegistry.congr ?_
    intro file _
    rw [List.mem_cons, not_or, and_assoc]

/-- Files that can be read and define different classes can be checked. -/
theorem checks_eq_ok {ps : List Text} (hr : Renewed ctx old keep files calm x.registry)
    (hPaths : ∀ p ∈ ps, Registry.accepts p = true) (hDistinct : ps.Nodup)
    (hNew : ∀ p ∈ ps, p ∉ files) (hRead : ∀ p ∈ ps, Readable ctx p)
    (hApart : Apart ctx (files ++ ps)) (hOld : ∀ p ∈ ps, ApartFrom ctx old p) :
    (Indexer.checks ctx ps x).result = .ok () := by
  induction ps generalizing x keep files with
  | nil => rfl
  | cons p ps ih =>
    rw [List.nodup_cons] at hDistinct
    -- the file is apart from those checked before it, which is all that its check needs
    have hFront : Apart ctx (files ++ [p]) := by
      intro q hq q' hq'
      have hSub : ∀ r ∈ files ++ [p], r ∈ files ++ p :: ps := by simp; tauto
      exact hApart q (hSub q hq) q' (hSub q' hq')
    obtain ⟨v, hv⟩ := hr.exists_check_eq_ok (hPaths p List.mem_cons_self)
      (hRead p List.mem_cons_self) hFront (hOld p List.mem_cons_self)
    have hStep := hr.check (hPaths p List.mem_cons_self) (hNew p List.mem_cons_self)
      (hRead p List.mem_cons_self).read_ne_missing hv
    have hCheck : (Step.run ctx (.check p) x).result = .ok () := check_step_eq_ok.mpr ⟨v, hv⟩
    rw [checks_cons]
    refine Action.result_bind_eq_ok.mpr ⟨(), hCheck, ?_⟩
    rw [state_check_step]
    refine ih hStep (fun q hq => hPaths q (List.mem_cons_of_mem p hq)) hDistinct.2 ?_
      (fun q hq => hRead q (List.mem_cons_of_mem p hq)) ?_
      (fun q hq => hOld q (List.mem_cons_of_mem p hq))
    · intro q hq
      rw [List.mem_append, List.mem_singleton, not_or]
      refine ⟨hNew q (List.mem_cons_of_mem p hq), ?_⟩
      rintro rfl
      exact hDistinct.1 hq
    · rwa [List.append_assoc, List.singleton_append]

/-- Files that are checked again: the old ones among them go, or become new if they can be read. -/
theorem checks_again {ps : List Text} (hr : Renewed ctx old keep files calm x.registry)
    (hPaths : ∀ p ∈ ps, Registry.accepts p = true) (hDistinct : ps.Nodup)
    (hCalm : calm → ∀ p ∈ ps, p ∉ files) (hOk : (Indexer.checks ctx ps x).result = .ok ()) :
    ∃ extra, (∀ q ∈ extra, q ∈ ps ∧ q ∉ files ∧ Readable ctx q) ∧
      Renewed ctx old (fun q => keep q ∧ q ∉ ps) (files ++ extra) calm
        (Indexer.checks ctx ps x).state.registry := by
  induction ps generalizing x keep files with
  | nil =>
    refine ⟨[], nofun, ?_⟩
    rw [List.append_nil]
    exact hr.congr (by simp)
  | cons p ps ih =>
    obtain ⟨hFirst, hRest, hState⟩ := Action.forEach_cons_of_ok hOk
    rw [state_check_step] at hRest hState
    obtain ⟨v, hv⟩ := check_step_eq_ok.mp hFirst
    rw [List.nodup_cons] at hDistinct
    obtain ⟨extra, hExtra, hStep⟩ := hr.check_again (hPaths p List.mem_cons_self)
      (fun h => hCalm h p List.mem_cons_self) hv
    -- a file is not checked twice, so a calm check stays calm
    have hCalm' : calm → ∀ q ∈ ps, q ∉ files ++ extra := by
      intro h q hq hMem
      rcases List.mem_append.mp hMem with hMem | hMem
      · exact hCalm h q (List.mem_cons_of_mem p hq) hMem
      · exact hDistinct.1 ((hExtra q hMem).1 ▸ hq)
    obtain ⟨extra', hExtra', hRegistry⟩ := ih hStep
      (fun q hq => hPaths q (List.mem_cons_of_mem p hq)) hDistinct.2 hCalm' hRest
    unfold Indexer.checks at hRegistry ⊢
    rw [List.append_assoc] at hRegistry
    rw [hState]
    refine ⟨extra ++ extra', ?_, hRegistry.congr ?_⟩
    · intro q hq
      rcases List.mem_append.mp hq with hq | hq
      · obtain ⟨rfl, hNew, hRead⟩ := hExtra q hq
        exact ⟨List.mem_cons_self, hNew, hRead⟩
      · obtain ⟨hMem, hNew, hRead⟩ := hExtra' q hq
        exact ⟨List.mem_cons_of_mem p hMem, fun h => hNew (List.mem_append_left _ h), hRead⟩
    · intro file _
      rw [List.mem_cons, not_or, and_assoc]

/-- As long as no file below a directory has been checked and all the old ones there are left, the
files below it are the old ones. -/
theorem below_eq {dir : Text} (hr : Renewed ctx old keep files calm x.registry)
    (hDistinct : (Table.names old).Nodup)
    (hKeep : ∀ p ∈ Table.names old, Path.isUnder p dir = true → keep p)
    (hFiles : ∀ p ∈ files, Path.isUnder p dir = false) :
    x.below dir = (Table.names old).filter fun p => Path.isUnder p dir := by
  obtain ⟨rest, done, hl, hEq⟩ := hr
  have hDone : (done.filter fun p => Path.isUnder p dir) = [] := by
    rw [List.filter_eq_nil_iff]
    intro p hp
    simp [hFiles p (hl.done_perm.mem_iff.mp hp)]
  have hSublist : ((Table.names rest).filter fun p => Path.isUnder p dir).Sublist
      ((Table.names old).filter fun p => Path.isUnder p dir) := (hl.rest_sublist.map _).filter _
  have hSubset : ((Table.names old).filter fun p => Path.isUnder p dir) ⊆
      (Table.names rest).filter fun p => Path.isUnder p dir := by
    intro p hp
    obtain ⟨hOld, hUnder⟩ := List.mem_filter.mp hp
    obtain ⟨t, hFile⟩ := Table.mem_names.mp hOld
    have hRest := (hl.mem_rest _ hFile).mpr (hKeep p hOld hUnder)
    exact List.mem_filter.mpr ⟨Table.mem_names_of_mem hRest, hUnder⟩
  unfold below
  rw [hEq, Holdings.paths_registry, Table.names_append, names_map_entry, List.filter_append, hDone,
    List.append_nil]
  exact hSublist.eq_of_length_le ((hDistinct.filter _).length_le_of_subset hSubset)

/-- A directory that is gone takes the old files below it along. Those that can still be read become
new. -/
theorem remove {dir : Text} (hr : Renewed ctx old keep files calm x.registry)
    (hKnown : dir ∈ x.dirs) (hPaths : ∀ p ∈ x.registry.paths, Registry.accepts p = true)
    (hCalm : calm → ∀ p ∈ files, Path.isUnder p dir = false) {v : Bool}
    (hOk : (Indexer.remove ctx dir x).result = .ok v) :
    ∃ extra, (∀ q ∈ extra, q ∈ Table.names old ∧ keep q ∧ q ∉ files ∧ Path.isUnder q dir = true ∧
        Readable ctx q) ∧
      Renewed ctx old (fun q => keep q ∧ Path.isUnder q dir = false) (files ++ extra) calm
        (Indexer.remove ctx dir x).state.registry := by
  rw [state_remove hKnown]
  have hMem : ∀ p, p ∈ x.below dir ↔ p ∈ x.registry.paths ∧ Path.isUnder p dir = true :=
    fun p => List.mem_filter
  have hr' : Renewed ctx old keep files calm (x.forget dir).registry := hr
  -- a removal checks the files below again; those that can be read come back
  obtain ⟨extra, hExtra, hRegistry⟩ := hr'.checks_again
    (fun p hp => hPaths p ((hMem p).mp hp).1) (hr.nodup_paths.filter _)
    (fun h p hp hNew => by
      have hUnder := ((hMem p).mp hp).2
      rw [hCalm h p hNew] at hUnder
      exact Bool.false_ne_true hUnder)
    (remove_eq_ok hKnown hOk)
  refine ⟨extra, fun q hq => ?_, hRegistry.congr ?_⟩
  · obtain ⟨hBelow, hNew, hRead⟩ := hExtra q hq
    obtain ⟨hTracked, hUnder⟩ := (hMem q).mp hBelow
    obtain ⟨hOld, hKeep⟩ := (hr.mem_paths.mp hTracked).resolve_right hNew
    exact ⟨hOld, hKeep, hNew, hUnder, hRead⟩
  · intro file hFile
    refine and_congr_right fun hKeep => ?_
    have hTracked : file.1 ∈ x.registry.paths :=
      hr.mem_paths.mpr (Or.inl ⟨Table.mem_names_of_mem hFile, hKeep⟩)
    rw [hMem, Bool.eq_false_iff]
    exact ⟨fun h hUnder => h ⟨hTracked, hUnder⟩, fun h hBoth => h hBoth.2⟩

/-- Directories of which none lies below another can be forgotten one after the other. What becomes
new has to stand in the very place of one of them. -/
theorem removes {ds : List Text} (hr : Renewed ctx old keep files calm x.registry)
    (hKnown : ∀ d ∈ ds, d ∈ x.dirs) (hApart : ds.Pairwise Path.Apart)
    (hPaths : ∀ p ∈ x.registry.paths, Registry.accepts p = true)
    (hStale : ∀ d ∈ ds, ∀ p ∈ Table.names old, keep p → p ∉ files → Path.isUnder p d = true →
      Readable ctx p → p = d)
    (hCalm : calm → ∀ d ∈ ds, ∀ p ∈ files, Path.isUnder p d = false)
    (hOk : (removeAll ctx ds x).result = .ok ()) :
    ∃ extra, (∀ q ∈ extra, q ∈ ds ∧ q ∈ Table.names old ∧ keep q ∧ q ∉ files ∧ Readable ctx q) ∧
      Renewed ctx old (fun q => keep q ∧ ∀ d ∈ ds, Path.isUnder q d = false) (files ++ extra) calm
        (removeAll ctx ds x).state.registry := by
  induction ds generalizing x keep files with
  | nil =>
    refine ⟨[], nofun, ?_⟩
    rw [List.append_nil]
    exact hr.congr (by simp)
  | cons d ds ih =>
    obtain ⟨hFirst, hRest, hState⟩ := Action.forEach_cons_of_ok hOk
    obtain ⟨v, hv, hAbsent⟩ := absent_step_of_ok hFirst
    rw [hAbsent] at hRest hState
    rw [List.pairwise_cons] at hApart
    obtain ⟨extra, hExtra, hRegistry⟩ := hr.remove (hKnown d List.mem_cons_self) hPaths
      (fun h => hCalm h d List.mem_cons_self) hv
    -- what a removal finds again can only be a file in the place of the directory
    have hPlace : ∀ q ∈ extra, q = d := by
      intro q hq
      obtain ⟨hOld, hKeep, hNew, hUnder, hRead⟩ := hExtra q hq
      exact hStale d List.mem_cons_self q hOld hKeep hNew hUnder hRead
    -- the files after the first removal are old ones or checked before, so their paths stay acceptable
    have hPaths' : ∀ p ∈ (Indexer.remove ctx d x).state.registry.paths,
        Registry.accepts p = true := by
      intro p hp
      apply hPaths p
      rw [hr.mem_paths]
      rcases hRegistry.mem_paths.mp hp with ⟨hOld, hKeep, -⟩ | hFile
      · exact Or.inl ⟨hOld, hKeep⟩
      · rcases List.mem_append.mp hFile with hFile | hFile
        · exact Or.inr hFile
        · obtain ⟨hOld, hKeep, -⟩ := hExtra p hFile
          exact Or.inl ⟨hOld, hKeep⟩
    obtain ⟨extra', hExtra', hRegistry'⟩ := ih hRegistry
      (mem_dirs_remove_of_apart hKnown hApart.1) hApart.2 hPaths'
      (fun e he p hp hKeep hNew => hStale e (List.mem_cons_of_mem d he) p hp hKeep.1
        fun h => hNew (List.mem_append_left _ h))
      (fun h e he p hp => by
        rcases List.mem_append.mp hp with hp | hp
        · exact hCalm h e (List.mem_cons_of_mem d he) p hp
        · rw [hPlace p hp]
          exact (hApart.1 e he).2) hRest
    unfold removeAll at hRegistry' ⊢
    rw [List.append_assoc] at hRegistry'
    rw [hState]
    -- the files found again by the first removal and by the others
    refine ⟨extra ++ extra', fun q hq => ?_, hRegistry'.congr ?_⟩
    · rcases List.mem_append.mp hq with hq | hq
      · obtain ⟨hOld, hKeep, hNew, -, hRead⟩ := hExtra q hq
        exact ⟨hPlace q hq ▸ List.mem_cons_self, hOld, hKeep, hNew, hRead⟩
      · obtain ⟨hMem, hOld, hKeep, hNew, hRead⟩ := hExtra' q hq
        exact ⟨List.mem_cons_of_mem d hMem, hOld, hKeep.1,
          fun h => hNew (List.mem_append_left _ h), hRead⟩
    · intro file _
      rw [List.forall_mem_cons, and_assoc]

/-- After retractions fewer files are to be kept, and fewer have been checked. -/
theorem retracts (hr : Renewed ctx old keep files calm x.registry) (ps : List Text) :
    Renewed ctx old (fun q => keep q ∧ q ∉ ps) (files.filter fun q => decide (q ∉ ps)) calm
      (retractAll ps x).state.registry := by
  induction ps generalizing x keep files with
  | nil =>
    have hFiles : (files.filter fun q => decide (q ∉ ([] : List Text))) = files := by simp
    rw [hFiles]
    exact hr.congr (by simp)
  | cons p ps ih =>
    rw [retractAll_cons]
    have hRest := ih (x := { x with registry := x.registry.retract p }) (hr.retract p)
    have hFiles : ((files.filter fun q => decide (q ≠ p)).filter fun q => decide (q ∉ ps)) =
        files.filter fun q => decide (q ∉ p :: ps) := by
      rw [List.filter_filter]
      exact List.filter_congr fun q _ => by simp [Bool.and_comm]
    rw [hFiles] at hRest
    refine hRest.congr ?_
    intro file _
    rw [List.mem_cons, not_or, and_assoc]

/-- **What closing a directory does.** Old files right in the directory go, and so do those below
one of the known directories that are no longer in it. A file in the very place of such a directory
may become new for a moment, but then it is dropped with the other files of the directory. -/
theorem close {dir : Text} (hr : Renewed ctx old keep files calm x.registry)
    (hApart : (x.gone ctx dir).Pairwise Path.Apart)
    (hPaths : ∀ p ∈ x.registry.paths, Registry.accepts p = true)
    (hStale : ∀ d ∈ x.gone ctx dir, ∀ p ∈ Table.names old, keep p → Path.isUnder p d = true →
      Readable ctx p → p = d)
    (hCalm : calm → ∀ d ∈ x.gone ctx dir, ∀ p ∈ files, Path.isUnder p d = false)
    (hFiles : ∀ p ∈ files, Path.parent p = dir → p ∈ sources ctx dir)
    (hExtension : ∀ p ∈ Table.names old, ctx.sourceExtension.isSuffixOf p = true)
    (hChecked : ∀ p ∈ Table.names old, keep p → p ∉ sources ctx dir)
    (hOk : (Step.run ctx (.close dir) x).result = .ok ()) :
    Renewed ctx old
      (fun q => keep q ∧ (∀ d ∈ x.gone ctx dir, Path.isUnder q d = false) ∧ Path.parent q ≠ dir)
      files calm (Step.run ctx (.close dir) x).state.registry := by
  have hRemoves := (close_step_result dir x).symm.trans hOk
  obtain ⟨extra, hExtra, hRegistry⟩ := hr.removes (fun d hd => (mem_gone.mp hd).1) hApart hPaths
    (fun d hd p hp hKeep _ => hStale d hd p hp hKeep) hCalm hRemoves
  rw [close_step_state hRemoves]
  generalize (removeAll ctx (x.gone ctx dir) x).state = y at hRegistry ⊢
  have hRegistry' := hRegistry.retracts (y.goneFiles ctx.sourceExtension dir (listing ctx dir))
  -- what became new goes again, and nothing else that is new does
  have hNew : ((files ++ extra).filter fun q =>
      decide (q ∉ y.goneFiles ctx.sourceExtension dir (listing ctx dir))) = files := by
    rw [List.filter_append, List.filter_eq_self.mpr, List.filter_eq_nil_iff.mpr, List.append_nil]
    · intro q hq
      obtain ⟨hGone, hOld, hKeep, -⟩ := hExtra q hq
      have hTracked : q ∈ y.registry.paths :=
        hRegistry.mem_paths.mpr (Or.inr (List.mem_append_right _ hq))
      rw [decide_eq_true_eq, not_not, mem_goneFiles]
      exact ⟨hTracked, (mem_gone.mp hGone).2.1, hExtension q hOld, hChecked q hOld hKeep⟩
    · intro q hq
      rw [decide_eq_true_eq, mem_goneFiles]
      exact fun h => h.2.2.2 (hFiles q hq h.2.1)
  rw [hNew] at hRegistry'
  rw [registry_learn]
  refine hRegistry'.congr ?_
  intro file hFile
  have hName := Table.mem_names_of_mem hFile
  rw [and_assoc]
  refine and_congr_right fun hKeep => and_congr_right fun hUnder => ?_
  have hTracked : file.1 ∈ y.registry.paths :=
    hRegistry.mem_paths.mpr (Or.inl ⟨hName, hKeep, hUnder⟩)
  rw [mem_goneFiles]
  constructor
  · exact fun h hParent => h ⟨hTracked, hParent, hExtension _ hName, hChecked _ hName hKeep⟩
  · exact fun h hGone => h hGone.2.1

end Renewed

end ClassTags.Indexer
