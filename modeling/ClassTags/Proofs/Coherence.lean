import ClassTags.Proofs.Holdings
import ClassTags.Proofs.Route

/-!
# Coherence of the registry

The table of files and the table of classes stay in step, whatever is called, on whatever file
system, and whether the call returns or fails. The argument has three layers:

* an operation of the registry keeps its holdings sound (`Registry.Held.retract`,
  `Registry.Held.check`);
* an indexer only touches its registry through these operations, so it keeps what they keep
  (`Indexer.scan_keeps`, `Indexer.remove_keeps`);
* a registry with sound holdings is coherent (`Registry.Held.coherent`).

Main results:

* `Registry.Coherent` — how the two tables of a registry belong together;
* `Indexer.coherent_after` — the registry is coherent after any run of calls.
-/

namespace ClassTags

-- ---------------------------------------------------------------------------
-- Runs of calls
-- ---------------------------------------------------------------------------

/-- What can be asked of an indexer. -/
inductive Call where
  | check (path : Text)
  | retract (path : Text)
  | scan (root : Text)
  | remove (path : Text)
deriving DecidableEq, Repr

/-- A call, its answer left out. -/
def Call.run (ctx : IndexContext) : Call → Action Indexer IndexFailure Unit
  | check path => do
    let _ ← Indexer.check ctx path
    pure ()
  | retract path => do
    let _ ← Indexer.retract path
    pure ()
  | scan root => Indexer.scan ctx root
  | remove path => do
    let _ ← Indexer.remove ctx path
    pure ()

/-- The indexer after some calls, each with the file system of its own moment. A call that fails
leaves what it has done so far. -/
def Indexer.after (x : Indexer) (calls : List (IndexContext × Call)) : Indexer :=
  calls.foldl (fun x call => (call.2.run call.1 x).state) x

-- ---------------------------------------------------------------------------
-- Coherent registries
-- ---------------------------------------------------------------------------

namespace Registry

/-- The table of files and the table of classes belong together. -/
structure Coherent (r : Registry) : Prop where
  distinctPaths : r.paths.Nodup
  /-- The classes are those of the first file, then those of the second, and so on. -/
  order : r.classes.names = r.paths.flatMap r.owned
  distinctClasses : r.classes.names.Nodup
  records : ∀ path ∈ r.paths, ∀ name ∈ r.owned path,
    ∃ c, r.record? name = some c ∧ c.name = name ∧ c.path = path
  /-- A file owns the classes whose records name it, in the order of the registry. -/
  owned_eq : ∀ path, r.owned path = Table.names (r.classes.filter fun entry => entry.2.path = path)
  tracked : ∀ c ∈ r.records, c.path ∈ r.paths

/-- The registry has sound holdings. -/
def Held (r : Registry) : Prop := ∃ h, Holdings.Sound h ∧ r = Holdings.registry h

theorem Held.empty : Held {} := ⟨[], Holdings.Sound.nil, rfl⟩

/-- To retract a file leaves what the others have defined. -/
theorem Held.retract {r : Registry} (hr : Held r) (path : Text) : Held (r.retract path) := by
  obtain ⟨h, hs, rfl⟩ := hr
  exact ⟨h.remove path, hs.remove path, Holdings.registry_retract hs path⟩

/-- To check a file leaves a registry that holds what its files have defined, also if the check
fails. -/
theorem Held.check (defineCalls : List Text) (fs : FileSystem) (path : Text) :
    Action.Keeps Held (check defineCalls fs path) := by
  rintro r ⟨h, hs, rfl⟩
  cases hPath : accepts path with
  | false =>
    rw [Holdings.check_of_not_accepts hPath]
    exact ⟨h, hs, rfl⟩
  | true =>
    obtain ⟨h', hs', hState, -⟩ := Holdings.check_cases hs hPath
    exact ⟨h', hs', hState⟩

end Registry

namespace Holdings

/-- A file holds the classes whose records name it. -/
theorem filter_classes_path {h : Holdings} (hs : Sound h) (path : Text) :
    (h.classes.filter fun entry => entry.2.path = path) = (h.lookup path).getD [] := by
  -- the classes of any other file carry another path
  have hOther : ∀ k : Holdings, (∀ file ∈ k, file ∈ h) → path ∉ Table.names k →
      (k.classes.filter fun entry => entry.2.path = path) = [] := by
    intro k hk hPath
    rw [List.filter_eq_nil_iff]
    intro entry hEntry
    obtain ⟨⟨q, t⟩, hFile, hEntry⟩ := List.mem_flatMap.mp hEntry
    rw [decide_eq_true_eq, (hs.placed q t (hk _ hFile) entry.1 entry.2 hEntry).2]
    rintro rfl
    exact hPath (Table.mem_names.mpr ⟨t, hFile⟩)
  by_cases hPath : path ∈ Table.names h
  · obtain ⟨front, t, back, rfl, hFront, hBack⟩ := exists_split hs.distinctPaths hPath
    have hOwn : (t.filter fun entry => entry.2.path = path) = t := by
      rw [List.filter_eq_self]
      intro entry hEntry
      have hFile : (path, t) ∈ front ++ (path, t) :: back :=
        List.mem_append_right _ List.mem_cons_self
      rw [decide_eq_true_eq]
      exact (hs.placed path t hFile entry.1 entry.2 hEntry).2
    have hSplit : classes (front ++ (path, t) :: back) = classes front ++ (t ++ classes back) := by
      rw [classes_append, List.append_cancel_left_eq]
      exact List.flatMap_cons
    rw [hSplit, List.filter_append, List.filter_append, hOwn,
      hOther front (fun file hFile => List.mem_append_left _ hFile) hFront,
      hOther back (fun file hFile => List.mem_append_right _ (List.mem_cons_of_mem _ hFile)) hBack,
      Table.lookup_append_of_not_mem _ hFront, List.lookup_cons_self, List.append_nil,
      List.nil_append]
    rfl
  · rw [hOther h (fun _ hFile => hFile) hPath, Table.lookup_eq_none_iff_not_mem.mpr hPath]
    rfl

/-- The names of all classes are those of the first file, then those of the second, and so on. -/
theorem names_classes {h : Holdings} (hs : Sound h) :
    Table.names (classes h) = (Table.names h).flatMap (registry h).owned := by
  have hOwned : ∀ file ∈ h, (registry h).owned file.1 = Table.names file.2 := by
    intro file hFile
    rw [owned_registry, (Table.lookup_eq_some_iff_mem hs.distinctPaths).mpr hFile]
    rfl
  calc Table.names (classes h)
      = h.flatMap (fun file => Table.names file.2) := List.map_flatMap
    _ = h.flatMap (fun file => (registry h).owned file.1) := by
        apply List.flatMap_congr
        intro file hFile
        exact (hOwned file hFile).symm
    _ = (Table.names h).flatMap (registry h).owned := by
        rw [Table.names, List.flatMap_map]

end Holdings

/-- A registry with sound holdings is coherent. -/
theorem Registry.Held.coherent {r : Registry} (hr : r.Held) : r.Coherent := by
  obtain ⟨h, hs, rfl⟩ := hr
  have hTracked : ∀ name c, (name, c) ∈ h.classes → c.path ∈ Table.names h := by
    intro name c hc
    obtain ⟨⟨path, t⟩, hFile, hc⟩ := List.mem_flatMap.mp hc
    rw [(hs.placed path t hFile name c hc).2]
    exact Table.mem_names.mpr ⟨t, hFile⟩
  constructor
  · rw [Holdings.paths_registry]
    exact hs.distinctPaths
  · rw [Holdings.paths_registry]
    exact Holdings.names_classes hs
  · exact hs.distinctClasses
  · intro path hPath name hName
    rw [Holdings.paths_registry] at hPath
    obtain ⟨t, hFile⟩ := Table.mem_names.mp hPath
    rw [Holdings.owned_registry, (Table.lookup_eq_some_iff_mem hs.distinctPaths).mpr hFile] at hName
    obtain ⟨c, hc⟩ := Table.mem_names.mp hName
    refine ⟨c, ?_, hs.placed path t hFile name c hc⟩
    rw [Holdings.record?_registry, Table.lookup_eq_some_iff_mem hs.distinctClasses]
    exact List.mem_flatMap.mpr ⟨(path, t), hFile, hc⟩
  · intro path
    rw [Holdings.owned_registry, ← Holdings.filter_classes_path hs path]
    rfl
  · intro c hc
    obtain ⟨⟨name, d⟩, hd, rfl⟩ := List.mem_map.mp hc
    rw [Holdings.paths_registry]
    exact hTracked name d hd

-- ---------------------------------------------------------------------------
-- What an indexer keeps of its registry
-- ---------------------------------------------------------------------------

namespace Indexer

section Keeping

/-- A property of registries that dropping and checking files keep. -/
structure RegistryLaw (P : Registry → Prop) : Prop where
  retract : ∀ r, P r → ∀ path, P (r.retract path)
  check : ∀ defineCalls fs path, Action.Keeps P (Registry.check defineCalls fs path)

variable {P : Registry → Prop} (law : RegistryLaw P) (ctx : IndexContext)

include law

theorem check_keeps (path : Text) : Action.Keeps (fun x => P x.registry) (check ctx path) :=
  Action.Keeps.within (fun _ hx => hx) (fun _ _ _ hr => hr) (law.check _ _ _)

/-- A law of the registry is kept by retractions. -/
theorem retract_keeps (path : Text) :
    Action.Keeps (fun x => P x.registry) (retract path : Action Indexer IndexFailure Bool) := by
  refine Action.Keeps.bind Action.Keeps.state fun x => ?_
  refine Action.Keeps.bind (Action.Keeps.update ?_) fun _ => Action.Keeps.pure _
  intro y hy
  exact law.retract y.registry hy path

/-- To remove a directory checks the files below it. -/
theorem remove_keeps (path : Text) : Action.Keeps (fun x => P x.registry) (remove ctx path) := by
  refine Action.Keeps.bind Action.Keeps.state fun x => ?_
  split
  · refine Action.Keeps.bind (Action.Keeps.update fun _ hy => hy) fun _ => ?_
    refine Action.Keeps.bind (Action.Keeps.forEach fun p _ => ?_) fun _ => ?_
    · exact Action.Keeps.bind (check_keeps law ctx p) fun _ => Action.Keeps.pure ()
    · exact Action.Keeps.bind (Action.Keeps.note _) fun _ => Action.Keeps.pure true
  · exact Action.Keeps.pure false

/-- To prune a directory removes what is gone from it. -/
theorem prune_keeps (dir : Text) (found : Listing) :
    Action.Keeps (fun x => P x.registry) (prune ctx dir found) := by
  refine Action.Keeps.bind Action.Keeps.state fun x => ?_
  refine Action.Keeps.bind (Action.Keeps.forEach fun d _ => ?_) fun _ => ?_
  · exact Action.Keeps.bind (remove_keeps law ctx d) fun _ => Action.Keeps.pure ()
  · refine Action.Keeps.bind Action.Keeps.state fun y => ?_
    refine Action.Keeps.forEach fun p _ => ?_
    exact Action.Keeps.bind (retract_keeps law p) fun _ => Action.Keeps.pure ()

omit law in
/-- To learn of a directory leaves the registry alone. -/
theorem learn_keeps (dir : Text) :
    Action.Keeps (fun x => P x.registry) (learn dir : Action Indexer IndexFailure Unit) := by
  refine Action.Keeps.bind Action.Keeps.state fun x => ?_
  split
  · exact Action.Keeps.pure ()
  · exact Action.Keeps.bind (Action.Keeps.update fun _ hy => hy) fun _ => Action.Keeps.note _

/-- A law of the registry is kept by every step of a scan. -/
theorem step_keeps (s : Step) : Action.Keeps (fun x => P x.registry) (s.run ctx) := by
  cases s with
  | vanished path => exact Action.Keeps.note _
  | fault f path => exact Action.Keeps.fail _
  | check path => exact Action.Keeps.bind (check_keeps law ctx path) fun _ => Action.Keeps.pure ()
  | close dir => exact Action.Keeps.bind (prune_keeps law ctx dir _) fun _ => learn_keeps dir
  | absent dir => exact Action.Keeps.bind (remove_keeps law ctx dir) fun _ => Action.Keeps.pure ()

/-- A law of the registry is kept by scans, which are made of steps. -/
theorem scan_keeps (root : Text) : Action.Keeps (fun x => P x.registry) (scan ctx root) :=
  scan_of_steps (D := fun _ => True) Action.Keeps.compositional (fun _ _ _ _ => trivial)
    (fun _ _ s _ => step_keeps law ctx s) (fun _ => trivial) fun _ => Action.Keeps.fail _

/-- Every call keeps what dropping and checking files keep. -/
theorem call_keeps (call : Call) : Action.Keeps (fun x => P x.registry) (call.run ctx) := by
  cases call with
  | check path => exact Action.Keeps.bind (check_keeps law ctx path) fun _ => Action.Keeps.pure ()
  | retract path => exact Action.Keeps.bind (retract_keeps law path) fun _ => Action.Keeps.pure ()
  | scan root => exact scan_keeps law ctx root
  | remove path => exact Action.Keeps.bind (remove_keeps law ctx path) fun _ => Action.Keeps.pure ()

omit ctx in
/-- **A law of the registry is kept by every run of calls**, by induction on the run. -/
theorem after_keeps {x : Indexer} (hx : P x.registry) (calls : List (IndexContext × Call)) :
    P (x.after calls).registry := by
  induction calls generalizing x with
  | nil => exact hx
  | cons call calls ih => exact ih (call_keeps law call.1 call.2 x hx)

end Keeping

/-- To hold what its files have defined is a law of the registry. -/
theorem held_law : RegistryLaw Registry.Held where
  retract _ hr path := hr.retract path
  check := Registry.Held.check

/-- **The two tables stay in step.** From an empty registry, after any run of checks, retractions,
scans and removals, each with a file system of its own and each returning or failing, the registry
is coherent. -/
theorem coherent_after (dirs : List Text) (calls : List (IndexContext × Call)) :
    (after { dirs } calls).registry.Coherent :=
  Registry.Held.coherent (after_keeps held_law Registry.Held.empty calls)

end Indexer

end ClassTags
