import ClassTags.Index.Registry
import ClassTags.Proofs.Action
import ClassTags.Proofs.Table
import Mathlib.Data.List.Flatten

/-!
# Holdings

A registry is two tables that have to stay in step. Seen as its **holdings** it is one: the tracked
files in order, each with the table of the classes it holds. `Holdings.registry` spreads holdings
over the two tables, and every operation on the registry is one operation on the holdings:

* dropping a file removes its entry (`Holdings.registry_retract`);
* checking a file removes its entry and puts what the file defines now at the end, up to the first
  class that another file holds (`Holdings.check_cases`).

Main results:

* `Holdings.Sound` — files and classes are distinct, and every class stands under its own name and
  path;
* `Holdings.Sound.remove`, `Holdings.Sound.insert` — both operations keep holdings sound;
* `Holdings.check_cases` — all that checking a file can do.
-/

namespace ClassTags

/-- Files, each with the classes it holds. -/
abbrev Holdings := Table (Table ClassRecord)

namespace Holdings

/-- The classes of all files, in order. -/
def classes (h : Holdings) : Table ClassRecord := h.flatMap fun file => file.2

/-- The registry with the given holdings. -/
def registry (h : Holdings) : Registry where
  sources := h.map fun file => (file.1, Table.names file.2)
  classes := h.classes

/-- Files and classes are distinct, and every class stands under its own name and path. -/
structure Sound (h : Holdings) : Prop where
  distinctPaths : (Table.names h).Nodup
  distinctClasses : (Table.names h.classes).Nodup
  placed : ∀ path t, (path, t) ∈ h → ∀ name c, (name, c) ∈ t → c.name = name ∧ c.path = path

/-- The table of some classes: the last one of a name counts, in the place of the first. -/
def gather (t : Table ClassRecord) (cs : List ClassRecord) : Table ClassRecord :=
  cs.foldl (fun t c => t.assign c.name c) t

-- ---------------------------------------------------------------------------
-- The two tables of a registry
-- ---------------------------------------------------------------------------

theorem classes_append (h k : Holdings) : classes (h ++ k) = classes h ++ classes k :=
  List.flatMap_append

theorem classes_singleton (path : Text) (t : Table ClassRecord) : classes [(path, t)] = t := by
  simp [classes]

/-- If the entries of a file stay just when the file does, the classes of some of the files are
those that stay. -/
theorem classes_filter {h : Holdings} (keep : Text → Bool) {stays : Text × ClassRecord → Bool}
    (hStays : ∀ file ∈ h, ∀ entry ∈ file.2, stays entry = keep file.1) :
    classes (h.filter fun file => keep file.1) = (classes h).filter stays := by
  induction h with
  | nil => rfl
  | cons file h ih =>
    rw [List.forall_mem_cons] at hStays
    have hCons : classes (file :: h) = file.2 ++ classes h := List.flatMap_cons
    rw [hCons, List.filter_append, ← ih hStays.2]
    by_cases hKeep : keep file.1 = true
    · have hAll : file.2.filter stays = file.2 :=
        List.filter_eq_self.mpr fun entry hEntry => (hStays.1 entry hEntry).trans hKeep
      rw [List.filter_cons, if_pos hKeep, hAll]
      exact List.flatMap_cons
    · have hNone : file.2.filter stays = [] :=
        List.filter_eq_nil_iff.mpr fun entry hEntry => by rwa [hStays.1 entry hEntry]
      rw [List.filter_cons, if_neg hKeep, hNone, List.nil_append]

theorem sources_registry_append (h k : Holdings) :
    (registry (h ++ k)).sources = (registry h).sources ++ (registry k).sources := List.map_append

/-- A class is held if one of the files has it. -/
theorem mem_names_classes {name : Text} {h : Holdings} :
    name ∈ Table.names (classes h) ↔ ∃ path t, (path, t) ∈ h ∧ name ∈ Table.names t := by
  constructor
  · intro hName
    obtain ⟨c, hc⟩ := Table.mem_names.mp hName
    obtain ⟨⟨path, t⟩, hFile, hc⟩ := List.mem_flatMap.mp hc
    exact ⟨path, t, hFile, Table.mem_names.mpr ⟨c, hc⟩⟩
  · rintro ⟨path, t, hFile, hName⟩
    obtain ⟨c, hc⟩ := Table.mem_names.mp hName
    exact Table.mem_names.mpr ⟨c, List.mem_flatMap.mpr ⟨(path, t), hFile, hc⟩⟩

/-- Files in another order make the same tables, in another order. -/
theorem registry_perm {h h' : Holdings} (hPerm : h.Perm h') :
    (registry h).sources.Perm (registry h').sources ∧
      (registry h).classes.Perm (registry h').classes :=
  ⟨hPerm.map _, hPerm.flatMap_right _⟩

@[simp] theorem paths_registry (h : Holdings) : (registry h).paths = Table.names h :=
  Table.names_map (fun file => Table.names file.2) h

/-- A file owns the names of its classes. -/
theorem owned_registry (h : Holdings) (path : Text) :
    (registry h).owned path = Table.names ((h.lookup path).getD []) := by
  have hLookup : (registry h).sources.lookup path = (h.lookup path).map Table.names :=
    Table.lookup_map Table.names h
  rw [Registry.owned, hLookup]
  cases h.lookup path <;> rfl

theorem record?_registry (h : Holdings) (name : Text) :
    (registry h).record? name = h.classes.lookup name := rfl

/-- If no file stands twice, the names that a file owns are those of its one entry. -/
theorem mem_owned_registry {h : Holdings} (hs : (Table.names h).Nodup) {path name : Text} :
    name ∈ (registry h).owned path ↔ ∃ t, (path, t) ∈ h ∧ name ∈ Table.names t := by
  rw [owned_registry]
  constructor
  · intro hName
    cases hLookup : h.lookup path with
    | none =>
      rw [hLookup] at hName
      exact absurd hName List.not_mem_nil
    | some t =>
      rw [hLookup] at hName
      exact ⟨t, (Table.lookup_eq_some_iff_mem hs).mp hLookup, hName⟩
  · rintro ⟨t, hFile, hName⟩
    rw [(Table.lookup_eq_some_iff_mem hs).mpr hFile]
    exact hName

/-- Distinct holdings around one file. -/
theorem exists_split {h : Holdings} (hs : (Table.names h).Nodup) {path : Text}
    (hPath : path ∈ Table.names h) :
    ∃ front t back, h = front ++ (path, t) :: back ∧ path ∉ Table.names front ∧
      path ∉ Table.names back := by
  obtain ⟨t, hFile⟩ := Table.mem_names.mp hPath
  obtain ⟨front, back, rfl⟩ := List.append_of_mem hFile
  rw [Table.names_append, Table.names_cons, List.nodup_append, List.nodup_cons] at hs
  refine ⟨front, t, back, rfl, ?_, hs.2.1.1⟩
  intro hFront
  exact hs.2.2 path hFront path List.mem_cons_self rfl

-- ---------------------------------------------------------------------------
-- Dropping a file
-- ---------------------------------------------------------------------------

theorem Sound.nil : Sound [] := ⟨List.nodup_nil, List.nodup_nil, nofun⟩

/-- What is left of sound holdings is sound. -/
theorem Sound.sublist {h k : Holdings} (hs : Sound h) (hk : k.Sublist h) : Sound k where
  distinctPaths := hs.distinctPaths.sublist (hk.map _)
  distinctClasses := hs.distinctClasses.sublist ((hk.flatMap _).map _)
  placed path t hFile := hs.placed path t (hk.subset hFile)

theorem Sound.remove {h : Holdings} (hs : Sound h) (path : Text) : Sound (h.remove path) :=
  hs.sublist List.filter_sublist

/-- A file that is not tracked owns no classes. -/
private theorem filter_owned_of_not_mem {h : Holdings} {path : Text}
    (hPath : path ∉ Table.names h) :
    (h.classes.filter fun entry => entry.1 ∉ (registry h).owned path) = h.classes := by
  rw [owned_registry, Table.lookup_eq_none_iff_not_mem.mpr hPath]
  simp

/-- Without the classes of a file, the classes of the other files are left. -/
private theorem filter_owned {h : Holdings} (hs : Sound h) (path : Text) :
    (h.classes.filter fun entry => entry.1 ∉ (registry h).owned path) =
      classes (h.remove path) := by
  by_cases hPath : path ∈ Table.names h
  · obtain ⟨front, t, back, rfl, hFront, hBack⟩ := exists_split hs.distinctPaths hPath
    have hOwned : (registry (front ++ (path, t) :: back)).owned path = Table.names t := by
      rw [owned_registry, Table.lookup_append_of_not_mem _ hFront, List.lookup_cons_self]
      rfl
    have hSplit : classes (front ++ (path, t) :: back) = classes front ++ (t ++ classes back) := by
      rw [classes_append, List.append_cancel_left_eq]
      exact List.flatMap_cons
    have hDistinct := hs.distinctClasses
    rw [hSplit, Table.names_append, Table.names_append, List.nodup_append, List.nodup_append]
      at hDistinct
    obtain ⟨-, ⟨-, -, hDisjointBack⟩, hDisjointFront⟩ := hDistinct
    -- the entries of `t` go, and no other entry has one of their names
    have hOfFront : (classes front).filter (fun entry => entry.1 ∉ Table.names t) =
        classes front := by
      rw [List.filter_eq_self]
      intro entry hEntry
      rw [decide_eq_true_eq]
      intro hName
      exact hDisjointFront _ (Table.mem_names_of_mem hEntry) _ (List.mem_append_left _ hName) rfl
    have hOfFile : t.filter (fun entry => entry.1 ∉ Table.names t) = [] := by
      rw [List.filter_eq_nil_iff]
      intro entry hEntry
      simpa using Table.mem_names_of_mem hEntry
    have hOfBack : (classes back).filter (fun entry => entry.1 ∉ Table.names t) =
        classes back := by
      rw [List.filter_eq_self]
      intro entry hEntry
      rw [decide_eq_true_eq]
      intro hName
      exact hDisjointBack _ hName _ (Table.mem_names_of_mem hEntry) rfl
    have hRemove : Table.remove path (front ++ (path, t) :: back) = front ++ back := by
      rw [Table.remove_append, Table.remove_of_not_mem hFront]
      have : Table.remove path ((path, t) :: back) = Table.remove path back := by
        simp [Table.remove]
      rw [this, Table.remove_of_not_mem hBack]
    rw [hOwned, hSplit, List.filter_append, List.filter_append, hOfFront, hOfFile, hOfBack, hRemove,
      classes_append, List.nil_append]
  · rw [filter_owned_of_not_mem hPath, Table.remove_of_not_mem hPath]

/-- To remove a file from the registry removes it from the holdings. -/
theorem sources_registry_remove (h : Holdings) (path : Text) :
    (registry h).sources.remove path = (registry (h.remove path)).sources := by
  show Table.remove path (h.map _) = (h.filter _).map _
  rw [Table.remove, List.filter_map]
  rfl

/-- Dropping a file removes its entry from the holdings. -/
theorem registry_retract {h : Holdings} (hs : Sound h) (path : Text) :
    (registry h).retract path = registry (h.remove path) := by
  have hClasses : ((registry h).owned path).foldl (fun classes name => classes.remove name)
      (registry h).classes = (registry (h.remove path)).classes := by
    rw [Table.removeAll_eq_filter]
    exact filter_owned hs path
  rw [Registry.retract, sources_registry_remove, hClasses]

-- ---------------------------------------------------------------------------
-- Adding classes of a file
-- ---------------------------------------------------------------------------

/-- A file that comes last can take classes whose names are free. -/
theorem Sound.assign {h : Holdings} {path : Text} {t : Table ClassRecord} {c : ClassRecord}
    (hs : Sound (h ++ [(path, t)])) (hc : c.path = path)
    (hFree : c.name ∉ Table.names (classes h)) :
    Sound (h ++ [(path, t.assign c.name c)]) where
  distinctPaths := by
    have := hs.distinctPaths
    rw [Table.names_append] at this ⊢
    exact this
  distinctClasses := by
    have := hs.distinctClasses
    rw [classes_append, classes_singleton, Table.names_append, List.nodup_append] at this ⊢
    obtain ⟨hFront, hFile, hDisjoint⟩ := this
    refine ⟨hFront, Table.nodup_names_assign hFile, ?_⟩
    intro a ha b hb
    rw [Table.names_assign] at hb
    split at hb
    · exact hDisjoint a ha b hb
    · rcases List.mem_append.mp hb with hb | hb
      · exact hDisjoint a ha b hb
      · rw [List.mem_singleton] at hb
        intro e
        exact hFree (hb ▸ e ▸ ha)
  placed := by
    intro q u hFile name d hd
    rcases List.mem_append.mp hFile with hFile | hFile
    · exact hs.placed q u (List.mem_append_left _ hFile) name d hd
    · rw [List.mem_singleton] at hFile
      obtain ⟨rfl, rfl⟩ := Prod.mk.inj hFile
      rcases Table.mem_assign hd with hd | hd
      · exact hs.placed q t (List.mem_append_right _ List.mem_cons_self) name d hd
      · obtain ⟨rfl, rfl⟩ := Prod.mk.inj hd
        exact ⟨rfl, hc⟩

/-- Holdings stay sound with more classes of the last file, if no other file has their names. -/
theorem Sound.gather {h : Holdings} {path : Text} {cs : List ClassRecord}
    {t : Table ClassRecord} (hs : Sound (h ++ [(path, t)])) (hcs : ∀ c ∈ cs, c.path = path)
    (hFree : ∀ c ∈ cs, c.name ∉ Table.names (classes h)) :
    Sound (h ++ [(path, gather t cs)]) := by
  induction cs generalizing t with
  | nil => exact hs
  | cons c cs ih =>
    have hs' := hs.assign (hcs c List.mem_cons_self) (hFree c List.mem_cons_self)
    exact ih hs' (fun d hd => hcs d (List.mem_cons_of_mem _ hd))
      (fun d hd => hFree d (List.mem_cons_of_mem _ hd))

/-- A new file may come last. -/
theorem Sound.track {h : Holdings} {path : Text} (hs : Sound h) (hPath : path ∉ Table.names h) :
    Sound (h ++ [(path, [])]) where
  distinctPaths := by
    rw [Table.names_append, List.nodup_append]
    refine ⟨hs.distinctPaths, List.nodup_singleton path, ?_⟩
    intro a ha b hb e
    rw [show b = path from List.mem_singleton.mp hb] at e
    exact hPath (e ▸ ha)
  distinctClasses := by
    rw [classes_append, classes_singleton, List.append_nil]
    exact hs.distinctClasses
  placed := by
    intro q u hFile name d hd
    rcases List.mem_append.mp hFile with hFile | hFile
    · exact hs.placed q u hFile name d hd
    · rw [List.mem_singleton] at hFile
      obtain ⟨rfl, rfl⟩ := Prod.mk.inj hFile
      exact absurd hd List.not_mem_nil

/-- Gathered classes have the names of the classes. -/
theorem mem_names_gather {name : Text} {cs : List ClassRecord} {t : Table ClassRecord} :
    name ∈ Table.names (gather t cs) ↔ name ∈ Table.names t ∨ ∃ c ∈ cs, c.name = name := by
  induction cs generalizing t with
  | nil => simp [gather]
  | cons c cs ih =>
    have hGather : gather t (c :: cs) = gather (t.assign c.name c) cs := rfl
    have hAssign : name ∈ Table.names (t.assign c.name c) ↔ name ∈ Table.names t ∨ c.name = name := by
      rw [Table.names_assign]
      split
      · rename_i hMem
        constructor
        · exact Or.inl
        · rintro (h | rfl)
          · exact h
          · exact hMem
      · rw [List.mem_append, List.mem_singleton, eq_comm]
    rw [hGather, ih, hAssign, or_assoc, List.exists_mem_cons_iff]

/-- In sound holdings no class name has two files. -/
theorem Sound.path_unique {h : Holdings} (hs : Sound h) {p q : Text} {t u : Table ClassRecord}
    (hp : (p, t) ∈ h) (hq : (q, u) ∈ h) {name : Text} (ht : name ∈ Table.names t)
    (hu : name ∈ Table.names u) : p = q := by
  obtain ⟨c, hc⟩ := Table.mem_names.mp ht
  obtain ⟨d, hd⟩ := Table.mem_names.mp hu
  have hcLookup : h.classes.lookup name = some c :=
    (Table.lookup_eq_some_iff_mem hs.distinctClasses).mpr (List.mem_flatMap.mpr ⟨(p, t), hp, hc⟩)
  have hdLookup : h.classes.lookup name = some d :=
    (Table.lookup_eq_some_iff_mem hs.distinctClasses).mpr (List.mem_flatMap.mpr ⟨(q, u), hq, hd⟩)
  rw [hcLookup] at hdLookup
  rw [← (hs.placed p t hp name c hc).2, ← (hs.placed q u hq name d hd).2, Option.some.inj hdLookup]

-- The classes that a source text defines, one claim after the other.

/-- To track a file appends it without classes. -/
theorem registry_track {h : Holdings} {path : Text} (hPath : path ∉ Table.names h) :
    (registry h).track path = registry (h ++ [(path, [])]) := by
  have hSources : (registry h).sources.assign path [] =
      (registry (h ++ [(path, [])])).sources := by
    have hNew : path ∉ Table.names (registry h).sources := by
      rw [show Table.names (registry h).sources = (registry h).paths from rfl, paths_registry]
      exact hPath
    rw [Table.assign_of_not_mem _ hNew, sources_registry_append]
    rfl
  have hClasses : (registry h).classes = (registry (h ++ [(path, [])])).classes := by
    show h.classes = classes (h ++ [(path, [])])
    rw [classes_append, classes_singleton, List.append_nil]
  rw [Registry.track, hSources, hClasses]

/-- The last file takes a class whose name is free. -/
theorem registry_place {h : Holdings} {path : Text} {t : Table ClassRecord} {c : ClassRecord}
    (hs : Sound (h ++ [(path, t)])) (hFree : c.name ∉ Table.names (classes h)) :
    (registry (h ++ [(path, t)])).place path c =
      registry (h ++ [(path, t.assign c.name c)]) := by
  have hPath : path ∉ Table.names h := by
    have := hs.distinctPaths
    rw [Table.names_append, List.nodup_append] at this
    exact fun hMem => this.2.2 path hMem path List.mem_cons_self rfl
  -- the file stands last and only there, so each table changes at its end
  have hOwned : (registry (h ++ [(path, t)])).owned path = Table.names t := by
    rw [owned_registry, Table.lookup_append_of_not_mem _ hPath, List.lookup_cons_self]
    rfl
  have hNames : (if (Table.names t).contains c.name then Table.names t
      else Table.names t ++ [c.name]) = Table.names (t.assign c.name c) := by
    rw [Table.names_assign]
    simp
  have hSources : (registry (h ++ [(path, t)])).sources.assign path
      (Table.names (t.assign c.name c)) =
        (registry (h ++ [(path, t.assign c.name c)])).sources := by
    have hFront : path ∉ Table.names (registry h).sources := by
      rw [show Table.names (registry h).sources = (registry h).paths from rfl, paths_registry]
      exact hPath
    rw [sources_registry_append, sources_registry_append,
      Table.assign_append_of_not_mem _ _ hFront]
    simp [Table.assign, registry]
  have hClasses : (registry (h ++ [(path, t)])).classes.assign c.name c =
      (registry (h ++ [(path, t.assign c.name c)])).classes := by
    show Table.assign c.name c (classes (h ++ [(path, t)])) = classes (h ++ [_])
    rw [classes_append, classes_append, classes_singleton, classes_singleton,
      Table.assign_append_of_not_mem _ _ hFree]
  unfold Registry.place
  simp only [hOwned, hNames, hSources, hClasses]

/-- A class whose name is free goes to the last file. -/
theorem claim_of_free {h : Holdings} {path : Text} {t : Table ClassRecord} {c : ClassRecord}
    (hs : Sound (h ++ [(path, t)])) (hFree : c.name ∉ Table.names (classes h)) :
    Registry.claim path c (registry (h ++ [(path, t)])) =
      ⟨registry (h ++ [(path, t.assign c.name c)]), [], .ok ()⟩ := by
  have hLookup : (registry (h ++ [(path, t)])).record? c.name = t.lookup c.name := by
    rw [record?_registry, classes_append, classes_singleton,
      Table.lookup_append_of_not_mem _ hFree]
  rw [Registry.claim, Action.state_bind, hLookup]
  cases hFound : t.lookup c.name with
  | none =>
    show Action.update _ _ = _
    rw [Action.update_apply, registry_place hs hFree]
  | some previous =>
    -- a class of the same file gives way
    have hMem : (c.name, previous) ∈ t := by
      have hDistinct := hs.distinctClasses
      rw [classes_append, classes_singleton, Table.names_append, List.nodup_append] at hDistinct
      exact (Table.lookup_eq_some_iff_mem hDistinct.2.1).mp hFound
    have hOwn : previous.path = path :=
      (hs.placed path t (List.mem_append_right _ List.mem_cons_self) _ _ hMem).2
    show (if previous.path = path then _ else _ : Action _ _ _) _ = _
    rw [if_pos hOwn, Action.update_apply, registry_place hs hFree]

/-- A class whose name another file has is refused, and changes nothing. -/
theorem claim_of_taken {h : Holdings} {path : Text} {t : Table ClassRecord} {c : ClassRecord}
    (hs : Sound (h ++ [(path, t)])) (hTaken : c.name ∈ Table.names (classes h)) :
    ∃ holder u, (holder, u) ∈ h ∧ c.name ∈ Table.names u ∧
      Registry.claim path c (registry (h ++ [(path, t)])) =
        ⟨registry (h ++ [(path, t)]), [], .error (.duplicate c.name holder path)⟩ := by
  obtain ⟨previous, hMem⟩ := Table.mem_names.mp hTaken
  obtain ⟨⟨holder, u⟩, hFile, hMem⟩ := List.mem_flatMap.mp hMem
  have hFile' : (holder, u) ∈ h ++ [(path, t)] := List.mem_append_left _ hFile
  refine ⟨holder, u, hFile, Table.mem_names.mpr ⟨previous, hMem⟩, ?_⟩
  have hLookup : (registry (h ++ [(path, t)])).record? c.name = some previous := by
    rw [record?_registry]
    apply (Table.lookup_eq_some_iff_mem hs.distinctClasses).mpr
    exact List.mem_flatMap.mpr ⟨(holder, u), hFile', hMem⟩
  have hHolder : previous.path = holder := (hs.placed holder u hFile' _ _ hMem).2
  have hOther : previous.path ≠ path := by
    have hDistinct := hs.distinctPaths
    rw [Table.names_append, List.nodup_append] at hDistinct
    rw [hHolder]
    exact fun e => hDistinct.2.2 holder (Table.mem_names.mpr ⟨u, hFile⟩) path
      List.mem_cons_self e
  rw [Registry.claim, Action.state_bind, hLookup]
  show (if previous.path = path then _ else _ : Action _ _ _) _ = _
  rw [if_neg hOther, Action.fail_apply, hHolder]

/-- Classes whose names are free all go to the last file, by induction on their number. -/
theorem forEach_claim_of_free {h : Holdings} {path : Text} {cs : List ClassRecord}
    {t : Table ClassRecord} (hs : Sound (h ++ [(path, t)])) (hcs : ∀ c ∈ cs, c.path = path)
    (hFree : ∀ c ∈ cs, c.name ∉ Table.names (classes h)) :
    Action.forEach (Registry.claim path) cs (registry (h ++ [(path, t)])) =
      ⟨registry (h ++ [(path, gather t cs)]), [], .ok ()⟩ := by
  induction cs generalizing t with
  | nil => rfl
  | cons c cs ih =>
    have hClaim := claim_of_free hs (hFree c List.mem_cons_self)
    have hs' := hs.assign (hcs c List.mem_cons_self) (hFree c List.mem_cons_self)
    have hRest := ih hs' (fun d hd => hcs d (List.mem_cons_of_mem _ hd))
      (fun d hd => hFree d (List.mem_cons_of_mem _ hd))
    rw [Action.forEach_cons, Action.bind_of_ok (a := ()) (by rw [hClaim]), hClaim]
    simp only [hRest, List.nil_append]
    rfl

/-- Classes are claimed up to the first one whose name another file has. -/
theorem forEach_claim_of_taken {h : Holdings} {path : Text} {before : List ClassRecord}
    {c : ClassRecord} {t : Table ClassRecord} (after : List ClassRecord)
    (hs : Sound (h ++ [(path, t)])) (hcs : ∀ d ∈ before, d.path = path)
    (hFree : ∀ d ∈ before, d.name ∉ Table.names (classes h))
    (hTaken : c.name ∈ Table.names (classes h)) :
    ∃ holder u, (holder, u) ∈ h ∧ c.name ∈ Table.names u ∧
      Action.forEach (Registry.claim path) (before ++ c :: after) (registry (h ++ [(path, t)])) =
        ⟨registry (h ++ [(path, gather t before)]), [],
          .error (.duplicate c.name holder path)⟩ := by
  have hBefore := forEach_claim_of_free hs hcs hFree
  obtain ⟨holder, u, hFile, hName, hClaim⟩ := claim_of_taken (hs.gather hcs hFree) hTaken
  refine ⟨holder, u, hFile, hName, ?_⟩
  rw [Action.forEach_append, Action.bind_of_ok (a := ()) (by rw [hBefore]), hBefore]
  simp only [Action.forEach_cons, List.nil_append]
  rw [Action.bind_of_error (by rw [hClaim]), hClaim]

end Holdings

-- ---------------------------------------------------------------------------
-- What a file defines
-- ---------------------------------------------------------------------------

namespace ClassRecord

theorem withSection_path (r : ClassRecord) (s : Section) (value : Node) :
    (r.withSection s value).path = r.path := by
  cases s <;> rfl

/-- No entry of a class body changes the file of the class. -/
theorem withEntry_path (r : ClassRecord) (entry : Node × Node) :
    (r.withEntry entry).path = r.path := by
  unfold withEntry
  split
  · exact withSection_path r _ _
  · rfl

/-- The record of a class keeps the path it is made with. -/
theorem ofDefinition_path (path name : Text) (body : Node) :
    (ofDefinition path name body).path = path := by
  have hFold : ∀ (entries : List (Node × Node)) (r : ClassRecord),
      (entries.foldl withEntry r).path = r.path := by
    intro entries
    induction entries with
    | nil => intro r; rfl
    | cons entry entries ih => intro r; rw [List.foldl_cons, ih, withEntry_path]
  exact hFold body.entries _

end ClassRecord

/-- The classes of a program carry the path it was read for. -/
theorem Program.classes_path {defineCalls : List Text} {path : Text} {p : Program}
    {c : ClassRecord} (hc : c ∈ p.classes defineCalls path) : c.path = path := by
  obtain ⟨n, -, hn⟩ := List.mem_filterMap.mp hc
  obtain ⟨⟨name, body⟩, -, rfl⟩ := Option.map_eq_some_iff.mp hn
  exact ClassRecord.ofDefinition_path path name body

/-- The records of a source text carry the path they are read for. -/
theorem classesOfSource_path {defineCalls : List Text} {path source : Text}
    {cs : List ClassRecord} (h : (classesOfSource defineCalls path source).result = .ok cs)
    {c : ClassRecord} (hc : c ∈ cs) : c.path = path := by
  unfold classesOfSource at h
  change (Logged.bind _ _).result = _ at h
  unfold Logged.bind at h
  split at h
  · exact nomatch h
  · rename_i p _
    have hcs : p.classes defineCalls path = cs := Except.ok.inj h
    exact Program.classes_path (hcs ▸ hc)

namespace Registry

/-- What a file defines: nothing if it is missing, its classes if it can be read. -/
def fileClasses (defineCalls : List Text) (fs : FileSystem) (path : Text) :
    Except IndexFailure (Option (List ClassRecord)) :=
  match fs.read path with
  | .error .missing => .ok none
  | .error fault => .error (.file fault path)
  | .ok bytes =>
    match (classesOfSource defineCalls path (Text.unifyLineEnds (Text.decode bytes))).result with
    | .error cause => .error (.source cause)
    | .ok cs => .ok (some cs)

/-- The classes of a file carry the path of the file. -/
theorem fileClasses_path {defineCalls : List Text} {fs : FileSystem} {path : Text}
    {cs : List ClassRecord} (h : fileClasses defineCalls fs path = .ok (some cs))
    {c : ClassRecord} (hc : c ∈ cs) : c.path = path := by
  unfold fileClasses at h
  split at h
  · exact nomatch h
  · exact nomatch h
  · split at h
    · exact nomatch h
    · rename_i ds hRead
      have hds : ds = cs := Option.some.inj (Except.ok.inj h)
      exact classesOfSource_path hRead (hds ▸ hc)

/-- A path is acceptable if it is absolute and normalized. -/
theorem accepts_iff {path : Text} :
    accepts path = true ↔ Path.isAbsolute path = true ∧ Path.normalize path = path := by
  unfold accepts
  rw [Bool.and_eq_true, beq_iff_eq]

/-- Reading a file fails because the file cannot be opened, or because of its text. -/
theorem fileClasses_eq_error {defineCalls : List Text} {fs : FileSystem} {path : Text}
    {e : IndexFailure} (h : fileClasses defineCalls fs path = .error e) :
    (∃ fault, e = .file fault path) ∨ ∃ cause, e = .source cause := by
  unfold fileClasses at h
  split at h
  · exact nomatch h
  · exact Or.inl ⟨_, (Except.error.inj h).symm⟩
  · split at h
    · exact Or.inr ⟨_, (Except.error.inj h).symm⟩
    · exact nomatch h

/-- Reading a file does not meet other files. -/
theorem fileClasses_ne_duplicate (defineCalls : List Text) (fs : FileSystem)
    (path name holder claimant : Text) :
    fileClasses defineCalls fs path ≠ .error (.duplicate name holder claimant) := by
  intro h
  rcases fileClasses_eq_error h with ⟨_, hFile⟩ | ⟨_, hSource⟩
  · exact nomatch hFile
  · exact nomatch hSource

end Registry

namespace Holdings

-- ---------------------------------------------------------------------------
-- Checking a file
-- ---------------------------------------------------------------------------

/-- How checking a file can end, with what is left of the holdings without the file at the start and
what they have become at the end. -/
inductive CheckEnd (path : Text) (rest : Holdings) :
    Except IndexFailure (Option (List ClassRecord)) → Holdings → Except IndexFailure Bool → Prop
  /-- The file cannot be read, or its text has no program. -/
  | unread (e : IndexFailure) : CheckEnd path rest (.error e) rest (.error e)
  | missing : CheckEnd path rest (.ok none) rest (.ok false)
  | indexed (cs : List ClassRecord) (hFree : ∀ c ∈ cs, c.name ∉ Table.names (classes rest)) :
    CheckEnd path rest (.ok (some cs)) (rest ++ [(path, gather [] cs)]) (.ok true)
  /-- Another file holds a class that the file defines. -/
  | clash (before : List ClassRecord) (c : ClassRecord) (after : List ClassRecord)
      (holder : Text) (u : Table ClassRecord)
      (hFree : ∀ d ∈ before, d.name ∉ Table.names (classes rest))
      (hHolder : (holder, u) ∈ rest) (hName : c.name ∈ Table.names u) :
    CheckEnd path rest (.ok (some (before ++ c :: after)))
      (rest ++ [(path, gather [] before)]) (.error (.duplicate c.name holder path))

/-- A list of classes has only free names, or a first class whose name is taken. -/
theorem free_or_taken (rest : Holdings) (cs : List ClassRecord) :
    (∀ c ∈ cs, c.name ∉ Table.names (classes rest)) ∨
      ∃ before c after, cs = before ++ c :: after ∧
        (∀ d ∈ before, d.name ∉ Table.names (classes rest)) ∧
          c.name ∈ Table.names (classes rest) := by
  induction cs with
  | nil => exact Or.inl nofun
  | cons c cs ih =>
    by_cases hc : c.name ∈ Table.names (classes rest)
    · exact Or.inr ⟨[], c, cs, rfl, nofun, hc⟩
    · rcases ih with hFree | ⟨before, d, after, rfl, hFree, hTaken⟩
      · exact Or.inl (List.forall_mem_cons.mpr ⟨hc, hFree⟩)
      · exact Or.inr ⟨c :: before, d, after, rfl, List.forall_mem_cons.mpr ⟨hc, hFree⟩, hTaken⟩

/-- Checking a file drops it, reads it and lets it claim the classes that it defines. -/
theorem check_apply (defineCalls : List Text) (fs : FileSystem) {path : Text}
    (hPath : Registry.accepts path = true) (r : Registry) :
    ∃ notices, Registry.check defineCalls fs path r =
      match Registry.fileClasses defineCalls fs path with
      | .error e => ⟨r.retract path, notices, .error e⟩
      | .ok none => ⟨r.retract path, notices, .ok false⟩
      | .ok (some cs) =>
        let o := Action.forEach (Registry.claim path) cs ((r.retract path).track path)
        ⟨o.state, notices, o.result.map fun _ => true⟩ := by
  rw [Registry.check, if_pos hPath, Action.update_bind]
  unfold Registry.fileClasses
  -- the notices depend on what was read; state and result do not depend on the notices
  cases hRead : fs.read path with
  | error fault =>
    cases fault with
    | missing => exact ⟨_, rfl⟩
    | _ => exact ⟨_, rfl⟩
  | ok bytes =>
    simp only
    cases hSource : (classesOfSource defineCalls path
        (Text.unifyLineEnds (Text.decode bytes))).result with
    | error cause =>
      rw [Action.ofLogged_bind_of_error hSource]
      exact ⟨_, rfl⟩
    | ok cs =>
      rw [Action.ofLogged_bind_of_ok hSource, Action.update_bind]
      cases hClaims : (Action.forEach (Registry.claim path) cs
          ((r.retract path).track path)).result with
      | error e =>
        rw [Action.bind_of_error hClaims]
        simp only [hClaims]
        exact ⟨_, rfl⟩
      | ok u =>
        rw [Action.bind_of_ok hClaims]
        simp only [hClaims]
        exact ⟨_, rfl⟩

/-- **All that checking a file can do.** -/
theorem check_cases {defineCalls : List Text} {fs : FileSystem} {path : Text} {h : Holdings}
    (hs : Sound h) (hPath : Registry.accepts path = true) :
    ∃ h', Sound h' ∧
      (Registry.check defineCalls fs path (registry h)).state = registry h' ∧
      CheckEnd path (h.remove path) (Registry.fileClasses defineCalls fs path) h'
        (Registry.check defineCalls fs path (registry h)).result := by
  obtain ⟨notices, hCheck⟩ := check_apply defineCalls fs hPath (registry h)
  have hRest : Sound (h.remove path) := hs.remove path
  have hNew : path ∉ Table.names (h.remove path) := Table.not_mem_names_remove path h
  rw [hCheck, registry_retract hs path]
  cases hFile : Registry.fileClasses defineCalls fs path with
  | error e => exact ⟨_, hRest, rfl, .unread e⟩
  | ok found =>
    cases found with
    | none => exact ⟨_, hRest, rfl, .missing⟩
    | some cs =>
      have hcs : ∀ c ∈ cs, c.path = path := fun c hc => Registry.fileClasses_path hFile hc
      simp only [registry_track hNew]
      -- either all names are free, or there is a first one that another file has
      rcases free_or_taken (h.remove path) cs with hFree | ⟨before, c, after, rfl, hFree, hTaken⟩
      · refine ⟨_, (hRest.track hNew).gather hcs hFree, ?_, ?_⟩
        · rw [forEach_claim_of_free (hRest.track hNew) hcs hFree]
        · rw [forEach_claim_of_free (hRest.track hNew) hcs hFree]
          exact .indexed cs hFree
      · have hBefore : ∀ d ∈ before, d.path = path :=
          fun d hd => hcs d (List.mem_append_left _ hd)
        obtain ⟨holder, u, hHolder, hName, hClaims⟩ :=
          forEach_claim_of_taken after (hRest.track hNew) hBefore hFree hTaken
        refine ⟨_, (hRest.track hNew).gather hBefore hFree, ?_, ?_⟩
        · rw [hClaims]
        · rw [hClaims]
          exact .clash before c after holder u hFree hHolder hName

/-- A path of the wrong form is refused, and nothing changes. -/
theorem check_of_not_accepts {defineCalls : List Text} {fs : FileSystem} {path : Text}
    (hPath : Registry.accepts path = false) (r : Registry) :
    Registry.check defineCalls fs path r = ⟨r, [], .error (.pathForm path)⟩ := by
  rw [Registry.check, hPath]
  rfl

end Holdings

end ClassTags
