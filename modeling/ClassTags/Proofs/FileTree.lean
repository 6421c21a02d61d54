import ClassTags.FileSystem.Edit
import ClassTags.Index.Indexer
import ClassTags.Proofs.Path
import ClassTags.Proofs.Table
import Mathlib.Algebra.Order.BigOperators.Group.List
import Mathlib.Algebra.Order.Ring.Nat

/-!
# File systems as trees

A file system promises that the names in a directory are distinct, and that each of them is a name:
not empty, without slashes, and neither of the two dots. File systems that keep this promise are
**well named**. In them a path into a directory leads to what the directory has under the name, and
below something that is no directory there is nothing.

Main results:

* `FileSystem.WellNamed`, `FileSystem.list_wellNamed` — what is promised of a listing;
* `FileSystem.Named` — the part of the promise that keeps paths normalized;
* `FileSystem.resolve_join` — one step down the tree;
* `FileSystem.resolve_below` — below something that is no directory there is nothing;
* `FileSystem.weight_children` — a directory weighs more than all that is in it.
-/

namespace ClassTags

mutual

/-- Whether the names in an entry and in all below it are distinct names. -/
def Entry.wellNamed : Entry → Bool
  | .directory entries => decide (Table.names entries).Nodup && Entry.wellNamedAll entries
  | _ => true

/-- Whether some entries have names and are well named themselves. -/
def Entry.wellNamedAll : List (Text × Entry) → Bool
  | [] => true
  | (n, e) :: entries => decide (Path.IsName n) && e.wellNamed && Entry.wellNamedAll entries

end

namespace Entry

/-- The entries of a directory are well named if each of them is. -/
theorem wellNamedAll_iff {entries : List (Text × Entry)} :
    wellNamedAll entries = true ↔ ∀ n e, (n, e) ∈ entries → Path.IsName n ∧ e.wellNamed = true := by
  induction entries with
  | nil => simp [wellNamedAll]
  | cons entry entries ih =>
    obtain ⟨n, e⟩ := entry
    rw [wellNamedAll, Bool.and_eq_true, Bool.and_eq_true, decide_eq_true_eq, ih]
    constructor
    · rintro ⟨⟨hName, hEntry⟩, hRest⟩ m f hMem
      rcases List.mem_cons.mp hMem with hEq | hMem
      · obtain ⟨rfl, rfl⟩ := Prod.mk.inj hEq
        exact ⟨hName, hEntry⟩
      · exact hRest m f hMem
    · intro h
      have hFirst := h n e List.mem_cons_self
      exact ⟨hFirst, fun m f hMem => h m f (List.mem_cons_of_mem _ hMem)⟩

/-- A directory is well named if no name stands twice and each entry is well named. -/
theorem wellNamed_directory_iff {entries : List (Text × Entry)} :
    (directory entries).wellNamed = true ↔
      (Table.names entries).Nodup ∧
        ∀ n e, (n, e) ∈ entries → Path.IsName n ∧ e.wellNamed = true := by
  rw [wellNamed, Bool.and_eq_true, decide_eq_true_eq, wellNamedAll_iff]

theorem mem_of_lookup {n : Text} {e : Entry} {entries : List (Text × Entry)}
    (h : (directory entries).wellNamed = true) (hLookup : entries.lookup n = some e) :
    (n, e) ∈ entries :=
  (Table.lookup_eq_some_iff_mem (wellNamed_directory_iff.mp h).1).mp hLookup

theorem wellNamed_of_lookup {n : Text} {e : Entry} {entries : List (Text × Entry)}
    (h : (directory entries).wellNamed = true) (hLookup : entries.lookup n = some e) :
    e.wellNamed = true :=
  ((wellNamed_directory_iff.mp h).2 n e (mem_of_lookup h hLookup)).2

/-- The size of a directory is the sum of the sizes of its entries. -/
theorem sizeAll_eq_sum (entries : List (Text × Entry)) :
    sizeAll entries = (entries.map fun entry => entry.2.size).sum := by
  induction entries with
  | nil => rfl
  | cons entry entries ih => rw [sizeAll, ih, List.map_cons, List.sum_cons]

theorem size_pos (e : Entry) : 0 < e.size := by
  cases e <;> simp [size]

/-- An entry is smaller than its directory. -/
theorem size_lt_of_mem {n : Text} {e : Entry} {entries : List (Text × Entry)}
    (h : (n, e) ∈ entries) : e.size < (directory entries).size := by
  have hLe : e.size ≤ (entries.map fun entry => entry.2.size).sum :=
    List.single_le_sum (fun _ _ => Nat.zero_le _) _ (List.mem_map.mpr ⟨(n, e), h, rfl⟩)
  rw [size, sizeAll_eq_sum]
  omega

end Entry

namespace FileSystem

/-- The names in every directory are distinct names. -/
def WellNamed (fs : FileSystem) : Prop := (Entry.directory fs.root).wellNamed = true

instance : DecidablePred WellNamed := fun _ => inferInstanceAs (Decidable (_ = _))

variable {fs : FileSystem}

-- ---------------------------------------------------------------------------
-- Down the tree
-- ---------------------------------------------------------------------------

/-- A way is the way to its first part, and then on from there. -/
theorem walk_append (here : List Text) (e : Entry) (cs ds : List Text) :
    fs.walk here e (cs ++ ds) =
      (fs.walk here e cs).bind fun e' => fs.walk (here ++ cs) e' ds := by
  induction cs generalizing here e with
  | nil =>
    rw [List.nil_append, List.append_nil]
    cases e with
    | ghost | barred => cases ds <;> rfl
    | _ => rfl
  | cons c cs ih =>
    cases e with
    | directory entries =>
      rw [List.cons_append, walk, walk]
      split
      · rfl
      · cases List.lookup c entries with
        | none => rfl
        | some child =>
          rw [show here ++ c :: cs = (here ++ [c]) ++ cs by simp]
          exact ih (here ++ [c]) child
    | _ => rfl

/-- A way of one name or more leads through a directory. -/
theorem walk_cons_eq_ok {here cs : List Text} {c : Text} {e e' : Entry}
    (h : fs.walk here e (c :: cs) = .ok e') :
    ∃ entries child, e = .directory entries ∧ List.lookup c entries = some child ∧
      fs.walk (here ++ [c]) child cs = .ok e' := by
  cases e with
  | directory entries =>
    rw [walk] at h
    split at h
    · exact nomatch h
    · cases hLookup : List.lookup c entries with
      | none =>
        rw [hLookup] at h
        exact nomatch h
      | some child =>
        rw [hLookup] at h
        exact ⟨entries, child, rfl, hLookup, h⟩
  | _ => exact nomatch h

/-- What passes from a directory to its entries holds at the end of a way. -/
theorem walk_keeps {P : Entry → Prop} {here cs : List Text} {e e' : Entry}
    (hStep : ∀ entries, P (.directory entries) →
      ∀ c child, List.lookup c entries = some child → P child)
    (he : P e) (h : fs.walk here e cs = .ok e') : P e' := by
  induction cs generalizing here e with
  | nil =>
    cases e with
    | ghost | barred => exact nomatch h
    | _ => exact Except.ok.inj h ▸ he
  | cons c cs ih =>
    obtain ⟨entries, child, rfl, hLookup, hRest⟩ := walk_cons_eq_ok h
    exact ih (hStep entries he c child hLookup) hRest

/-- What is found where an entry may stand. -/
def standing : Option Entry → Except Fault Entry
  | none | some .ghost => .error .missing
  | some .barred => .error .denied
  | some e => .ok e

/-- A name that is joined to a path becomes its last component. -/
theorem components_join {n : Text} (dir : Text) (hn : Path.IsName n) :
    Path.components (Path.join dir n) = Path.components dir ++ [n] := by
  have hRelative : ¬ Path.isAbsolute n = true := by simp [Path.not_isAbsolute_of_isName hn]
  unfold Path.join
  rw [if_neg hRelative]
  split
  · rename_i hEnd
    rcases List.eq_nil_or_concat dir with rfl | ⟨front, last, rfl⟩
    · rw [List.nil_append, Path.components_name hn, Path.components_nil]
      rfl
    · have hLast : last = Path.separator := by simpa using hEnd
      subst hLast
      rw [List.concat_eq_append, List.append_assoc, List.singleton_append,
        Path.components_append_cons, Path.components_append_cons, Path.components_name hn,
        Path.components_nil, List.append_nil]
  · rw [Path.components_append_cons, Path.components_name hn]

/-- One step down the tree. -/
theorem resolve_join {n : Text} (dir : Text) (hn : Path.IsName n) :
    fs.resolve (Path.join dir n) =
      (fs.resolve dir).bind fun e => fs.walk (Path.components dir) e [n] := by
  unfold resolve
  rw [components_join dir hn, walk_append, List.nil_append]

/-- What a directory that can be listed has under a name. -/
theorem list_eq_ok {dir : Text} {names : List Text} :
    fs.list dir = .ok names ↔
      ∃ entries, fs.resolve dir = .ok (.directory entries) ∧ fs.isDenied dir = false ∧
        names = Table.names entries := by
  unfold list
  cases hResolve : fs.resolve dir with
  | error fault =>
    constructor
    · exact nofun
    · rintro ⟨_, h, -⟩
      exact nomatch h
  | ok e =>
    cases e with
    | directory entries =>
      show (if fs.isDenied dir = true then (.error .denied : Except Fault (List Text))
        else .ok (Table.names entries)) = .ok names ↔ _
      cases hDenied : fs.isDenied dir with
      | true => simp
      | false =>
        simp only [Bool.false_eq_true, if_false, Except.ok.injEq, Entry.directory.injEq, true_and]
        constructor
        · rintro rfl
          exact ⟨entries, rfl, rfl⟩
        · rintro ⟨_, rfl, rfl⟩
          rfl
    | _ =>
      constructor
      · exact nofun
      · rintro ⟨_, h, -⟩
        exact nomatch h

/-- In a directory that can be listed, a name leads to what stands there. -/
theorem resolve_join_of_list {dir n : Text} {entries : List (Text × Entry)} (hn : Path.IsName n)
    (hDir : fs.resolve dir = .ok (.directory entries)) (hOpen : fs.isDenied dir = false) :
    fs.resolve (Path.join dir n) = standing (entries.lookup n) := by
  rw [resolve_join dir hn, hDir]
  show fs.walk (Path.components dir) (.directory entries) [n] = _
  unfold isDenied at hOpen
  rw [walk, hOpen]
  cases entries.lookup n with
  | none => rfl
  | some child => cases child <;> rfl

-- ---------------------------------------------------------------------------
-- Listings
-- ---------------------------------------------------------------------------

/-- A walk in a well-named file system ends at something well named. -/
theorem walk_wellNamed {here : List Text} {e e' : Entry} {cs : List Text}
    (he : e.wellNamed = true) (h : fs.walk here e cs = .ok e') : e'.wellNamed = true :=
  walk_keeps (P := fun e => e.wellNamed = true)
    (fun _ hDir _ _ hLookup => Entry.wellNamed_of_lookup hDir hLookup) he h

/-- What is promised of a listing. -/
theorem list_wellNamed (hfs : fs.WellNamed) {dir : Text} {names : List Text}
    (h : fs.list dir = .ok names) : names.Nodup ∧ ∀ n ∈ names, Path.IsName n := by
  obtain ⟨entries, hResolve, -, rfl⟩ := list_eq_ok.mp h
  have hDir := walk_wellNamed hfs hResolve
  obtain ⟨hDistinct, hEntries⟩ := Entry.wellNamed_directory_iff.mp hDir
  refine ⟨hDistinct, ?_⟩
  intro n hn
  obtain ⟨e, he⟩ := Table.mem_names.mp hn
  exact (hEntries n e he).1

/-- Whatever is listed is a name. -/
def Named (fs : FileSystem) : Prop :=
  ∀ dir names, fs.list dir = .ok names → ∀ n ∈ names, Path.IsName n

/-- In a well-named file system directories list names only. -/
theorem WellNamed.named (hfs : fs.WellNamed) : fs.Named :=
  fun _ _ hList => (list_wellNamed hfs hList).2

/-- A path has the kind of the entry to which it leads. -/
theorem kind_eq_ok {path : Text} {k : EntryKind} :
    fs.kind path = .ok k ↔ ∃ e, fs.resolve path = .ok e ∧ e.kind = k := by
  unfold kind
  cases fs.resolve path with
  | error fault =>
    constructor
    · exact nofun
    · rintro ⟨_, h, -⟩
      exact nomatch h
  | ok e =>
    constructor
    · intro h
      exact ⟨e, rfl, Except.ok.inj h⟩
    · rintro ⟨_, h, rfl⟩
      rw [Except.ok.inj h]
      rfl

/-- A path of the kind of directories leads to one. -/
theorem resolve_of_kind_directory {path : Text} (h : fs.kind path = .ok .directory) :
    ∃ entries, fs.resolve path = .ok (.directory entries) := by
  obtain ⟨e, hResolve, hKind⟩ := kind_eq_ok.mp h
  cases e with
  | directory entries => exact ⟨entries, hResolve⟩
  | _ => exact nomatch hKind

/-- A path of the kind of files leads to one. -/
theorem resolve_of_kind_file {path : Text} (h : fs.kind path = .ok .file) :
    ∃ bytes, fs.resolve path = .ok (.file bytes) := by
  obtain ⟨e, hResolve, hKind⟩ := kind_eq_ok.mp h
  cases e with
  | file bytes => exact ⟨bytes, hResolve⟩
  | _ => exact nomatch hKind

/-- What is not in the listing of a directory is missing. -/
theorem kind_join_of_not_mem {dir n : Text} {names : List Text} (hn : Path.IsName n)
    (hList : fs.list dir = .ok names) (hNot : n ∉ names) :
    fs.kind (Path.join dir n) = .error .missing := by
  obtain ⟨entries, hDir, hOpen, rfl⟩ := list_eq_ok.mp hList
  unfold kind
  rw [resolve_join_of_list hn hDir hOpen, Table.lookup_eq_none_iff_not_mem.mpr hNot]
  rfl

/-- What a directory has is in its listing. -/
theorem mem_of_kind_join {dir n : Text} {names : List Text} {k : EntryKind} (hn : Path.IsName n)
    (hList : fs.list dir = .ok names) (hKind : fs.kind (Path.join dir n) = .ok k) : n ∈ names := by
  by_contra hNot
  exact nomatch hKind.symm.trans (kind_join_of_not_mem hn hList hNot)

theorem isDirectory_iff {path : Text} : fs.isDirectory path = true ↔ fs.kind path = .ok .directory := by
  unfold isDirectory
  split
  · exact iff_of_true rfl ‹_›
  · exact iff_of_false nofun ‹_›

/-- A directory that is there can be listed, or is denied. -/
theorem list_ne_missing {dir : Text} (h : fs.kind dir = .ok .directory) :
    fs.list dir ≠ .error .missing := by
  obtain ⟨entries, hResolve⟩ := resolve_of_kind_directory h
  unfold list
  rw [hResolve]
  show (if fs.isDenied dir = true then (.error .denied : Except Fault (List Text))
    else .ok (Table.names entries)) ≠ _
  split <;> simp

theorem kind_of_list {dir : Text} {names : List Text} (h : fs.list dir = .ok names) :
    fs.kind dir = .ok .directory := by
  obtain ⟨entries, hResolve, -⟩ := list_eq_ok.mp h
  exact kind_eq_ok.mpr ⟨_, hResolve, rfl⟩

/-- There is a directory at the root. -/
theorem kind_root {b : Path.Base} (h : b.names = []) : fs.kind (b.path []) = .ok .directory := by
  have hResolve : fs.resolve (b.path []) = .ok (.directory fs.root) := by
    unfold resolve
    rw [b.components_path, h]
    rfl
  exact kind_eq_ok.mpr ⟨_, hResolve, rfl⟩

-- ---------------------------------------------------------------------------
-- Where there is nothing
-- ---------------------------------------------------------------------------

/-- What lies below a path is found from what the path leads to. -/
theorem resolve_append {b : Path.Base} (ns ms : List Path.Name) :
    fs.resolve (b.path (ns ++ ms)) =
      (fs.resolve (b.path ns)).bind fun e =>
        fs.walk (Path.components (b.path ns)) e (ms.map Subtype.val) := by
  unfold resolve
  rw [b.components_path, b.components_path, ← List.append_assoc, List.map_append, walk_append,
    List.nil_append]

/-- Below something that is no directory there is nothing. -/
theorem resolve_below {b : Path.Base} {ns ms : List Path.Name} (hms : ms ≠ [])
    (hGone : fs.kind (b.path ns) ≠ .ok .directory) :
    ∃ fault, fs.resolve (b.path (ns ++ ms)) = .error fault := by
  obtain ⟨m, ms, rfl⟩ := List.exists_cons_of_ne_nil hms
  rw [resolve_append]
  cases hResolve : fs.resolve (b.path ns) with
  | error fault => exact ⟨fault, rfl⟩
  | ok e =>
    cases e with
    | directory entries => exact absurd (kind_eq_ok.mpr ⟨_, hResolve, rfl⟩) hGone
    | ghost => exact ⟨.missing, rfl⟩
    | barred => exact ⟨.denied, rfl⟩
    | _ => exact ⟨.notDirectory, rfl⟩

/-- What cannot be reached has no kind. -/
theorem kind_of_resolve_error {path : Text} {fault : Fault}
    (h : fs.resolve path = .error fault) : fs.kind path = .error fault := by
  unfold kind
  rw [h]
  rfl

/-- Above what is there, there are directories. -/
theorem kind_above {b : Path.Base} {ns ms : List Path.Name} {k : EntryKind} (hms : ms ≠ [])
    (h : fs.kind (b.path (ns ++ ms)) = .ok k) : fs.kind (b.path ns) = .ok .directory := by
  by_contra hGone
  obtain ⟨fault, hResolve⟩ := resolve_below hms hGone
  rw [kind_of_resolve_error hResolve] at h
  exact nomatch h

/-- Above a directory there are directories. -/
theorem kind_directory_above {b : Path.Base} {ns ms : List Path.Name}
    (h : fs.kind (b.path (ns ++ ms)) = .ok .directory) : fs.kind (b.path ns) = .ok .directory := by
  by_cases hms : ms = []
  · rwa [hms, List.append_nil] at h
  · exact kind_above hms h

/-- What is missing when it is listed is missing altogether. -/
theorem resolve_of_list_missing {dir : Text} (hMissing : fs.list dir = .error .missing) :
    fs.resolve dir = .error .missing := by
  unfold list at hMissing
  cases hResolve : fs.resolve dir with
  | error fault =>
    rw [hResolve] at hMissing
    rw [Except.error.inj hMissing]
  | ok e =>
    rw [hResolve] at hMissing
    cases e with
    | directory entries =>
      change (if fs.isDenied _ = true then (.error .denied : Except Fault (List Text))
        else .ok (Table.names entries)) = _ at hMissing
      split at hMissing <;> exact nomatch hMissing
    | _ => exact nomatch hMissing

/-- All below a missing directory is missing. -/
theorem resolve_below_missing {b : Path.Base} {ns : List Path.Name} (ms : List Path.Name)
    (hMissing : fs.list (b.path ns) = .error .missing) :
    fs.resolve (b.path (ns ++ ms)) = .error .missing := by
  rw [resolve_append, resolve_of_list_missing hMissing]
  rfl

/-- A file that is there is not missing. -/
theorem read_ne_missing {path : Text} (h : fs.kind path = .ok .file) :
    fs.read path ≠ .error .missing := by
  obtain ⟨bytes, hResolve⟩ := resolve_of_kind_file h
  unfold read
  rw [hResolve]
  show (if fs.isDenied path = true then (.error .denied : Except Fault (List UInt8))
    else .ok bytes) ≠ _
  split <;> simp

/-- What can be read is there, and is no directory. It need not be a regular file. -/
theorem kind_of_read {path : Text} {bytes : List UInt8} (h : fs.read path = .ok bytes) :
    ∃ k, fs.kind path = .ok k ∧ k ≠ .directory := by
  unfold read at h
  cases hResolve : fs.resolve path with
  | error fault =>
    rw [hResolve] at h
    exact nomatch h
  | ok e =>
    rw [hResolve] at h
    cases e with
    | directory entries => exact nomatch h
    | _ => exact ⟨_, kind_eq_ok.mpr ⟨_, hResolve, rfl⟩, nofun⟩

-- ---------------------------------------------------------------------------
-- Weights
-- ---------------------------------------------------------------------------

/-- How many entries there are at a path and below it. A path that leads nowhere counts as one. -/
def weight (fs : FileSystem) (path : Text) : Nat :=
  match fs.resolve path with
  | .ok e => e.size
  | .error _ => 1

theorem weight_pos (path : Text) : 0 < fs.weight path := by
  unfold weight
  split
  · exact Entry.size_pos _
  · exact Nat.one_pos

/-- A walk never leads to something larger. -/
theorem walk_size_le {here : List Text} {e e' : Entry} {cs : List Text}
    (he : e.wellNamed = true) (h : fs.walk here e cs = .ok e') : e'.size ≤ e.size := by
  refine (walk_keeps (P := fun e' => e'.wellNamed = true ∧ e'.size ≤ e.size) ?_
    ⟨he, Nat.le_refl _⟩ h).2
  rintro entries ⟨hDir, hLe⟩ c child hLookup
  have hLt := Entry.size_lt_of_mem (Entry.mem_of_lookup hDir hLookup)
  exact ⟨Entry.wellNamed_of_lookup hDir hLookup, by omega⟩

/-- No path weighs more than the file system. -/
theorem weight_le_size (hfs : fs.WellNamed) (path : Text) : fs.weight path ≤ fs.size := by
  unfold weight
  split
  · rename_i e hResolve
    exact walk_size_le hfs hResolve
  · unfold size
    omega

/-- A directory weighs more than all that is in it. -/
theorem weight_children (hfs : fs.WellNamed) {dir : Text} {names : List Text}
    (hList : fs.list dir = .ok names) :
    (names.map fun n => fs.weight (Path.join dir n)).sum < fs.weight dir := by
  have hNames := (list_wellNamed hfs hList).2
  obtain ⟨entries, hDir, hOpen, rfl⟩ := list_eq_ok.mp hList
  obtain ⟨hDistinct, -⟩ := Entry.wellNamed_directory_iff.mp (walk_wellNamed hfs hDir)
  have hEach : ∀ entry ∈ entries, fs.weight (Path.join dir entry.1) = entry.2.size := by
    rintro ⟨n, e⟩ hMem
    have hn : Path.IsName n := hNames n (Table.mem_names.mpr ⟨e, hMem⟩)
    have hLookup := (Table.lookup_eq_some_iff_mem hDistinct).mpr hMem
    unfold weight
    rw [resolve_join_of_list hn hDir hOpen, hLookup]
    cases e <;> rfl
  have hSum : ((Table.names entries).map fun n => fs.weight (Path.join dir n)).sum =
      (entries.map fun entry => entry.2.size).sum := by
    rw [Table.names, List.map_map]
    congr 1
    exact List.map_congr_left hEach
  have hDirWeight : fs.weight dir = Entry.sizeAll entries + 1 := by
    unfold weight
    rw [hDir]
    rfl
  rw [hSum, hDirWeight, Entry.sizeAll_eq_sum]
  omega

end FileSystem

end ClassTags
