import ClassTags.Proofs.FileTree

/-!
# One entry is replaced

When something else is put in the place of an entry, or nothing, all other paths lead where they led
before. A directory above the place is still a directory, though it is not the same; what was below
the place is gone.

Main definitions:

* `FileSystem.Replaced` — two trees that differ in one place;
* `FileSystem.Replacement` — two file systems that differ in one place;
* `FileSystem.replaceAt` — a file system with something else at a path, or nothing.

Main results:

* `FileSystem.replacement_replaceAt` — putting and removing make no difference anywhere else;
* `FileSystem.Replacement.kind_eq`, `FileSystem.Replacement.read_eq`,
  `FileSystem.Replacement.list_ok` — elsewhere all is as before;
* `FileSystem.Replacement.resolve_at` — what is there now;
* `FileSystem.read_below_missing`, `FileSystem.read_below_other` — why nothing below can be read.
-/

namespace ClassTags

namespace Entry

variable {t : Table Entry} {e : Entry} {n : Text}

/-- A directory stays well named with an entry replaced or added. -/
theorem wellNamed_assign (ht : (directory t).wellNamed = true) (hn : Path.IsName n)
    (he : e.wellNamed = true) : (directory (t.assign n e)).wellNamed = true := by
  rw [wellNamed_directory_iff] at ht ⊢
  refine ⟨Table.nodup_names_assign ht.1, fun m f hMem => ?_⟩
  rcases Table.mem_assign hMem with hOld | hNew
  · exact ht.2 m f hOld
  · obtain ⟨rfl, rfl⟩ := Prod.mk.inj hNew
    exact ⟨hn, he⟩

/-- A directory stays well named without an entry. -/
theorem wellNamed_remove (ht : (directory t).wellNamed = true) :
    (directory (t.remove n)).wellNamed = true := by
  rw [wellNamed_directory_iff] at ht ⊢
  refine ⟨?_, fun m f hMem => ht.2 m f (List.mem_of_mem_filter hMem)⟩
  rw [Table.names_remove]
  exact ht.1.filter _

theorem wellNamed_of_kind (h : e.kind ≠ .directory) : e.wellNamed = true := by
  cases e with
  | directory entries => exact absurd rfl h
  | _ => rfl

end Entry

namespace FileSystem

-- ---------------------------------------------------------------------------
-- Trees that differ in one place
-- ---------------------------------------------------------------------------

/-- The tables are the same but for the place that some names lead to. There the second has the new
entry, if there is one. -/
inductive Replaced (new : Option Entry) : List Text → Table Entry → Table Entry → Prop
  | last {n : Text} {t t' : Table Entry} (hNew : t'.lookup n = new)
      (hOthers : ∀ m, m ≠ n → t'.lookup m = t.lookup m) : Replaced new [n] t t'
  | inside {n : Text} {cs : List Text} {t t' inner inner' : Table Entry}
      (hOld : t.lookup n = some (.directory inner)) (hNew : t'.lookup n = some (.directory inner'))
      (hOthers : ∀ m, m ≠ n → t'.lookup m = t.lookup m) (hInside : Replaced new cs inner inner') :
    Replaced new (n :: cs) t t'

/-- The answers are the same, or both are directories. -/
def Alike (a a' : Except Fault Entry) : Prop :=
  a' = a ∨ ∃ t t', a = .ok (.directory t) ∧ a' = .ok (.directory t')

variable {fs fs' : FileSystem} {new : Option Entry} {cs : List Text} {t t' : Table Entry}

/-- A way of several names leads through a directory. -/
theorem walk_inside {here : List Text} {n m : Text} {e : Entry}
    (h : fs.walk here (.directory t) (n :: m :: cs) = .ok e) :
    ∃ inner, t.lookup n = some (.directory inner) ∧
      fs.walk (here ++ [n]) (.directory inner) (m :: cs) = .ok e := by
  obtain ⟨_, child, hDir, hLookup, hRest⟩ := walk_cons_eq_ok h
  obtain rfl := Entry.directory.inj hDir
  obtain ⟨inner, -, rfl, -⟩ := walk_cons_eq_ok hRest
  exact ⟨inner, hLookup, hRest⟩

/-- To put an entry where there was one replaces it, by induction on the way there. -/
theorem replaced_putIn {here : List Text} {old : Entry} (e : Entry) (hcs : cs ≠ [])
    (h : fs.walk here (.directory t) cs = .ok old) :
    Replaced (some e) cs t (putIn (fun _ => e) cs t) := by
  induction cs generalizing here t with
  | nil => exact absurd rfl hcs
  | cons n cs ih =>
    cases cs with
    | nil =>
      exact .last (Table.lookup_assign_self n e t) fun m hm => Table.lookup_assign_of_ne e t hm
    | cons m cs =>
      obtain ⟨inner, hLookup, hInner⟩ := walk_inside h
      rw [putIn, hLookup]
      · exact .inside hLookup (Table.lookup_assign_self n _ t)
          (fun m hm => Table.lookup_assign_of_ne _ t hm) (ih (List.cons_ne_nil m cs) hInner)
      · exact List.cons_ne_nil m cs

/-- To remove an entry replaces it by nothing, by induction on the way there. -/
theorem replaced_removeIn {here : List Text} {old : Entry} (hcs : cs ≠ [])
    (h : fs.walk here (.directory t) cs = .ok old) : Replaced none cs t (removeIn cs t) := by
  induction cs generalizing here t with
  | nil => exact absurd rfl hcs
  | cons n cs ih =>
    cases cs with
    | nil => exact .last (Table.lookup_remove_self n t) fun m hm => Table.lookup_remove_of_ne t hm
    | cons m cs =>
      obtain ⟨inner, hLookup, hInner⟩ := walk_inside h
      rw [removeIn, hLookup]
      · exact .inside hLookup (Table.lookup_assign_self n _ t)
          (fun m hm => Table.lookup_assign_of_ne _ t hm) (ih (List.cons_ne_nil m cs) hInner)
      · exact List.cons_ne_nil m cs

/-- A tree stays well named with a well-named entry put in. -/
theorem wellNamed_putIn {e : Entry} (he : e.wellNamed = true) (hcs : ∀ c ∈ cs, Path.IsName c)
    (ht : (Entry.directory t).wellNamed = true) :
    (Entry.directory (putIn (fun _ => e) cs t)).wellNamed = true := by
  induction cs generalizing t with
  | nil => exact ht
  | cons n cs ih =>
    rw [List.forall_mem_cons] at hcs
    cases cs with
    | nil => exact Entry.wellNamed_assign ht hcs.1 he
    | cons m cs =>
      rw [putIn]
      · refine Entry.wellNamed_assign ht hcs.1 (ih hcs.2 ?_)
        cases hLookup : List.lookup n t with
        | none => rfl
        | some child =>
          have hChild := Entry.wellNamed_of_lookup ht hLookup
          cases child with
          | directory inner => exact hChild
          | _ => rfl
      · exact List.cons_ne_nil m cs

/-- A tree stays well named without an entry. -/
theorem wellNamed_removeIn (hcs : ∀ c ∈ cs, Path.IsName c)
    (ht : (Entry.directory t).wellNamed = true) :
    (Entry.directory (removeIn cs t)).wellNamed = true := by
  induction cs generalizing t with
  | nil => rfl
  | cons n cs ih =>
    rw [List.forall_mem_cons] at hcs
    cases cs with
    | nil => exact Entry.wellNamed_remove ht
    | cons m cs =>
      rw [removeIn]
      · split
        · rename_i inner hLookup
          exact Entry.wellNamed_assign ht hcs.1 (ih hcs.2 (Entry.wellNamed_of_lookup ht hLookup))
        · exact ht
      · exact List.cons_ne_nil m cs

-- ---------------------------------------------------------------------------
-- Ways through such trees
-- ---------------------------------------------------------------------------

/-- A way depends on the tree it goes through and on what is denied. -/
theorem walk_congr (hDenied : fs'.denied = fs.denied) (here : List Text) (e : Entry)
    (rs : List Text) : fs'.walk here e rs = fs.walk here e rs := by
  induction rs generalizing here e with
  | nil => cases e <;> rfl
  | cons r rs ih =>
    cases e with
    | directory entries =>
      rw [walk, walk, hDenied]
      cases List.lookup r entries with
      | none => rfl
      | some child =>
        show (if _ then _ else fs'.walk (here ++ [r]) child rs) = _
        rw [ih]
    | _ => rfl

/-- Elsewhere a way leads where it led. -/
theorem walk_of_lookup_eq (hDenied : fs'.denied = fs.denied) {here rs : List Text} {r : Text}
    (h : t'.lookup r = t.lookup r) :
    fs'.walk here (.directory t') (r :: rs) = fs.walk here (.directory t) (r :: rs) := by
  rw [walk, walk, hDenied, h]
  cases List.lookup r t with
  | none => rfl
  | some child =>
    show (if _ then _ else fs'.walk (here ++ [r]) child rs) = _
    rw [walk_congr hDenied]

/-- **Elsewhere all is as before**, but that the directories on the way to the place are not the
same. -/
theorem Replaced.walk_alike (hDenied : fs'.denied = fs.denied) (h : Replaced new cs t t')
    {rs : List Text} (hElsewhere : ¬ cs <+: rs) (here : List Text) :
    Alike (fs.walk here (.directory t) rs) (fs'.walk here (.directory t') rs) := by
  induction h generalizing here rs with
  | @last n t t' hNew hOthers =>
    cases rs with
    | nil => exact Or.inr ⟨t, t', rfl, rfl⟩
    | cons r rs =>
      have hr : r ≠ n := by
        rintro rfl
        exact hElsewhere (List.prefix_append [r] rs)
      exact Or.inl (walk_of_lookup_eq hDenied (hOthers r hr))
  | @inside n cs t t' inner inner' hOld hNew hOthers hInside ih =>
    cases rs with
    | nil => exact Or.inr ⟨t, t', rfl, rfl⟩
    | cons r rs =>
      by_cases hr : r = n
      · subst hr
        have hBelow : ¬ cs <+: rs := fun hPrefix =>
          hElsewhere (List.cons_prefix_cons.mpr ⟨rfl, hPrefix⟩)
        rw [walk, walk, hOld, hNew, hDenied]
        split
        · exact Or.inl rfl
        · exact ih hBelow (here ++ [r])
      · exact Or.inl (walk_of_lookup_eq hDenied (hOthers r hr))

/-- What stands in the place now. -/
theorem Replaced.walk_at (hDenied : fs'.denied = fs.denied) (h : Replaced new cs t t')
    {here : List Text} {old : Entry} (hOld : fs.walk here (.directory t) cs = .ok old) :
    fs'.walk here (.directory t') cs = standing new := by
  induction h generalizing here with
  | @last n t t' hNew hOthers =>
    rw [walk] at hOld ⊢
    rw [hDenied, hNew]
    split at hOld
    · cases hOld
    · rename_i hOpen
      rw [if_neg hOpen]
      cases new with
      | none => rfl
      | some e => cases e <;> rfl
  | @inside n cs t t' inner inner' hLookup hNew hOthers hInside ih =>
    rw [walk, hLookup] at hOld
    rw [walk, hNew, hDenied]
    split at hOld
    · cases hOld
    · rename_i hOpen
      rw [if_neg hOpen]
      exact ih hOld

-- ---------------------------------------------------------------------------
-- File systems that differ in one place
-- ---------------------------------------------------------------------------

/-- The file systems are the same but for one path, at which the second has the new entry, if there
is one. -/
structure Replacement (fs fs' : FileSystem) (path : Text) (new : Option Entry) : Prop where
  denied_eq : fs'.denied = fs.denied
  replaced : Replaced new (Path.components path) fs.root fs'.root

/-- The file system with the new entry at a path, or with nothing there. -/
def replaceAt (fs : FileSystem) (path : Text) : Option Entry → FileSystem
  | none => fs.remove path
  | some e => fs.put path e

/-- What is replaced at a path is the entry there, and nothing else. -/
theorem replacement_replaceAt {path : Text} {old : Entry} (new : Option Entry)
    (hPath : Path.components path ≠ []) (h : fs.resolve path = .ok old) :
    Replacement fs (fs.replaceAt path new) path new := by
  cases new with
  | none => exact ⟨rfl, replaced_removeIn hPath h⟩
  | some e => exact ⟨rfl, replaced_putIn e hPath h⟩

section Base

variable {b : Path.Base} {ds ns : List Path.Name}

/-- One path leads on from another if its names do. -/
theorem components_prefix_iff :
    Path.components (b.path ds) <+: Path.components (b.path ns) ↔ ds <+: ns := by
  rw [b.components_path, b.components_path, List.map_append, List.map_append,
    List.prefix_append_right_inj]
  exact List.prefix_map_iff_of_injective Subtype.val_injective

/-- A file system stays well named if what is put in is. -/
theorem wellNamed_replaceAt (hfs : fs.WellNamed) (hNew : ∀ e ∈ new, e.wellNamed = true) :
    (fs.replaceAt (b.path ds) new).WellNamed := by
  have hNames : ∀ c ∈ Path.components (b.path ds), Path.IsName c := by
    rw [b.components_path]
    exact Path.Base.isName_map _
  cases new with
  | none => exact wellNamed_removeIn hNames hfs
  | some e => exact wellNamed_putIn (hNew e rfl) hNames hfs

namespace Replacement

variable (h : Replacement fs fs' (b.path ds) new)

include h

/-- Elsewhere paths lead to alike entries. -/
theorem resolve_alike (hElsewhere : ¬ ds <+: ns) :
    Alike (fs.resolve (b.path ns)) (fs'.resolve (b.path ns)) :=
  h.replaced.walk_alike h.denied_eq (fun hPrefix => hElsewhere (components_prefix_iff.mp hPrefix)) []

/-- Elsewhere all is of the kind it was. -/
theorem kind_eq (hElsewhere : ¬ ds <+: ns) : fs'.kind (b.path ns) = fs.kind (b.path ns) := by
  unfold kind
  rcases h.resolve_alike hElsewhere with hSame | ⟨t, t', hOld, hNew⟩
  · rw [hSame]
  · rw [hOld, hNew]
    rfl

/-- Elsewhere files have the bytes they had. -/
theorem read_eq (hElsewhere : ¬ ds <+: ns) : fs'.read (b.path ns) = fs.read (b.path ns) := by
  unfold read isDenied
  rcases h.resolve_alike hElsewhere with hSame | ⟨t, t', hOld, hNew⟩
  · rw [hSame, h.denied_eq]
  · rw [hOld, hNew]
    rfl

/-- Elsewhere directories can be listed as before. -/
theorem list_ok (hElsewhere : ¬ ds <+: ns) {names : List Text}
    (hList : fs.list (b.path ns) = .ok names) : ∃ names', fs'.list (b.path ns) = .ok names' := by
  obtain ⟨entries, hResolve, hOpen, -⟩ := list_eq_ok.mp hList
  have hOpen' : fs'.isDenied (b.path ns) = false := by
    unfold isDenied at hOpen ⊢
    rw [h.denied_eq, hOpen]
  rcases h.resolve_alike hElsewhere with hSame | ⟨t, t', -, hNew⟩
  · exact ⟨_, list_eq_ok.mpr ⟨entries, hSame.trans hResolve, hOpen', rfl⟩⟩
  · exact ⟨_, list_eq_ok.mpr ⟨t', hNew, hOpen', rfl⟩⟩

/-- **What is there now.** -/
theorem resolve_at {old : Entry} (hOld : fs.resolve (b.path ds) = .ok old) :
    fs'.resolve (b.path ds) = standing new :=
  h.replaced.walk_at h.denied_eq hOld

/-- No directory is there, unless one has been put there. -/
theorem kind_at_ne {old : Entry} (hOld : fs.resolve (b.path ds) = .ok old)
    (hNew : ∀ e ∈ new, e.kind ≠ .directory) : fs'.kind (b.path ds) ≠ .ok .directory := by
  unfold kind
  rw [h.resolve_at hOld]
  cases new with
  | none => exact nofun
  | some e =>
    cases e with
    | directory entries => exact absurd rfl (hNew _ rfl)
    | _ => exact nofun

/-- What cannot be looked at is missing, unless nobody may look. -/
theorem eq_missing_of_kind_at {old : Entry} (hOld : fs.resolve (b.path ds) = .ok old)
    (hSeen : new ≠ some .barred) {f : Fault} (hKind : fs'.kind (b.path ds) = .error f) :
    f = .missing := by
  unfold kind at hKind
  rw [h.resolve_at hOld] at hKind
  cases new with
  | none => exact (Except.error.inj hKind).symm
  | some e =>
    cases e with
    | ghost => exact (Except.error.inj hKind).symm
    | barred => exact absurd rfl hSeen
    | _ => exact nomatch hKind

/-- What stands there now has a kind, unless it is missing or barred. -/
theorem exists_kind_at {old : Entry} (hOld : fs.resolve (b.path ds) = .ok old)
    (hSeen : new ≠ some .barred) (hThere : fs'.kind (b.path ds) ≠ .error .missing) :
    ∃ k, fs'.kind (b.path ds) = .ok k := by
  cases hKind : fs'.kind (b.path ds) with
  | ok k => exact ⟨k, rfl⟩
  | error f =>
    rw [h.eq_missing_of_kind_at hOld hSeen hKind] at hKind
    exact absurd hKind hThere

end Replacement

-- ---------------------------------------------------------------------------
-- Below the place
-- ---------------------------------------------------------------------------

/-- What is found at the end of a way is found again from there. -/
theorem walk_nil_of_resolve {path : Text} {e : Entry} (h : fs.resolve path = .ok e) :
    fs.walk (Path.components path) e [] = .ok e := by
  have hAgain := fs.walk_append [] (.directory fs.root) (Path.components path) []
  unfold resolve at h
  rw [List.append_nil, h] at hAgain
  exact hAgain.symm

/-- Where a ghost stands, nothing is found. -/
theorem resolve_ne_ghost (path : Text) : fs.resolve path ≠ .ok .ghost :=
  fun h => nomatch walk_nil_of_resolve h

/-- Where nobody may look, nothing is found. -/
theorem resolve_ne_barred (path : Text) : fs.resolve path ≠ .ok .barred :=
  fun h => nomatch walk_nil_of_resolve h

/-- What cannot be found cannot be read, for the same fault. -/
theorem read_of_resolve_error {path : Text} {fault : Fault} (h : fs.resolve path = .error fault) :
    fs.read path = .error fault := by
  unfold read
  rw [h]
  rfl

/-- All below what is missing is missing. -/
theorem read_below_missing (h : fs.kind (b.path ns) = .error .missing) (ms : List Path.Name) :
    fs.read (b.path (ns ++ ms)) = .error .missing := by
  apply read_of_resolve_error
  rw [resolve_append]
  unfold kind at h
  cases hResolve : fs.resolve (b.path ns) with
  | error fault =>
    rw [hResolve] at h
    rw [Except.error.inj h]
    rfl
  | ok e =>
    rw [hResolve] at h
    exact nomatch h

/-- Nothing below something else than a directory can be reached. -/
theorem read_below_other {k : EntryKind} (h : fs.kind (b.path ns) = .ok k) (hk : k ≠ .directory)
    {ms : List Path.Name} (hms : ms ≠ []) :
    fs.read (b.path (ns ++ ms)) = .error .notDirectory := by
  apply read_of_resolve_error
  obtain ⟨e, hResolve, rfl⟩ := kind_eq_ok.mp h
  obtain ⟨m, ms, rfl⟩ := List.exists_cons_of_ne_nil hms
  rw [resolve_append, hResolve]
  cases e with
  | directory entries => exact absurd rfl hk
  | ghost => exact absurd hResolve (resolve_ne_ghost _)
  | barred => exact absurd hResolve (resolve_ne_barred _)
  | _ => rfl

end Base

end FileSystem

end ClassTags
