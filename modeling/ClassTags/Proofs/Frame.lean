import ClassTags.Proofs.Removal
import Mathlib.Data.List.TakeWhile

/-!
# What lies outside of a scan

A scan works on its own directory and on nothing else, however it ends. Whatever it does, it does at
a path that it has found by joining a listed name to a directory, or by looking for what has a
directory as its parent; and both of these lead to paths below the directory. This is so for paths
as they are written, normalized or not, since lying below a directory is a matter of the text alone.

Main definitions:

* `FileSystem.Relative` — no directory lists an absolute path;
* `Indexer.outside` — the part of an index that does not lie below a directory;
* `Action.StaysUnder` — an action that changes nothing and reports nothing outside of a directory.

Main results:

* `Path.isUnder_trans`, `Path.isUnder_join`, `Path.isUnder_parent` — what lies below a directory;
* `Indexer.staysUnder_step`, `Indexer.staysUnder_scan` — the steps of a scan, and the scan;
* `Indexer.scan_frame` — all that a scan leaves as it is.
-/

namespace ClassTags

-- ---------------------------------------------------------------------------
-- Paths as they are written
-- ---------------------------------------------------------------------------

namespace Path

variable {p q r d dir name : Text}

/-- A path is what is left of it without the slashes at its end, and these slashes. -/
theorem exists_eq_trimSlashes_append (p : Text) :
    ∃ k, p = trimSlashes p ++ List.replicate k separator := by
  have hSplit := List.takeWhile_append_dropWhile (p := (· == separator)) (l := p.reverse)
  have hSlashes : p.reverse.takeWhile (· == separator) =
      List.replicate (p.reverse.takeWhile (· == separator)).length separator :=
    List.eq_replicate_iff.mpr ⟨rfl, fun c hc => by simpa using List.mem_takeWhile_imp hc⟩
  refine ⟨(p.reverse.takeWhile (· == separator)).length, ?_⟩
  have hReverse := congrArg List.reverse hSplit
  rw [List.reverse_append, List.reverse_reverse, hSlashes, List.reverse_replicate] at hReverse
  exact hReverse.symm

/-- A trimmed path does not end with a slash. -/
theorem getLast?_trimSlashes (p : Text) : (trimSlashes p).getLast? ≠ some separator := by
  intro hLast
  have hNot := List.head?_dropWhile_not (· == separator) p.reverse
  unfold trimSlashes at hLast
  rw [List.getLast?_reverse] at hLast
  rw [hLast] at hNot
  simp at hNot

/-- A path that does not end with a slash is trimmed already. -/
theorem trimSlashes_of_getLast? (h : p.getLast? ≠ some separator) : trimSlashes p = p := by
  obtain ⟨k, hk⟩ := exists_eq_trimSlashes_append p
  cases k with
  | zero => simpa using hk.symm
  | succ k =>
    rw [hk, List.replicate_succ', ← List.append_assoc, List.getLast?_concat] at h
    exact absurd rfl h

/-- A path that ends with a slash has one behind what is left of it without them. -/
theorem isPrefix_trimSlashes (h : p.getLast? = some separator) : trimSlashes p ++ [separator] <+: p := by
  obtain ⟨k, hk⟩ := exists_eq_trimSlashes_append p
  cases k with
  | zero =>
    rw [List.replicate_zero, List.append_nil] at hk
    exact absurd (hk ▸ h) (getLast?_trimSlashes p)
  | succ k =>
    refine ⟨List.replicate k separator, ?_⟩
    rw [List.append_assoc, List.singleton_append, ← List.replicate_succ]
    exact hk.symm

/-- A path is under another one if it is that path or goes on after it with a slash. -/
theorem isUnder_iff : isUnder p r = true ↔ p = r ∨ trimSlashes r ++ [separator] <+: p := by
  unfold isUnder
  rw [Bool.or_eq_true, beq_iff_eq, List.isPrefixOf_iff_prefix]

/-- What lies below a directory that lies below another one lies below that one. -/
theorem isUnder_trans (hpq : isUnder p q = true) (hqr : isUnder q r = true) :
    isUnder p r = true := by
  rw [isUnder_iff] at hpq hqr
  rcases hpq with rfl | hpq
  · exact isUnder_iff.mpr hqr
  rcases hqr with rfl | hqr
  · exact isUnder_iff.mpr (Or.inr hpq)
  refine isUnder_iff.mpr (Or.inr ?_)
  obtain ⟨k, hk⟩ := exists_eq_trimSlashes_append q
  have hTrim : trimSlashes q <+: q := ⟨_, hk.symm⟩
  have hInP : trimSlashes q <+: p := (List.prefix_append _ _).trans hpq
  rcases List.prefix_or_prefix_of_prefix hqr hTrim with hShort | hLong
  · exact hShort.trans hInP
  rcases List.prefix_concat_iff.mp hLong with hEq | ⟨slashes, hRest⟩
  · rwa [← hEq]
  -- only slashes are between the two trimmed paths, and the longer one does not end with any
  have hSlashes : slashes = [] := by
    by_contra hSome
    rw [hk, ← hRest, List.append_assoc, List.prefix_append_right_inj] at hqr
    have hAll : slashes.getLast hSome = separator :=
      List.eq_of_mem_replicate (hqr.subset (List.mem_append_left _ (List.getLast_mem hSome)))
    apply getLast?_trimSlashes r
    rw [← hRest, List.getLast?_append_of_ne_nil _ hSome, List.getLast?_eq_some_getLast hSome, hAll]
  rwa [← hRest, hSlashes, List.append_nil]

/-- What is joined to a directory lies below it. -/
theorem isUnder_join (hDir : dir ≠ []) (hName : isAbsolute name = false) :
    isUnder (join dir name) dir = true := by
  refine isUnder_iff.mpr (Or.inr ?_)
  have hFilled : dir.isEmpty = false := by simpa using hDir
  unfold join
  rw [if_neg (by simp [hName]), hFilled, Bool.false_or]
  by_cases hLast : dir.getLast? = some separator
  · rw [if_pos (by simp [hLast])]
    exact (isPrefix_trimSlashes hLast).trans (List.prefix_append _ _)
  · rw [if_neg (by simpa using hLast), trimSlashes_of_getLast? hLast]
    exact ⟨name, by simp⟩

/-- What comes before the last name ends with a slash. -/
theorem getLast?_head (h : head p ≠ []) : (head p).getLast? = some separator := by
  have hNot := List.head?_dropWhile_not (· != separator) p.reverse
  unfold head at h ⊢
  rw [List.getLast?_reverse]
  cases hDrop : (p.reverse.dropWhile (· != separator)).head? with
  | none => exact absurd (by simpa using hDrop) h
  | some c =>
    rw [hDrop] at hNot
    simpa using hNot

/-- A path begins with what comes before its last name. -/
theorem isPrefix_head (p : Text) : head p <+: p := by
  have hSuffix := List.dropWhile_suffix (l := p.reverse) (· != separator)
  rw [← List.reverse_prefix, List.reverse_reverse] at hSuffix
  exact hSuffix

/-- A path lies below its parent, if it has one. -/
theorem isUnder_parent (h : parent d ≠ []) : isUnder d (parent d) = true := by
  have hHead : head d ≠ [] := by
    intro hNil
    apply h
    unfold parent
    rw [hNil]
    rfl
  have hTrim : trimSlashes (parent d) = trimSlashes (head d) := by
    unfold parent
    split
    · rfl
    · exact trimSlashes_of_getLast? (getLast?_trimSlashes _)
  refine isUnder_iff.mpr (Or.inr ?_)
  rw [hTrim]
  exact (isPrefix_trimSlashes (getLast?_head hHead)).trans (isPrefix_head d)

theorem ne_nil_of_isUnder (hr : r ≠ []) (h : isUnder p r = true) : p ≠ [] := by
  rcases isUnder_iff.mp h with rfl | hPrefix
  · exact hr
  · rintro rfl
    simp at hPrefix

end Path

-- ---------------------------------------------------------------------------
-- The index outside of a directory
-- ---------------------------------------------------------------------------

/-- A name that stays is found as before. -/
theorem Table.lookup_filter {ν : Type} (keep : Text → Bool) {name : Text} (hName : keep name = true)
    (t : Table ν) : List.lookup name (t.filter fun entry => keep entry.1) = t.lookup name := by
  induction t with
  | nil => rfl
  | cons entry t ih =>
    obtain ⟨n, v⟩ := entry
    by_cases hn : name = n
    · subst hn
      rw [List.filter_cons, if_pos hName, List.lookup_cons_self, List.lookup_cons_self]
    · have hne : (name == n) = false := beq_eq_false_iff_ne.mpr hn
      rw [List.filter_cons]
      split
      · rw [List.lookup_cons, List.lookup_cons, hne, ih]
      · rw [List.lookup_cons, hne, ih]

namespace Holdings

variable {h h' rest : Holdings} {path : Text}

/-- To remove a file that is not kept leaves the others as they are. -/
theorem filter_remove (h : Holdings) (keep : Text → Bool) (hPath : keep path = false) :
    ((h.remove path).filter fun file => keep file.1) = h.filter fun file => keep file.1 := by
  unfold Table.remove
  rw [List.filter_filter]
  apply List.filter_congr
  intro file _
  by_cases hFile : file.1 = path
  · simp [hFile, hPath]
  · simp [hFile]

/-- Checking a file leaves the other files as they are and where they are. -/
theorem CheckEnd.filter_eq {found : Except IndexFailure (Option (List ClassRecord))}
    {result : Except IndexFailure Bool} (hEnd : CheckEnd path rest found h' result)
    (keep : Text → Bool) (hPath : keep path = false) :
    (h'.filter fun file => keep file.1) = rest.filter fun file => keep file.1 := by
  cases hEnd with
  | unread | missing => rfl
  | indexed | clash => simp [List.filter_append, hPath]

end Holdings

/-- The files, the classes and the known directories that do not lie at or below a directory. -/
def Indexer.outside (root : Text) (x : Indexer) : Indexer where
  registry :=
    { sources := x.registry.sources.filter fun file => !Path.isUnder file.1 root
      classes := x.registry.classes.filter fun entry => !Path.isUnder entry.2.path root }
  dirs := x.dirs.filter fun d => !Path.isUnder d root

/-- Of the files outside, the registry has what it had of them. -/
theorem Indexer.registry_outside {x : Indexer} {h : Holdings} {root : Text} (hs : h.Sound)
    (hx : x.registry = Holdings.registry h) :
    (x.outside root).registry =
      Holdings.registry (h.filter fun file => !Path.isUnder file.1 root) := by
  have hStays : ∀ file ∈ h, ∀ entry ∈ file.2,
      (!Path.isUnder entry.2.path root) = !Path.isUnder file.1 root := by
    rintro ⟨path, t⟩ hFile ⟨name, c⟩ hEntry
    rw [(hs.placed path t hFile name c hEntry).2]
  have hClasses := Holdings.classes_filter (fun p => !Path.isUnder p root) hStays
  have hSources := Holdings.sources_filter h fun p => !Path.isUnder p root
  unfold outside
  rw [hx]
  show Registry.mk _ _ = Registry.mk _ _
  rw [← hSources]
  exact congrArg _ hClasses.symm

/-- No directory lists an absolute path. -/
def FileSystem.Relative (fs : FileSystem) : Prop :=
  ∀ dir names, fs.list dir = .ok names → ∀ n ∈ names, Path.isAbsolute n = false

/-- Names are relative, so in a file system that lists names all entries are. -/
theorem FileSystem.Named.relative {fs : FileSystem} (hfs : fs.Named) : fs.Relative :=
  fun dir names hList n hn => Path.not_isAbsolute_of_isName (hfs dir names hList n hn)

-- ---------------------------------------------------------------------------
-- Actions that stay under a directory
-- ---------------------------------------------------------------------------

/-- What an outcome has done and reported is at or below a directory. -/
structure Outcome.StaysUnder {α : Type} (root : Text) (s : Indexer)
    (o : Outcome Indexer IndexFailure α) : Prop where
  held : o.state.registry.Held
  outside_eq : o.state.outside root = s.outside root
  events_under : ∀ e ∈ o.events, Path.isUnder e.path root = true

/-- An action that works at or below a directory, in every state and however it ends. -/
def Action.StaysUnder {α : Type} (root : Text) (x : Action Indexer IndexFailure α) : Prop :=
  ∀ s, s.registry.Held → (x s).StaysUnder root s

namespace Action.StaysUnder

variable {α β : Type} {root : Text}

/-- A silent action stays under a directory if it leaves all else alone. -/
theorem of_silent {x : Action Indexer IndexFailure α} (hSilent : x.Silent)
    (hState : ∀ s, s.registry.Held →
      (x s).state.registry.Held ∧ (x s).state.outside root = s.outside root) :
    x.StaysUnder root := by
  intro s hs
  refine ⟨(hState s hs).1, (hState s hs).2, ?_⟩
  rw [hSilent.events s]
  exact nofun

theorem pure (a : α) : (pure a : Action Indexer IndexFailure α).StaysUnder root :=
  .of_silent (.pure a) fun _ hs => ⟨hs, rfl⟩

theorem fail (e : IndexFailure) : (Action.fail e : Action Indexer IndexFailure α).StaysUnder root :=
  .of_silent (.fail e) fun _ hs => ⟨hs, rfl⟩

/-- A notice stays under a directory if it tells of a path there. -/
theorem note {n : Notice} (h : ∀ e, n.event? = some e → Path.isUnder e.path root = true) :
    (Action.note n : Action Indexer IndexFailure Unit).StaysUnder root := by
  refine fun s hs => ⟨hs, rfl, fun e he => h e ?_⟩
  obtain ⟨m, hm, hEvent⟩ := List.mem_filterMap.mp he
  rwa [List.mem_singleton.mp hm] at hEvent

/-- A sequence stays under a directory if its parts do. -/
theorem bind {x : Action Indexer IndexFailure α} {f : α → Action Indexer IndexFailure β}
    (hx : x.StaysUnder root) (hf : ∀ a, (f a).StaysUnder root) : (x >>= f).StaysUnder root := by
  intro s hs
  have hFirst := hx s hs
  cases h : (x s).result with
  | error e =>
    rw [bind_of_error h]
    exact ⟨hFirst.held, hFirst.outside_eq, hFirst.events_under⟩
  | ok a =>
    have hSecond := hf a (x s).state hFirst.held
    refine ⟨?_, ?_, ?_⟩
    · rw [state_bind_of_ok h]
      exact hSecond.held
    · rw [state_bind_of_ok h]
      exact hSecond.outside_eq.trans hFirst.outside_eq
    · rw [events_bind_of_ok h]
      exact List.forall_mem_append.mpr ⟨hFirst.events_under, hSecond.events_under⟩

theorem compositional : Compositional fun _ => StaysUnder root := ⟨pure, bind⟩

/-- A loop stays under a directory if its rounds do. -/
theorem forEach {f : α → Action Indexer IndexFailure Unit} {as : List α}
    (h : ∀ a ∈ as, (f a).StaysUnder root) : (Action.forEach f as).StaysUnder root :=
  compositional.forEach h

/-- The action may be chosen by the state. -/
theorem of_state {f : Indexer → Action Indexer IndexFailure α} (h : ∀ s, (f s).StaysUnder root) :
    (Action.state >>= f).StaysUnder root := by
  intro s hs
  rw [state_bind]
  exact h s s hs

end Action.StaysUnder

-- ---------------------------------------------------------------------------
-- The steps of a scan
-- ---------------------------------------------------------------------------

namespace Indexer

variable {ctx : IndexContext} {root dir p : Text} {x y : Indexer}

/-- Indexes with the same files and directories outside of a directory are the same there. -/
theorem outside_congr {h k : Holdings} (hs : h.Sound) (hk : k.Sound)
    (hx : x.registry = Holdings.registry h) (hy : y.registry = Holdings.registry k)
    (hFiles : (k.filter fun file => !Path.isUnder file.1 root) =
      h.filter fun file => !Path.isUnder file.1 root)
    (hDirs : (y.dirs.filter fun d => !Path.isUnder d root) =
      x.dirs.filter fun d => !Path.isUnder d root) :
    y.outside root = x.outside root := by
  have hRegistry : (y.outside root).registry = (x.outside root).registry := by
    rw [registry_outside hk hy, registry_outside hs hx, hFiles]
  show Indexer.mk (y.outside root).registry _ = Indexer.mk (x.outside root).registry _
  rw [hRegistry, hDirs]

/-- Directories under the root are of no account outside. -/
theorem outside_with_dirs {dirs : List Text}
    (hDirs : (dirs.filter fun d => !Path.isUnder d root) = x.dirs.filter fun d => !Path.isUnder d root) :
    ({ x with dirs } : Indexer).outside root = x.outside root := by
  show Indexer.mk (x.outside root).registry _ = Indexer.mk (x.outside root).registry _
  rw [hDirs]

/-- To check a file changes what is known of that file. -/
theorem staysUnder_check (hp : Path.isUnder p root = true) : (check ctx p).StaysUnder root := by
  refine .of_silent (.within (Registry.check_silent _ _ p)) ?_
  rintro s ⟨h, hs, hRegistry⟩
  show (Registry.check ctx.defineCalls ctx.files p s.registry).state.Held ∧
    ({ s with registry := (Registry.check ctx.defineCalls ctx.files p s.registry).state } :
      Indexer).outside root = s.outside root
  cases hPath : Registry.accepts p with
  | false =>
    rw [Holdings.check_of_not_accepts hPath]
    exact ⟨⟨h, hs, hRegistry⟩, rfl⟩
  | true =>
    obtain ⟨h', hs', hState, hEnd⟩ :=
      @Holdings.check_cases ctx.defineCalls ctx.files p h hs hPath
    rw [← hRegistry] at hState
    let keep := fun q => !Path.isUnder q root
    have hKeep : keep p = false := congrArg Bool.not hp
    refine ⟨⟨h', hs', hState⟩, outside_congr hs hs' hRegistry hState ?_ rfl⟩
    exact (hEnd.filter_eq keep hKeep).trans (Holdings.filter_remove h keep hKeep)

/-- To retract a file changes what is known of that file. -/
theorem staysUnder_retract (hp : Path.isUnder p root = true) : (retract p).StaysUnder root := by
  refine .of_silent (.bind .state fun _ => .bind (.update _) fun _ => .pure _) ?_
  rintro s ⟨h, hs, hRegistry⟩
  have hRetract := Holdings.registry_retract hs p
  rw [← hRegistry] at hRetract
  let keep := fun q => !Path.isUnder q root
  have hKeep : keep p = false := congrArg Bool.not hp
  exact ⟨⟨h.remove p, hs.remove p, hRetract⟩,
    outside_congr hs (hs.remove p) hRegistry hRetract (Holdings.filter_remove h keep hKeep) rfl⟩

/-- To remove a directory changes what is known of it and of what is below it. -/
theorem staysUnder_remove (hDir : Path.isUnder dir root = true) : (remove ctx dir).StaysUnder root := by
  intro s hs
  by_cases hKnown : dir ∈ s.dirs
  · have hForget : (s.forget dir).outside root = s.outside root := by
      refine outside_with_dirs ?_
      rw [List.filter_filter]
      apply List.filter_congr
      intro d _
      by_cases hd : Path.isUnder d dir = true
      · simp [Path.isUnder_trans hd hDir]
      · simp [hd]
    have hChecks : (checks ctx (s.below dir)).StaysUnder root := by
      refine .forEach fun p hp => .bind (staysUnder_check ?_) fun _ => .pure ()
      exact Path.isUnder_trans (List.mem_filter.mp hp).2 hDir
    have hNote : (Action.note (.directoryRemoved dir) : Action Indexer IndexFailure Unit).StaysUnder
        root := .note fun e he => by cases he; exact hDir
    have hRest := Action.StaysUnder.bind hChecks fun _ => .bind hNote fun _ => .pure true
    rw [remove_of_known hKnown]
    obtain ⟨hHeld, hOutside, hEvents⟩ := hRest (s.forget dir) hs
    exact ⟨hHeld, hOutside.trans hForget, hEvents⟩
  · rw [remove_of_unknown hKnown]
    exact ⟨hs, rfl, nofun⟩

/-- To learn of a directory changes what is known of it. -/
theorem staysUnder_learn (hDir : Path.isUnder dir root = true) : (learn dir).StaysUnder root := by
  intro s hs
  by_cases hKnown : dir ∈ s.dirs
  · rw [learn_of_known hKnown]
    exact ⟨hs, rfl, nofun⟩
  · rw [learn_of_unknown hKnown]
    refine ⟨hs, outside_with_dirs ?_, ?_⟩
    · simp [List.filter_append, hDir]
    · intro e he
      rw [List.mem_singleton.mp he]
      exact hDir

/-- What has a directory below the root as its parent is below the root. -/
theorem isUnder_of_parent {d : Text} (hRoot : root ≠ []) (hDir : Path.isUnder dir root = true)
    (hParent : Path.parent d = dir) : Path.isUnder d root = true := by
  have hSome : Path.parent d ≠ [] := hParent ▸ Path.ne_nil_of_isUnder hRoot hDir
  exact Path.isUnder_trans (Path.isUnder_parent hSome) (hParent ▸ hDir)

section Steps

variable (hfs : ctx.files.Relative) (hRoot : root ≠ [])

include hfs hRoot

/-- What a directory below the root lists is below the root. -/
theorem isUnder_join_of_listed {name : Text} (hDir : Path.isUnder dir root = true)
    (hName : name ∈ listed ctx dir) : Path.isUnder (Path.join dir name) root = true := by
  cases hList : ctx.files.list dir with
  | error f =>
    rw [listed_of_error hList] at hName
    exact absurd hName List.not_mem_nil
  | ok names =>
    rw [listed_of_list hList, mem_sorted] at hName
    have hJoin := Path.isUnder_join (Path.ne_nil_of_isUnder hRoot hDir) (hfs dir names hList name hName)
    exact Path.isUnder_trans hJoin hDir

/-- The directories in a directory under the root are under the root. -/
theorem isUnder_of_mem_subdirs (hDir : Path.isUnder dir root = true) :
    ∀ e ∈ subdirs ctx dir, Path.isUnder e root = true := by
  intro e he
  obtain ⟨name, hName, hSubdir⟩ := List.mem_filterMap.mp he
  rw [(subdir?_eq_some.mp hSubdir).1]
  exact isUnder_join_of_listed hfs hRoot hDir hName

/-- The source files in a directory under the root are under the root. -/
theorem isUnder_of_mem_sources (hDir : Path.isUnder dir root = true) :
    ∀ e ∈ sources ctx dir, Path.isUnder e root = true := by
  intro e he
  obtain ⟨name, hName, hSource⟩ := List.mem_filterMap.mp he
  rw [(source?_eq_some.mp hSource).1]
  exact isUnder_join_of_listed hfs hRoot hDir hName

omit hfs in
/-- To close a directory changes what is known of what is in it. -/
theorem staysUnder_close (hDir : Path.isUnder dir root = true) :
    (Step.run ctx (.close dir)).StaysUnder root := by
  refine .bind (.of_state fun x => .bind (.forEach fun d hd => ?_) fun _ =>
    .of_state fun y => .forEach fun p hp => ?_) fun _ => staysUnder_learn hDir
  · have hParent := (mem_gone.mp hd).2.1
    exact .bind (staysUnder_remove (isUnder_of_parent hRoot hDir hParent)) fun _ => .pure ()
  · have hParent := (mem_goneFiles.mp hp).2.1
    exact .bind (staysUnder_retract (isUnder_of_parent hRoot hDir hParent)) fun _ => .pure ()

/-- Every step for a directory below the root stays below the root. -/
theorem staysUnder_step (hDir : Path.isUnder dir root = true) {s : Step} (hs : s ∈ steps ctx dir) :
    (s.run ctx).StaysUnder root := by
  rcases mem_steps hs with ⟨p, rfl⟩ | ⟨f, p, rfl⟩ | ⟨p, hp, rfl⟩ | ⟨rfl, -⟩ | ⟨rfl, -⟩
  · exact .note nofun
  · exact .fail _
  · exact .bind (staysUnder_check (isUnder_of_mem_sources hfs hRoot hDir p hp)) fun _ => .pure ()
  · exact staysUnder_close hRoot hDir
  · exact .bind (staysUnder_remove hDir) fun _ => .pure ()

end Steps

/-- A scan stays below its normalized root. From a path that is not absolute it does nothing. -/
theorem staysUnder_scan (hfs : ctx.files.Relative) (root : Text) :
    (scan ctx root).StaysUnder (Path.normalize root) := by
  -- the directories of the queue lie below the root, which is not empty
  refine scan_of_steps (D := fun dir => Path.normalize root ≠ [] ∧
    Path.isUnder dir (Path.normalize root) = true) Action.StaysUnder.compositional ?_ ?_ ?_
    fun _ => .fail _
  · exact fun dir hDir e he => ⟨hDir.1, isUnder_of_mem_subdirs hfs hDir.1 hDir.2 e he⟩
  · exact fun dir hDir s hs => staysUnder_step hfs hDir.1 hDir.2 hs
  · exact fun hAbsolute => ⟨Path.normalize_ne_nil hAbsolute, Path.isUnder_self _⟩

-- ---------------------------------------------------------------------------
-- What is the same outside
-- ---------------------------------------------------------------------------

/-- A file outside owns what it owned. -/
theorem owned_of_outside_eq (hSame : y.outside root = x.outside root)
    (hp : Path.isUnder p root = false) : y.registry.owned p = x.registry.owned p := by
  have hSources := congrArg (fun z : Indexer => z.registry.sources.lookup p) hSame
  have hKeep : ∀ t : Table (List Text),
      List.lookup p (t.filter fun file => !Path.isUnder file.1 root) = t.lookup p :=
    Table.lookup_filter (fun q => !Path.isUnder q root) (congrArg Bool.not hp)
  simp only [outside, hKeep] at hSources
  exact congrArg (Option.getD · []) hSources

/-- The classes of a file outside have the records that they had. -/
theorem record?_of_outside_eq (hx : x.registry.Coherent) (hy : y.registry.Coherent)
    (hSame : y.outside root = x.outside root) (hp : Path.isUnder p root = false) {name : Text}
    (hName : name ∈ x.registry.owned p) : y.registry.record? name = x.registry.record? name := by
  have hTracked : p ∈ x.registry.paths := by
    by_contra hUnknown
    have hNone : x.registry.sources.lookup p = none := Table.lookup_eq_none_iff_not_mem.mpr hUnknown
    rw [Registry.owned, hNone] at hName
    exact absurd hName List.not_mem_nil
  obtain ⟨c, hRecord, -, hPath⟩ := hx.records p hTracked name hName
  have hEntry : (name, c) ∈ (x.outside root).registry.classes :=
    List.mem_filter.mpr ⟨(Table.lookup_eq_some_iff_mem hx.distinctClasses).mp hRecord, by simp [hPath, hp]⟩
  rw [← hSame] at hEntry
  rw [hRecord]
  exact (Table.lookup_eq_some_iff_mem hy.distinctClasses).mpr (List.mem_of_mem_filter hEntry)

/-- **What lies outside of a scan.** After any run of calls, each on a file system of its own and
each returning or failing, a scan leaves all that does not lie at or below its normalized root,
whether it returns or fails: the tracked files with the classes that they own, in their order, the
records of these classes, and the known directories. Nothing comes to them, and every event tells of
a directory at or below the root. -/
theorem scan_frame (calls : List (IndexContext × Call)) {ctx : IndexContext}
    (hfs : ctx.files.Relative) (root : Text) :
    (scan ctx root (after {} calls)).state.outside (Path.normalize root) =
        (after {} calls).outside (Path.normalize root) ∧
      (∀ p, Path.isUnder p (Path.normalize root) = false →
        (scan ctx root (after {} calls)).state.registry.owned p = (after {} calls).registry.owned p ∧
          ∀ name ∈ (after {} calls).registry.owned p,
            (scan ctx root (after {} calls)).state.registry.record? name =
              (after {} calls).registry.record? name) ∧
        ∀ e ∈ (scan ctx root (after {} calls)).events,
          Path.isUnder e.path (Path.normalize root) = true := by
  have hHeld : (after {} calls).registry.Held := after_keeps held_law Registry.Held.empty calls
  obtain ⟨hAfter, hSame, hEvents⟩ := staysUnder_scan hfs root (after {} calls) hHeld
  refine ⟨hSame, fun p hp => ⟨owned_of_outside_eq hSame hp, fun name hName => ?_⟩, hEvents⟩
  exact record?_of_outside_eq hHeld.coherent hAfter.coherent hSame hp hName

/-- The first of the two branches, in which a directory has gone and another one has come. A file
there defines a class of the second branch. -/
def rival : IndexContext :=
  usual.on (folder [("s", .directory [("u", .directory [("d.js", definition "C")])])])

/-- The scan of the first branch fails at the clash, when it has already dropped a directory with
its file. All of the second branch stays. -/
theorem scan_frame_of_rival :
    (scan rival "/r/./s/" (after {} scanBranches)).result =
        .error (.duplicate "C" "/r/sx/c.js" "/r/s/u/d.js") ∧
      (scan rival "/r/./s/" (after {} scanBranches)).events = [.removed "/r/s/t"] ∧
      ((scan rival "/r/./s/" (after {} scanBranches)).state.outside "/r/s").registry.sources =
        [("/r/sx/c.js".toList, ["C".toList])] ∧
      ((scan rival "/r/./s/" (after {} scanBranches)).state.outside "/r/s").dirs = ["/r/sx".toList] := by
  obtain ⟨hRoot, hResult, hEvents, hSources, hDirs⟩ :
      Path.normalize "/r/./s/" = ("/r/s" : Text) ∧
        (scan rival "/r/./s/" (after {} scanBranches)).result =
          .error (.duplicate "C" "/r/sx/c.js" "/r/s/u/d.js") ∧
        (scan rival "/r/./s/" (after {} scanBranches)).events = [.removed "/r/s/t"] ∧
        ((after {} scanBranches).outside "/r/s").registry.sources =
          [("/r/sx/c.js".toList, ["C".toList])] ∧
        ((after {} scanBranches).outside "/r/s").dirs = ["/r/sx".toList] := by
    decide +kernel
  have hfs : rival.files.Relative := (FileSystem.WellNamed.named (by decide)).relative
  have hSame := (scan_frame scanBranches hfs "/r/./s/").1
  rw [hRoot] at hSame
  rw [hSame]
  exact ⟨hResult, hEvents, hSources, hDirs⟩

end Indexer

end ClassTags
