import ClassTags.Proofs.Mirror
import ClassTags.Proofs.Passage

/-!
# The events of a scan

When a scan closes a directory, it reports the known directories that are gone from it, in the order
of their names, and then the directory itself if it is new. Which directories these are can be told
from the index that the scan began with: what the scan has done to other directories in between
makes no difference. So the events of a scan that returns, and the directories it leaves, are known
in advance.

Main definitions:

* `Indexer.news` — what a scan has to report of a directory;
* `Indexer.Told` — what is known and what has been reported along the route.

Main results:

* `Indexer.events_close` — the events of closing a directory;
* `Indexer.Told.run` — the events of any part of the route that has been worked off.
-/

namespace ClassTags

-- ---------------------------------------------------------------------------
-- Events of sequences
-- ---------------------------------------------------------------------------

namespace Action

variable {σ ε α β : Type}

theorem Silent.events {x : Action σ ε α} (h : x.Silent) (s : σ) : (x s).events = [] :=
  List.filterMap_eq_nil_iff.mpr (h s)

/-- The events of a sequence are those of its parts, in order. -/
theorem events_bind_of_ok {x : Action σ ε α} {f : α → Action σ ε β} {s : σ} {a : α}
    (h : (x s).result = .ok a) :
    ((x >>= f) s).events = (x s).events ++ (f a (x s).state).events := by
  rw [bind_of_ok h]
  exact List.filterMap_append

end Action

namespace Indexer

variable {ctx : IndexContext} {b : Path.Base} {start x : Indexer} {root d dir : Text}

-- ---------------------------------------------------------------------------
-- What is gone
-- ---------------------------------------------------------------------------

/-- What is gone from a directory is told by which directories are gone from it. -/
theorem gone_eq_of_mem_iff {y : Indexer} (hx : x.dirs.Nodup) (hy : y.dirs.Nodup)
    (h : ∀ d, d ∈ x.gone ctx dir ↔ d ∈ y.gone ctx dir) : x.gone ctx dir = y.gone ctx dir := by
  unfold gone goneDirs at *
  apply sorted_of_perm
  rw [List.perm_ext_iff_of_nodup (hx.filter _) (hy.filter _)]
  intro d
  rw [← mem_sorted, h, mem_sorted]

-- ---------------------------------------------------------------------------
-- Events of the operations
-- ---------------------------------------------------------------------------

theorem events_checks (ps : List Text) (x : Indexer) : (checks ctx ps x).events = [] :=
  (checks_silent ctx ps).events x

/-- When the files below a known directory can be checked, a removal reports the directory. -/
theorem remove_of_checks (hKnown : d ∈ x.dirs)
    (hOk : (checks ctx (x.below d) (x.forget d)).result = .ok ()) :
    (remove ctx d x).result = .ok true ∧ (remove ctx d x).events = [.removed d] := by
  rw [remove_of_known hKnown]
  refine ⟨?_, ?_⟩
  · rw [Action.bind_of_ok hOk]
    rfl
  · rw [Action.events_bind_of_ok hOk, events_checks]
    rfl

/-- Directories of which none lies below another are reported one after the other. -/
theorem events_removeAll {ds : List Text} (hKnown : ∀ d ∈ ds, d ∈ x.dirs)
    (hApart : ds.Pairwise Path.Apart)
    (hOk : (removeAll ctx ds x).result = .ok ()) :
    (removeAll ctx ds x).events = ds.map .removed := by
  induction ds generalizing x with
  | nil => rfl
  | cons d ds ih =>
    obtain ⟨hFirst, hRest, -⟩ := Action.forEach_cons_of_ok hOk
    obtain ⟨v, hv, hAbsent⟩ := absent_step_of_ok hFirst
    rw [hAbsent] at hRest
    rw [List.pairwise_cons] at hApart
    have hHere := hKnown d List.mem_cons_self
    have hEvents : (Step.run ctx (.absent d) x).events = [.removed d] := by
      have hRemove := (remove_of_checks hHere (remove_eq_ok hHere hv)).2
      show ((remove ctx d >>= fun _ => pure () : Action Indexer IndexFailure Unit) x).events = _
      rw [Action.events_bind_of_ok hv, hRemove]
      rfl
    have hEvents' := ih (mem_dirs_remove_of_apart hKnown hApart.1) hApart.2 hRest
    unfold removeAll at hEvents' ⊢
    rw [Action.forEach_cons, Action.events_bind_of_ok hFirst, hEvents, hAbsent, hEvents']
    rfl

theorem retractAll_silent (ps : List Text) : (retractAll ps).Silent :=
  .forEach (fun _ => .bind (.bind .state fun _ => .bind (.update _) fun _ => .pure _) fun _ =>
    .pure ()) ps

/-- A directory that is known already is not reported again. -/
theorem learn_of_known (hKnown : dir ∈ x.dirs) : learn dir x = ⟨x, [], .ok ()⟩ := by
  unfold learn
  rw [Action.state_bind, if_pos (by simpa using hKnown)]
  rfl

/-- A directory that becomes known comes last and is reported. -/
theorem learn_of_unknown (hNew : dir ∉ x.dirs) :
    learn dir x = ⟨{ x with dirs := x.dirs ++ [dir] }, [.directoryAdded dir], .ok ()⟩ := by
  unfold learn
  rw [Action.state_bind, if_neg (by simpa using hNew)]
  rfl

/-- What a scan has to report of a directory: what is gone from it, and that it is new. -/
def news (ctx : IndexContext) (x : Indexer) (dir : Text) : List DirectoryEvent :=
  (x.gone ctx dir).map .removed ++ if dir ∈ x.dirs then [] else [.added dir]

section Close

variable (hApart : (x.gone ctx dir).Pairwise Path.Apart)
  (hAbove : ∀ d ∈ x.gone ctx dir, Path.isUnder dir d = false)
  (hOk : (Step.run ctx (.close dir) x).result = .ok ())

include hApart hAbove hOk

/-- **The events of closing a directory.** -/
theorem events_close : (Step.run ctx (.close dir) x).events = news ctx x dir := by
  have hRemoves := (close_step_result dir x).symm.trans hOk
  have hKnown : ∀ d ∈ x.gone ctx dir, d ∈ x.dirs := fun d hd => (mem_gone.mp hd).1
  have hDirs := dirs_removeAll hKnown hApart hRemoves
  rw [close_step_eq, Action.events_bind_of_ok hRemoves, events_removeAll hKnown hApart hRemoves,
    Action.state_bind, Action.events_bind_of_ok (retractAll_result _ _),
    (retractAll_silent _).events, List.nil_append]
  unfold news
  -- what is gone from a directory does not take the directory along
  by_cases hDir : dir ∈ x.dirs
  · rw [if_pos hDir, learn_of_known]
    · rfl
    · rw [dirs_retractAll, hDirs, List.mem_filter, List.all_eq_true]
      exact ⟨hDir, fun d hd => by simp [hAbove d hd]⟩
  · rw [if_neg hDir, learn_of_unknown]
    · rfl
    · rw [dirs_retractAll, hDirs]
      exact fun hMem => hDir (List.mem_of_mem_filter hMem)

/-- The known directories after a directory has been closed, in order. -/
theorem dirs_close :
    (Step.run ctx (.close dir) x).state.dirs =
      (x.dirs.filter fun e => (x.gone ctx dir).all fun d => !Path.isUnder e d) ++
        if dir ∈ x.dirs then [] else [dir] := by
  have hRemoves := (close_step_result dir x).symm.trans hOk
  have hDirs := dirs_removeAll (fun d hd => (mem_gone.mp hd).1) hApart hRemoves
  rw [close_step_state hRemoves]
  by_cases hDir : dir ∈ x.dirs
  · rw [if_pos hDir, learn_of_known, List.append_nil, dirs_retractAll, hDirs]
    rw [dirs_retractAll, hDirs, List.mem_filter, List.all_eq_true]
    exact ⟨hDir, fun d hd => by simp [hAbove d hd]⟩
  · rw [if_neg hDir, learn_of_unknown]
    · show (retractAll _ _).state.dirs ++ [dir] = _
      rw [dirs_retractAll, hDirs]
    · rw [dirs_retractAll, hDirs]
      exact fun hMem => hDir (List.mem_of_mem_filter hMem)

end Close

/-- Going through the names of a directory reports nothing and leaves the known directories. -/
theorem entries_silent (dir : Text) (names : List Text) :
    (Action.forEach (Step.run ctx) (names.flatMap (entrySteps ctx dir))).Silent ∧
      ∀ x, (Action.forEach (Step.run ctx) (names.flatMap (entrySteps ctx dir)) x).state.dirs =
        x.dirs := by
  have hStep : ∀ n, (Action.forEach (Step.run ctx) (entrySteps ctx dir n)).Silent ∧
      ∀ y : Indexer, Action.Keeps (fun z => z.dirs = y.dirs)
        (Action.forEach (Step.run ctx) (entrySteps ctx dir n)) := by
    intro n
    rcases entrySteps_cases ctx dir n with ⟨hSteps, -⟩ | ⟨p, hSteps, -⟩ | ⟨f, p, hSteps, -⟩ |
      ⟨p, hSteps, -⟩
    · rw [hSteps]
      exact ⟨.pure (), fun _ => .pure ()⟩
    · rw [hSteps, Action.forEach_singleton]
      exact ⟨.note rfl, fun _ => .note _⟩
    · rw [hSteps, Action.forEach_singleton]
      exact ⟨.fail _, fun _ => .fail _⟩
    · rw [hSteps]
      exact ⟨checks_silent ctx [p], fun y z hz => (dirs_checks [p] z).trans hz⟩
  rw [Action.forEach_flatMap]
  exact ⟨.forEach (fun n => (hStep n).1) names,
    fun x => Action.Keeps.forEach (fun n _ => (hStep n).2 x) x rfl⟩

/-- **The events of a directory**, and what is known when it has been worked off. -/
theorem told_steps {names : List Text}
    (hApart : (x.gone ctx dir).Pairwise Path.Apart)
    (hAbove : ∀ d ∈ x.gone ctx dir, Path.isUnder dir d = false)
    (hList : ctx.files.list dir = .ok names)
    (hOk : (Action.forEach (Step.run ctx) (steps ctx dir) x).result = .ok ()) :
    (Action.forEach (Step.run ctx) (steps ctx dir) x).events = news ctx x dir ∧
      (Action.forEach (Step.run ctx) (steps ctx dir) x).state.dirs =
        (x.dirs.filter fun e => (x.gone ctx dir).all fun d => !Path.isUnder e d) ++
          if dir ∈ x.dirs then [] else [dir] := by
  obtain ⟨hSilent, hSame⟩ := @entries_silent ctx dir (listed ctx dir)
  have hSame := hSame x
  rw [steps_of_list hList, Action.forEach_append, Action.forEach_singleton] at hOk ⊢
  obtain ⟨⟨⟩, hEntries, hClose⟩ := Action.result_bind_eq_ok.mp hOk
  rw [Action.events_bind_of_ok hEntries, Action.state_bind_of_ok hEntries, hSilent.events,
    List.nil_append]
  -- when the names have been gone through, the known directories are still the same
  generalize (Action.forEach (Step.run ctx)
    ((listed ctx dir).flatMap (entrySteps ctx dir)) x).state = y at *
  have hGone : y.gone ctx dir = x.gone ctx dir := by
    unfold gone goneDirs
    rw [hSame]
  have hNews : news ctx y dir = news ctx x dir := by
    unfold news
    rw [hGone, hSame]
  rw [← hGone] at hApart hAbove ⊢
  rw [← hNews, ← hSame]
  exact ⟨events_close hApart hAbove hClose, dirs_close hApart hAbove hClose⟩

-- ---------------------------------------------------------------------------
-- Along the route
-- ---------------------------------------------------------------------------

/-- What is known and what has been reported when a scan is through with some directories of its
route. -/
structure Told (ctx : IndexContext) (start : Indexer) (dirs : List Text)
    (o : Outcome Indexer IndexFailure Unit) : Prop where
  orderly : Orderly o.state
  dirs_eq : o.state.dirs =
    (start.dirs.filter fun q => dirs.all fun e => (start.gone ctx e).all fun d => !Path.isUnder q d) ++
      dirs.filter fun dir => decide (dir ∉ start.dirs)
  events_eq : o.events = dirs.flatMap (news ctx start)

theorem Told.nil (hs : Orderly start) : Told ctx start [] ⟨start, [], .ok ()⟩ where
  orderly := hs
  dirs_eq := by simp
  events_eq := rfl

section Along

variable (hfs : ctx.files.WellNamed) (hRoot : Path.normalize root = b.path []) (hs : Orderly start)

include hfs hRoot hs

/-- The known directories are those searched so far, and those known before that have been
spared. -/
theorem Told.mem_dirs {dirs : List Text} {o : Outcome Indexer IndexFailure Unit}
    (hDirs : ∀ dir ∈ dirs, dir ∈ route ctx root) (ho : Told ctx start dirs o) (q : Text) :
    q ∈ o.state.dirs ↔ q ∈ dirs ∨ (q ∈ start.dirs ∧ Spared ctx start dirs q) := by
  have hSpared : (dirs.all fun e => (start.gone ctx e).all fun d => !Path.isUnder q d) = true ↔
      Spared ctx start dirs q := by
    simp [Spared]
  rw [ho.dirs_eq, List.mem_append, List.mem_filter, List.mem_filter, hSpared, decide_eq_true_eq]
  constructor
  · rintro (hOld | hNew)
    · exact Or.inr hOld
    · exact Or.inl hNew.1
  · rintro (hHere | hOld)
    · by_cases hKnown : q ∈ start.dirs
      · -- a directory of the route does not lie below one that is gone
        exact Or.inl ⟨hKnown, fun e he d hd =>
          not_isUnder_of_mem_gone hfs hRoot hs (hDirs e he) hd (hDirs q hHere)⟩
      · exact Or.inr ⟨hHere, hKnown⟩
    · exact Or.inl hOld

section Next

variable {front back : List Text} {o : Outcome Indexer IndexFailure Unit}
  (hSplit : route ctx root = front ++ dir :: back) (ho : Told ctx start front o)

include hSplit ho

/-- The next directory is known if it was known at the start. -/
theorem Told.mem_dirs_next : dir ∈ o.state.dirs ↔ dir ∈ start.dirs := by
  have hDir : dir ∈ route ctx root := hSplit ▸ List.mem_append_right front List.mem_cons_self
  have hFront : ∀ e ∈ front, e ∈ route ctx root := fun e he => hSplit ▸ List.mem_append_left _ he
  have hNew : dir ∉ front := (route_split hfs hRoot hSplit).1
  rw [ho.mem_dirs hfs hRoot hs hFront]
  constructor
  · exact fun h => h.elim (fun h => absurd h hNew) (·.1)
  · exact fun h => Or.inr ⟨h, fun e he d hd =>
      not_isUnder_of_mem_gone hfs hRoot hs (hFront e he) hd hDir⟩

/-- What is gone from the next directory is what was gone from it at the start. -/
theorem Told.gone_eq : o.state.gone ctx dir = start.gone ctx dir := by
  have hFront : ∀ e ∈ front, e ∈ route ctx root := fun e he => hSplit ▸ List.mem_append_left _ he
  refine gone_eq_of_mem_iff ho.orderly.distinct hs.distinct fun d => ?_
  exact mem_gone_iff_start hfs hRoot hSplit hs ho.orderly (ho.mem_dirs hfs hRoot hs hFront)

/-- **One more directory.** -/
theorem Told.step {names : List Text} (hList : ctx.files.list dir = .ok names)
    (hOk : (Action.forEach (Step.run ctx) (steps ctx dir) o.state).result = .ok ()) :
    Told ctx start (front ++ [dir]) ⟨(Action.forEach (Step.run ctx) (steps ctx dir) o.state).state,
      o.notices ++ (Action.forEach (Step.run ctx) (steps ctx dir) o.state).notices, .ok ()⟩ := by
  have hDir : dir ∈ route ctx root := hSplit ▸ List.mem_append_right front List.mem_cons_self
  have hFront : ∀ e ∈ front, e ∈ route ctx root := fun e he => hSplit ▸ List.mem_append_left _ he
  have hAway : ∀ d ∈ start.gone ctx dir, ∀ e ∈ route ctx root, Path.isUnder e d = false :=
    fun d hd e he => not_isUnder_of_mem_gone hfs hRoot hs hDir hd he
  have hKnown := ho.mem_dirs_next hfs hRoot hs hSplit
  have hGone := ho.gone_eq hfs hRoot hs hSplit
  obtain ⟨ns, rfl⟩ := exists_names_of_mem_route hfs hRoot hDir
  have hKeeps : ∀ s ∈ steps ctx (b.path ns), Action.Keeps Orderly (Step.run ctx s) :=
    fun s hs => confined_step (accepts_path ns) (fun _ _ h => h) hs
  obtain ⟨hEvents, hDirs⟩ := told_steps (ho.orderly.gone_apart ns)
    (fun d hd => hAway d (hGone ▸ hd) _ hDir) hList hOk
  refine ⟨Action.Keeps.forEach hKeeps o.state ho.orderly, ?_, ?_⟩
  · -- what has become known on the way does not lie below anything that is gone
    have hRoute : (front.filter fun e => decide (e ∉ start.dirs)).filter
        (fun e => (start.gone ctx (b.path ns)).all fun d => !Path.isUnder e d) =
          front.filter fun e => decide (e ∉ start.dirs) := by
      rw [List.filter_eq_self]
      intro e he
      rw [List.all_eq_true]
      exact fun d hd => by simp [hAway d hd e (hFront e (List.mem_of_mem_filter he))]
    have hLast : ([b.path ns].filter fun e => decide (e ∉ start.dirs)) =
        if b.path ns ∈ start.dirs then [] else [b.path ns] := by
      by_cases h : b.path ns ∈ start.dirs <;> simp [h]
    simp only [hDirs, hKnown, hGone]
    rw [ho.dirs_eq, List.filter_append, hRoute, List.filter_append, hLast, List.append_assoc,
      List.filter_filter]
    congr 1
    apply List.filter_congr
    intro q _
    rw [List.all_append, List.all_cons, List.all_nil, Bool.and_true, Bool.and_comm]
  · have hNews : news ctx o.state (b.path ns) = news ctx start (b.path ns) := by
      unfold news
      simp only [hGone, hKnown]
    rw [hNews] at hEvents
    show (o.notices ++ _).filterMap Notice.event? = _
    rw [List.filterMap_append, List.flatMap_append, List.flatMap_singleton, ← ho.events_eq]
    exact congrArg (o.events ++ ·) hEvents

end Next

/-- **A part of the route.** -/
theorem Told.run {front back : List Text} (hSplit : route ctx root = front ++ back)
    (hList : ∀ dir ∈ front, ∃ names, ctx.files.list dir = .ok names)
    (hOk : (Indexer.run ctx front start).result = .ok ()) :
    Told ctx start front (Indexer.run ctx front start) :=
  run_along hSplit hList hOk (Told.nil hs) fun _ _ _ _ _ hSplit hNames hHere hDir =>
    hHere.step hfs hRoot hs hSplit hNames hDir

end Along

end Indexer

end ClassTags
