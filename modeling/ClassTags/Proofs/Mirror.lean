import ClassTags.Proofs.Coherence
import ClassTags.Proofs.Reading
import ClassTags.Proofs.Renewal
import Mathlib.Data.Finset.Basic
import Mathlib.Data.Finset.Dedup
import Mathlib.Data.List.Count

/-!
# Mirrors of the known directories

Observers are told which directories become known and which are forgotten. An observer that replays
what it is told holds a **mirror** of the known directories: a directory that is added comes in, and
one that is removed goes together with all that lies below it.

An indexer changes its directories in two operations only, `learn` and `remove`, and each reports
one event for its change. All else is silent. So each action is *accounted for* by its events
(`Action.Accounted`), which passes from parts to sequences. `remove` forgets first and reports last;
if a check in between fails, the mirror keeps what the indexer has forgotten already, and can only
be too large.

Main results:

* `DirectoryEvent.mirror` — what an observer makes of the events;
* `Indexer.call_accounted` — every call is accounted for by its events;
* `Indexer.mirror_after` — after any run of calls an observer's mirror holds all known directories, and
  no others if all calls have returned.
-/

namespace ClassTags

-- ---------------------------------------------------------------------------
-- Mirrors
-- ---------------------------------------------------------------------------

namespace DirectoryEvent

/-- What an event makes of a mirror. -/
def replay (mirrored : Finset Text) : DirectoryEvent → Finset Text
  | added p => insert p mirrored
  | removed p => mirrored.filter fun q => Path.isUnder q p = false

/-- What events make of a mirror, one after the other. -/
def mirror (mirrored : Finset Text) (events : List DirectoryEvent) : Finset Text :=
  events.foldl replay mirrored

/-- An event is news: what is added was not there, and what is removed was. -/
def IsNews (mirrored : Finset Text) : DirectoryEvent → Prop
  | added p => p ∉ mirrored
  | removed p => p ∈ mirrored

/-- Every event is news when it comes. -/
def AllNews : Finset Text → List DirectoryEvent → Prop
  | _, [] => True
  | mirrored, e :: es => e.IsNews mirrored ∧ AllNews (e.replay mirrored) es

/-- Events replayed in two portions make the same mirror. -/
theorem mirror_append (mirrored : Finset Text) (es fs : List DirectoryEvent) :
    mirror mirrored (es ++ fs) = mirror (mirror mirrored es) fs := List.foldl_append

/-- Events in two portions are news if each portion is, the second one after the first. -/
theorem allNews_append {mirrored : Finset Text} {es fs : List DirectoryEvent} :
    AllNews mirrored (es ++ fs) ↔ AllNews mirrored es ∧ AllNews (mirror mirrored es) fs := by
  induction es generalizing mirrored with
  | nil => simp [AllNews, mirror]
  | cons e es ih => rw [List.cons_append, AllNews, AllNews, ih, and_assoc]; rfl

/-- A larger mirror stays larger. -/
theorem replay_mono {M N : Finset Text} (h : M ⊆ N) (e : DirectoryEvent) :
    e.replay M ⊆ e.replay N := by
  cases e with
  | added p => exact Finset.insert_subset_insert p h
  | removed p => exact Finset.filter_subset_filter _ h

/-- Of a larger mirror events make a larger one, since no event depends on what is absent. -/
theorem mirror_mono {M N : Finset Text} (h : M ⊆ N) (es : List DirectoryEvent) :
    mirror M es ⊆ mirror N es := by
  induction es generalizing M N with
  | nil => exact h
  | cons e es ih => exact ih (replay_mono h e)

end DirectoryEvent

open DirectoryEvent (mirror AllNews)

/-- The known directories as a set. -/
def Indexer.known (x : Indexer) : Finset Text := x.dirs.toFinset

theorem Indexer.mem_known {x : Indexer} {d : Text} : d ∈ x.known ↔ d ∈ x.dirs := List.mem_toFinset

-- ---------------------------------------------------------------------------
-- Silent actions
-- ---------------------------------------------------------------------------

/-- The notice reports no change of the known directories. -/
def Notice.IsSilent (n : Notice) : Prop := n.event? = none

/-- What is reported about the classes of a file tells of no directory. -/
theorem classNotices_silent (path : Text) (n : Node) : ∀ m ∈ n.classNotices path, m.IsSilent := by
  intro m hm
  unfold Node.classNotices at hm
  split at hm
  case h_1 =>
    rw [List.mem_singleton.mp hm]
    rfl
  case h_2 name body _ =>
    obtain ⟨entry, -, hm⟩ := List.mem_flatMap.mp hm
    unfold ClassRecord.entryNotices at hm
    split at hm
    · rw [List.mem_singleton.mp hm]
      rfl
    · split at hm
      · rw [List.mem_singleton.mp hm]
        rfl
      · split at hm
        · rw [List.mem_singleton.mp hm]
          rfl
        · exact nomatch hm

/-- Reading a source text is silent. -/
theorem classesOfSource_silent (defineCalls : List Text) (path source : Text) :
    ∀ n ∈ (classesOfSource defineCalls path source).notices, n.IsSilent := by
  have hProgram : (Program.ofSource path source).Within Notice.IsSkippedEntry _ _ :=
    Program.ofTree_within (T := fun _ => True) (fun _ _ _ _ => trivial) fun _ _ _ => trivial
  have hSource : (classesOfSource defineCalls path source).Within Notice.IsSilent
      (Program.Refused path source (.ofSource source)) fun _ => True := by
    refine .bind ⟨fun n hn => ?_, hProgram.failure, hProgram.value⟩ fun p _ => ?_
    · obtain ⟨form, line, rfl⟩ := hProgram.notices n hn
      rfl
    · refine .bind (V := fun _ => True) ⟨fun n hn => ?_, nofun, fun _ _ => trivial⟩ fun _ _ =>
        .pure trivial
      obtain ⟨call, -, hn⟩ := List.mem_flatMap.mp hn
      exact classNotices_silent path call n hn
  exact hSource.notices

namespace Action

variable {σ τ ε ε' α β : Type}

/-- The action reports no change of the known directories. -/
def Silent (x : Action σ ε α) : Prop := ∀ s, ∀ n ∈ (x s).notices, n.IsSilent

namespace Silent

theorem pure (a : α) : Silent (pure a : Action σ ε α) := fun _ _ => nofun

theorem fail (e : ε) : Silent (fail e : Action σ ε α) := fun _ _ => nofun

theorem state : Silent (state : Action σ ε σ) := fun _ _ => nofun

theorem update (f : σ → σ) : Silent (update f : Action σ ε Unit) := fun _ _ => nofun

theorem note {n : Notice} (h : n.IsSilent) : Silent (note n : Action σ ε Unit) :=
  fun _ _ hm => List.mem_singleton.mp hm ▸ h

/-- A computation without events is silent as an action. -/
theorem ofLogged {cause : ε' → ε} {x : Logged ε' α} (h : ∀ n ∈ x.notices, n.IsSilent) :
    Silent (ofLogged cause x : Action σ ε α) := fun _ => h

/-- A sequence of silent actions is silent. -/
theorem bind {x : Action σ ε α} {f : α → Action σ ε β} (hx : Silent x) (hf : ∀ a, Silent (f a)) :
    Silent (x >>= f) := by
  intro s n hn
  cases h : (x s).result with
  | error e =>
    rw [bind_of_error h] at hn
    exact hx s n hn
  | ok a =>
    rw [bind_of_ok h] at hn
    exact (List.mem_append.mp hn).elim (hx s n) (hf a _ n)

theorem forEach {f : α → Action σ ε Unit} (h : ∀ a, Silent (f a)) (as : List α) :
    Silent (forEach f as) :=
  Compositional.forEach (Q := fun _ => Silent) ⟨pure, bind⟩ fun a _ => h a

/-- An action on a part of the state is silent as on the part alone. -/
theorem within {part : σ → τ} {set : σ → τ → σ} {x : Action τ ε α} (h : Silent x) :
    Silent (x.within part set) := fun s => h (part s)

end Silent

end Action

/-- Checking a file tells of no directory. -/
theorem Registry.check_silent (defineCalls : List Text) (fs : FileSystem) (path : Text) :
    Action.Silent (check defineCalls fs path) := by
  unfold check
  split
  · refine .bind (.update _) fun _ => ?_
    split
    · exact .bind (.note rfl) fun _ => .pure false
    · exact .fail _
    · refine .bind (.ofLogged (classesOfSource_silent _ _ _)) fun records => ?_
      refine .bind (.update _) fun _ => .bind (.forEach (fun c => ?_) _) fun _ => ?_
      · refine .bind .state fun r => ?_
        split
        · split
          · exact .update _
          · exact .fail _
        · exact .update _
      · exact .bind .state fun r => .bind (.note rfl) fun _ => .pure true
  · exact .fail _

-- ---------------------------------------------------------------------------
-- Actions and their events
-- ---------------------------------------------------------------------------

/-- The events that an outcome reports. -/
def Outcome.events {σ ε α : Type} (o : Outcome σ ε α) : List DirectoryEvent :=
  o.notices.filterMap Notice.event?

/-- **The events of an outcome account for the known directories.** What has become known has been
reported, whether the action failed or not; if it returned, its events tell all that has changed. -/
structure Outcome.Accounts {α : Type} (s : Indexer) (o : Outcome Indexer IndexFailure α) : Prop where
  covered : o.state.known ⊆ mirror s.known o.events
  news : AllNews s.known o.events
  exact : ∀ a, o.result = .ok a → o.state.known = mirror s.known o.events

namespace Outcome.Accounts

variable {α : Type} {s : Indexer} {o : Outcome Indexer IndexFailure α}

/-- An outcome without events accounts for directories that stay the same. -/
theorem of_no_event (hEvents : o.events = []) (hKnown : o.state.known = s.known) : o.Accounts s := by
  refine ⟨?_, ?_, fun _ _ => ?_⟩ <;> rw [hEvents]
  · exact hKnown.subset
  · trivial
  · exact hKnown

/-- An outcome with one event accounts for the change that the event tells of. -/
theorem of_event {e : DirectoryEvent} (hEvents : o.events = [e]) (hNews : e.IsNews s.known)
    (hKnown : o.state.known = e.replay s.known) : o.Accounts s := by
  refine ⟨?_, ?_, fun _ _ => ?_⟩ <;> rw [hEvents]
  · exact hKnown.subset
  · exact ⟨hNews, trivial⟩
  · exact hKnown

end Outcome.Accounts

/-- The events of an action account for the known directories in every state. -/
def Action.Accounted {α : Type} (x : Action Indexer IndexFailure α) : Prop := ∀ s, (x s).Accounts s

namespace Action.Accounted

variable {α β : Type}

/-- A silent action that leaves the directories alone is accounted for. -/
theorem of_silent {x : Action Indexer IndexFailure α} (hSilent : x.Silent)
    (hDirs : ∀ s, (x s).state.dirs = s.dirs) : x.Accounted := fun s =>
  .of_no_event (List.filterMap_eq_nil_iff.mpr (hSilent s)) (congrArg List.toFinset (hDirs s))

theorem pure (a : α) : (pure a : Action Indexer IndexFailure α).Accounted :=
  .of_silent (.pure a) fun _ => rfl

theorem fail (e : IndexFailure) : (Action.fail e : Action Indexer IndexFailure α).Accounted :=
  .of_silent (.fail e) fun _ => rfl

theorem state : (Action.state : Action Indexer IndexFailure Indexer).Accounted :=
  .of_silent .state fun _ => rfl

theorem note {n : Notice} (h : n.IsSilent) :
    (Action.note n : Action Indexer IndexFailure Unit).Accounted :=
  .of_silent (.note h) fun _ => rfl

/-- **Accounts add up**: the events of a sequence are those of its parts, and what fails in the
second part has been accounted for in the first. -/
theorem bind {x : Action Indexer IndexFailure α} {f : α → Action Indexer IndexFailure β}
    (hx : x.Accounted) (hf : ∀ a, (f a).Accounted) : (x >>= f).Accounted := by
  intro s
  cases h : (x s).result with
  | error e =>
    rw [bind_of_error h]
    exact ⟨(hx s).covered, (hx s).news, nofun⟩
  | ok a =>
    rw [bind_of_ok h]
    -- The second part begins where the mirror is exact.
    have hSecond := hf a (x s).state
    have hExact := (hx s).exact a h
    refine ⟨?_, ?_, fun b hb => ?_⟩ <;> rw [Outcome.events, List.filterMap_append]
    · rw [DirectoryEvent.mirror_append, ← Outcome.events, ← hExact]
      exact hSecond.covered
    · rw [DirectoryEvent.allNews_append, ← Outcome.events, ← hExact]
      exact ⟨(hx s).news, hSecond.news⟩
    · rw [DirectoryEvent.mirror_append, ← Outcome.events, ← hExact]
      exact hSecond.exact b hb

theorem compositional : Compositional fun _ => Accounted := ⟨pure, bind⟩

theorem forEach {f : α → Action Indexer IndexFailure Unit} (h : ∀ a, (f a).Accounted) (as : List α) :
    (Action.forEach f as).Accounted := compositional.forEach fun a _ => h a

end Action.Accounted

namespace Indexer

variable (ctx : IndexContext)

/-- Checking a file leaves the directories alone. -/
theorem check_accounted (path : Text) : (check ctx path).Accounted :=
  .of_silent (.within (Registry.check_silent _ _ path)) fun _ => rfl

/-- Retracting a file leaves the directories alone. -/
theorem retract_accounted (path : Text) :
    (retract path : Action Indexer IndexFailure Bool).Accounted :=
  .of_silent (.bind .state fun _ => .bind (.update _) fun _ => .pure _) fun _ => rfl

/-- Checks tell of no directory, whether they return or fail. -/
theorem checks_silent (ps : List Text) : (checks ctx ps).Silent :=
  .forEach (fun p => .bind (.within (Registry.check_silent _ _ p)) fun _ => .pure ()) ps

/-- To forget a directory is what its removal does to a mirror. -/
theorem known_forget (x : Indexer) (dir : Text) :
    (x.forget dir).known = (DirectoryEvent.removed dir).replay x.known := by
  ext d
  simp [known, forget, DirectoryEvent.replay]

/-- A removal forgets first and reports last, so a check that fails in between leaves the mirror too
large. -/
theorem remove_accounted (path : Text) : (remove ctx path).Accounted := by
  intro s
  by_cases h : path ∈ s.dirs
  · have hEvents : (checks ctx (s.below path) (s.forget path)).events = [] :=
      List.filterMap_eq_nil_iff.mpr (checks_silent ctx _ _)
    have hKnown : (remove ctx path s).state.known =
        (DirectoryEvent.removed path).replay s.known := by
      rw [← known_forget, state_remove h]
      exact congrArg List.toFinset (dirs_checks _ _)
    cases hResult : (checks ctx (s.below path) (s.forget path)).result with
    | error e =>
      -- The directory has been forgotten and nobody has been told.
      have hFailed : (remove ctx path s).result = .error e ∧ (remove ctx path s).events = [] := by
        rw [remove_of_known h, Action.bind_of_error hResult]
        exact ⟨rfl, hEvents⟩
      refine ⟨?_, ?_, fun v hOk => nomatch hFailed.1.symm.trans hOk⟩
      · rw [hKnown, hFailed.2]
        exact Finset.filter_subset _ _
      · rw [hFailed.2]
        trivial
    | ok u =>
      refine .of_event (e := .removed path) ?_ (mem_known.mpr h) hKnown
      rw [remove_of_known h, Action.bind_of_ok hResult, Outcome.events, List.filterMap_append]
      exact congrArg (· ++ [DirectoryEvent.removed path]) hEvents
  · rw [remove_of_unknown h]
    exact .of_no_event rfl rfl

/-- A directory that becomes known is reported, and one that is known is not. -/
theorem learn_accounted (dir : Text) : (learn dir).Accounted := by
  intro s
  unfold learn
  rw [Action.state_bind]
  by_cases h : dir ∈ s.dirs
  · rw [if_pos (by simpa using h)]
    exact .of_no_event rfl rfl
  · rw [if_neg (by simpa using h), Action.update_bind]
    refine .of_event (e := .added dir) rfl (fun hMem => h (mem_known.mp hMem)) ?_
    ext d
    rw [mem_known, DirectoryEvent.replay, Finset.mem_insert, mem_known, or_comm]
    exact List.mem_append.trans (or_congr_right List.mem_singleton)

/-- A directory is pruned by removals. -/
theorem prune_accounted (dir : Text) (found : Listing) : (prune ctx dir found).Accounted := by
  refine .bind .state fun x => .bind (.forEach (fun d => ?_) _) fun _ => ?_
  · exact .bind (remove_accounted ctx d) fun _ => .pure ()
  · exact .bind .state fun x => .forEach (fun p => .bind (retract_accounted p) fun _ => .pure ()) _

/-- Every step of a scan is accounted for. -/
theorem step_accounted (s : Step) : (s.run ctx).Accounted := by
  cases s with
  | vanished path => exact .note rfl
  | fault f path => exact .fail _
  | check path => exact .bind (check_accounted ctx path) fun _ => .pure ()
  | close dir => exact .bind (prune_accounted ctx dir _) fun _ => learn_accounted dir
  | absent dir => exact .bind (remove_accounted ctx dir) fun _ => .pure ()

/-- **Every call is accounted for by its events.** -/
theorem call_accounted (call : Call) : (call.run ctx).Accounted := by
  cases call with
  | check path => exact .bind (check_accounted ctx path) fun _ => .pure ()
  | retract path => exact .bind (retract_accounted path) fun _ => .pure ()
  | scan root =>
    exact scan_of_steps (D := fun _ => True) Action.Accounted.compositional (fun _ _ _ _ => trivial)
      (fun _ _ s _ => step_accounted ctx s) (fun _ => trivial) fun _ => .fail _
  | remove path => exact .bind (remove_accounted ctx path) fun _ => .pure ()

end Indexer

-- ---------------------------------------------------------------------------
-- Runs and their observers
-- ---------------------------------------------------------------------------

/-- A call with the file system of its moment and with those who are told about it. -/
structure ObservedCall where
  context : IndexContext
  call : Call
  subscribers : List Text
  /-- An observer of this call only. -/
  observer : Option Text := none

/-- The call and its file system. -/
def ObservedCall.timed (c : ObservedCall) : IndexContext × Call := (c.context, c.call)

/-- What the observer `who` is told when some notices are given during a call. -/
def ObservedCall.told (c : ObservedCall) (who : Text) (notices : List Notice) : List DirectoryEvent :=
  ((DirectoryEvent.deliveries c.subscribers c.observer notices).filter (·.1 == who)).map (·.2)

/-- An observer who hears a call once is told every event once. -/
theorem ObservedCall.told_eq {c : ObservedCall} {who : Text}
    (h : (c.subscribers ++ c.observer.toList).count who = 1) (notices : List Notice) :
    c.told who notices = notices.filterMap Notice.event? := by
  unfold told DirectoryEvent.deliveries
  induction notices.filterMap Notice.event? with
  | nil => rfl
  | cons e es ih =>
    have hOnce : (((c.subscribers ++ c.observer.toList).map fun observer => (observer, e)).filter
        (·.1 == who)).map (·.2) = [e] := by
      rw [List.filter_map, List.map_map]
      show (List.filter (· == who) _).map (fun _ => e) = [e]
      rw [List.filter_beq, h]
      rfl
    rw [List.flatMap_cons, List.filter_append, List.map_append, hOnce, ih]
    rfl

namespace Indexer

/-- What the observer `who` is told in a run of calls. -/
def heard (who : Text) : Indexer → List ObservedCall → List DirectoryEvent
  | _, [] => []
  | x, c :: cs =>
    let o := c.call.run c.context x
    c.told who o.notices ++ heard who o.state cs

/-- All calls of a run return. -/
def Returns : Indexer → List ObservedCall → Prop
  | _, [] => True
  | x, c :: cs =>
    let o := c.call.run c.context x
    o.result = .ok () ∧ Returns o.state cs

variable {who : Text} {cs : List ObservedCall}

/-- After any run of calls the mirror holds all known directories, by induction on the run. -/
theorem known_subset_mirror
    (hOnce : ∀ c ∈ cs, (c.subscribers ++ c.observer.toList).count who = 1) {x : Indexer}
    {mirrored : Finset Text} (hx : x.known ⊆ mirrored) :
    (x.after (cs.map ObservedCall.timed)).known ⊆ mirror mirrored (x.heard who cs) := by
  induction cs generalizing x mirrored with
  | nil => exact hx
  | cons c cs ih =>
    obtain ⟨hFirst, hRest⟩ := List.forall_mem_cons.mp hOnce
    have hCall := (call_accounted c.context c.call x).covered
    rw [heard, DirectoryEvent.mirror_append, ObservedCall.told_eq hFirst]
    exact ih hRest (hCall.trans (DirectoryEvent.mirror_mono hx _))

/-- If all calls have returned it holds no others, and has been told nothing but news. -/
theorem known_eq_mirror
    (hOnce : ∀ c ∈ cs, (c.subscribers ++ c.observer.toList).count who = 1) {x : Indexer}
    (hReturns : x.Returns cs) :
    (x.after (cs.map ObservedCall.timed)).known = mirror x.known (x.heard who cs) ∧
      AllNews x.known (x.heard who cs) := by
  induction cs generalizing x with
  | nil => exact ⟨rfl, trivial⟩
  | cons c cs ih =>
    obtain ⟨hFirst, hRest⟩ := List.forall_mem_cons.mp hOnce
    obtain ⟨hOk, hReturns⟩ := hReturns
    have hCall := call_accounted c.context c.call x
    have hExact := hCall.exact () hOk
    obtain ⟨hKnown, hNews⟩ := ih hRest hReturns
    rw [heard, ObservedCall.told_eq hFirst, DirectoryEvent.mirror_append,
      DirectoryEvent.allNews_append, ← Outcome.events, ← hExact]
    exact ⟨hKnown, hCall.news, hNews⟩

/-- **Observers can mirror the known directories.** In a run of calls, each with a file system of
its own and each returning or failing, an observer who is told once about every call and replays
what it is told never misses a known directory. As long as all calls return, it holds the known
directories and nothing else, and all it is told is news. -/
theorem mirror_after (who : Text) (cs : List ObservedCall)
    (hOnce : ∀ c ∈ cs, (c.subscribers ++ c.observer.toList).count who = 1) :
    (after {} (cs.map ObservedCall.timed)).known ⊆ mirror ∅ (heard who {} cs) ∧
      (Returns {} cs →
        (after {} (cs.map ObservedCall.timed)).known = mirror ∅ (heard who {} cs) ∧
          AllNews ∅ (heard who {} cs)) :=
  ⟨known_subset_mirror hOnce subset_rfl, known_eq_mirror hOnce⟩

/-- A file system whose directory `/r` has the given entries. -/
def withRoot (entries : Table Entry) : IndexContext where
  files := { root := [("r", .directory entries)] }
  defineCalls := []
  sourceExtension := ".js"
  ignoredDirs := []

/-- A directory with a subdirectory is scanned, and once more when the subdirectory is gone. -/
def scanTwice : List ObservedCall :=
  [{ context := withRoot [("s", .directory [])], call := .scan "/r", subscribers := ["o"] },
    { context := withRoot [], call := .scan "/r", subscribers := [], observer := some "o" }]

/-- The subdirectory is added and removed again, and only its parent stays. -/
theorem mirror_after_scanTwice :
    heard "o" {} scanTwice = [.added "/r", .added "/r/s", .removed "/r/s"] ∧
      (after {} (scanTwice.map ObservedCall.timed)).known =
        mirror ∅ [.added "/r", .added "/r/s", .removed "/r/s"] ∧
      AllNews ∅ [.added "/r", .added "/r/s", .removed "/r/s"] := by
  have hHeard : heard "o" {} scanTwice = [.added "/r", .added "/r/s", .removed "/r/s"] := by
    decide +kernel
  have hReturns : Returns {} scanTwice := ⟨by decide +kernel, by decide +kernel, trivial⟩
  have hMirror := (mirror_after "o" scanTwice (by decide)).2 hReturns
  rw [hHeard] at hMirror
  exact ⟨hHeard, hMirror⟩

end Indexer

end ClassTags
