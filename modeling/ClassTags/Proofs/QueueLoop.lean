import ClassTags.Proofs.Route
import Mathlib.Logic.Function.Iterate

/-!
# The turns of the queue loop

A scan works off a queue that grows while it is consumed, and a directory that is not there is
dropped without being marked as visited. Here the loop is taken apart into turns, with no bound on
their number, and every turn writes down the path whose listing it asks for, or the path that it
passes over because it has been visited. The loop of a scan comes to its end, because a turn
replaces a directory by directories in it, which weigh less. It asks for no listing twice, because
all that waits has been found in different places of a tree.

Main definitions:

* `Indexer.Loop` — where the loop stands, and what it has asked for;
* `Indexer.Loop.turn` — one turn of the loop;
* `Indexer.Loop.Sound` — what has been asked for and what waits is distinct.

Main results:

* `Indexer.Loop.outcome_turns` — the bounded loop takes just as many turns as its bound says;
* `Indexer.Loop.Sound.turn` — what a turn preserves;
* `Indexer.Loop.Spent.turn` — what a turn uses up;
* `Indexer.scan_asks_once` — a scan comes to its end and asks for no listing twice.
-/

namespace ClassTags

namespace Outcome

variable {σ ε α β : Type}

/-- What is left behind when an action follows. -/
def followedBy (o : Outcome σ ε α) (f : α → Action σ ε β) : Outcome σ ε β :=
  match o.result with
  | .error e => ⟨o.state, o.notices, .error e⟩
  | .ok a =>
    let next := f a o.state
    ⟨next.state, o.notices ++ next.notices, next.result⟩

/-- After an outcome that returns comes what follows. -/
theorem followedBy_of_ok {o : Outcome σ ε α} {a : α} (h : o.result = .ok a)
    (f : α → Action σ ε β) :
    o.followedBy f = ⟨(f a o.state).state, o.notices ++ (f a o.state).notices, (f a o.state).result⟩ := by
  unfold followedBy
  rw [h]

theorem followedBy_of_error {o : Outcome σ ε α} {e : ε} (h : o.result = .error e)
    (f : α → Action σ ε β) : o.followedBy f = ⟨o.state, o.notices, .error e⟩ := by
  unfold followedBy
  rw [h]

/-- Only what follows the result matters. -/
theorem followedBy_congr {o : Outcome σ ε α} {f g : α → Action σ ε β}
    (h : ∀ a, o.result = .ok a → f a = g a) : o.followedBy f = o.followedBy g := by
  cases ho : o.result with
  | error e => rw [followedBy_of_error ho, followedBy_of_error ho]
  | ok a => rw [followedBy_of_ok ho, followedBy_of_ok ho, h a ho]

/-- What follows may be done in two portions. -/
theorem followedBy_bind {γ : Type} (o : Outcome σ ε α) (f : α → Action σ ε β)
    (g : β → Action σ ε γ) : (o.followedBy f).followedBy g = o.followedBy fun a => f a >>= g := by
  cases ho : o.result with
  | error e => rw [followedBy_of_error ho, followedBy_of_error ho, followedBy_of_error rfl]
  | ok a =>
    rw [followedBy_of_ok ho, followedBy_of_ok ho]
    cases hf : (f a o.state).result with
    | error e => rw [followedBy_of_error rfl, Action.bind_of_error hf]
    | ok b => rw [followedBy_of_ok rfl, Action.bind_of_ok hf, List.append_assoc]

theorem followedBy_pure (o : Outcome σ ε α) : o.followedBy pure = o := by
  obtain ⟨state, notices, result⟩ := o
  cases result with
  | error e => rfl
  | ok a => rw [followedBy_of_ok rfl, Action.pure_apply, List.append_nil]

end Outcome

namespace Indexer

/-- Where the loop over the queue stands. -/
structure Loop where
  /-- The paths whose listing has been asked for, in order. -/
  asked : List Text
  /-- The paths that have been passed over because they had been visited, in order. -/
  skipped : List Text
  /-- The index, what has been reported, and either the directories that wait and those that have
  been visited, or a failure. -/
  outcome : Outcome Indexer IndexFailure (List Text × List Text)

namespace Loop

/-- What the loop does when it asks for the listing of a directory. Gives the directories that wait
after that, and those that have been visited. -/
def enter (ctx : IndexContext) (dir : Text) (queue visited : List Text) :
    Action Indexer IndexFailure (List Text × List Text) :=
  match ctx.files.list dir with
  | .error .missing => do
    let _ ← remove ctx dir
    pure (queue, visited)
  | .error fault => Action.fail (.file fault dir)
  | .ok names => do
    let dirs ← visit ctx dir names
    pure (queue ++ dirs, visited ++ [dir])

/-- One turn of the loop. Nothing happens any more when no directory waits, or after a failure. -/
def turn (ctx : IndexContext) (l : Loop) : Loop :=
  match l.outcome.result with
  | .ok (dir :: queue, visited) =>
    if visited.contains dir then
      { l with skipped := l.skipped ++ [dir],
               outcome := l.outcome.followedBy fun _ => pure (queue, visited) }
    else
      { l with asked := l.asked ++ [dir],
               outcome := l.outcome.followedBy fun _ => enter ctx dir queue visited }
  | _ => l

/-- Whether the loop has come to its end, by return or by failure. -/
def ended (l : Loop) : Bool :=
  match l.outcome.result with
  | .ok (_ :: _, _) => false
  | _ => true

/-- The loop at the start of a scan. -/
def start (root : Text) (x : Indexer) : Loop := ⟨[], [], ⟨x, [], .ok ([Path.normalize root], [])⟩⟩

/-- What a scan leaves behind when its loop has come to an end. -/
def report (l : Loop) : Outcome Indexer IndexFailure Unit := l.outcome.followedBy fun _ => pure ()

variable {ctx : IndexContext} {l : Loop} {dir : Text} {queue visited : List Text}

-- ---------------------------------------------------------------------------
-- Turns and the bounded loop
-- ---------------------------------------------------------------------------

/-- What a turn does. -/
inductive Turned (ctx : IndexContext) (l : Loop) : Loop → Prop
  | idle (h : l.ended = true) : Turned ctx l l
  | skip {dir : Text} {queue visited : List Text} (h : l.outcome.result = .ok (dir :: queue, visited))
      (hVisited : dir ∈ visited) :
    Turned ctx l
      { l with skipped := l.skipped ++ [dir],
               outcome := l.outcome.followedBy fun _ => pure (queue, visited) }
  | ask {dir : Text} {queue visited : List Text} (h : l.outcome.result = .ok (dir :: queue, visited))
      (hNew : dir ∉ visited) :
    Turned ctx l
      { l with asked := l.asked ++ [dir],
               outcome := l.outcome.followedBy fun _ => enter ctx dir queue visited }

/-- **All that a turn of the loop can do.** -/
theorem turn_cases (ctx : IndexContext) (l : Loop) : Turned ctx l (l.turn ctx) := by
  unfold turn
  split
  case h_1 dir queue visited h =>
    split
    case isTrue hVisited => exact .skip h (List.contains_iff_mem.mp hVisited)
    case isFalse hNew => exact .ask h fun hVisited => hNew (List.contains_iff_mem.mpr hVisited)
  case h_2 hOther =>
    refine .idle ?_
    unfold ended
    split
    case h_1 dir queue visited h => exact absurd h (hOther dir queue visited)
    case h_2 => rfl

/-- A loop has ended if its queue is empty or something has failed. -/
theorem ended_iff : l.ended = true ↔
    (∃ visited, l.outcome.result = .ok ([], visited)) ∨ ∃ e, l.outcome.result = .error e := by
  unfold ended
  split
  case h_1 dir queue visited h => simp [h]
  case h_2 hOther =>
    refine iff_of_true rfl ?_
    cases h : l.outcome.result with
    | error e => exact .inr ⟨e, rfl⟩
    | ok s =>
      obtain ⟨_ | ⟨dir, queue⟩, visited⟩ := s
      · exact .inl ⟨visited, rfl⟩
      · exact absurd h (hOther dir queue visited)

/-- Nothing is done in a turn after the end. -/
theorem turn_of_ended (h : l.ended = true) : l.turn ctx = l := by
  generalize hTurn : l.turn ctx = l'
  cases hTurn ▸ turn_cases ctx l with
  | idle => rfl
  | skip hResult | ask hResult =>
    rw [ended, hResult] at h
    cases h

theorem drain_nil (k : Nat) (visited : List Text) : drain ctx k [] visited = pure ([], visited) := by
  cases k <;> rfl

/-- Entering a directory is the first turn of the bounded loop. -/
theorem enter_bind_drain (hNew : dir ∉ visited) (k : Nat) :
    (enter ctx dir queue visited >>= fun s => drain ctx k s.1 s.2) =
      drain ctx (k + 1) (dir :: queue) visited := by
  have hContains : ¬ visited.contains dir = true := by rwa [List.contains_iff_mem]
  unfold enter
  rw [drain, if_neg hContains]
  cases ctx.files.list dir with
  | ok names => simp only [bind_assoc, pure_bind]
  | error fault =>
    cases fault with
    | missing => simp only [bind_assoc, pure_bind]
    | _ => rfl

/-- A turn, and then the bounded loop, is the bounded loop with one turn more. -/
theorem outcome_turn (k : Nat) (l : Loop) :
    ((l.turn ctx).outcome.followedBy fun s => drain ctx k s.1 s.2) =
      l.outcome.followedBy fun s => drain ctx (k + 1) s.1 s.2 := by
  generalize hTurn : l.turn ctx = l'
  cases hTurn ▸ turn_cases ctx l with
  | idle hEnd =>
    refine Outcome.followedBy_congr fun s hs => ?_
    rcases ended_iff.mp hEnd with ⟨visited, hResult⟩ | ⟨e, hResult⟩
    · obtain rfl := Except.ok.inj (hs.symm.trans hResult)
      rw [drain_nil, drain_nil]
    · cases hs.symm.trans hResult
  | skip hResult hVisited =>
    rw [Outcome.followedBy_bind]
    refine Outcome.followedBy_congr fun s hs => ?_
    obtain rfl := Except.ok.inj (hs.symm.trans hResult)
    rw [pure_bind, drain, if_pos (List.contains_iff_mem.mpr hVisited)]
  | ask hResult hNew =>
    rw [Outcome.followedBy_bind]
    refine Outcome.followedBy_congr fun s hs => ?_
    obtain rfl := Except.ok.inj (hs.symm.trans hResult)
    exact enter_bind_drain hNew k

/-- **The bounded loop takes as many turns as its bound says.** -/
theorem outcome_turns (k : Nat) (l : Loop) :
    ((turn ctx)^[k] l).outcome = l.outcome.followedBy fun s => drain ctx k s.1 s.2 := by
  induction k generalizing l with
  | zero => exact (l.outcome.followedBy_pure).symm
  | succ k ih => rw [Function.iterate_succ_apply, ih, outcome_turn]

-- ---------------------------------------------------------------------------
-- What a turn preserves
-- ---------------------------------------------------------------------------

variable {b : Path.Base}

/-- A directory that is entered makes room for the directories in it. -/
theorem result_enter {x : Indexer} {queue' visited' : List Text}
    (h : (enter ctx dir queue visited x).result = .ok (queue', visited')) :
    queue' = queue ++ subdirs ctx dir ∧ ∀ e ∈ visited', e ∈ visited ++ [dir] := by
  unfold enter at h
  cases hList : ctx.files.list dir with
  | ok names =>
    rw [hList] at h
    dsimp only at h
    rw [visit_eq hList] at h
    simp only [bind_assoc, pure_bind] at h
    obtain ⟨_, _, hPure⟩ := Action.result_bind_eq_ok.mp h
    obtain ⟨rfl, rfl⟩ := Prod.mk.inj (Except.ok.inj hPure)
    exact ⟨rfl, fun e he => he⟩
  | error fault =>
    rw [hList] at h
    rw [subdirs_of_error hList, List.append_nil]
    cases fault with
    | missing =>
      obtain ⟨_, _, hPure⟩ := Action.result_bind_eq_ok.mp h
      obtain ⟨rfl, rfl⟩ := Prod.mk.inj (Except.ok.inj hPure)
      exact ⟨rfl, fun e he => List.mem_append_left _ he⟩
    | _ => cases h

/-- All that has been asked for or waits is distinct, and nothing has been passed over. -/
structure Sound (ctx : IndexContext) (b : Path.Base) (l : Loop) : Prop where
  asked : l.asked.Nodup
  skipped : l.skipped = []
  fresh : ∀ queue visited, l.outcome.result = .ok (queue, visited) →
    Fresh ctx b l.asked queue ∧ ∀ e ∈ visited, e ∈ l.asked

/-- A turn keeps a loop sound. -/
theorem Sound.turn (hfs : ctx.files.WellNamed) (h : Sound ctx b l) : Sound ctx b (l.turn ctx) := by
  generalize hTurn : l.turn ctx = l'
  cases hTurn ▸ turn_cases ctx l with
  | idle => exact h
  | skip hResult hVisited =>
    obtain ⟨hFresh, hAsked⟩ := h.fresh _ _ hResult
    exact absurd (hAsked _ hVisited) hFresh.not_mem
  | @ask dir queue visited hResult =>
    obtain ⟨hFresh, hAsked⟩ := h.fresh _ _ hResult
    have hNext := hFresh.next hfs
    refine ⟨hNext.distinct.of_append_left, h.skipped, fun queue' visited' hGoesOn => ?_⟩
    dsimp only at hGoesOn
    rw [Outcome.followedBy_of_ok hResult] at hGoesOn
    obtain ⟨rfl, hVisited⟩ := result_enter hGoesOn
    refine ⟨hNext, fun e he => ?_⟩
    exact (List.mem_append.mp (hVisited e he)).elim (fun he => List.mem_append_left _ (hAsked e he))
      (List.mem_append_right _)

/-- As long as the loop goes on, what waits weighs less than the file system by the number of
turns. -/
def Spent (ctx : IndexContext) (turns : Nat) (l : Loop) : Prop :=
  ∀ dir queue visited, l.outcome.result = .ok (dir :: queue, visited) →
    ((dir :: queue).map ctx.files.weight).sum + turns ≤ ctx.files.size

/-- A turn uses up a part of the file system. -/
theorem Spent.turn (hfs : ctx.files.WellNamed) {k : Nat} (h : Spent ctx k l) :
    Spent ctx (k + 1) (l.turn ctx) := by
  generalize hTurn : l.turn ctx = l'
  intro dir' queue' visited' hGoesOn
  cases hTurn ▸ turn_cases ctx l with
  | idle hEnd =>
    rw [ended, hGoesOn] at hEnd
    cases hEnd
  | @skip dir queue visited hResult =>
    dsimp only at hGoesOn
    rw [Outcome.followedBy_of_ok hResult] at hGoesOn
    obtain ⟨rfl, rfl⟩ := Prod.mk.inj (Except.ok.inj hGoesOn)
    have hBefore := h _ _ _ hResult
    have hPos : 0 < ctx.files.weight dir := FileSystem.weight_pos dir
    simp only [List.map_cons, List.sum_cons] at hBefore ⊢
    omega
  | @ask dir queue visited hResult =>
    dsimp only at hGoesOn
    rw [Outcome.followedBy_of_ok hResult] at hGoesOn
    have hBefore := h _ _ _ hResult
    have hLess := weight_subdirs hfs dir
    rw [(result_enter hGoesOn).1]
    simp only [List.map_cons, List.map_append, List.sum_cons, List.sum_append] at hBefore ⊢
    omega

-- ---------------------------------------------------------------------------
-- All turns
-- ---------------------------------------------------------------------------

section Turns

variable {root : Text} (hfs : ctx.files.WellNamed) (hRoot : Path.normalize root = b.path [])
  (x : Indexer) (k : Nat)

include hfs hRoot

/-- A loop is sound after any number of turns, by induction on their number. -/
theorem sound_turns : Sound ctx b ((turn ctx)^[k] (start root x)) := by
  induction k with
  | zero =>
    refine ⟨List.nodup_nil, rfl, fun queue visited h => ?_⟩
    obtain ⟨rfl, rfl⟩ := Prod.mk.inj (Except.ok.inj h)
    rw [hRoot]
    exact ⟨.start, List.forall_mem_nil _⟩
  | succ k ih =>
    rw [Function.iterate_succ_apply']
    exact ih.turn hfs

omit hRoot in
/-- Every turn has used up its part, by induction on their number. -/
theorem spent_turns : Spent ctx k ((turn ctx)^[k] (start root x)) := by
  induction k with
  | zero =>
    intro dir queue visited h
    obtain ⟨hQueue, -⟩ := Prod.mk.inj (Except.ok.inj h)
    rw [← hQueue, List.map_singleton, List.sum_singleton]
    exact FileSystem.weight_le_size hfs _
  | succ k ih =>
    rw [Function.iterate_succ_apply']
    exact ih.turn hfs

omit hRoot in
/-- After as many turns as the file system has entries the loop has ended. -/
theorem ended_turns : ((turn ctx)^[ctx.files.size] (start root x)).ended = true := by
  have hSpent : Spent ctx ctx.files.size ((turn ctx)^[ctx.files.size] (start root x)) :=
    spent_turns hfs x _
  unfold ended
  split
  case h_1 dir queue visited h =>
    have hPos : 0 < ctx.files.weight dir := FileSystem.weight_pos dir
    have hLess := hSpent _ _ _ h
    simp only [List.map_cons, List.sum_cons] at hLess
    omega
  case h_2 => rfl

omit hfs hRoot in
/-- A scan takes one turn more than its file system has entries, if it gets that far. -/
theorem report_turns (hAbsolute : Path.isAbsolute root = true) :
    ((turn ctx)^[ctx.files.size + 1] (start root x)).report = scan ctx root x := by
  unfold report scan
  rw [outcome_turns, Outcome.followedBy_bind, if_pos hAbsolute, Outcome.followedBy_of_ok rfl]
  rfl

end Turns

end Loop

open Loop in
/-- **A scan comes to its end and asks for no listing twice.** On a file system that is a tree,
whatever the index knows, its loop comes to an end after no more turns than there are entries, and
leaves behind what the scan does. In no number of turns is a listing asked for twice, and so no
directory is ever passed over as visited. -/
theorem scan_asks_once {ctx : IndexContext} {root : Text} (hfs : ctx.files.WellNamed)
    (hRoot : Path.isAbsolute root = true) (x : Indexer) :
    (∃ k ≤ ctx.files.size, ((turn ctx)^[k] (start root x)).ended = true ∧
      ((turn ctx)^[k] (start root x)).report = scan ctx root x) ∧
    ∀ k, ((turn ctx)^[k] (start root x)).asked.Nodup ∧
      ((turn ctx)^[k] (start root x)).skipped = [] := by
  obtain ⟨b, hBase⟩ := Path.exists_base hRoot
  have hEnded : ((turn ctx)^[ctx.files.size] (start root x)).ended = true := ended_turns hfs x
  refine ⟨⟨ctx.files.size, le_rfl, hEnded, ?_⟩, fun k => ?_⟩
  · have hReport : ((turn ctx)^[ctx.files.size + 1] (start root x)).report = scan ctx root x :=
      report_turns x hRoot
    rwa [Function.iterate_succ_apply', turn_of_ended hEnded] at hReport
  · have hSound := sound_turns hfs hBase x k
    exact ⟨hSound.asked, hSound.skipped⟩

/-- Directories of one name in one another. The innermost one must not be listed. -/
def shaft : IndexContext where
  files := { root := [("r", .directory [("a", .directory [("a", .directory [("a", .directory [])])])])],
             denied := [["r", "a", "a", "a"]] }
  defineCalls := []
  sourceExtension := ".js"
  ignoredDirs := []

open Loop in
/-- A scan through a shaft of directories asks for each of them once. -/
theorem scan_asks_once_of_shaft :
    shaft.files.WellNamed ∧
    ((turn shaft)^[4] (start "/r/./" { dirs := ["/r/c"] })).asked =
      (["/r", "/r/a", "/r/a/a", "/r/a/a/a"] : List Text) ∧
    (scan shaft "/r/./" { dirs := ["/r/c"] }).result = .error (.file .denied "/r/a/a/a") ∧
    (∃ k ≤ 5, ((turn shaft)^[k] (start "/r/./" { dirs := ["/r/c"] })).ended = true ∧
      ((turn shaft)^[k] (start "/r/./" { dirs := ["/r/c"] })).report =
        scan shaft "/r/./" { dirs := ["/r/c"] }) ∧
    ((turn shaft)^[4] (start "/r/./" { dirs := ["/r/c"] })).asked.Nodup := by
  have hNamed : shaft.files.WellNamed := by decide +kernel
  have hSize : shaft.files.size = 5 := by decide +kernel
  have hRoot : Path.isAbsolute "/r/./" = true := by decide
  obtain ⟨hEnds, hOnce⟩ := scan_asks_once hNamed hRoot { dirs := ["/r/c"] }
  rw [hSize] at hEnds
  exact ⟨hNamed, by decide +kernel, by decide +kernel, hEnds, (hOnce 4).1⟩

end Indexer

end ClassTags
