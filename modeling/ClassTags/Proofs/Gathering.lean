import ClassTags.Proofs.LiveFile
import ClassTags.Proofs.Passage

/-!
# Gathering files

On a file system that does not change, whatever is scanned and checked, and in whatever order, an
index **covers** some files, each with the classes that it defines now. An action **gathers** files:
it takes some in, and some of those that are there it may drop. It returns if nothing is in its way
and the files that it takes can be had together with those that are there already. Actions that
gather files can be put one after the other, so that a whole run is described by what its steps
gather.

What is dropped on the way are irregular files only. A scan may also forget a known directory,
because its name is one that scans leave out, but then it only checks again what lies there.

Main definitions:

* `Indexer.Covers` — a registry with just the given files, as they are now;
* `Indexer.Gathers` — what an action does to such a registry, and when it fails;
* `Indexer.Remains` — what is left after several actions;
* `Indexer.Passable` — a directory that a scan can look through.

Main results:

* `Indexer.Gathers.bind`, `Indexer.Gathers.forEach` — one action after the other;
* `Indexer.gathers_step` — what a step of a scan gathers;
* `Indexer.gathers_scan` — what a scan gathers;
* `Indexer.Covers.mem_records` — the classes of the files that are covered.
-/

namespace ClassTags.Indexer

/-- No class is defined by two of the given files. -/
def ApartAll (ctx : IndexContext) (F : Text → Prop) : Prop :=
  ∀ p, F p → ∀ q, F q → ∀ name, name ∈ Table.names (defined ctx p) →
    name ∈ Table.names (defined ctx q) → p = q

/-- The registry has just the given files, each with the classes that it defines now. -/
def Covers (ctx : IndexContext) (F : Text → Prop) (r : Registry) : Prop :=
  ∃ files, Renewed ctx [] (fun _ => True) files False r ∧ (∀ p, p ∈ files ↔ F p) ∧
    ∀ p ∈ files, Registry.accepts p = true

/-- What an action does to an index that covers some files. It `takes` in some files, of which it
`leaves` some there, and it `drops` others. It returns if all is `Fine` and the files that it takes
can be read and define no class of another file, and only if all is `Fine` and they can be read. -/
structure Gathers (ctx : IndexContext) (a : Action Indexer IndexFailure Unit) (Fine : Prop)
    (takes leaves drops : Text → Prop) : Prop where
  takes_of_leaves : Fine → ∀ p, leaves p → takes p
  returns : ∀ F x, Covers ctx F x.registry → Fine → (∀ p, takes p → Readable ctx p) →
    ApartAll ctx (fun p => F p ∨ takes p) → (a x).result = .ok ()
  demands : ∀ F x, Covers ctx F x.registry → (a x).result = .ok () →
    Fine ∧ ∀ p, takes p → Readable ctx p
  registry : ∀ F x, Covers ctx F x.registry → (a x).result = .ok () →
    Covers ctx (fun p => (F p ∧ ¬ drops p) ∨ leaves p) (a x).state.registry

/-- What is left after several actions: what one of them leaves and none that follow it drops. -/
def Remains {α : Type} (leaves drops : α → Text → Prop) (as : List α) (p : Text) : Prop :=
  ∃ front a back, as = front ++ a :: back ∧ leaves a p ∧ ∀ e ∈ back, ¬ drops e p

/-- A directory that can be listed, with entries that can be looked at. It does not matter if some
of them are missing. -/
structure Passable (ctx : IndexContext) (d : Text) : Prop where
  list : ∀ f, ctx.files.list d = .error f → f = .missing
  entries : ∀ names, ctx.files.list d = .ok names → ∀ n ∈ names, ∀ f,
    ctx.files.kind (Path.join d n) = .error f → f = .missing

variable {ctx : IndexContext} {F G : Text → Prop} {r : Registry} {p : Text}

/-- Of files that are pairwise apart any selection is. -/
theorem ApartAll.mono (h : ApartAll ctx G) (hSub : ∀ p, F p → G p) : ApartAll ctx F :=
  fun p hp q hq => h p (hSub p hp) q (hSub q hq)

namespace Covers

-- ---------------------------------------------------------------------------
-- Files that are covered
-- ---------------------------------------------------------------------------

theorem empty : Covers ctx (fun _ => False) {} :=
  ⟨[], Renewed.start ctx Holdings.Sound.nil False, by simp, nofun⟩

/-- A registry covers the same files however they are described. -/
theorem congr (h : Covers ctx F r) (hSame : ∀ p, F p ↔ G p) : Covers ctx G r := by
  obtain ⟨files, hRenewed, hMem, hPaths⟩ := h
  exact ⟨files, hRenewed, fun p => (hMem p).trans (hSame p), hPaths⟩

theorem readable (h : Covers ctx F r) (hp : F p) : Readable ctx p := by
  obtain ⟨files, hRenewed, hMem, -⟩ := h
  exact hRenewed.readable p ((hMem p).mpr hp)

theorem accepts (h : Covers ctx F r) (hp : F p) : Registry.accepts p = true := by
  obtain ⟨files, -, hMem, hPaths⟩ := h
  exact hPaths p ((hMem p).mpr hp)

/-- Files that are covered define no class twice. -/
theorem apart (h : Covers ctx F r) : ApartAll ctx F := by
  obtain ⟨files, hRenewed, hMem, -⟩ := h
  have hApart : ApartAll ctx (· ∈ files) := hRenewed.apart
  exact hApart.mono fun p hp => (hMem p).mpr hp

theorem mem_paths (h : Covers ctx F r) : p ∈ r.paths ↔ F p := by
  obtain ⟨files, hRenewed, hMem, -⟩ := h
  rw [hRenewed.mem_paths, hMem]
  simp [Table.names]

-- ---------------------------------------------------------------------------
-- The classes of files that are covered
-- ---------------------------------------------------------------------------

/-- The holdings of a registry that covers some files. -/
theorem exists_holdings (h : Covers ctx F r) :
    ∃ done : List Text, Holdings.Sound (done.map (entry ctx)) ∧
      r = Holdings.registry (done.map (entry ctx)) ∧ ∀ p, p ∈ done ↔ F p := by
  obtain ⟨files, ⟨rest, done, hl, rfl⟩, hMem, -⟩ := h
  obtain rfl : rest = [] := List.sublist_nil.mp hl.rest_sublist
  exact ⟨done, hl.sound, rfl, fun p => hl.done_perm.mem_iff.trans (hMem p)⟩

/-- Every class stands there once. -/
theorem nodup_records (h : Covers ctx F r) : (r.records.map ClassRecord.name).Nodup := by
  obtain ⟨done, hs, rfl, -⟩ := h.exists_holdings
  have hNames : (Holdings.registry (done.map (entry ctx))).records.map ClassRecord.name =
      Table.names (Holdings.classes (done.map (entry ctx))) := by
    show ((Holdings.classes (done.map (entry ctx))).map Prod.snd).map ClassRecord.name = _
    rw [List.map_map]
    apply List.map_congr_left
    rintro ⟨name, c⟩ hEntry
    obtain ⟨⟨path, t⟩, hFile, hEntry⟩ := List.mem_flatMap.mp hEntry
    exact (hs.placed path t hFile name c hEntry).1
  rw [hNames]
  exact hs.distinctClasses

/-- The classes of the files that are covered: of each name that a file defines, the last one. -/
theorem mem_records (h : Covers ctx F r) {c : ClassRecord} :
    c ∈ r.records ↔ ∃ p cs, F p ∧
      Registry.fileClasses ctx.defineCalls ctx.files p = .ok (some cs) ∧
        ClassRecord.lastNamed? cs c.name = some c := by
  have hRead : ∀ p, F p → Readable ctx p := fun p hp => h.readable hp
  obtain ⟨done, hs, rfl, hMem⟩ := h.exists_holdings
  have hLast : ∀ (cs : List ClassRecord) (name : Text),
      (name, c) ∈ Holdings.gather [] cs ↔ ClassRecord.lastNamed? cs name = some c := by
    intro cs name
    rw [← Holdings.lookup_gather, Table.lookup_eq_some_iff_mem (Holdings.nodup_names_gather cs)]
  constructor
  · intro hc
    obtain ⟨⟨name, d⟩, hEntry, rfl⟩ := List.mem_map.mp hc
    obtain ⟨⟨path, t⟩, hFile, hEntry⟩ := List.mem_flatMap.mp hEntry
    obtain ⟨p, hp, hEq⟩ := List.mem_map.mp hFile
    have hName := (hs.placed path t hFile name d hEntry).1
    obtain ⟨cs, hcs⟩ := hRead p ((hMem p).mp hp)
    rw [defined_of_readable hcs] at hEq
    obtain ⟨rfl, rfl⟩ := Prod.mk.inj hEq
    refine ⟨p, cs, (hMem p).mp hp, hcs, ?_⟩
    rw [← hLast]
    exact hName ▸ hEntry
  · rintro ⟨p, cs, hp, hcs, hc⟩
    refine List.mem_map.mpr ⟨(c.name, c), List.mem_flatMap.mpr ⟨entry ctx p, ?_, ?_⟩, rfl⟩
    · exact List.mem_map_of_mem ((hMem p).mpr hp)
    · rw [defined_of_readable hcs]
      exact (hLast cs c.name).mpr hc

-- ---------------------------------------------------------------------------
-- Checks
-- ---------------------------------------------------------------------------

/-- A check that returns adds the file, if it is not missing and not there already. -/
theorem check (h : Covers ctx F r) (hPath : Registry.accepts p = true)
    (hThere : ctx.files.read p ≠ .error .missing) {v : Bool}
    (hOk : (Registry.check ctx.defineCalls ctx.files p r).result = .ok v) :
    Covers ctx (fun q => F q ∨ q = p) (Registry.check ctx.defineCalls ctx.files p r).state := by
  obtain ⟨files, hRenewed, hMem, hPaths⟩ := h
  by_cases hp : p ∈ files
  · refine ⟨files, (hRenewed.check_moves hPath hp not_false hOk).congr nofun, fun q => ?_, hPaths⟩
    show q ∈ files ↔ F q ∨ q = p
    rw [← hMem]
    exact ⟨Or.inl, fun hq => hq.elim id fun hEq => hEq ▸ hp⟩
  · have hNew := hRenewed.check hPath hp hThere hOk
    refine ⟨files ++ [p], hNew.congr nofun, fun q => ?_, ?_⟩
    · rw [List.mem_append, List.mem_singleton, hMem]
    · rw [List.forall_mem_append, List.forall_mem_singleton]
      exact ⟨hPaths, hPath⟩

/-- A check of what is missing changes nothing. -/
theorem check_missing (h : Covers ctx F r) (hPath : Registry.accepts p = true)
    (hMissing : ctx.files.read p = .error .missing) :
    Covers ctx F (Registry.check ctx.defineCalls ctx.files p r).state := by
  obtain ⟨files, hRenewed, hMem, hPaths⟩ := h
  have hNew : p ∉ files := fun hp => (hRenewed.readable p hp).read_ne_missing hMissing
  exact ⟨files, (hRenewed.check_missing hPath hNew hMissing).congr nofun, hMem, hPaths⟩

/-- Dropping files leaves the others. -/
theorem retractAll {x : Indexer} (h : Covers ctx F x.registry) (ps : List Text) :
    Covers ctx (fun p => F p ∧ p ∉ ps) (retractAll ps x).state.registry := by
  obtain ⟨files, hRenewed, hMem, hPaths⟩ := h
  refine ⟨files.filter fun p => decide (p ∉ ps), (hRenewed.retracts ps).congr nofun, fun p => ?_,
    fun p hp => hPaths p (List.mem_of_mem_filter hp)⟩
  rw [List.mem_filter, hMem, decide_eq_true_eq]

/-- One more file can be checked if it can be read and defines no class that a covered file
defines. -/
theorem exists_check_eq_ok (h : Covers ctx F r) (hPath : Registry.accepts p = true)
    (hRead : Readable ctx p) (hApart : ApartAll ctx fun q => F q ∨ q = p) :
    ∃ v, (Registry.check ctx.defineCalls ctx.files p r).result = .ok v := by
  obtain ⟨files, hRenewed, hMem, -⟩ := h
  refine hRenewed.exists_check_eq_ok hPath hRead (hApart.mono fun q hq => ?_) nofun
  rw [← hMem]
  rcases List.mem_append.mp hq with hq | hq
  · exact Or.inl hq
  · exact Or.inr (List.mem_singleton.mp hq)

end Covers

namespace Gathers

-- ---------------------------------------------------------------------------
-- One action after the other
-- ---------------------------------------------------------------------------

variable {a b : Action Indexer IndexFailure Unit} {A B : Prop}
  {takes leaves drops takes' leaves' drops' : Text → Prop}

/-- An action that leaves what is covered gathers nothing. -/
theorem idle (h : ∀ F x, Covers ctx F x.registry →
    (a x).result = .ok () ∧ Covers ctx F (a x).state.registry) :
    Gathers ctx a True (fun _ => False) (fun _ => False) fun _ => False where
  takes_of_leaves _ _ h := h
  returns F x hx _ _ _ := (h F x hx).1
  demands _ _ _ _ := ⟨trivial, nofun⟩
  registry F x hx _ := (h F x hx).2.congr fun p => by simp

/-- What is gathered needs to be known only where nothing is in the way. -/
theorem congr (h : Gathers ctx a A takes leaves drops) (hFine : A ↔ B)
    (hTakes : A → ∀ p, takes p ↔ takes' p) (hLeaves : A → ∀ p, leaves p ↔ leaves' p)
    (hDrops : A → ∀ p, drops p ↔ drops' p) : Gathers ctx a B takes' leaves' drops' where
  takes_of_leaves hB p hp := by
    have hA := hFine.mpr hB
    exact (hTakes hA p).mp (h.takes_of_leaves hA p ((hLeaves hA p).mpr hp))
  returns F x hx hB hRead hApart := by
    have hA := hFine.mpr hB
    refine h.returns F x hx hA (fun p hp => hRead p ((hTakes hA p).mp hp)) (hApart.mono fun p hp => ?_)
    exact hp.imp_right (hTakes hA p).mp
  demands F x hx hOk := by
    obtain ⟨hA, hRead⟩ := h.demands F x hx hOk
    exact ⟨hFine.mp hA, fun p hp => hRead p ((hTakes hA p).mpr hp)⟩
  registry F x hx hOk := by
    have hA := (h.demands F x hx hOk).1
    refine (h.registry F x hx hOk).congr fun p => ?_
    rw [hLeaves hA, hDrops hA]

/-- What has to hold for the files to be readable may be demanded as well. -/
theorem demand (h : Gathers ctx a True takes leaves drops)
    (hB : (∀ p, takes p → Readable ctx p) → B) : Gathers ctx a B takes leaves drops where
  takes_of_leaves _ := h.takes_of_leaves trivial
  returns F x hx _ := h.returns F x hx trivial
  demands F x hx hOk := by
    have hRead := (h.demands F x hx hOk).2
    exact ⟨hB hRead, hRead⟩
  registry := h.registry

/-- Notices do not matter. -/
theorem of_same (h : Gathers ctx a A takes leaves drops)
    (hSame : ∀ x, (b x).result = (a x).result ∧ (b x).state = (a x).state) :
    Gathers ctx b A takes leaves drops where
  takes_of_leaves := h.takes_of_leaves
  returns F x hx hA hRead hApart := (hSame x).1.trans (h.returns F x hx hA hRead hApart)
  demands F x hx hOk := h.demands F x hx ((hSame x).1.symm.trans hOk)
  registry F x hx hOk := by
    rw [(hSame x).2]
    exact h.registry F x hx ((hSame x).1.symm.trans hOk)

/-- The second action drops some of what the first one leaves. -/
theorem bind (ha : Gathers ctx a A takes leaves drops) (hb : Gathers ctx b B takes' leaves' drops') :
    Gathers ctx (a >>= fun _ => b) (A ∧ B) (fun p => takes p ∨ takes' p)
      (fun p => (leaves p ∧ ¬ drops' p) ∨ leaves' p) fun p => drops p ∨ drops' p where
  takes_of_leaves := by
    rintro ⟨hA, hB⟩ p (hp | hp)
    · exact Or.inl (ha.takes_of_leaves hA p hp.1)
    · exact Or.inr (hb.takes_of_leaves hB p hp)
  returns F x hx := by
    rintro ⟨hA, hB⟩ hRead hApart
    have hFirst : (a x).result = .ok () := by
      refine ha.returns F x hx hA (fun p hp => hRead p (Or.inl hp)) (hApart.mono fun p hp => ?_)
      exact hp.imp_right Or.inl
    have hSecond := hb.returns _ _ (ha.registry F x hx hFirst) hB (fun p hp => hRead p (Or.inr hp))
    refine Action.result_bind_eq_ok.mpr ⟨(), hFirst, hSecond (hApart.mono fun p hp => ?_)⟩
    rcases hp with (hp | hp) | hp
    · exact Or.inl hp.1
    · exact Or.inr (Or.inl (ha.takes_of_leaves hA p hp))
    · exact Or.inr (Or.inr hp)
  demands F x hx hOk := by
    obtain ⟨⟨⟩, hFirst, hSecond⟩ := Action.result_bind_eq_ok.mp hOk
    obtain ⟨hA, hRead⟩ := ha.demands F x hx hFirst
    obtain ⟨hB, hRead'⟩ := hb.demands _ _ (ha.registry F x hx hFirst) hSecond
    exact ⟨⟨hA, hB⟩, fun p hp => hp.elim (hRead p) (hRead' p)⟩
  registry F x hx hOk := by
    obtain ⟨⟨⟩, hFirst, hSecond⟩ := Action.result_bind_eq_ok.mp hOk
    rw [Action.state_bind_of_ok hFirst]
    refine (hb.registry _ _ (ha.registry F x hx hFirst) hSecond).congr fun p => ?_
    rw [or_and_right, and_assoc, ← not_or, or_assoc]

end Gathers

section Remains

variable {α β : Type} {leaves drops : α → Text → Prop}

theorem not_remains_nil : ¬ Remains leaves drops [] p := by
  rintro ⟨front, a, back, hSplit, -⟩
  exact List.append_ne_nil_of_right_ne_nil front (List.cons_ne_nil a back) hSplit.symm

/-- What the first action leaves remains unless a later one drops it. -/
theorem remains_cons {a : α} {as : List α} :
    Remains leaves drops (a :: as) p ↔
      (leaves a p ∧ ¬ ∃ e ∈ as, drops e p) ∨ Remains leaves drops as p := by
  constructor
  · rintro ⟨front, c, back, hSplit, hLeaves, hKept⟩
    rcases List.cons_eq_append_iff.mp hSplit with ⟨-, hEq⟩ | ⟨front, -, rfl⟩
    · obtain ⟨rfl, rfl⟩ := List.cons.inj hEq
      exact Or.inl ⟨hLeaves, fun ⟨e, he, hDrops⟩ => hKept e he hDrops⟩
    · exact Or.inr ⟨front, c, back, rfl, hLeaves, hKept⟩
  · rintro (⟨hLeaves, hKept⟩ | ⟨front, c, back, rfl, hRest⟩)
    · exact ⟨[], a, as, rfl, hLeaves, fun e he hDrops => hKept ⟨e, he, hDrops⟩⟩
    · exact ⟨a :: front, c, back, rfl, hRest⟩

theorem remains_map {leaves drops : β → Text → Prop} {f : α → β} {as : List α} :
    Remains (fun a => leaves (f a)) (fun a => drops (f a)) as p ↔
      Remains leaves drops (as.map f) p := by
  induction as with
  | nil => exact iff_of_false not_remains_nil not_remains_nil
  | cons a as ih =>
    rw [List.map_cons, remains_cons, remains_cons, ih]
    simp only [List.mem_map, exists_exists_and_eq_and]

/-- Where nothing is dropped that is left somewhere, all of that remains. -/
theorem remains_iff {as : List α}
    (hKept : ∀ a ∈ as, leaves a p → ∀ e ∈ as, ¬ drops e p) :
    Remains leaves drops as p ↔ ∃ a ∈ as, leaves a p := by
  constructor
  · rintro ⟨front, a, back, rfl, hLeaves, -⟩
    exact ⟨a, List.mem_append_right front List.mem_cons_self, hLeaves⟩
  · rintro ⟨a, ha, hLeaves⟩
    obtain ⟨front, back, rfl⟩ := List.append_of_mem ha
    refine ⟨front, a, back, rfl, hLeaves, fun e he => hKept a ha hLeaves e ?_⟩
    exact List.mem_append_right front (List.mem_cons_of_mem a he)

end Remains

/-- **Loops gather what their rounds leave**, as long as no later round drops it. By induction on
the list. -/
theorem Gathers.forEach {α : Type} {f : α → Action Indexer IndexFailure Unit} {Fine : α → Prop}
    {takes leaves drops : α → Text → Prop} {as : List α}
    (h : ∀ a ∈ as, Gathers ctx (f a) (Fine a) (takes a) (leaves a) (drops a)) :
    Gathers ctx (Action.forEach f as) (∀ a ∈ as, Fine a) (fun p => ∃ a ∈ as, takes a p)
      (Remains leaves drops as) fun p => ∃ a ∈ as, drops a p := by
  induction as with
  | nil =>
    have hIdle : Gathers ctx (Action.forEach f []) True (fun _ => False) (fun _ => False)
        fun _ => False := Gathers.idle fun F x hx => ⟨rfl, hx⟩
    refine hIdle.congr (by simp) (by simp) (fun _ p => ?_) (by simp)
    exact iff_of_false id not_remains_nil
  | cons a as ih =>
    rw [List.forall_mem_cons] at h
    rw [Action.forEach_cons]
    refine (h.1.bind (ih h.2)).congr ?_ (fun _ p => ?_) (fun _ p => ?_) fun _ p => ?_
    · rw [List.forall_mem_cons]
    · rw [List.exists_mem_cons_iff]
    · rw [remains_cons]
    · rw [List.exists_mem_cons_iff]

-- ---------------------------------------------------------------------------
-- The steps of a scan
-- ---------------------------------------------------------------------------

/-- To check a file that is there gathers that file. -/
theorem gathers_check (hPath : Registry.accepts p = true)
    (hThere : ctx.files.read p ≠ .error .missing) :
    Gathers ctx (Step.run ctx (.check p)) True (· = p) (· = p) fun _ => False where
  takes_of_leaves _ _ h := h
  returns F x hx _ hRead hApart :=
    check_step_eq_ok.mpr (hx.exists_check_eq_ok hPath (hRead p rfl) hApart)
  demands F x hx hOk := by
    obtain ⟨v, hv⟩ := check_step_eq_ok.mp hOk
    refine ⟨trivial, ?_⟩
    rintro q rfl
    exact (hx.check hPath hThere hv).readable (Or.inr rfl)
  registry F x hx hOk := by
    obtain ⟨v, hv⟩ := check_step_eq_ok.mp hOk
    rw [state_check_step]
    exact (hx.check hPath hThere hv).congr fun q => by simp

/-- A check of what cannot be opened only returns if nothing is there. -/
theorem gathers_check_other (hPath : Registry.accepts p = true) (hNot : ¬ Opens ctx p) :
    Gathers ctx (Step.run ctx (.check p)) (∀ f, ctx.files.read p = .error f → f = .missing)
      (fun _ => False) (fun _ => False) fun _ => False := by
  obtain ⟨f, hRead⟩ : ∃ f, ctx.files.read p = .error f := by
    cases hRead : ctx.files.read p with
    | ok bytes => exact absurd ⟨bytes, hRead⟩ hNot
    | error f => exact ⟨f, rfl⟩
  by_cases hMissing : f = .missing
  · subst hMissing
    have hIdle : Gathers ctx (Step.run ctx (.check p)) True (fun _ => False) (fun _ => False)
        fun _ => False := by
      refine Gathers.idle fun F x hx => ⟨(check_step_of_missing hPath hRead x).1, ?_⟩
      rw [state_check_step]
      exact hx.check_missing hPath hRead
    refine hIdle.congr (iff_of_true trivial fun g hg => ?_) (by simp) (by simp) (by simp)
    exact (Except.error.inj (hRead.symm.trans hg)).symm
  · have hFails : ∀ x, (Step.run ctx (.check p) x).result ≠ .ok () := by
      intro x hOk
      exact nomatch (check_step_of_fault hPath hMissing hRead x).1.symm.trans hOk
    exact ⟨fun _ _ h => h, fun F x _ hFine => absurd (hFine f hRead) hMissing,
      fun F x _ hOk => absurd hOk (hFails x), fun F x _ hOk => absurd hOk (hFails x)⟩

/-- Files that are covered can be checked again. -/
theorem Covers.checks {x : Indexer} {ps : List Text} (hx : Covers ctx F x.registry)
    (hps : ∀ p ∈ ps, F p) :
    (checks ctx ps x).result = .ok () ∧ Covers ctx F (checks ctx ps x).state.registry := by
  have hGathers := Gathers.forEach fun p (hp : p ∈ ps) =>
    gathers_check (hx.accepts (hps p hp)) (hx.readable (hps p hp)).read_ne_missing
  have hOld : ∀ p, (∃ q ∈ ps, p = q) → F p := by
    rintro p ⟨q, hq, rfl⟩
    exact hps _ hq
  have hOk : (Indexer.checks ctx ps x).result = .ok () := by
    refine hGathers.returns F x hx (fun _ _ => trivial) (fun p hp => hx.readable (hOld p hp)) ?_
    exact hx.apart.mono fun p hp => hp.elim id (hOld p)
  refine ⟨hOk, (hGathers.registry F x hx hOk).congr fun p => ?_⟩
  rw [remains_iff (by simp)]
  constructor
  · exact fun hp => hp.elim And.left (hOld p)
  · exact fun hp => Or.inl ⟨hp, by simp⟩

/-- Forgetting a directory only checks again what is covered. -/
theorem gathers_absent (dir : Text) :
    Gathers ctx (Step.run ctx (.absent dir)) True (fun _ => False) (fun _ => False)
      fun _ => False := by
  refine Gathers.idle fun F x hx => ?_
  show ((remove ctx dir >>= fun _ => pure ()) x).result = _ ∧
    Covers ctx F ((remove ctx dir >>= fun _ => pure ()) x).state.registry
  by_cases hKnown : dir ∈ x.dirs
  · have hForget : Covers ctx F (x.forget dir).registry := hx
    obtain ⟨hChecks, hCovers⟩ := hForget.checks
      (fun p hp => hx.mem_paths.mp (List.mem_of_mem_filter hp : p ∈ x.registry.paths))
    have hRemove : (remove ctx dir x).result = .ok true := by
      rw [remove_of_known hKnown]
      exact Action.result_bind_eq_ok.mpr ⟨(), hChecks, rfl⟩
    rw [Action.bind_of_ok hRemove]
    refine ⟨rfl, ?_⟩
    show Covers ctx F (remove ctx dir x).state.registry
    rw [state_remove hKnown]
    exact hCovers
  · have hRemove := @remove_of_unknown ctx x dir hKnown
    rw [Action.bind_of_ok (a := false) (by rw [hRemove]), hRemove]
    exact ⟨rfl, hx⟩

/-- Forgetting several directories changes nothing either. -/
theorem Covers.removeAll {x : Indexer} (hx : Covers ctx F x.registry) (ds : List Text) :
    (removeAll ctx ds x).result = .ok () ∧ Covers ctx F (removeAll ctx ds x).state.registry := by
  have hGathers : Gathers ctx (Indexer.removeAll ctx ds) _ _ _ _ :=
    Gathers.forEach fun d (_ : d ∈ ds) => gathers_absent d
  have hOk : (Indexer.removeAll ctx ds x).result = .ok () := by
    refine hGathers.returns F x hx (fun _ _ => trivial) (by simp) (hx.apart.mono fun p hp => ?_)
    exact hp.elim id fun ⟨_, _, h⟩ => h.elim
  refine ⟨hOk, (hGathers.registry F x hx hOk).congr fun p => ?_⟩
  rw [remains_iff (by simp)]
  simp

/-- **Closing a directory drops the irregular files in it**, and nothing else that is covered. -/
theorem gathers_close (hSlash : Path.separator ∉ ctx.sourceExtension) {dir : Text}
    {names : List Text} (hList : ctx.files.list dir = .ok names) :
    Gathers ctx (Step.run ctx (.close dir)) True (fun _ => False) (fun _ => False)
      fun p => Irregular ctx p ∧ Path.parent p = dir where
  takes_of_leaves _ _ h := h
  returns F x hx _ _ _ := (close_step_result dir x).trans (hx.removeAll _).1
  demands _ _ _ _ := ⟨trivial, nofun⟩
  registry F x hx _ := by
    obtain ⟨hRemoves, hCovers⟩ := hx.removeAll (x.gone ctx dir)
    rw [close_step_state hRemoves, registry_learn]
    refine (hCovers.retractAll _).congr fun p => ?_
    rw [or_false, mem_goneFiles, hCovers.mem_paths]
    refine and_congr_right fun hp => not_congr ?_
    constructor
    · rintro ⟨-, rfl, hExt, hNot⟩
      -- a regular file would have been found
      refine ⟨⟨fun hKind => hNot ?_, hExt⟩, rfl⟩
      exact mem_sources_of_file (hx.accepts hp) hSlash hKind hList hExt
    · rintro ⟨⟨hKind, hExt⟩, rfl⟩
      exact ⟨hp, rfl, hExt, not_mem_sources hKind⟩

/-- The files that the steps for a directory check are its source files. -/
theorem check_mem_steps {d : Text} : Step.check p ∈ steps ctx d ↔ p ∈ sources ctx d := by
  constructor
  · intro h
    rcases mem_steps h with ⟨_, h⟩ | ⟨_, _, h⟩ | ⟨q, hq, h⟩ | ⟨h, -⟩ | ⟨h, -⟩
    · exact nomatch h
    · exact nomatch h
    · exact Step.check.inj h ▸ hq
    · exact nomatch h
    · exact nomatch h
  · intro hp
    obtain ⟨name, hName, hSource⟩ := List.mem_filterMap.mp hp
    refine mem_steps_of_entry hName ?_
    rw [entrySteps_of_source hSource]
    exact List.mem_cons_self

/-- A directory is closed if it can be listed. -/
theorem close_mem_steps {d e : Text} :
    Step.close e ∈ steps ctx d ↔ e = d ∧ ∃ names, ctx.files.list d = .ok names := by
  constructor
  · intro h
    rcases mem_steps h with ⟨_, h⟩ | ⟨_, _, h⟩ | ⟨_, _, h⟩ | ⟨h, hList⟩ | ⟨h, -⟩
    · exact nomatch h
    · exact nomatch h
    · exact nomatch h
    · exact ⟨Step.close.inj h, hList⟩
    · exact nomatch h
  · rintro ⟨rfl, names, hNames⟩
    rw [steps_of_list hNames]
    exact List.mem_append_right _ List.mem_cons_self

/-- An entry that is missing is passed over; any other fault is a fault of the scan. -/
theorem forall_entrySteps_ne_fault {d n : Text} :
    (∀ s ∈ entrySteps ctx d n, ∀ f p, s ≠ .fault f p) ↔
      ∀ f, ctx.files.kind (Path.join d n) = .error f → f = .missing := by
  unfold entrySteps
  cases ctx.files.kind (Path.join d n) with
  | error f => cases f <;> simp
  | ok k =>
    cases k with
    | file => by_cases hExt : ctx.sourceExtension.isSuffixOf n = true <;> simp [hExt]
    | _ => simp

/-- Where nothing is at fault, a directory can be looked through. -/
theorem passable_iff {d : Text} : Passable ctx d ↔ ∀ s ∈ steps ctx d, ∀ f p, s ≠ .fault f p := by
  -- what cannot be listed has one step, which is a fault unless it is missing
  cases hList : ctx.files.list d with
  | error f =>
    have hPassable : Passable ctx d ↔ f = .missing := by
      constructor
      · exact fun h => h.list f hList
      · rintro rfl
        refine ⟨fun g hg => ?_, fun names hNames => ?_⟩
        · rw [hList] at hg
          exact (Except.error.inj hg).symm
        · exact nomatch hList.symm.trans hNames
    rw [hPassable]
    unfold steps
    rw [hList]
    cases f <;> simp
  | ok names =>
    have hPassable : Passable ctx d ↔ ∀ n ∈ names, ∀ f,
        ctx.files.kind (Path.join d n) = .error f → f = .missing := by
      constructor
      · exact fun h => h.entries names hList
      · refine fun h => ⟨fun f hf => (nomatch hList.symm.trans hf), fun names' hNames => ?_⟩
        rw [hList] at hNames
        exact Except.ok.inj hNames ▸ h
    rw [hPassable, steps_of_list hList, listed_of_list hList]
    simp only [← forall_entrySteps_ne_fault, List.mem_append, List.mem_flatMap,
      List.mem_singleton, mem_sorted]
    constructor
    · rintro h s (⟨n, hn, hs⟩ | rfl) f p
      · exact h n hn s hs f p
      · exact nofun
    · exact fun h n hn s hs => h s (Or.inl ⟨n, hn, hs⟩)

section Scan

variable (hfs : ctx.files.WellNamed) (hSlash : Path.separator ∉ ctx.sourceExtension)

include hfs hSlash

/-- **What a step of a scan gathers**: it takes the file that it checks, and drops the irregular
files of the directory that it closes. -/
theorem gathers_step {b : Path.Base} {ns : List Path.Name} {s : Step}
    (hs : s ∈ steps ctx (b.path ns)) :
    Gathers ctx (Step.run ctx s) (∀ f p, s ≠ .fault f p) (fun p => s = .check p)
      (fun p => s = .check p) fun p => Irregular ctx p ∧ s = .close (Path.parent p) := by
  rcases mem_steps hs with ⟨p, rfl⟩ | ⟨f, p, rfl⟩ | ⟨p, hp, rfl⟩ | ⟨rfl, names, hList⟩ | ⟨rfl, -⟩
  · have hIdle : Gathers ctx (Step.run ctx (.vanished p)) True (fun _ => False) (fun _ => False)
        fun _ => False := Gathers.idle fun F x hx => ⟨rfl, hx⟩
    exact hIdle.congr (by simp) (by simp) (by simp) (by simp)
  · exact ⟨fun _ _ h => h, fun _ _ _ hFine => absurd rfl (hFine f p),
      fun _ _ _ hOk => (nomatch hOk), fun _ _ _ hOk => (nomatch hOk)⟩
  · obtain ⟨n, rfl, hThere, -⟩ := of_mem_sources hfs hp
    have hCheck := gathers_check (accepts_path (b := b) _) (FileSystem.read_ne_missing hThere)
    refine hCheck.congr (by simp) ?_ ?_ (by simp) <;> exact fun _ q => by rw [Step.check.injEq, eq_comm]
  · refine (gathers_close hSlash hList).congr (by simp) (by simp) (by simp) fun _ p => ?_
    rw [Step.close.injEq, eq_comm (a := b.path ns)]
  · exact (gathers_absent _).congr (by simp) (by simp) (by simp) (by simp)

/-- **What a scan gathers.** It returns only if all directories that it goes into can be looked
through, and then it has the source files in them and none of the irregular files. -/
theorem gathers_scan {b : Path.Base} (hKind : ctx.files.kind (b.path []) = .ok .directory) :
    Gathers ctx (scan ctx (b.path [])) (∀ d, Entered ctx b d → Passable ctx d)
      (fun p => Checkable ctx b p ∧ ctx.files.kind p = .ok .file)
      (fun p => Checkable ctx b p ∧ ctx.files.kind p = .ok .file)
      fun p => Irregular ctx p ∧ Entered ctx b (Path.parent p) := by
  have hRoot := b.normalize_path []
  have hSteps : Gathers ctx (run ctx (route ctx (b.path [])))
      (∀ s ∈ (route ctx (b.path [])).flatMap (steps ctx), ∀ f p, s ≠ .fault f p)
      (fun p => ∃ s ∈ (route ctx (b.path [])).flatMap (steps ctx), s = .check p)
      (Remains (fun s p => s = .check p) (fun s p => Irregular ctx p ∧ s = .close (Path.parent p))
        ((route ctx (b.path [])).flatMap (steps ctx)))
      fun p => ∃ s ∈ (route ctx (b.path [])).flatMap (steps ctx),
        Irregular ctx p ∧ s = .close (Path.parent p) := by
    refine Gathers.forEach fun s hs => ?_
    obtain ⟨d, hd, hs⟩ := List.mem_flatMap.mp hs
    obtain ⟨ns, rfl⟩ := exists_names_of_mem_route hfs hRoot hd
    exact gathers_step hfs hSlash hs
  have hFaults : (∀ s ∈ (route ctx (b.path [])).flatMap (steps ctx), ∀ f p, s ≠ .fault f p) ↔
      ∀ d ∈ route ctx (b.path []), Passable ctx d := by
    simp only [passable_iff, List.forall_mem_flatMap]
  -- a directory that can be looked through and is there can be listed
  have hList : (∀ d ∈ route ctx (b.path []), Passable ctx d) →
      ∀ d ∈ route ctx (b.path []), ∃ names, ctx.files.list d = .ok names := by
    intro hPassable d hd
    refine list_of_faultless (fun f hMem => passable_iff.mp (hPassable d hd) _ hMem f d rfl) ?_
    exact FileSystem.list_ne_missing (entered_of_mem_route hfs hRoot hKind hd).2
  have hChecks : (∀ d ∈ route ctx (b.path []), Passable ctx d) → ∀ p,
      (∃ s ∈ (route ctx (b.path [])).flatMap (steps ctx), s = .check p) ↔
        Checkable ctx b p ∧ ctx.files.kind p = .ok .file := by
    intro hPassable p
    rw [← exists_mem_sources_iff hfs hRoot (hList hPassable)]
    simp only [exists_eq_right, List.mem_flatMap, check_mem_steps]
  rw [scan_eq_run hfs hRoot (b.isAbsolute_path [])]
  refine hSteps.congr ?_ (fun hFine => hChecks (hFaults.mp hFine)) (fun hFine p => ?_)
    fun hFine p => ?_
  · rw [hFaults]
    constructor
    · intro hPassable d hd
      exact hPassable d ((mem_route_iff_entered hfs hRoot (hList hPassable)).mpr hd)
    · exact fun h d hd => h d (entered_of_mem_route hfs hRoot hKind hd)
  · rw [← hChecks (hFaults.mp hFine)]
    -- what is checked is regular
    refine remains_iff fun s hs hCheck e _ hDrops => hDrops.1.kind ?_
    exact ((hChecks (hFaults.mp hFine) p).mp ⟨s, hs, hCheck⟩).2
  · have hListed := hList (hFaults.mp hFine)
    rw [← mem_route_iff_entered hfs hRoot hListed]
    constructor
    · rintro ⟨s, hs, hIrregular, rfl⟩
      obtain ⟨d, hd, hs⟩ := List.mem_flatMap.mp hs
      exact ⟨hIrregular, (close_mem_steps.mp hs).1 ▸ hd⟩
    · rintro ⟨hIrregular, hd⟩
      have hClose := close_mem_steps.mpr ⟨rfl, hListed _ hd⟩
      exact ⟨_, List.mem_flatMap.mpr ⟨_, hd, hClose⟩, hIrregular, rfl⟩

end Scan

end ClassTags.Indexer
