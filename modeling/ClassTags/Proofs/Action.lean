import ClassTags.Action

/-!
# Laws of actions

Actions form a lawful monad, so a sequence of actions can be regrouped at will. What a sequence
leaves behind is told by its first part alone when that part fails, and by both parts when it does
not. A property of states is **kept** by an action when it holds after the action whether the action
fails or not.

Main results:

* `Action.bind_of_ok`, `Action.bind_of_error` — the outcome of a sequence;
* `Action.result_bind_eq_ok`, `Action.result_bind_eq_error` — when a sequence returns and when it
  fails;
* `Action.forEach_append` — a run over two lists is a run over one and then over the other;
* `Action.Keeps.bind`, `Action.Keeps.forEach` — what the parts keep, the whole keeps;
* `Action.FailsOnly.bind`, `Action.FailsOnly.forEach` — as the parts fail, the whole fails.
-/

namespace ClassTags.Action

variable {σ τ ε ε' α β : Type}

-- ---------------------------------------------------------------------------
-- Outcomes of sequences
-- ---------------------------------------------------------------------------

/-- After a first part that returns, the second part decides. -/
theorem bind_of_ok {x : Action σ ε α} {f : α → Action σ ε β} {s : σ} {a : α}
    (h : (x s).result = .ok a) :
    (x >>= f) s = ⟨(f a (x s).state).state, (x s).notices ++ (f a (x s).state).notices,
      (f a (x s).state).result⟩ := by
  show bind x f s = _
  unfold bind
  generalize x s = first at h ⊢
  obtain ⟨state, notices, result⟩ := first
  subst h
  rfl

/-- After a first part that fails, nothing happens any more. -/
theorem bind_of_error {x : Action σ ε α} {f : α → Action σ ε β} {s : σ} {e : ε}
    (h : (x s).result = .error e) :
    (x >>= f) s = ⟨(x s).state, (x s).notices, .error e⟩ := by
  show bind x f s = _
  unfold bind
  generalize x s = first at h ⊢
  obtain ⟨state, notices, result⟩ := first
  subst h
  rfl

instance : LawfulMonad (Action σ ε) := LawfulMonad.mk' (Action σ ε)
  (fun x => by
    funext s
    show bind x (fun a => done a) s = x s
    unfold bind
    generalize x s = first
    obtain ⟨state, notices, result⟩ := first
    cases result with
    | error e => rfl
    | ok a => simp [done])
  (fun a f => rfl)
  (fun x f g => by
    funext s
    cases hx : (x s).result with
    | error e =>
      have hxf : ((x >>= f) s).result = .error e := by rw [bind_of_error hx]
      rw [bind_of_error hxf, bind_of_error hx, bind_of_error hx]
    | ok a =>
      rw [bind_of_ok hx]
      cases hf : (f a (x s).state).result with
      | error e =>
        have hxf : ((x >>= f) s).result = .error e := by rw [bind_of_ok hx, hf]
        rw [bind_of_error hxf, bind_of_error hf, bind_of_ok hx]
      | ok b =>
        have hxf : ((x >>= f) s).result = .ok b := by rw [bind_of_ok hx, hf]
        rw [bind_of_ok hxf, bind_of_ok hf, bind_of_ok hx, List.append_assoc])

/-- A sequence returns just when both of its parts do, the second one after the first. -/
theorem result_bind_eq_ok {x : Action σ ε α} {f : α → Action σ ε β} {s : σ} {b : β} :
    ((x >>= f) s).result = .ok b ↔
      ∃ a, (x s).result = .ok a ∧ (f a (x s).state).result = .ok b := by
  cases hx : (x s).result with
  | error e => simp [bind_of_error hx]
  | ok a => simp [bind_of_ok hx]

/-- A sequence fails with its first part, or with the second one after the first has returned. -/
theorem result_bind_eq_error {x : Action σ ε α} {f : α → Action σ ε β} {s : σ} {e : ε} :
    ((x >>= f) s).result = .error e ↔
      (x s).result = .error e ∨
        ∃ a, (x s).result = .ok a ∧ (f a (x s).state).result = .error e := by
  cases hx : (x s).result with
  | error e' => simp [bind_of_error hx]
  | ok a => simp [bind_of_ok hx]

/-- After a part that returns the state is what the next part makes of it. -/
theorem state_bind_of_ok {x : Action σ ε α} {f : α → Action σ ε β} {s : σ} {a : α}
    (h : (x s).result = .ok a) : ((x >>= f) s).state = (f a (x s).state).state := by
  rw [bind_of_ok h]

/-- After a part that fails nothing else is done. -/
theorem state_bind_of_error {x : Action σ ε α} {f : α → Action σ ε β} {s : σ} {e : ε}
    (h : (x s).result = .error e) : ((x >>= f) s).state = (x s).state := by
  rw [bind_of_error h]

-- The steps that a sequence is made of, each with its whole outcome.

theorem pure_apply (a : α) (s : σ) : (pure a : Action σ ε α) s = ⟨s, [], .ok a⟩ := rfl

theorem update_apply (f : σ → σ) (s : σ) : (update f : Action σ ε Unit) s = ⟨f s, [], .ok ()⟩ := rfl

theorem fail_apply (e : ε) (s : σ) : (fail e : Action σ ε α) s = ⟨s, [], .error e⟩ := rfl

/-- What follows a look at the state works on the state that was seen. -/
theorem state_bind (f : σ → Action σ ε β) (s : σ) : (state >>= f) s = f s s := by
  rw [bind_of_ok (a := s) rfl]
  rfl

/-- What follows a change of the state works on the changed state. -/
theorem update_bind (g : σ → σ) (f : Unit → Action σ ε β) (s : σ) :
    (update g >>= f) s = f () (g s) := by
  rw [bind_of_ok (a := ()) rfl]
  rfl

/-- A reading that succeeds leaves the state to what follows. -/
theorem ofLogged_bind_of_ok {cause : ε' → ε} {x : Logged ε' α} {f : α → Action σ ε β} {a : α}
    (h : x.result = .ok a) (s : σ) :
    (ofLogged cause x >>= f) s = ⟨(f a s).state, x.notices ++ (f a s).notices, (f a s).result⟩ := by
  have hRead : (ofLogged cause x s).result = .ok a := by
    rw [ofLogged, h]
    rfl
  rw [bind_of_ok hRead]
  rfl

/-- A computation that fails leaves the state alone, and reports what it has noted. -/
theorem ofLogged_bind_of_error {cause : ε' → ε} {x : Logged ε' α} {f : α → Action σ ε β} {e : ε'}
    (h : x.result = .error e) (s : σ) :
    (ofLogged cause x >>= f) s = ⟨s, x.notices, .error (cause e)⟩ := by
  have hRead : (ofLogged cause x s).result = .error (cause e) := by
    rw [ofLogged, h]
    rfl
  rw [bind_of_error hRead]
  rfl

-- ---------------------------------------------------------------------------
-- Runs over lists
-- ---------------------------------------------------------------------------

theorem forEach_nil (f : α → Action σ ε Unit) : forEach f [] = pure () := rfl

theorem forEach_cons (f : α → Action σ ε Unit) (a : α) (as : List α) :
    forEach f (a :: as) = f a >>= fun _ => forEach f as := rfl

theorem forEach_singleton (f : α → Action σ ε Unit) (a : α) : forEach f [a] = f a := by
  rw [forEach_cons, forEach_nil]
  exact bind_pure (f a)

/-- The actions for two lists are done one after the other. -/
theorem forEach_append (f : α → Action σ ε Unit) (as bs : List α) :
    forEach f (as ++ bs) = forEach f as >>= fun _ => forEach f bs := by
  induction as with
  | nil => rw [List.nil_append, forEach_nil, pure_bind]
  | cons a as ih => rw [List.cons_append, forEach_cons, forEach_cons, ih, bind_assoc]

/-- Actions for lists of lists can be nested. -/
theorem forEach_flatMap (f : β → Action σ ε Unit) (g : α → List β) (as : List α) :
    forEach f (as.flatMap g) = forEach (fun a => forEach f (g a)) as := by
  induction as with
  | nil => rfl
  | cons a as ih => rw [List.flatMap_cons, forEach_append, ih, forEach_cons]

/-- A run over a list that returns has returned for its first element. -/
theorem forEach_cons_of_ok {f : α → Action σ ε Unit} {a : α} {as : List α} {s : σ}
    (h : (forEach f (a :: as) s).result = .ok ()) :
    (f a s).result = .ok () ∧ (forEach f as (f a s).state).result = .ok () ∧
      (forEach f (a :: as) s).state = (forEach f as (f a s).state).state := by
  rw [forEach_cons] at h ⊢
  obtain ⟨u, hFirst, hRest⟩ := result_bind_eq_ok.mp h
  exact ⟨hFirst, hRest, state_bind_of_ok hFirst⟩

/-- A run over a list that fails does so at one element, after a run that returned. -/
theorem forEach_eq_error {f : α → Action σ ε Unit} {as : List α} {s : σ} {e : ε} :
    (forEach f as s).result = .error e ↔
      ∃ before a after, as = before ++ a :: after ∧ (forEach f before s).result = .ok () ∧
        (f a (forEach f before s).state).result = .error e := by
  induction as generalizing s with
  | nil => simp [forEach_nil, pure_apply]
  | cons a as ih =>
    rw [forEach_cons, result_bind_eq_error]
    constructor
    · rintro (hFirst | ⟨⟨⟩, hFirst, hRest⟩)
      · exact ⟨[], a, as, rfl, rfl, hFirst⟩
      · obtain ⟨before, b, after, rfl, hBefore, hAt⟩ := ih.mp hRest
        refine ⟨a :: before, b, after, rfl, ?_, ?_⟩
        · rw [forEach_cons]
          exact result_bind_eq_ok.mpr ⟨(), hFirst, hBefore⟩
        · rw [forEach_cons, state_bind_of_ok hFirst]
          exact hAt
    · rintro ⟨before, b, after, hSplit, hBefore, hAt⟩
      cases before with
      | nil =>
        obtain ⟨rfl, rfl⟩ := List.cons.inj hSplit
        exact Or.inl hAt
      | cons c before =>
        obtain ⟨rfl, rfl⟩ := List.cons.inj hSplit
        obtain ⟨hFirst, hRest, hState⟩ := forEach_cons_of_ok hBefore
        rw [hState] at hAt
        exact Or.inr ⟨(), hFirst, ih.mpr ⟨before, b, after, rfl, hRest, hAt⟩⟩

-- ---------------------------------------------------------------------------
-- Properties of parts and sequences
-- ---------------------------------------------------------------------------

/-- A property of actions that passes from parts to sequences. -/
structure Compositional (Q : (α : Type) → Action σ ε α → Prop) : Prop where
  pure : ∀ {α : Type} (a : α), Q α (pure a)
  bind : ∀ {α β : Type} {x : Action σ ε α} {f : α → Action σ ε β},
    Q α x → (∀ a, Q β (f a)) → Q β (x >>= f)

/-- **What passes to sequences passes to loops**, by induction on the list. -/
theorem Compositional.forEach {Q : (α : Type) → Action σ ε α → Prop} (hQ : Compositional Q)
    {f : α → Action σ ε Unit} {as : List α} (h : ∀ a ∈ as, Q Unit (f a)) :
    Q Unit (forEach f as) := by
  induction as with
  | nil => exact hQ.pure ()
  | cons a as ih =>
    rw [List.forall_mem_cons] at h
    exact hQ.bind h.1 fun _ => ih h.2

-- ---------------------------------------------------------------------------
-- Properties that actions keep
-- ---------------------------------------------------------------------------

/-- The action keeps a property of states, whether it fails or not. -/
def Keeps (P : σ → Prop) (x : Action σ ε α) : Prop := ∀ s, P s → P (x s).state

namespace Keeps

variable {P : σ → Prop}

theorem pure (a : α) : Keeps P (pure a : Action σ ε α) := fun _ hs => hs

theorem note (n : Notice) : Keeps P (note n : Action σ ε Unit) := fun _ hs => hs

theorem fail (e : ε) : Keeps P (fail e : Action σ ε α) := fun _ hs => hs

theorem state : Keeps P (state : Action σ ε σ) := fun _ hs => hs

theorem update {f : σ → σ} (h : ∀ s, P s → P (f s)) : Keeps P (update f : Action σ ε Unit) := h

/-- A sequence keeps what its parts keep, also if it ends early. -/
theorem bind {x : Action σ ε α} {f : α → Action σ ε β} (hx : Keeps P x)
    (hf : ∀ a, Keeps P (f a)) : Keeps P (x >>= f) := by
  intro s hs
  cases h : (x s).result with
  | error e =>
    rw [state_bind_of_error h]
    exact hx s hs
  | ok a =>
    rw [state_bind_of_ok h]
    exact hf a _ (hx s hs)

theorem compositional : Compositional fun _ (x : Action σ ε _) => Keeps P x := ⟨pure, bind⟩

/-- A loop keeps what its rounds keep. -/
theorem forEach {f : α → Action σ ε Unit} {as : List α} (h : ∀ a ∈ as, Keeps P (f a)) :
    Keeps P (forEach f as) := compositional.forEach h

/-- An action on a part of the state keeps what it keeps of the part. -/
theorem within {Q : τ → Prop} {part : σ → τ} {set : σ → τ → σ} {x : Action τ ε α}
    (hPart : ∀ s, P s → Q (part s)) (hSet : ∀ s t, P s → Q t → P (set s t)) (hx : Keeps Q x) :
    Keeps P (x.within part set) := by
  intro s hs
  exact hSet s _ hs (hx _ (hPart s hs))

end Keeps

-- ---------------------------------------------------------------------------
-- Failures that actions have
-- ---------------------------------------------------------------------------

/-- On states with a property the action fails only in the given ways. -/
def FailsOnly (P : σ → Prop) (E : ε → Prop) (x : Action σ ε α) : Prop :=
  ∀ s, P s → ∀ e, (x s).result = .error e → E e

namespace FailsOnly

variable {P : σ → Prop} {E : ε → Prop}

theorem pure (a : α) : FailsOnly P E (pure a : Action σ ε α) := fun _ _ _ h => nomatch h

theorem note (n : Notice) : FailsOnly P E (note n : Action σ ε Unit) := fun _ _ _ h => nomatch h

theorem state : FailsOnly P E (state : Action σ ε σ) := fun _ _ _ h => nomatch h

theorem update (f : σ → σ) : FailsOnly P E (update f : Action σ ε Unit) := fun _ _ _ h => nomatch h

theorem fail {e : ε} (h : E e) : FailsOnly P E (fail e : Action σ ε α) := by
  intro s _ e' hError
  exact Except.error.inj hError ▸ h

/-- A sequence fails as its parts do, if the first part keeps what the second one relies on. -/
theorem bind {x : Action σ ε α} {f : α → Action σ ε β} (hKeeps : Keeps P x)
    (hx : FailsOnly P E x) (hf : ∀ a, FailsOnly P E (f a)) : FailsOnly P E (x >>= f) := by
  intro s hs e h
  rcases result_bind_eq_error.mp h with h | ⟨a, -, h⟩
  · exact hx s hs e h
  · exact hf a _ (hKeeps s hs) e h

/-- What comes later in a sequence starts from a state that the parts before have kept. -/
theorem compositional :
    Compositional fun _ (x : Action σ ε _) => Keeps P x ∧ FailsOnly P E x where
  pure a := ⟨.pure a, .pure a⟩
  bind hx hf := ⟨.bind hx.1 fun a => (hf a).1, .bind hx.1 hx.2 fun a => (hf a).2⟩

/-- A loop fails as its rounds do, if they keep what the others rely on. -/
theorem forEach {f : α → Action σ ε Unit} {as : List α} (hKeeps : ∀ a ∈ as, Keeps P (f a))
    (h : ∀ a ∈ as, FailsOnly P E (f a)) : FailsOnly P E (forEach f as) :=
  (compositional.forEach fun a ha => ⟨hKeeps a ha, h a ha⟩).2

end FailsOnly

end ClassTags.Action
