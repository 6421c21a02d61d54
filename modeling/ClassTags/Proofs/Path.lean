import ClassTags.Path
import Mathlib.Data.List.Infix

/-!
# Spelled paths

An absolute, normalized path is one or two slashes and then names with slashes between them. On such
**spelled** paths every operation on paths is an operation on the list of names: joining appends a
name, the parent drops the last one, and lying under a path is having its names in front.

Main results:

* `Path.components_spell` — the names can be read back, so a path is spelled in one way;
* `Path.join_spell`, `Path.parent_spell` — into and out of a directory;
* `Path.isUnder_spell` — lying under a path is having its names in front;
* `Path.normalize_spell`, `Path.exists_spell_normalize` — the spelled paths are the absolute,
  normalized ones;
* `Path.Base`, `Path.Base.path_inj`, `Path.Base.isUnder_path` — the same for the paths that lists of
  names lead to from a base.
-/

namespace ClassTags.Path

/-- A name that can stand in a directory. -/
def IsName (n : Text) : Prop :=
  n ≠ [] ∧ separator ∉ n ∧ n ≠ (".".toList) ∧ n ≠ ("..".toList)

instance : DecidablePred IsName := fun _ => inferInstanceAs (Decidable (_ ∧ _ ∧ _ ∧ _))

/-- The slashes that can stand at the head of a normalized path. -/
def IsLead (lead : Text) : Prop := lead = [separator] ∨ lead = [separator, separator]

instance : DecidablePred IsLead := fun _ => inferInstanceAs (Decidable (_ ∨ _))

/-- The path with the given slashes at its head and the given names. -/
def spell (lead : Text) (names : List Text) : Text := lead ++ Text.joinWith [separator] names

variable {lead : Text} {names : List Text} {n : Text}

-- ---------------------------------------------------------------------------
-- Names and slashes
-- ---------------------------------------------------------------------------

theorem IsName.ne_nil (h : IsName n) : n ≠ [] := h.1

theorem IsName.not_mem (h : IsName n) : separator ∉ n := h.2.1

/-- Names that are joined in two portions have a slash between them. -/
theorem joinWith_append {as bs : List Text} (ha : as ≠ []) (hb : bs ≠ []) :
    Text.joinWith [separator] (as ++ bs) =
      Text.joinWith [separator] as ++ separator :: Text.joinWith [separator] bs := by
  unfold Text.joinWith
  induction as with
  | nil => exact absurd rfl ha
  | cons a as ih =>
    cases as with
    | nil =>
      rw [List.singleton_append, List.intercalate_cons_of_ne_nil hb, List.intercalate_singleton,
        List.append_assoc, List.singleton_append]
    | cons a' as =>
      rw [List.cons_append, List.intercalate_cons_of_ne_nil (by simp), ih (by simp),
        List.intercalate_cons_cons]
      simp only [List.append_assoc]

/-- Nothing but the last name stands behind the last slash. -/
theorem joinWith_snoc (hNames : names ≠ []) :
    Text.joinWith [separator] (names ++ [n]) =
      Text.joinWith [separator] names ++ separator :: n := by
  rw [joinWith_append hNames (by simp)]
  simp [Text.joinWith]

/-- A path with names in it does not end with a slash. -/
theorem getLast_joinWith (h : ∀ c ∈ names, IsName c) (hNames : names ≠ []) :
    ∃ front last, Text.joinWith [separator] names = front ++ [last] ∧ last ≠ separator := by
  obtain ⟨cs, c, rfl⟩ := List.eq_nil_or_concat names |>.resolve_left hNames
  rw [List.concat_eq_append] at h ⊢
  have hc := h c (List.mem_append_right _ List.mem_cons_self)
  obtain ⟨d, last, rfl⟩ := List.eq_nil_or_concat c |>.resolve_left hc.ne_nil
  rw [List.concat_eq_append] at hc ⊢
  have hLast : last ≠ separator := by
    rintro rfl
    exact hc.not_mem (List.mem_append_right _ List.mem_cons_self)
  by_cases hcs : cs = []
  · subst hcs
    exact ⟨d, last, by simp [Text.joinWith], hLast⟩
  · refine ⟨Text.joinWith [separator] cs ++ separator :: d, last, ?_, hLast⟩
    rw [joinWith_snoc hcs]
    simp

/-- A path with names in it does not begin with a slash before its lead. -/
theorem head_joinWith (h : ∀ c ∈ names, IsName c) (hNames : names ≠ []) :
    ∃ first rest, Text.joinWith [separator] names = first :: rest ∧ first ≠ separator := by
  cases names with
  | nil => exact absurd rfl hNames
  | cons c cs =>
    have hc := h c List.mem_cons_self
    cases c with
    | nil => exact absurd rfl hc.ne_nil
    | cons first rest =>
      have hFirst : first ≠ separator := by
        rintro rfl
        exact hc.not_mem List.mem_cons_self
      unfold Text.joinWith
      cases cs with
      | nil => exact ⟨first, rest, by rw [List.intercalate_singleton], hFirst⟩
      | cons d ds =>
        rw [List.intercalate_cons_of_ne_nil (by simp)]
        exact ⟨first, _, rfl, hFirst⟩

-- ---------------------------------------------------------------------------
-- The names of a path
-- ---------------------------------------------------------------------------

/-- A slash separates the components before it from those behind it. -/
theorem components_append_cons (a b : Text) :
    components (a ++ separator :: b) = components a ++ components b := by
  unfold components
  rw [List.splitOn_append_cons_self, List.filter_append]

theorem components_cons (b : Text) : components (separator :: b) = components b :=
  components_append_cons [] b

theorem components_nil : components [] = [] := by simp [components]

theorem components_name (h : IsName n) : components n = [n] := by
  unfold components
  rw [List.splitOn_eq_singleton h.not_mem]
  simp [h.ne_nil]

/-- The components of joined names are the names. -/
theorem components_joinWith (h : ∀ c ∈ names, IsName c) :
    components (Text.joinWith [separator] names) = names := by
  by_cases hNames : names = []
  · subst hNames
    simp [Text.joinWith, components_nil]
  · unfold components Text.joinWith
    rw [List.splitOn_intercalate separator (fun c hc => (h c hc).not_mem) hNames,
      List.filter_eq_self]
    intro c hc
    simpa using (h c hc).ne_nil

/-- The names of a spelled path can be read back. -/
theorem components_spell (hLead : IsLead lead) (h : ∀ c ∈ names, IsName c) :
    components (spell lead names) = names := by
  unfold spell
  rcases hLead with rfl | rfl
  · rw [List.singleton_append, components_cons, components_joinWith h]
  · rw [List.cons_append, components_cons, List.singleton_append, components_cons,
      components_joinWith h]

/-- Different names are spelled differently. -/
theorem spell_injective (hLead : IsLead lead) {as bs : List Text} (ha : ∀ c ∈ as, IsName c)
    (hb : ∀ c ∈ bs, IsName c) (h : spell lead as = spell lead bs) : as = bs := by
  rw [← components_spell hLead ha, h, components_spell hLead hb]

-- ---------------------------------------------------------------------------
-- Into and out of a directory
-- ---------------------------------------------------------------------------

theorem not_isAbsolute_of_isName (h : IsName n) : isAbsolute n = false := by
  cases n with
  | nil => exact absurd rfl h.ne_nil
  | cons first rest =>
    have hFirst : first ≠ separator := by
      rintro rfl
      exact h.not_mem List.mem_cons_self
    simpa [isAbsolute] using hFirst

theorem spell_snoc (hNames : names ≠ []) :
    spell lead (names ++ [n]) = spell lead names ++ separator :: n := by
  unfold spell
  rw [joinWith_snoc hNames, List.append_assoc]

theorem spell_singleton (lead n : Text) : spell lead [n] = lead ++ n := by
  simp [spell, Text.joinWith]

theorem spell_nil (lead : Text) : spell lead [] = lead := by
  simp [spell, Text.joinWith]

/-- Going into a directory appends a name. -/
theorem join_spell (hLead : IsLead lead) (h : ∀ c ∈ names, IsName c) (hn : IsName n) :
    join (spell lead names) n = spell lead (names ++ [n]) := by
  have hRelative : ¬ isAbsolute n = true := by simp [not_isAbsolute_of_isName hn]
  unfold join
  rw [if_neg hRelative]
  by_cases hNames : names = []
  · subst hNames
    rw [spell_nil, List.nil_append, spell_singleton, if_pos]
    rcases hLead with rfl | rfl <;> rfl
  · obtain ⟨front, last, hEnd, hLast⟩ := getLast_joinWith h hNames
    have hNoSlash : ¬ ((spell lead names).isEmpty ||
        (spell lead names).getLast? == some separator) = true := by
      unfold spell
      rw [hEnd, ← List.append_assoc]
      simp [hLast]
    rw [if_neg hNoSlash, spell_snoc hNames]

/-- The path up to its last slash, when no slash follows. -/
theorem head_append (front : Text) (hn : separator ∉ n) :
    head (front ++ separator :: n) = front ++ [separator] := by
  have hDrop : (n.reverse ++ separator :: front.reverse).dropWhile (· != separator) =
      separator :: front.reverse := by
    rw [List.dropWhile_append_of_pos]
    · simp
    · intro c hc
      have : c ≠ separator := by
        rintro rfl
        exact hn (List.mem_reverse.mp hc)
      simpa using this
  unfold head
  rw [List.reverse_append, List.reverse_cons, List.append_assoc, List.singleton_append, hDrop,
    List.reverse_cons, List.reverse_reverse]

/-- A path that does not end with a slash loses just the slash behind it. -/
theorem trimSlashes_snoc {front : Text} {last : Char} (hLast : last ≠ separator) :
    trimSlashes (front ++ [last]) = front ++ [last] := by
  unfold trimSlashes
  simp [hLast]

/-- A slash at the end is trimmed. -/
theorem trimSlashes_append_separator (p : Text) :
    trimSlashes (p ++ [separator]) = trimSlashes p := by
  unfold trimSlashes
  simp

/-- A path that is spelled with names has no slashes to trim. -/
theorem trimSlashes_spell (h : ∀ c ∈ names, IsName c) (hNames : names ≠ []) :
    trimSlashes (spell lead names) = spell lead names := by
  obtain ⟨front, last, hEnd, hLast⟩ := getLast_joinWith h hNames
  unfold spell
  rw [hEnd, ← List.append_assoc]
  exact trimSlashes_snoc hLast

theorem trimSlashes_lead (hLead : IsLead lead) : trimSlashes lead = [] := by
  rcases hLead with rfl | rfl <;> rfl

/-- Going out of a directory drops the last name. -/
theorem parent_spell (hLead : IsLead lead) (h : ∀ c ∈ names, IsName c) (hn : IsName n) :
    parent (spell lead (names ++ [n])) = spell lead names := by
  by_cases hNames : names = []
  · subst hNames
    have hHead : head (spell lead ([] ++ [n])) = lead := by
      rw [List.nil_append, spell_singleton]
      rcases hLead with rfl | rfl
      · exact head_append [] hn.not_mem
      · exact head_append [separator] hn.not_mem
    unfold parent
    rw [hHead, spell_nil, if_pos]
    rcases hLead with rfl | rfl <;> rfl
  · have hHead : head (spell lead (names ++ [n])) = spell lead names ++ [separator] := by
      rw [spell_snoc hNames]
      exact head_append _ hn.not_mem
    obtain ⟨front, last, hEnd, hLast⟩ := getLast_joinWith h hNames
    have hNotAll : ¬ (spell lead names ++ [separator]).all (· == separator) = true := by
      unfold spell
      rw [hEnd]
      simp [hLast]
    unfold parent
    rw [hHead, if_neg hNotAll, trimSlashes_append_separator, trimSlashes_spell h hNames]

/-- The root is its own parent. -/
theorem parent_lead (hLead : IsLead lead) : parent (spell lead []) = spell lead [] := by
  rw [spell_nil]
  rcases hLead with rfl | rfl <;> rfl

-- ---------------------------------------------------------------------------
-- Under a path
-- ---------------------------------------------------------------------------

theorem spell_append {as bs : List Text} (ha : as ≠ []) (hb : bs ≠ []) :
    spell lead (as ++ bs) = spell lead as ++ separator :: Text.joinWith [separator] bs := by
  unfold spell
  rw [joinWith_append ha hb, List.append_assoc]

/-- Lying under a path is having its names in front. -/
theorem isUnder_spell (hLead : IsLead lead) {as bs : List Text} (ha : ∀ c ∈ as, IsName c)
    (hb : ∀ c ∈ bs, IsName c) :
    isUnder (spell lead as) (spell lead bs) = true ↔ bs <+: as := by
  unfold isUnder
  rw [Bool.or_eq_true, beq_iff_eq, List.isPrefixOf_iff_prefix]
  by_cases hbs : bs = []
  · subst hbs
    have hSlash : [separator] <+: spell lead as := by
      rcases hLead with rfl | rfl
      · exact ⟨_, rfl⟩
      · exact ⟨_, rfl⟩
    rw [spell_nil, trimSlashes_lead hLead]
    exact ⟨fun _ => List.nil_prefix, fun _ => Or.inr hSlash⟩
  · rw [trimSlashes_spell hb hbs]
    constructor
    · rintro (hEq | ⟨rest, hRest⟩)
      · rw [spell_injective hLead ha hb hEq]
      · -- the names of both sides are compared
        have hNames : as = bs ++ components rest := by
          rw [← components_spell hLead ha, ← hRest, List.append_assoc, List.singleton_append,
            components_append_cons, components_spell hLead hb]
        exact ⟨components rest, hNames.symm⟩
    · rintro ⟨rest, rfl⟩
      by_cases hrest : rest = []
      · subst hrest
        rw [List.append_nil]
        exact Or.inl rfl
      · refine Or.inr ⟨Text.joinWith [separator] rest, ?_⟩
        rw [spell_append hbs hrest, List.append_assoc, List.singleton_append]

-- ---------------------------------------------------------------------------
-- Normalized paths
-- ---------------------------------------------------------------------------

theorem isAbsolute_spell (hLead : IsLead lead) : isAbsolute (spell lead names) = true := by
  rcases hLead with rfl | rfl <;> rfl

/-- A name is put on the others, whether they have a root or not. -/
theorem pushComponent_of_isName {rooted : Bool} (done : List Text) (hn : IsName n) :
    pushComponent rooted done n = n :: done := by
  unfold pushComponent
  rw [if_neg hn.2.2.1, if_neg hn.2.2.2]

/-- Names stay as they are when a path is reduced. -/
theorem foldl_pushComponent {rooted : Bool} (done : List Text) (h : ∀ c ∈ names, IsName c) :
    names.foldl (pushComponent rooted) done = names.reverse ++ done := by
  induction names generalizing done with
  | nil => rfl
  | cons c cs ih =>
    rw [List.foldl_cons, pushComponent_of_isName done (h c List.mem_cons_self),
      ih _ fun d hd => h d (List.mem_cons_of_mem _ hd)]
    simp

/-- The slashes in front are those that were put there. -/
theorem leadingSlashes_spell (hLead : IsLead lead) (h : ∀ c ∈ names, IsName c) :
    leadingSlashes (spell lead names) = lead := by
  by_cases hNames : names = []
  · subst hNames
    rw [spell_nil]
    rcases hLead with rfl | rfl <;> rfl
  · obtain ⟨first, rest, hHead, hFirst⟩ := head_joinWith h hNames
    have hSlash : first ≠ '/' := hFirst
    unfold spell
    rw [hHead]
    rcases hLead with rfl | rfl
    · show leadingSlashes ('/' :: first :: rest) = _
      simp [leadingSlashes, hSlash, separator]
    · show leadingSlashes ('/' :: '/' :: first :: rest) = _
      simp [leadingSlashes, hSlash, separator]

/-- A spelled path is normalized. -/
theorem normalize_spell (hLead : IsLead lead) (h : ∀ c ∈ names, IsName c) :
    normalize (spell lead names) = spell lead names := by
  have hReduced : reducedComponents (spell lead names) = names := by
    unfold reducedComponents
    rw [components_spell hLead h, foldl_pushComponent [] h, List.append_nil, List.reverse_reverse]
  have hNotEmpty : ¬ (spell lead names).isEmpty = true := by
    rcases hLead with rfl | rfl <;> exact nofun
  unfold normalize
  rw [leadingSlashes_spell hLead h, hReduced]
  exact if_neg hNotEmpty

/-- The pieces between separators have no separators. -/
theorem not_mem_of_mem_splitOn {sep : Char} {c p : Text} (h : c ∈ p.splitOn sep) : sep ∉ c := by
  induction p generalizing c with
  | nil =>
    rw [List.splitOn_nil, List.mem_singleton] at h
    simp [h]
  | cons first rest ih =>
    rw [List.splitOn_cons_eq_if_modifyHead] at h
    split at h
    · rcases List.mem_cons.mp h with rfl | h
      · exact List.not_mem_nil
      · exact ih h
    · rename_i hFirst
      cases hPieces : rest.splitOn sep with
      | nil => exact absurd hPieces (List.splitOn_ne_nil _ _)
      | cons d ds =>
        rw [hPieces] at h ih
        rcases List.mem_cons.mp h with rfl | h
        · have hNe : first ≠ sep := by simpa using hFirst
          rw [List.mem_cons, not_or]
          exact ⟨fun e => hNe e.symm, ih List.mem_cons_self⟩
        · exact ih (List.mem_cons_of_mem _ h)

/-- Whatever cancels, names are left, for the root is its own parent. -/
theorem isName_pushComponent {done : List Text} {c : Text} (hDone : ∀ d ∈ done, IsName d)
    (hc : c ≠ []) (hSlash : separator ∉ c) : ∀ d ∈ pushComponent true done c, IsName d := by
  unfold pushComponent
  split
  · exact hDone
  · rename_i hDot
    split
    · split
      · exact nofun
      · rename_i last others
        have hLast := hDone last List.mem_cons_self
        rw [if_neg hLast.2.2.2]
        exact fun d hd => hDone d (List.mem_cons_of_mem _ hd)
    · rename_i hDots
      exact List.forall_mem_cons.mpr ⟨⟨hc, hSlash, hDot, hDots⟩, hDone⟩

/-- The components of a reduced absolute path are names. -/
theorem isName_reducedComponents {p : Text} (hp : isAbsolute p = true) :
    ∀ c ∈ reducedComponents p, IsName c := by
  have hFold : ∀ (cs done : List Text), (∀ c ∈ cs, c ≠ [] ∧ separator ∉ c) →
      (∀ d ∈ done, IsName d) → ∀ d ∈ cs.foldl (pushComponent true) done, IsName d := by
    intro cs
    induction cs with
    | nil => exact fun done _ hDone => hDone
    | cons c cs ih =>
      intro done hcs hDone
      rw [List.foldl_cons]
      apply ih
      · exact fun d hd => hcs d (List.mem_cons_of_mem _ hd)
      · have hc := hcs c List.mem_cons_self
        exact isName_pushComponent hDone hc.1 hc.2
  intro c hc
  unfold reducedComponents at hc
  rw [hp, List.mem_reverse] at hc
  refine hFold _ [] ?_ nofun c hc
  intro d hd
  obtain ⟨hPiece, hNotEmpty⟩ := List.mem_filter.mp hd
  exact ⟨by simpa using hNotEmpty, not_mem_of_mem_splitOn hPiece⟩

/-- An absolute path begins with one slash or with two. -/
theorem isLead_leadingSlashes {p : Text} (hp : isAbsolute p = true) : IsLead (leadingSlashes p) := by
  unfold leadingSlashes
  split
  · exact Or.inl rfl
  · exact Or.inr rfl
  · exact Or.inl rfl
  · rename_i hNoSlash
    cases p with
    | nil => exact absurd hp (by simp [isAbsolute])
    | cons first rest =>
      have hFirst : first = separator := by simpa [isAbsolute] using hp
      exact absurd (by rw [hFirst]; rfl) (hNoSlash rest)

/-- Normalizing an absolute path spells it. -/
theorem exists_spell_normalize {p : Text} (hp : isAbsolute p = true) :
    ∃ lead names, IsLead lead ∧ (∀ c ∈ names, IsName c) ∧ normalize p = spell lead names := by
  refine ⟨leadingSlashes p, reducedComponents p, isLead_leadingSlashes hp,
    isName_reducedComponents hp, ?_⟩
  have hNotEmpty : ¬ (spell (leadingSlashes p) (reducedComponents p)).isEmpty = true := by
    rcases isLead_leadingSlashes hp with h | h <;> rw [h] <;> exact nofun
  unfold normalize
  exact if_neg hNotEmpty

-- ---------------------------------------------------------------------------
-- Paths from a base
-- ---------------------------------------------------------------------------

/-- A text that can stand as a name in a directory. -/
abbrev Name := { n : Text // IsName n }

/-- A spelled path that other paths are seen from. -/
structure Base where
  lead : Text
  names : List Name
  isLead : IsLead lead

namespace Base

variable (b : Base)

/-- The path that some names lead to from the base. -/
def path (ns : List Name) : Text := spell b.lead ((b.names ++ ns).map Subtype.val)

theorem isName_map (ns : List Name) : ∀ c ∈ ns.map Subtype.val, IsName c := by
  intro c hc
  obtain ⟨n, -, rfl⟩ := List.mem_map.mp hc
  exact n.2

/-- Different names below a base give different paths. -/
theorem path_injective : Function.Injective b.path := by
  intro as bs h
  have hNames := spell_injective b.isLead (isName_map _) (isName_map _) h
  exact List.append_cancel_left (Subtype.val_injective.list_map hNames)

@[simp] theorem path_inj {as bs : List Name} : b.path as = b.path bs ↔ as = bs :=
  b.path_injective.eq_iff

theorem path_snoc (ns : List Name) (n : Name) :
    b.path (ns ++ [n]) = spell b.lead ((b.names ++ ns).map Subtype.val ++ [n.1]) := by
  unfold path
  rw [← List.append_assoc, List.map_append]
  rfl

/-- The components of a path are the names of its base and those below it. -/
theorem components_path (ns : List Name) :
    components (b.path ns) = (b.names ++ ns).map Subtype.val :=
  components_spell b.isLead (isName_map _)

/-- To join a name to a path goes one name deeper. -/
theorem join_path (ns : List Name) (n : Name) : join (b.path ns) n.1 = b.path (ns ++ [n]) := by
  rw [path_snoc]
  exact join_spell b.isLead (isName_map _) n.2

@[simp] theorem parent_path (ns : List Name) (n : Name) :
    parent (b.path (ns ++ [n])) = b.path ns := by
  rw [path_snoc]
  exact parent_spell b.isLead (isName_map _) n.2

/-- The last name of a path stands behind its last slash. -/
theorem exists_path_snoc_eq (ns : List Name) (n : Name) :
    ∃ front, b.path (ns ++ [n]) = front ++ separator :: n.1 := by
  rw [path_snoc]
  by_cases hNames : (b.names ++ ns).map Subtype.val = []
  · rw [hNames, List.nil_append, spell_singleton]
    rcases b.isLead with hLead | hLead
    · exact ⟨[], by rw [hLead]; rfl⟩
    · exact ⟨[separator], by rw [hLead]; rfl⟩
  · exact ⟨_, spell_snoc hNames⟩

/-- An ending without slashes is an ending of the last name. -/
theorem isSuffixOf_name {ns : List Name} {n : Name} {ending : Text} (hSlash : separator ∉ ending)
    (h : ending.isSuffixOf (b.path (ns ++ [n])) = true) : ending.isSuffixOf n.1 = true := by
  obtain ⟨front, hPath⟩ := b.exists_path_snoc_eq ns n
  rw [List.isSuffixOf_iff_suffix] at h ⊢
  rw [hPath] at h
  have hName : n.1 <:+ front ++ separator :: n.1 :=
    (List.suffix_cons _ _).trans (List.suffix_append _ _)
  rcases List.suffix_or_suffix_of_suffix h hName with hShort | ⟨more, rfl⟩
  · exact hShort
  · -- a longer ending would reach over the last slash
    obtain ⟨rest, hRest⟩ := h
    have hFront : rest ++ more = front ++ [separator] := by
      refine List.append_cancel_right (?_ : _ ++ n.1 = _ ++ n.1)
      simpa using hRest
    rcases List.eq_nil_or_concat more with rfl | ⟨more, c, rfl⟩
    · exact List.suffix_refl _
    · rw [List.concat_eq_append, ← List.append_assoc] at hFront
      obtain ⟨-, hLast⟩ := List.append_inj' hFront rfl
      rw [List.concat_eq_append, List.singleton_inj.mp hLast] at hSlash
      exact absurd (by simp) hSlash

/-- **A path is under another one if it has more names of the same beginning.** -/
theorem isUnder_path {as bs : List Name} : isUnder (b.path as) (b.path bs) = true ↔ bs <+: as := by
  unfold path
  rw [isUnder_spell b.isLead (isName_map _) (isName_map _)]
  constructor
  · rintro ⟨rest, hRest⟩
    have hPrefix : b.names ++ bs <+: b.names ++ as :=
      (List.prefix_map_iff_of_injective Subtype.val_injective).mp ⟨rest, hRest⟩
    exact (List.prefix_append_right_inj _).mp hPrefix
  · intro h
    exact ((List.prefix_append_right_inj _).mpr h).map _

theorem isUnder_path_eq_false {as bs : List Name} :
    isUnder (b.path as) (b.path bs) = false ↔ ¬ bs <+: as := by
  rw [← b.isUnder_path, Bool.not_eq_true]

/-- Every path seen from a base lies below it. -/
theorem isUnder_base (ns : List Name) : isUnder (b.path ns) (b.path []) = true :=
  b.isUnder_path.mpr (List.nil_prefix)

theorem isAbsolute_path (ns : List Name) : isAbsolute (b.path ns) = true := isAbsolute_spell b.isLead

/-- Paths below a base are normalized. -/
theorem normalize_path (ns : List Name) : normalize (b.path ns) = b.path ns :=
  normalize_spell b.isLead (isName_map _)

end Base

theorem isUnder_self (p : Text) : isUnder p p = true := by simp [isUnder]

/-- Neither of two paths lies under the other. -/
def Apart (p q : Text) : Prop := isUnder q p = false ∧ isUnder p q = false

/-- Every absolute path, normalized, is a base. -/
theorem exists_base {p : Text} (hp : isAbsolute p = true) : ∃ b : Base, normalize p = b.path [] := by
  obtain ⟨lead, names, hLead, hNames, hEq⟩ := exists_spell_normalize hp
  refine ⟨⟨lead, names.attachWith IsName hNames, hLead⟩, ?_⟩
  rw [hEq, Base.path, List.append_nil]
  simp

/-- A normalized absolute path is not empty. -/
theorem normalize_ne_nil {p : Text} (hp : isAbsolute p = true) : normalize p ≠ [] := by
  obtain ⟨b, hBase⟩ := exists_base hp
  intro hNil
  have hAbsolute := b.isAbsolute_path []
  rw [← hBase, hNil] at hAbsolute
  exact Bool.false_ne_true hAbsolute

/-- What is joined to an absolute path is absolute. -/
theorem isAbsolute_join {dir : Text} (hDir : isAbsolute dir = true) (p : Text) :
    isAbsolute (join dir p) = true := by
  unfold join
  split
  · assumption
  · cases dir with
    | nil => exact nomatch hDir
    | cons c cs => split <;> exact hDir

/-- What a path is seen as from an absolute directory is a base. -/
theorem exists_base_absolute {dir : Text} (hDir : isAbsolute dir = true) (p : Text) :
    ∃ b : Base, absolute dir p = b.path [] := exists_base (isAbsolute_join hDir p)

/-- A base is told by its path. -/
theorem Base.eq_of_path_nil {b c : Base} (h : b.path [] = c.path []) : b = c := by
  have hNames : b.names = c.names := by
    have hComponents := congrArg components h
    rw [components_path, components_path, List.append_nil, List.append_nil] at hComponents
    exact Subtype.val_injective.list_map hComponents
  have hLead : b.lead = c.lead := by
    unfold path spell at h
    rw [hNames] at h
    exact List.append_cancel_right h
  cases b
  cases c
  simp_all

/-- A normalized path is a root, or a name in a directory. -/
theorem exists_base_snoc {p : Text} (hp : isAbsolute p = true) (hNormal : normalize p = p) :
    ∃ b : Base, (b.names = [] ∧ p = b.path []) ∨ ∃ n, p = b.path [n] := by
  obtain ⟨b, hEq⟩ := exists_base hp
  rw [hNormal] at hEq
  rcases List.eq_nil_or_concat b.names with hNames | ⟨front, n, hNames⟩
  · exact ⟨b, Or.inl ⟨hNames, hEq⟩⟩
  · refine ⟨⟨b.lead, front, b.isLead⟩, Or.inr ⟨n, ?_⟩⟩
    rw [hEq, Base.path, Base.path, hNames, List.append_nil, List.concat_eq_append]

/-- What has a directory as its parent is a name in it, unless it is the root. -/
theorem Base.exists_name_of_parent (b : Base) {d : Text} (hd : isAbsolute d = true)
    (hNormal : normalize d = d) {ns : List Name} (hParent : parent d = b.path ns)
    (hOther : d ≠ b.path ns) : ∃ n : Name, d = b.path (ns ++ [n]) := by
  obtain ⟨c, ⟨hNames, rfl⟩ | ⟨n, rfl⟩⟩ := exists_base_snoc hd hNormal
  · -- the root is its own parent
    exfalso
    apply hOther
    rw [← hParent, path, hNames]
    exact (parent_lead c.isLead).symm
  · have hSame : c.path [] = b.path ns := (c.parent_path [] n).symm.trans hParent
    refine ⟨n, ?_⟩
    rw [← b.join_path, ← hSame]
    exact (c.join_path [] n).symm

end ClassTags.Path
