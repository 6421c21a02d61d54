import ClassTags.ClassRecord.Extraction
import Mathlib.Data.List.Basic
import Mathlib.Data.List.Induction

/-!
# Class records without a loop

The record of a class is made in one pass over the entries of its body. The pass looks up the key of
each entry and changes the record in place: some fields grow with every entry of their key, others
are set anew and keep the last value, and one keeps the last value that makes sense. Keys may come
in any order and any number of times. Here the record is written down field by field, as a function
of the entries alone, and so are the warnings that are given on the way.

Main definitions:

* `ClassRecord.valuesAt`, `ClassRecord.methodsAt`, `ClassRecord.propertiesAt` — what the entries under a
  key stand for;
* `ClassRecord.Gathers` — a record that is made of the given entries;
* `ClassRecord.warning?` — the warning about an entry, if it deserves one.

Main results:

* `ClassRecord.withEntry_eq` — what one entry changes, in all fields;
* `ClassRecord.gathers_ofDefinition` — what all entries make of a record;
* `Node.class?_gathers` — the record of a class and the warnings about it.
-/

namespace ClassTags

-- ---------------------------------------------------------------------------
-- Keys and sections
-- ---------------------------------------------------------------------------

namespace Section

theorem ofKey?_key (s : Section) : ofKey? s.key = some s := by
  cases s <;> decide

/-- A key is that of one section at most. -/
theorem ofKey?_eq_some {t : Text} {s : Section} : ofKey? t = some s ↔ t = s.key := by
  constructor
  · intro h
    have hFound := List.find?_some (p := fun s : Section => s.key == t) h
    exact (beq_iff_eq.mp hFound).symm
  · rintro rfl
    exact ofKey?_key s

@[simp] theorem key_inj {s t : Section} : s.key = t.key ↔ s = t := by
  constructor
  · intro h
    have hSome := ofKey?_key s
    rw [h, ofKey?_key] at hSome
    exact (Option.some.inj hSome).symm
  · rintro rfl
    rfl

/-- A key is that of a section, or it is looked up in vain. -/
theorem key_cases (t : Text) :
    (∃ s, t = s.key ∧ ofKey? t = some s) ∨ (ofKey? t = none ∧ ∀ s : Section, t ≠ s.key) := by
  cases h : ofKey? t with
  | some s => exact Or.inl ⟨s, ofKey?_eq_some.mp h, rfl⟩
  | none => exact Or.inr ⟨rfl, fun s hKey => nomatch h.symm.trans (ofKey?_eq_some.mpr hKey)⟩

end Section

namespace ClassRecord

-- ---------------------------------------------------------------------------
-- What the entries stand for
-- ---------------------------------------------------------------------------

/-- The values under a key, in order. -/
def valuesAt (key : Text) (entries : List (Node × Node)) : List Node :=
  entries.filterMap fun entry => if entry.1.keyName = key then some entry.2 else none

/-- The methods that an entry of a class body stands for. -/
def methodsAt (entry : Node × Node) : List MemberEntry :=
  if entry.1.keyName = "construct" then
    [{ name := "[constructor]", node := entry.2, signature := entry.2.signature? }]
  else if entry.1.keyName = "destruct" then
    [{ name := "[destructor]", node := entry.2, signature := entry.2.signature? }]
  else if entry.1.keyName = "members" then
    (entry.2.entries.filter fun m => m.2.isFunction).map fun m =>
      { name := m.1.keyName, node := m.2, signature := m.2.signature? }
  else []

/-- The properties that an entry of a class body stands for: of the members those that are no
functions, each with its first value. -/
def propertiesAt (entry : Node × Node) : List MemberEntry :=
  if entry.1.keyName = "members" then
    (entry.2.entries.filter fun m => !m.2.isFunction).map fun m =>
      { name := m.1.keyName, node := m.2, signature := some ("(=" ++ m.2.text ++ ")") }
  else if entry.1.keyName = "properties" then
    entry.2.entries.map fun m => { name := m.1.keyName, node := m.2 }
  else []

/-- **The record is made of the entries.** Members are those of all entries in order; references and
the type are those of the last entry that gives any. -/
structure Gathers (entries : List (Node × Node)) (r : ClassRecord) : Prop where
  type : r.type = ((valuesAt "type" entries).filterMap fun value =>
    ClassType.ofName? value.reading).getLast?.getD .plain
  parent : r.parent = (valuesAt "extend" entries).getLast?.map .reference
  mixins : r.mixins = ((valuesAt "include" entries).getLast?.map MemberEntry.references).getD []
  interfaces :
    r.interfaces = ((valuesAt "implement" entries).getLast?.map MemberEntry.references).getD []
  methods : r.methods = entries.flatMap methodsAt
  properties : r.properties = entries.flatMap propertiesAt
  statics : r.statics = (valuesAt "statics" entries).flatMap fun value =>
    value.entries.map fun m => { name := m.1.keyName, node := m.2 }
  events : r.events = (valuesAt "events" entries).flatMap fun value =>
    value.entries.map fun m => { name := m.1.keyName, node := m.2 }

-- ---------------------------------------------------------------------------
-- One entry and all entries
-- ---------------------------------------------------------------------------

/-- An entry with the key of a section gives the methods of that section. -/
theorem methodsAt_of_key {entry : Node × Node} {s : Section} (h : entry.1.keyName = s.key) :
    methodsAt entry = s.methods entry.2 := by
  show (if entry.1.keyName = Section.construction.key then _ else
    if entry.1.keyName = Section.destruction.key then _ else
      if entry.1.keyName = Section.members.key then _ else _) = _
  simp only [h, Section.key_inj]
  cases s <;> rfl

/-- An entry with the key of a section gives the properties of that section. -/
theorem propertiesAt_of_key {entry : Node × Node} {s : Section} (h : entry.1.keyName = s.key) :
    propertiesAt entry = s.propertiesOf entry.2 := by
  show (if entry.1.keyName = Section.members.key then _ else
    if entry.1.keyName = Section.properties.key then _ else _) = _
  simp only [h, Section.key_inj]
  cases s <;> rfl

/-- An entry with any other key gives no methods. -/
theorem methodsAt_of_unknown {entry : Node × Node} (h : ∀ s : Section, entry.1.keyName ≠ s.key) :
    methodsAt entry = [] := by
  show (if entry.1.keyName = Section.construction.key then _ else
    if entry.1.keyName = Section.destruction.key then _ else
      if entry.1.keyName = Section.members.key then _ else _) = _
  rw [if_neg (h _), if_neg (h _), if_neg (h _)]

/-- An entry with any other key gives no properties. -/
theorem propertiesAt_of_unknown {entry : Node × Node} (h : ∀ s : Section, entry.1.keyName ≠ s.key) :
    propertiesAt entry = [] := by
  show (if entry.1.keyName = Section.members.key then _ else
    if entry.1.keyName = Section.properties.key then _ else _) = _
  rw [if_neg (h _), if_neg (h _)]

/-- **What one entry changes**, in all fields. -/
theorem withEntry_eq (r : ClassRecord) (entry : Node × Node) :
    r.withEntry entry = { r with
      type := if entry.1.keyName = Section.type.key then
        (ClassType.ofName? entry.2.reading).getD r.type else r.type
      parent := if entry.1.keyName = Section.parent.key then some (.reference entry.2) else r.parent
      mixins := if entry.1.keyName = Section.mixins.key then MemberEntry.references entry.2
        else r.mixins
      interfaces := if entry.1.keyName = Section.interfaces.key then MemberEntry.references entry.2
        else r.interfaces
      methods := r.methods ++ methodsAt entry
      properties := r.properties ++ propertiesAt entry
      statics := r.statics ++
        if entry.1.keyName = Section.statics.key then entry.2.entries.map .plain else []
      events := r.events ++
        if entry.1.keyName = Section.events.key then entry.2.entries.map .plain else [] } := by
  rcases Section.key_cases entry.1.keyName with ⟨s, hKey, hSome⟩ | ⟨hNone, hUnknown⟩
  · have hEntry : r.withEntry entry = r.withSection s entry.2 := by
      unfold withEntry
      rw [hSome]
    simp only [hEntry, methodsAt_of_key hKey, propertiesAt_of_key hKey, hKey, Section.key_inj]
    cases s <;> simp [withSection, Section.methods, Section.propertiesOf]
  · have hEntry : r.withEntry entry = r := by
      unfold withEntry
      rw [hNone]
    simp [hEntry, methodsAt_of_unknown hUnknown, propertiesAt_of_unknown hUnknown, hUnknown]

/-- One more entry adds its value if it has the key. -/
theorem valuesAt_snoc (key : Text) (entries : List (Node × Node)) (entry : Node × Node) :
    valuesAt key (entries ++ [entry]) =
      valuesAt key entries ++ if entry.1.keyName = key then [entry.2] else [] := by
  unfold valuesAt
  rw [List.filterMap_append]
  split <;> simp_all

/-- Of the values under a key, the last entry gives the last one, if it has the key. -/
theorem getLast?_valuesAt_snoc (key : Text) (entries : List (Node × Node)) (entry : Node × Node) :
    (valuesAt key (entries ++ [entry])).getLast? =
      if entry.1.keyName = key then some entry.2 else (valuesAt key entries).getLast? := by
  rw [valuesAt_snoc]
  split <;> simp

/-- One more entry takes the place of the last one that counts, if it has the key and counts. -/
theorem getLast?_filterMap_valuesAt_snoc {α : Type} (f : Node → Option α) (key : Text)
    (entries : List (Node × Node)) (entry : Node × Node) :
    ((valuesAt key (entries ++ [entry])).filterMap f).getLast? =
      if entry.1.keyName = key then (f entry.2).or ((valuesAt key entries).filterMap f).getLast?
      else ((valuesAt key entries).filterMap f).getLast? := by
  rw [valuesAt_snoc, List.filterMap_append, List.getLast?_append]
  split
  · cases hLast : f entry.2 <;> simp [hLast]
  · simp

/-- One more entry adds what its value gives, if it has the key. -/
theorem flatMap_valuesAt_snoc {α : Type} (f : Node → List α) (key : Text)
    (entries : List (Node × Node)) (entry : Node × Node) :
    (valuesAt key (entries ++ [entry])).flatMap f =
      (valuesAt key entries).flatMap f ++ if entry.1.keyName = key then f entry.2 else [] := by
  rw [valuesAt_snoc, List.flatMap_append]
  split <;> simp

namespace Gathers

variable {entries : List (Node × Node)} {r : ClassRecord}

theorem nil {path name : Text} {body : Node} : Gathers [] { path, name, body } :=
  ⟨rfl, rfl, rfl, rfl, rfl, rfl, rfl, rfl⟩

/-- **One more entry.** -/
theorem snoc (h : Gathers entries r) (entry : Node × Node) :
    Gathers (entries ++ [entry]) (r.withEntry entry) := by
  rw [withEntry_eq]
  constructor
  case type =>
    rw [getLast?_filterMap_valuesAt_snoc, apply_ite (Option.getD · _), Option.getD_or, ← h.type]
    rfl
  case parent =>
    rw [getLast?_valuesAt_snoc, apply_ite (Option.map _), ← h.parent]
    rfl
  case mixins =>
    rw [getLast?_valuesAt_snoc, apply_ite (Option.map _), apply_ite (Option.getD · []), ← h.mixins]
    rfl
  case interfaces =>
    rw [getLast?_valuesAt_snoc, apply_ite (Option.map _), apply_ite (Option.getD · []), ← h.interfaces]
    rfl
  case methods => rw [List.flatMap_append, List.flatMap_singleton, ← h.methods]
  case properties => rw [List.flatMap_append, List.flatMap_singleton, ← h.properties]
  case statics =>
    rw [flatMap_valuesAt_snoc, ← h.statics]
    rfl
  case events =>
    rw [flatMap_valuesAt_snoc, ← h.events]
    rfl

end Gathers

/-- **What all entries make of a record.** -/
theorem gathers_ofDefinition (path name : Text) (body : Node) :
    Gathers body.entries (ofDefinition path name body) := by
  unfold ofDefinition
  -- from the first entry on, since the last entry of a key counts
  induction body.entries using List.reverseRecOn with
  | nil => exact .nil
  | append_singleton entries entry ih =>
    rw [List.foldl_append]
    exact ih.snoc entry

/-- The pass over the entries leaves what the record is about. -/
theorem ofDefinition_fixed (path name : Text) (body : Node) :
    (ofDefinition path name body).path = path ∧ (ofDefinition path name body).name = name ∧
      (ofDefinition path name body).body = body := by
  have hStart : ({ path, name, body } : ClassRecord).path = path ∧
      ({ path, name, body } : ClassRecord).name = name ∧
        ({ path, name, body } : ClassRecord).body = body := ⟨rfl, rfl, rfl⟩
  refine List.foldlRecOn (motive := fun r => r.path = path ∧ r.name = name ∧ r.body = body)
    body.entries withEntry hStart fun r hr entry _ => ?_
  rw [withEntry_eq]
  exact hr

-- ---------------------------------------------------------------------------
-- Warnings
-- ---------------------------------------------------------------------------

/-- The keys that mean something in a class body. -/
def sectionKeys : List Text :=
  ["extend", "include", "implement", "construct", "destruct", "statics", "members", "properties",
    "events", "type", "environment", "defer"]

/-- The keys whose values have to be object literals. -/
def objectKeys : List Text := ["statics", "members", "properties", "events"]

/-- What a class may declare itself to be. -/
def typeNames : List Text := ["none", "abstract", "singleton", "static"]

/-- The warning about an entry of a class body, if it deserves one: its key means nothing, its value
has to be an object literal and is not, or its value is no type of classes. -/
def warning? (path name : Text) (entry : Node × Node) : Option Notice :=
  if ¬ sectionKeys.contains entry.1.keyName then
    some (.unknownSection entry.1.keyName name path entry.1.line)
  else if objectKeys.contains entry.1.keyName ∧ entry.2.entries?.isNone then
    some (.notAnObject entry.1.keyName name entry.2.line)
  else if entry.1.keyName = "type" ∧ ¬ typeNames.contains entry.2.reading then
    some (.unknownType entry.2.reading name entry.2.line)
  else none

/-- The listed keys are those of the sections. -/
theorem mem_sectionKeys {t : Text} : t ∈ sectionKeys ↔ ∃ s : Section, t = s.key := by
  constructor
  · intro h
    have hMap : t ∈ Section.all.map Section.key := h
    obtain ⟨s, -, hKey⟩ := List.mem_map.mp hMap
    exact ⟨s, hKey.symm⟩
  · rintro ⟨s, rfl⟩
    cases s <;> decide

/-- The sections with entries of their own are those whose values have to be object literals. -/
theorem key_mem_objectKeys (s : Section) : s.key ∈ objectKeys ↔ s.hasEntries = true := by
  cases s <;> decide

theorem ofName?_eq_none {t : Text} : ClassType.ofName? t = none ↔ t ∉ typeNames := by
  have hNames : typeNames = [ClassType.plain, .abstract, .singleton, .static].map ClassType.name := rfl
  unfold ClassType.ofName?
  rw [List.find?_eq_none, hNames, List.mem_map]
  simp only [beq_iff_eq, not_exists, not_and]

/-- An entry is reported once or not at all. -/
theorem entryNotices_eq (path name : Text) (entry : Node × Node) :
    entryNotices path name entry = (warning? path name entry).toList := by
  unfold entryNotices warning?
  -- a key is that of a section or means nothing
  rcases Section.key_cases entry.1.keyName with ⟨s, hKey, hSome⟩ | ⟨hNone, hUnknown⟩
  · have hMem : sectionKeys.contains entry.1.keyName = true :=
      List.contains_iff_mem.mpr (mem_sectionKeys.mpr ⟨s, hKey⟩)
    have hObject : (s.hasEntries && entry.2.entries?.isNone) = true ↔
        objectKeys.contains entry.1.keyName = true ∧ entry.2.entries?.isNone = true := by
      rw [Bool.and_eq_true, hKey, List.contains_iff_mem, key_mem_objectKeys]
    -- only the type of a class has a fixed set of values
    have hType : (s == .type && (ClassType.ofName? entry.2.reading).isNone) = true ↔
        entry.1.keyName = "type" ∧ ¬ typeNames.contains entry.2.reading = true := by
      rw [Bool.and_eq_true, beq_iff_eq, Option.isNone_iff_eq_none, ofName?_eq_none, hKey,
        List.contains_iff_mem]
      exact and_congr_left' (Section.key_inj (t := .type)).symm
    rw [hSome, if_neg (not_not.mpr hMem)]
    dsimp only
    by_cases hValue : (s.hasEntries && entry.2.entries?.isNone) = true
    · rw [if_pos hValue, if_pos (hObject.mp hValue), hKey]
      rfl
    rw [if_neg hValue, if_neg (mt hObject.mpr hValue)]
    by_cases hName : (s == .type && (ClassType.ofName? entry.2.reading).isNone) = true
    · rw [if_pos hName, if_pos (hType.mp hName)]
      rfl
    · rw [if_neg hName, if_neg (mt hType.mpr hName)]
      rfl
  · have hNot : ¬ sectionKeys.contains entry.1.keyName = true := by
      rw [List.contains_iff_mem, mem_sectionKeys]
      rintro ⟨s, hKey⟩
      exact hUnknown s hKey
    rw [hNone, if_pos hNot]
    rfl

/-- What is reported about an entry is a warning. -/
theorem level_of_warning? {path name : Text} {entry : Node × Node} {n : Notice}
    (h : warning? path name entry = some n) : n.level = .warning := by
  unfold warning? at h
  split at h
  · cases h
    rfl
  split at h
  · cases h
    rfl
  split at h <;> cases h
  rfl

end ClassRecord

/-- **The record of a class and the warnings about it.** A call whose first argument is a string and
whose second argument is an object literal defines the class of that name, whatever the entries of
the object literal are. Its record is made of these entries, and for each of them there is at most
one warning, in order. -/
theorem Node.class?_gathers (path name : Text) (p q r : Place) (callee : Node)
    (props others : List Node) :
    ∃ c, (Node.call p callee (.string q name :: .object r props :: others)).class? path = some c ∧
      c.path = path ∧ c.name = name ∧ c.body = .object r props ∧
      c.Gathers (Node.object r props).entries ∧
      (Node.call p callee (.string q name :: .object r props :: others)).classNotices path =
        (Node.object r props).entries.filterMap (ClassRecord.warning? path name) ∧
      ∀ n ∈ (Node.call p callee (.string q name :: .object r props :: others)).classNotices path,
        n.level = .warning := by
  have hNotices : (Node.call p callee
      (.string q name :: .object r props :: others)).classNotices path =
        (Node.object r props).entries.filterMap (ClassRecord.warning? path name) := by
    rw [List.filterMap_eq_flatMap_toList]
    simp only [← ClassRecord.entryNotices_eq]
    rfl
  obtain ⟨hPath, hName, hBody⟩ := ClassRecord.ofDefinition_fixed path name (.object r props)
  refine ⟨.ofDefinition path name (.object r props), rfl, hPath, hName, hBody,
    ClassRecord.gathers_ofDefinition path name _, hNotices, fun n hn => ?_⟩
  rw [hNotices] at hn
  obtain ⟨entry, -, hWarning⟩ := List.mem_filterMap.mp hn
  exact ClassRecord.level_of_warning? hWarning

end ClassTags
