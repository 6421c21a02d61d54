import ClassTags.Proofs.Breakdown
import ClassTags.Proofs.LiteralText

/-!
# The layout of tag files

A tag file is **laid out** when its lines are the header and one line for every row, and when the
line of every row falls into the fields of the row. It is laid out just when the names and
signatures of its classes are plain. They need not be: a class can be named by a string with a tab
in it, and the value of a parameter can be a template of several lines. But no other way is open. In
every registry that comes of checking files, a text that is not plain is the value of a string
literal of its file, or shows a literal that has a tab or a line feed itself.

Main definitions:

* `TagFile.LaidOut` — the lines and fields are those intended;
* `Registry.afterChecks` — the registry after some files have been checked.

Main results:

* `ClassRecord.traced_ofDefinition` — the texts of a class are traced to literals;
* `TagFile.laidOut_iff` — which tag files are laid out;
* `TagFile.layout_afterChecks` — both, for the registries that checks lead to.
-/

namespace ClassTags

-- ---------------------------------------------------------------------------
-- Members
-- ---------------------------------------------------------------------------

/-- A piece is a part of the pieces joined. -/
theorem Text.infix_joinWith {sep piece : Text} {pieces : List Text} (h : piece ∈ pieces) :
    piece <:+: joinWith sep pieces := by
  induction pieces with
  | nil => exact nomatch h
  | cons first pieces ih =>
    cases pieces with
    | nil =>
      rw [List.mem_singleton.mp h]
      simp [joinWith]
    | cons next pieces =>
      rw [joinWith, List.intercalate_cons_cons]
      rcases List.mem_cons.mp h with rfl | h
      · exact ⟨[], sep ++ joinWith sep (next :: pieces), by simp [joinWith]⟩
      · exact (ih h).trans ⟨first ++ sep, [], by simp [joinWith]⟩

theorem Text.plain_joinWith {sep : Text} {pieces : List Text} (hSep : sep.Plain)
    (h : ∀ piece ∈ pieces, piece.Plain) : (joinWith sep pieces).Plain :=
  ⟨(not_mem_joinWith_iff hSep.1).mpr fun piece hPiece => (h piece hPiece).1,
    (not_mem_joinWith_iff hSep.2).mpr fun piece hPiece => (h piece hPiece).2⟩

namespace Node

variable {source : Text} {n : Node} {P : Node → Prop}

theorem All.self (h : n.All P) : P n := by
  cases h with
  | intro hSelf _ => exact hSelf

theorem All.children (h : n.All P) : ∀ c ∈ n.children, c.All P := by
  cases h with
  | intro _ hChildren => exact hChildren

/-- A property of all nodes holds in the keys and values of an object. -/
theorem All.entries (h : n.All P) {entry : Node × Node} (hEntry : entry ∈ n.entries) :
    entry.1.All P ∧ entry.2.All P := by
  cases n with
  | object place entries =>
    obtain ⟨m, hm, hEq⟩ := List.mem_filterMap.mp hEntry
    have hProperty := h.children m hm
    cases m with
    | property _ key value =>
      obtain rfl := Option.some.inj hEq
      exact ⟨hProperty.children key (by simp [Node.children]),
        hProperty.children value (by simp [Node.children])⟩
    | _ => cases hEq
  | _ => cases hEntry

/-- A node reads as it names an entry, or as its text. -/
theorem traced_reading (h : n.Traced source) : ClassTags.Traced source n.reading := by
  cases n with
  | string place value => exact h.keyName
  | _ => exact fun hPlain => .inr (h.text hPlain)

/-- The signature of a function is traced to its text. -/
theorem traced_signature? (h : n.All (Node.Traced source)) {x : Text} (hx : n.signature? = some x) :
    ClassTags.Traced source x := by
  cases n with
  | function place params =>
    obtain rfl := Option.some.inj hx
    intro hPlain
    -- if no parameter shows a literal, the signature is plain
    by_contra hNone
    refine hPlain (Text.plain_append.mpr ⟨Text.plain_append.mpr ⟨by decide, ?_⟩, by decide⟩)
    refine Text.plain_joinWith (by decide) (List.forall_mem_map.mpr fun param hParam => ?_)
    by_contra hText
    refine hNone (.inr (((h.children param hParam).self.text hText).mono ?_))
    exact (Text.infix_joinWith (List.mem_map_of_mem hParam)).trans ⟨"(", ")", rfl⟩
  | _ => exact nomatch hx

end Node

namespace MemberEntry

variable {source : Text}

/-- The texts of a member are traced. -/
structure Traced (source : Text) (m : MemberEntry) : Prop where
  name : ClassTags.Traced source m.name
  signature : ∀ x ∈ m.signature, ClassTags.Traced source x

theorem traced_reference {n : Node} (h : n.Traced source) : (reference n).Traced source :=
  ⟨Node.traced_reading h, nofun⟩

/-- References are traced to the nodes they come from. -/
theorem traced_references {n : Node} (h : n.All (Node.Traced source)) :
    ∀ m ∈ references n, m.Traced source := by
  cases n with
  | array place elements =>
    refine List.forall_mem_map.mpr fun element hElement => ?_
    exact traced_reference (h.children element hElement).self
  | _ => exact List.forall_mem_singleton.mpr (traced_reference h.self)

/-- A method is traced to its key and its function. -/
theorem traced_method {name : Text} {value : Node} (hName : ClassTags.Traced source name)
    (hValue : value.All (Node.Traced source)) : (method name value).Traced source :=
  ⟨hName, fun _ hx => Node.traced_signature? hValue hx⟩

/-- A property is traced to its key and its value. -/
theorem traced_initialized {entry : Node × Node} (hKey : entry.1.Traced source)
    (hValue : entry.2.Traced source) : (initialized entry).Traced source := by
  refine ⟨hKey.keyName, fun x hx => ?_⟩
  obtain rfl := Option.some.inj hx
  intro hPlain
  refine .inr ((hValue.text fun hText => hPlain ?_).mono ⟨"(=", ")", rfl⟩)
  exact Text.plain_append.mpr ⟨Text.plain_append.mpr ⟨by decide, hText⟩, by decide⟩

end MemberEntry

-- ---------------------------------------------------------------------------
-- Classes
-- ---------------------------------------------------------------------------

/-- All that a section adds to a class. -/
def Section.added (s : Section) (value : Node) : List MemberEntry :=
  match s with
  | parent => [.reference value]
  | mixins | interfaces => MemberEntry.references value
  | type => []
  | statics | events => value.entries.map .plain
  | s => s.methods value ++ s.propertiesOf value

/-- The members that a section adds are traced to its value. -/
theorem Section.traced_added {source : Text} {value : Node} (s : Section)
    (h : value.All (Node.Traced source)) : ∀ m ∈ s.added value, m.Traced source := by
  have hFixed : ∀ name ∈ [constructorName, destructorName], Traced source name := fun name hName =>
    fun hPlain => absurd (by revert name; decide) hPlain
  have hEntries : ∀ m ∈ value.entries.map MemberEntry.plain, m.Traced source :=
    List.forall_mem_map.mpr fun entry hEntry => ⟨(h.entries hEntry).1.self.keyName, nofun⟩
  cases s with
  | parent => exact List.forall_mem_singleton.mpr (MemberEntry.traced_reference h.self)
  | mixins => exact MemberEntry.traced_references h
  | interfaces => exact MemberEntry.traced_references h
  | type => exact nofun
  | statics => exact hEntries
  | events => exact hEntries
  | properties => exact hEntries
  | construction =>
    exact List.forall_mem_singleton.mpr (MemberEntry.traced_method (hFixed _ (by simp)) h)
  | destruction =>
    exact List.forall_mem_singleton.mpr (MemberEntry.traced_method (hFixed _ (by simp)) h)
  | members =>
    refine List.forall_mem_append.mpr ⟨?_, ?_⟩
    · refine List.forall_mem_map.mpr fun entry hEntry => ?_
      obtain ⟨hKey, hValue⟩ := h.entries (List.mem_of_mem_filter hEntry)
      exact MemberEntry.traced_method hKey.self.keyName hValue
    · refine List.forall_mem_map.mpr fun entry hEntry => ?_
      obtain ⟨hKey, hValue⟩ := h.entries (List.mem_of_mem_filter hEntry)
      exact MemberEntry.traced_initialized hKey.self hValue.self
  | environment => exact nofun
  | deferral => exact nofun

namespace ClassRecord

variable {source : Text} {r : ClassRecord}

/-- The texts of a class are traced. -/
structure Traced (source : Text) (r : ClassRecord) : Prop where
  name : ClassTags.Traced source r.name
  members : ∀ kind, ∀ m ∈ r.ofKind kind, m.Traced source

/-- All texts of a class that is traced are traced. -/
theorem Traced.texts (h : r.Traced source) : ∀ x ∈ r.texts, ClassTags.Traced source x := by
  intro x hx
  rcases mem_texts.mp hx with rfl | ⟨parent, hParent, rfl⟩ | ⟨member, hMember, hText⟩
  · exact h.name
  · exact (h.members .parent parent (by simp [ofKind, hParent])).name
  · obtain ⟨kind, -, hOfKind⟩ := List.mem_flatMap.mp hMember
    obtain ⟨m, hm, rfl⟩ := List.mem_map.mp hOfKind
    rcases hText with rfl | hSignature
    · exact (h.members kind m hm).name
    · exact (h.members kind m hm).signature x hSignature

/-- A section leaves the members of each kind, or adds to them. -/
theorem mem_ofKind_withSection {s : Section} {value : Node} {kind : MemberKind} {m : MemberEntry}
    (h : m ∈ (r.withSection s value).ofKind kind) : m ∈ r.ofKind kind ∨ m ∈ s.added value := by
  cases s <;> cases kind <;> simp_all [withSection, ofKind, Section.added] <;> tauto

theorem name_withSection (s : Section) (value : Node) : (r.withSection s value).name = r.name := by
  cases s <;> rfl

/-- One more entry leaves a class traced. -/
theorem Traced.withEntry (hr : r.Traced source) {entry : Node × Node}
    (h : entry.2.All (Node.Traced source)) : (r.withEntry entry).Traced source := by
  unfold ClassRecord.withEntry
  split
  case h_1 s _ =>
    refine ⟨(name_withSection s entry.2).symm ▸ hr.name, fun kind m hm => ?_⟩
    rcases mem_ofKind_withSection hm with hOld | hNew
    · exact hr.members kind m hOld
    · exact s.traced_added h m hNew
  case h_2 => exact hr

/-- **The texts of a class are traced**, if its name and the nodes of its body are. -/
theorem traced_ofDefinition {path name : Text} {body : Node} (hName : ClassTags.Traced source name)
    (hBody : body.All (Node.Traced source)) : (ofDefinition path name body).Traced source := by
  have hStart : ({ path, name, body } : ClassRecord).Traced source :=
    ⟨hName, fun kind m hm => by cases kind <;> exact nomatch hm⟩
  exact List.foldlRecOn body.entries ClassRecord.withEntry hStart fun r hr entry hEntry =>
    hr.withEntry (hBody.entries hEntry).2

end ClassRecord

namespace Program

variable {source path : Text} {p : Program}

/-- What holds of all nodes holds along the steps of a query. -/
theorem all_follow {P : Node → Prop} {nodes : List Node} {steps : List Text}
    (h : ∀ n ∈ nodes, n.All P) : ∀ n ∈ Node.follow nodes steps, n.All P := by
  induction steps generalizing nodes with
  | nil => exact h
  | cons step steps ih =>
    refine ih fun n hn => ?_
    obtain ⟨m, hm, hChild⟩ := List.mem_flatMap.mp hn
    exact (h m hm).children n (List.mem_of_mem_filter hChild)

/-- What holds of all nodes holds of those that are selected. -/
theorem all_select {P : Node → Prop} (h : p.node.All P) (pattern : Text) :
    ∀ n ∈ p.select pattern, n.All P := by
  unfold select
  split
  · exact nofun
  · split
    · exact all_follow (List.forall_mem_singleton.mpr h)
    · exact nofun

/-- The classes of a program that is traced are traced. -/
theorem traced_classes (h : ∀ n ∈ p.body, n.All (Node.Traced source)) (defineCalls : List Text) :
    ∀ c ∈ p.classes defineCalls path, c.Traced source := by
  have hProgram : p.node.All (Node.Traced source) :=
    .intro ⟨fun hPlain => absurd Text.plain_nil hPlain, fun hPlain => absurd Text.plain_nil hPlain⟩ h
  intro c hc
  obtain ⟨n, hn, hClass⟩ := List.mem_filterMap.mp hc
  have hNode := all_select hProgram definitionPattern n (List.mem_of_mem_filter hn)
  obtain ⟨⟨name, body⟩, hDefinition, rfl⟩ := Option.map_eq_some_iff.mp hClass
  unfold Node.definition? at hDefinition
  split at hDefinition
  case h_1 =>
    obtain ⟨rfl, rfl⟩ := Prod.mk.inj (Option.some.inj hDefinition)
    have hArguments := (List.forall_mem_cons.mp hNode.children).2
    obtain ⟨hName, hOthers⟩ := List.forall_mem_cons.mp hArguments
    exact ClassRecord.traced_ofDefinition hName.self.keyName (List.forall_mem_cons.mp hOthers).1
  case h_2 => exact nomatch hDefinition

end Program

/-- The texts of the classes that a source text defines are traced to its literals. -/
theorem traced_classesOfSource {defineCalls : List Text} {path source : Text}
    {cs : List ClassRecord} (h : (classesOfSource defineCalls path source).result = .ok cs) :
    ∀ c ∈ cs, c.Traced source := by
  cases hProgram : (Program.ofSource path source).result with
  | ok p =>
    rw [Registry.classesOfSource_eq_ok hProgram] at h
    obtain rfl := Except.ok.inj h
    exact Program.traced_classes (Program.traced_ofSource hProgram) defineCalls
  | error cause =>
    rw [Registry.classesOfSource_eq_error hProgram] at h
    exact nomatch h

-- ---------------------------------------------------------------------------
-- Registries
-- ---------------------------------------------------------------------------

namespace Registry

variable {defineCalls : List Text} {C : ClassRecord → Prop}

/-- To retract a file adds no class. -/
theorem records_retract_subset (r : Registry) (path : Text) :
    (r.retract path).records ⊆ r.records := by
  intro c hc
  obtain ⟨entry, hEntry, rfl⟩ := List.mem_map.mp hc
  have hClasses : (r.retract path).classes = r.classes.filter fun e => e.1 ∉ r.owned path :=
    Table.removeAll_eq_filter (r.owned path) r.classes
  rw [hClasses] at hEntry
  exact List.mem_map_of_mem (List.mem_of_mem_filter hEntry)

/-- A claim adds the class that is claimed, if any. -/
theorem claim_records {path : Text} {c : ClassRecord} (hc : C c) :
    Action.Keeps (fun r => ∀ d ∈ r.records, C d) (claim path c) := by
  have hPlace : Action.Keeps (fun r => ∀ d ∈ r.records, C d)
      (Action.update fun r => r.place path c : Action Registry IndexFailure Unit) := by
    refine .update fun r hr d hd => ?_
    obtain ⟨entry, hEntry, rfl⟩ := List.mem_map.mp hd
    rcases Table.mem_assign hEntry with hOld | rfl
    · exact hr _ (List.mem_map_of_mem hOld)
    · exact hc
  refine .bind .state fun r => ?_
  split
  · split
    · exact hPlace
    · exact .fail _
  · exact hPlace

/-- A check keeps what all classes have, if the classes that the file defines have it. -/
theorem check_records {fs : FileSystem} {path : Text}
    (h : ∀ bytes cs, fs.read path = .ok bytes → classesOfBytes defineCalls path bytes = .ok cs →
      ∀ c ∈ cs, C c) :
    Action.Keeps (fun r => ∀ c ∈ r.records, C c) (check defineCalls fs path) := by
  intro r hr
  have hRetract : ∀ c ∈ (r.retract path).records, C c := fun c hc =>
    hr c (records_retract_subset r path hc)
  cases hPath : accepts path with
  | false =>
    rw [Holdings.check_of_not_accepts hPath]
    exact hr
  | true =>
    obtain ⟨notices, hCheck⟩ := Holdings.check_apply defineCalls fs hPath r
    rw [hCheck]
    cases hRead : fs.read path with
    | error fault =>
      rw [fileClasses, hRead]
      cases fault <;> exact hRetract
    | ok bytes =>
      rw [fileClasses_of_bytes hRead]
      cases hClasses : classesOfBytes defineCalls path bytes with
      | error cause => exact hRetract
      | ok cs =>
        have hClaims : Action.Keeps (fun r => ∀ c ∈ r.records, C c)
            (Action.forEach (claim path) cs) :=
          .forEach fun c hc => claim_records (h bytes cs hRead hClasses c hc)
        exact hClaims _ hRetract

/-- The registry after files have been checked, each in a file system of its own. -/
def afterChecks (defineCalls : List Text) (checks : List (FileSystem × Text)) : Registry :=
  checks.foldl (fun r call => (check defineCalls call.1 call.2 r).state) {}

/-- What every check keeps holds after any number of checks. -/
theorem afterChecks_keeps {P : Registry → Prop} {checks : List (FileSystem × Text)} (hStart : P {})
    (h : ∀ call ∈ checks, Action.Keeps P (check defineCalls call.1 call.2)) :
    P (afterChecks defineCalls checks) :=
  List.foldlRecOn checks _ hStart fun r hr call hCall => h call hCall r hr

/-- Every class comes from a file that has been checked, and its texts are traced to the literals in
it. -/
theorem traced_afterChecks (defineCalls : List Text) (checks : List (FileSystem × Text)) :
    ∀ c ∈ (afterChecks defineCalls checks).records, ∃ fs bytes, (fs, c.path) ∈ checks ∧
      fs.read c.path = .ok bytes ∧ c.Traced (contents bytes) := by
  refine afterChecks_keeps nofun fun call hCall =>
    check_records fun bytes cs hRead hClasses c hc => ?_
  have hPath : c.path = call.2 := classesOfSource_path hClasses hc
  rw [hPath]
  exact ⟨call.1, bytes, hCall, hRead, traced_classesOfSource hClasses c hc⟩

end Registry

-- ---------------------------------------------------------------------------
-- Tag files
-- ---------------------------------------------------------------------------

namespace TagFile

variable {s : Settings} {cs : List ClassRecord}

/-- The tag file of some classes has the intended lines and fields. -/
structure LaidOut (s : Settings) (cs : List ClassRecord) : Prop where
  /-- Every line has its end, so nothing stands behind the last one. -/
  lines : (s.tagFile cs).splitOn '\n' =
    s.tagHeader ++ (cs.flatMap fun c => c.rows.map TagRow.text) ++ [[]]
  header : s.tagHeader.length = 4
  rows : ∀ c ∈ cs, c.rows.length = 1 + (if c.parent.isSome then 1 else 0) + c.members.length
  fields : ∀ c ∈ cs, ∀ row ∈ c.rows, row.text.splitOn '\t' = row.fields
  breadth : ∀ c ∈ cs, ∀ row ∈ c.rows, 5 ≤ row.fields.length ∧ row.fields.length ≤ 8

/-- A class has a row for itself, one for its parent if it has one, and one for each member. -/
theorem length_rows (c : ClassRecord) :
    c.rows.length = 1 + (if c.parent.isSome then 1 else 0) + c.members.length := by
  have hMembers : c.membersByLine.length = c.members.length := List.length_mergeSort _
  cases hParent : c.parent with
  | none => simp [ClassRecord.rows, hParent, hMembers, Nat.add_comm]
  | some parent =>
    simp [ClassRecord.rows, hParent, hMembers]
    omega

/-- A row has between five and eight fields. -/
theorem length_fields (row : TagRow) : 5 ≤ row.fields.length ∧ row.fields.length ≤ 8 := by
  obtain ⟨name, path, line, kind, scope, access, signature⟩ := row
  cases scope <;> cases access <;> cases signature <;>
    simp [TagRow.fields, TagRow.optionalFields]

/-- **Which tag files are laid out**: those with plain texts. -/
theorem laidOut_iff (hs : PlainHeader s) :
    LaidOut s cs ↔ ∀ c ∈ cs, c.path.Plain ∧ c.Plain := by
  simp only [← ClassRecord.plain_rows_iff]
  constructor
  · intro h c hc row hRow
    have hLine : row.text ∈ lines s cs :=
      List.mem_append_right _ (List.mem_flatMap.mpr ⟨c, hc, List.mem_map_of_mem hRow⟩)
    have hFeeds := TagRow.newline_not_mem_text.mp (Text.splitOn_lines_iff.mp h.lines _ hLine)
    have hTabs := TagRow.splitOn_text_iff.mp (h.fields c hc row hRow)
    exact TagRow.plain_fields_iff.mp fun field hField => ⟨hTabs field hField, hFeeds field hField⟩
  · intro h
    refine ⟨Text.splitOn_lines_iff.mpr (newline_not_mem_lines hs h), rfl, fun c _ => length_rows c,
      fun c hc row hRow => ?_, fun c _ row _ => length_fields row⟩
    rw [TagRow.splitOn_text_iff]
    exact fun field hField => (TagRow.plain_fields_iff.mpr (h c hc row hRow) field hField).1

/-- **The layout of tag files.** After files with any contents have been checked at paths without
tabs and line feeds, the tag file has its four lines of header, a line for every class, for what it
extends and for each member, and on each of these the intended fields, just when no name or
signature has a tab or a line feed. Where one has, a literal in the file of its class is the reason:
the text is the value of a string, or a literal that has a tab or a line feed shows in it. -/
theorem layout_afterChecks {defineCalls : List Text} {checks : List (FileSystem × Text)}
    (hPaths : ∀ call ∈ checks, call.2.Plain) (hs : PlainHeader s) :
    (LaidOut s (Registry.afterChecks defineCalls checks).records ↔
      ∀ c ∈ (Registry.afterChecks defineCalls checks).records, c.Plain) ∧
    ∀ c ∈ (Registry.afterChecks defineCalls checks).records, ∀ x ∈ c.texts, ¬ x.Plain →
      ∃ fs bytes, (fs, c.path) ∈ checks ∧ fs.read c.path = .ok bytes ∧
        (IsStringValue (contents bytes) x ∨ ShowsLiteral (contents bytes) x) := by
  have hTraced := Registry.traced_afterChecks defineCalls checks
  constructor
  · rw [laidOut_iff hs]
    refine forall₂_congr fun c hc => and_iff_right ?_
    obtain ⟨fs, bytes, hCall, -⟩ := hTraced c hc
    exact hPaths _ hCall
  · intro c hc x hx hPlain
    obtain ⟨fs, bytes, hCall, hRead, hTexts⟩ := hTraced c hc
    exact ⟨fs, bytes, hCall, hRead, hTexts.texts x hx hPlain⟩

/-- A file with the given text. -/
def fileOf (text : String) : Entry := .file text.toUTF8.toList

/-- Three source files: one defines a class with a method, one names a class by a string with a tab,
and in one the value of a parameter is a template with a line feed. -/
def unruly : FileSystem where
  root := [
    ("a.js", fileOf "qx.Class.define('A', \x7bmembers: \x7bm: (x = '\\t') => x\x7d\x7d);"),
    ("b.js", fileOf "qx.Class.define('B\\tC', \x7b\x7d);"),
    ("c.js", fileOf "qx.Class.define('C', \x7bmembers: \x7bm: (x = `\n`) => x\x7d\x7d);")]

/-- The first file has a tag file that is laid out, although the string in the signature stands for
a tab. What is not plain in the other files is traced to a literal. -/
theorem layout_afterChecks_of_unruly :
    LaidOut {} (Registry.afterChecks [] [(unruly, "/a.js")]).records ∧
    ∀ c ∈ (Registry.afterChecks [] [(unruly, "/b.js"), (unruly, "/c.js")]).records, ∀ x ∈ c.texts,
      ¬ x.Plain → ∃ fs bytes, (fs, c.path) ∈ [(unruly, "/b.js".toList), (unruly, "/c.js".toList)] ∧
        fs.read c.path = .ok bytes ∧
          (IsStringValue (contents bytes) x ∨ ShowsLiteral (contents bytes) x) := by
  refine ⟨(layout_afterChecks ?_ ?_).1.mpr ?_, (layout_afterChecks ?_ (s := {}) ?_).2⟩
  · exact List.forall_mem_singleton.mpr (by decide)
  · decide
  · decide +kernel
  · exact List.forall_mem_cons.mpr ⟨by decide, List.forall_mem_singleton.mpr (by decide)⟩
  · decide

/-- The name of the second class falls into two fields, and the signature in the third file into two
lines. -/
theorem not_laidOut_of_unruly :
    ¬ LaidOut {} (Registry.afterChecks [] [(unruly, "/b.js")]).records ∧
      ¬ LaidOut {} (Registry.afterChecks [] [(unruly, "/c.js")]).records := by
  constructor
  · exact fun h => absurd h.fields (by decide +kernel)
  · exact fun h => absurd h.lines (by decide +kernel)

end TagFile

end ClassTags
