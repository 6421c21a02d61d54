import ClassTags.Tag
import ClassTags.Proofs.Path

/-!
# Reading tag files

A tag file has one row on a line and one field between two tabs. So the rows can be read back as
long as no text in them has a tab or a line feed of its own; such texts are **plain**. Nothing else
is in the way: names may be empty, begin like the header or like a named field, and end like an
address. The rows after the header form one group for every class, because only the row of the class
itself has the kind of a definition.

Main definitions:

* `Text.Plain`, `TagRow.Plain`, `ClassRecord.Plain` — no tabs and no line feeds;
* `ClassRecord.tagged` — what the rows of a class tell about it;
* `TagFile.decode` — reads the classes back from a tag file.

Main results:

* `TagRow.splitOn_text_iff`, `Text.splitOn_lines_iff` — when fields and lines can be told apart;
* `TagRow.ofText?_text` — a plain row is read back;
* `TagFile.decode_tagFile` — so is every tag file with plain texts.
-/

namespace ClassTags

-- ---------------------------------------------------------------------------
-- Plain texts
-- ---------------------------------------------------------------------------

namespace Text

/-- A text without tabs and line feeds, so that it can stand in a field of a tag file. -/
def Plain (t : Text) : Prop := '\t' ∉ t ∧ '\n' ∉ t

instance : DecidablePred Plain := fun _ => inferInstanceAs (Decidable (_ ∧ _))

@[simp]
theorem plain_nil : Plain [] := ⟨List.not_mem_nil, List.not_mem_nil⟩

/-- A text is plain if its first character is neither a tabulator nor a line break, and the rest is
plain. -/
@[simp]
theorem plain_cons {c : Char} {t : Text} :
    Plain (c :: t) ↔ (c ≠ '\t' ∧ c ≠ '\n') ∧ Plain t := by
  simp only [Plain, List.mem_cons, not_or, ne_comm (a := c)]
  tauto

@[simp]
theorem plain_append {a b : Text} : Plain (a ++ b) ↔ Plain a ∧ Plain b := by
  simp only [Plain, List.mem_append, not_or]
  tauto

@[simp]
theorem plain_decimal (n : Nat) : Plain (decimal n) := by
  have hDigit : ∀ c ∈ decimal n, c.isDigit = true := fun c hc =>
    Nat.isDigit_of_mem_toDigits (by decide) (by decide) hc
  exact ⟨fun h => absurd (hDigit _ h) (by decide), fun h => absurd (hDigit _ h) (by decide)⟩

/-- Pieces can be told apart just when they do not have the separator in them. -/
theorem splitOn_joinWith_iff {sep : Char} {pieces : List Text} (hPieces : pieces ≠ []) :
    (joinWith [sep] pieces).splitOn sep = pieces ↔ ∀ piece ∈ pieces, sep ∉ piece := by
  constructor
  · intro h piece hPiece
    rw [← h] at hPiece
    exact Path.not_mem_of_mem_splitOn hPiece
  · exact fun h => List.splitOn_intercalate sep h hPieces

/-- A character that does not separate is in no joined text just when it is in no piece. -/
theorem not_mem_joinWith_iff {c : Char} {sep : Text} {pieces : List Text} (hSep : c ∉ sep) :
    c ∉ joinWith sep pieces ↔ ∀ piece ∈ pieces, c ∉ piece := by
  induction pieces with
  | nil => simp [joinWith]
  | cons piece pieces ih =>
    cases pieces with
    | nil => simp [joinWith]
    | cons next pieces =>
      rw [joinWith, List.intercalate_cons_cons, List.forall_mem_cons, ← ih]
      simp [hSep, joinWith]

/-- Lines, each with its end, are pieces with line feeds between them and nothing after the last. -/
theorem flatMap_lines (lines : List Text) :
    lines.flatMap (· ++ ['\n']) = joinWith ['\n'] (lines ++ [[]]) := by
  induction lines with
  | nil => rfl
  | cons line lines ih =>
    rw [List.flatMap_cons, ih, List.cons_append, joinWith, joinWith,
      List.intercalate_cons_of_ne_nil (by simp), List.append_assoc]

/-- Lines can be told apart just when they have no line feeds in them. -/
theorem splitOn_lines_iff {lines : List Text} :
    (lines.flatMap (· ++ ['\n'])).splitOn '\n' = lines ++ [[]] ↔ ∀ line ∈ lines, '\n' ∉ line := by
  rw [flatMap_lines, splitOn_joinWith_iff (by simp)]
  simp [or_imp, forall_and]

end Text

-- ---------------------------------------------------------------------------
-- Rows
-- ---------------------------------------------------------------------------

/-- The kind that a letter stands for. -/
def MemberKind.ofCode? (c : Char) : Option MemberKind :=
  [definition, parent, mixin, interface, method, property, static, event].find? (·.code == c)

/-- A kind is read back from its code. -/
theorem MemberKind.ofCode?_code (kind : MemberKind) : ofCode? kind.code = some kind := by
  cases kind <;> rfl

/-- The access that a word stands for. -/
def Access.ofWord? (word : Text) : Option Access :=
  [publicAccess, privateAccess, protectedAccess].find? (·.name == word)

/-- An access is read back from its name. -/
theorem Access.ofWord?_name (a : Access) : ofWord? a.name = some a := by
  cases a <;> rfl

namespace TagRow

/-- A row whose texts are plain. -/
structure Plain (row : TagRow) : Prop where
  name : row.name.Plain
  path : row.path.Plain
  scope : ∀ t ∈ row.scope, t.Plain
  signature : ∀ t ∈ row.signature, t.Plain

theorem plain_access (a : Access) : a.name.Plain := by
  cases a <;> decide

/-- The optional fields are plain if the scope and the signature are. -/
theorem plain_optionalFields (row : TagRow) :
    (∀ field ∈ row.optionalFields, field.Plain) ↔
      (∀ t ∈ row.scope, t.Plain) ∧ ∀ t ∈ row.signature, t.Plain := by
  simp [optionalFields, namedField, or_imp, forall_and, plain_access]

/-- The fields of a row are plain just when its texts are. -/
theorem plain_fields_iff {row : TagRow} :
    (∀ field ∈ row.fields, field.Plain) ↔ row.Plain := by
  have hCode : Text.Plain [row.kind.code] := by
    cases row.kind <;> decide
  rw [fields, List.forall_mem_cons, List.forall_mem_cons, List.forall_mem_cons,
    List.forall_mem_cons, List.forall_mem_cons, plain_optionalFields]
  simp only [hCode, namedField, Text.plain_append, Text.plain_decimal]
  constructor
  · exact fun h => ⟨h.1, h.2.1, h.2.2.2.2.2.1, h.2.2.2.2.2.2⟩
  · exact fun h => ⟨h.name, h.path, by decide, trivial, by decide, h.scope, h.signature⟩

/-- The fields of a row can be told apart just when they have no tabs in them. -/
theorem splitOn_text_iff {row : TagRow} :
    row.text.splitOn '\t' = row.fields ↔ ∀ field ∈ row.fields, '\t' ∉ field :=
  Text.splitOn_joinWith_iff (by simp [fields])

/-- A row has no line feeds just when its fields have none. -/
theorem newline_not_mem_text {row : TagRow} :
    '\n' ∉ row.text ↔ ∀ field ∈ row.fields, '\n' ∉ field := by
  exact Text.not_mem_joinWith_iff (by decide)

-- Reading a row. A named field is found by its name, so it does not matter which of them are there.

/-- The value of a field with the given name. -/
def valueOf? (name field : Text) : Option Text := (name ++ ":").isPrefixOf? field

/-- The row with the given fields. -/
def ofFields? : List Text → Option TagRow
  | name :: path :: _ :: [code] :: line :: options => do
    let kind ← MemberKind.ofCode? code
    let digits ← valueOf? "line" line
    pure {
      name, path, kind
      line := Nat.ofDigitChars 10 digits 0
      scope := options.findSome? (valueOf? "ctype")
      access := (options.findSome? (valueOf? "access")).bind Access.ofWord?
      signature := options.findSome? (valueOf? "signature") }
  | _ => none

/-- The row that a line shows. -/
def ofText? (line : Text) : Option TagRow := ofFields? (line.splitOn '\t')

/-- A named field is read back by its name. -/
theorem valueOf?_namedField (name value : Text) :
    valueOf? name (namedField name value) = some value := by
  unfold valueOf? namedField
  generalize name ++ ":" = front
  induction front with
  | nil => rfl
  | cons c front ih => simp [List.isPrefixOf?, ih]

/-- The named fields have different names, and each of them is found by its own. -/
theorem findSome?_optionalFields (row : TagRow) :
    row.optionalFields.findSome? (valueOf? "ctype") = row.scope ∧
      row.optionalFields.findSome? (valueOf? "access") = row.access.map Access.name ∧
      row.optionalFields.findSome? (valueOf? "signature") = row.signature := by
  obtain ⟨name, path, line, kind, scope, access, signature⟩ := row
  cases scope <;> cases access <;> cases signature <;>
    simp [optionalFields, valueOf?, namedField, List.isPrefixOf?]

/-- **A row is read back from its fields**, whichever of them are there. -/
theorem ofFields?_fields (row : TagRow) : ofFields? row.fields = some row := by
  obtain ⟨hScope, hAccess, hSignature⟩ := findSome?_optionalFields row
  have hWord : (row.access.map Access.name).bind Access.ofWord? = row.access := by
    cases row.access with
    | none => rfl
    | some a => exact Access.ofWord?_name a
  have hLine : Nat.ofDigitChars 10 (Text.decimal row.line) 0 = row.line :=
    Nat.ofDigitChars_ten_toDigits
  simp only [fields, ofFields?, hScope, hAccess, hSignature, hWord, MemberKind.ofCode?_code,
    valueOf?_namedField, Option.bind_eq_bind, Option.bind_some, hLine]
  rfl

/-- **A plain row is read back.** -/
theorem ofText?_text {row : TagRow} (h : row.Plain) : ofText? row.text = some row := by
  have hTabs : ∀ field ∈ row.fields, '\t' ∉ field := fun field hField =>
    (plain_fields_iff.mpr h field hField).1
  rw [ofText?, splitOn_text_iff.mpr hTabs, ofFields?_fields]

end TagRow

-- ---------------------------------------------------------------------------
-- Classes
-- ---------------------------------------------------------------------------

namespace ClassRecord

/-- The texts that the rows of a class take from the source of the class. -/
def texts (r : ClassRecord) : List Text :=
  r.name :: ((r.parent.map MemberEntry.name).toList ++
    r.members.flatMap fun member => member.2.name :: member.2.signature.toList)

/-- A class whose texts are plain. -/
def Plain (r : ClassRecord) : Prop := ∀ t ∈ r.texts, t.Plain

instance : DecidablePred Plain := fun r => inferInstanceAs (Decidable (∀ t ∈ r.texts, t.Plain))

/-- The texts of a class: its name, that of its parent, and the names and signatures of its
members. -/
theorem mem_texts {r : ClassRecord} {t : Text} :
    t ∈ r.texts ↔ t = r.name ∨ (∃ parent, r.parent = some parent ∧ t = parent.name) ∨
      ∃ member ∈ r.members, t = member.2.name ∨ member.2.signature = some t := by
  simp only [texts, List.mem_cons, List.mem_append, Option.mem_toList, Option.map_eq_some_iff,
    List.mem_flatMap, eq_comm (a := t)]

/-- The rows of a class: its definition, its parent, and its members. -/
theorem mem_rows {r : ClassRecord} {row : TagRow} :
    row ∈ r.rows ↔ row = r.definitionRow ∨
      (∃ parent, r.parent = some parent ∧ row = r.parentRow parent) ∨
      ∃ member ∈ r.members, row = r.memberRow member := by
  simp only [rows, membersByLine, List.mem_cons, List.mem_append, Option.mem_toList,
    Option.map_eq_some_iff, List.mem_map, List.mem_mergeSort, eq_comm (a := row)]

/-- The rows of a class are plain just when its path and its texts are. -/
theorem plain_rows_iff {r : ClassRecord} :
    (∀ row ∈ r.rows, row.Plain) ↔ r.path.Plain ∧ r.Plain := by
  constructor
  · intro h
    have hDefinition := h _ (mem_rows.mpr (.inl rfl))
    refine ⟨hDefinition.path, fun t ht => ?_⟩
    rcases mem_texts.mp ht with rfl | ⟨parent, hParent, rfl⟩ | ⟨member, hMember, rfl | hSignature⟩
    · exact hDefinition.name
    · exact (h _ (mem_rows.mpr (.inr (.inl ⟨parent, hParent, rfl⟩)))).name
    · exact (h _ (mem_rows.mpr (.inr (.inr ⟨member, hMember, rfl⟩)))).name
    · exact (h _ (mem_rows.mpr (.inr (.inr ⟨member, hMember, rfl⟩)))).signature t hSignature
  · rintro ⟨hPath, hTexts⟩ row hRow
    have hName : r.name.Plain := hTexts _ (mem_texts.mpr (.inl rfl))
    have hScope : ∀ t ∈ some r.name, t.Plain := fun t ht => Option.some.inj ht ▸ hName
    rcases mem_rows.mp hRow with rfl | ⟨parent, hParent, rfl⟩ | ⟨member, hMember, rfl⟩
    · exact ⟨hName, hPath, nofun, nofun⟩
    · exact ⟨hTexts _ (mem_texts.mpr (.inr (.inl ⟨parent, hParent, rfl⟩))), hPath, hScope, nofun⟩
    · exact ⟨hTexts _ (mem_texts.mpr (.inr (.inr ⟨member, hMember, .inl rfl⟩))), hPath, hScope,
        fun t ht => hTexts t (mem_texts.mpr (.inr (.inr ⟨member, hMember, .inr ht⟩)))⟩

end ClassRecord

/-- What a row tells about a member of a class. -/
structure TaggedMember where
  kind : MemberKind
  name : Text
  line : Nat
  access : Access
  signature : Option Text
deriving DecidableEq, Repr

/-- What the rows of a class tell about it. -/
structure TaggedClass where
  name : Text
  path : Text
  line : Nat
  /-- The name of the class that it extends, and the line on which that stands. -/
  parent : Option (Text × Nat)
  members : List TaggedMember
deriving DecidableEq, Repr

/-- What a tag file keeps of a class. Its members come in the order of their lines. -/
def ClassRecord.tagged (r : ClassRecord) : TaggedClass where
  name := r.name
  path := r.path
  line := r.line
  parent := r.parent.map fun parent => (parent.name, parent.line)
  members := r.membersByLine.map fun member =>
    { kind := member.1, name := member.2.name, line := member.2.line,
      access := .ofName member.2.name, signature := member.2.signature }

namespace TaggedClass

/-- The row of the class itself. -/
def definitionRow (c : TaggedClass) : TagRow :=
  { name := c.name, path := c.path, line := c.line, kind := .definition }

/-- The rows of what belongs to a class. -/
def otherRows (c : TaggedClass) : List TagRow :=
  (c.parent.map fun parent =>
      { name := parent.1, path := c.path, line := parent.2, kind := .parent,
        scope := some c.name : TagRow }).toList ++
    c.members.map fun member =>
      { name := member.name, path := c.path, line := member.line, kind := member.kind,
        scope := some c.name, access := some member.access, signature := member.signature }

/-- The member that a row is about. -/
def memberOf? (row : TagRow) : Option TaggedMember :=
  if row.kind = .parent then none
  else row.access.map fun access =>
    { kind := row.kind, name := row.name, line := row.line, access, signature := row.signature }

/-- The class with the given rows. -/
def ofRows (definition : TagRow) (others : List TagRow) : TaggedClass where
  name := definition.name
  path := definition.path
  line := definition.line
  parent := (others.find? (·.kind = .parent)).map fun row => (row.name, row.line)
  members := others.filterMap memberOf?

/-- The classes of some rows. Each begins with its definition and goes on up to the next one. -/
def group : List TagRow → List TaggedClass
  | [] => []
  | row :: rows =>
    if row.kind = .definition then
      ofRows row (rows.takeWhile (·.kind ≠ .definition)) :: group rows
    else group rows

/-- The rows of a class. -/
def rows (c : TaggedClass) : List TagRow := c.definitionRow :: c.otherRows

/-- A class whose members are of kinds that members can have. -/
def Listed (c : TaggedClass) : Prop := ∀ member ∈ c.members, member.kind ∈ ClassRecord.listedKinds

/-- Of the rows of a class only the first one is a definition. -/
theorem kind_otherRows {c : TaggedClass} (hc : c.Listed) {row : TagRow} (hRow : row ∈ c.otherRows) :
    row.kind ≠ .definition := by
  rcases List.mem_append.mp hRow with hParent | hMember
  · obtain ⟨parent, -, rfl⟩ := Option.map_eq_some_iff.mp (Option.mem_toList.mp hParent)
    exact nofun
  · obtain ⟨member, hListed, rfl⟩ := List.mem_map.mp hMember
    intro hKind
    replace hListed := hc member hListed
    rw [show member.kind = .definition from hKind] at hListed
    exact absurd hListed (by decide)

/-- The rows of a class give the class back. -/
theorem ofRows_otherRows {c : TaggedClass} (hc : c.Listed) :
    ofRows c.definitionRow c.otherRows = c := by
  have hKind : ∀ member ∈ c.members, member.kind ≠ .parent := by
    intro member hMember hParent
    have hListed := hc member hMember
    rw [hParent] at hListed
    exact absurd hListed (by decide)
  have hParent : (c.otherRows.find? (·.kind = .parent)).map (fun row => (row.name, row.line)) =
      c.parent := by
    unfold otherRows
    cases c.parent with
    | some parent => rfl
    | none => simpa [List.find?_map] using hKind
  have hMembers : c.otherRows.filterMap memberOf? = c.members := by
    unfold otherRows
    rw [List.filterMap_append, List.filterMap_map]
    have hEach : ∀ member ∈ c.members, (memberOf? ∘ fun member : TaggedMember =>
        { name := member.name, path := c.path, line := member.line, kind := member.kind,
          scope := some c.name, access := some member.access,
          signature := member.signature : TagRow }) member = some member := by
      intro member hMember
      simp [memberOf?, hKind member hMember]
    rw [List.filterMap_congr hEach, List.filterMap_some]
    cases c.parent <;> rfl
  unfold ofRows
  rw [hParent, hMembers]
  rfl

/-- Rows before the first definition belong to no class. -/
theorem group_append {rows rest : List TagRow} (h : ∀ row ∈ rows, row.kind ≠ .definition) :
    group (rows ++ rest) = group rest := by
  induction rows with
  | nil => rfl
  | cons row rows ih =>
    rw [List.forall_mem_cons] at h
    rw [List.cons_append, group, if_neg h.1, ih h.2]

/-- **Grouping the rows of some classes gives the classes back.** -/
theorem group_rows {cs : List TaggedClass} (hcs : ∀ c ∈ cs, c.Listed) :
    group (cs.flatMap rows) = cs := by
  induction cs with
  | nil => rfl
  | cons c cs ih =>
    rw [List.forall_mem_cons] at hcs
    obtain ⟨hc, hcs⟩ := hcs
    -- the next row is that of the next class, if there is one
    have hNext : (cs.flatMap rows).takeWhile (·.kind ≠ .definition) = [] := by
      cases cs with
      | nil => rfl
      | cons d ds => rfl
    have hOthers : (c.otherRows ++ cs.flatMap rows).takeWhile (·.kind ≠ .definition) =
        c.otherRows := by
      rw [List.takeWhile_append_of_pos fun row hRow => by simpa using kind_otherRows hc hRow, hNext,
        List.append_nil]
    have hKind : c.definitionRow.kind = .definition := rfl
    rw [List.flatMap_cons, rows, List.cons_append, group, if_pos hKind, hOthers, ofRows_otherRows hc,
      group_append fun row hRow => kind_otherRows hc hRow, ih hcs]

end TaggedClass

namespace ClassRecord

/-- The rows of a class say what is tagged of it. -/
theorem rows_eq (r : ClassRecord) : r.rows = r.tagged.rows := by
  simp only [rows, TaggedClass.rows, TaggedClass.otherRows, tagged, Option.map_map, List.map_map]
  rfl

theorem flatMap_rows (cs : List ClassRecord) :
    cs.flatMap rows = (cs.map tagged).flatMap TaggedClass.rows := by
  rw [List.flatMap_map]
  exact List.flatMap_congr fun r _ => r.rows_eq

/-- What is tagged for a class is listed in the order of its rows. -/
theorem listed_tagged (r : ClassRecord) : r.tagged.Listed := by
  intro member hMember
  obtain ⟨pair, hPair, rfl⟩ := List.mem_map.mp hMember
  obtain ⟨kind, hKind, hOfKind⟩ := List.mem_flatMap.mp (List.mem_mergeSort.mp hPair)
  obtain ⟨entry, -, rfl⟩ := List.mem_map.mp hOfKind
  exact hKind

end ClassRecord

-- ---------------------------------------------------------------------------
-- Files
-- ---------------------------------------------------------------------------

namespace TagFile

/-- The lines of a tag file without its header. -/
def body (t : Text) : List Text := (t.splitOn '\n').dropLast.drop 4

/-- The classes that a tag file shows. -/
def decode (t : Text) : Option (List TaggedClass) :=
  ((body t).mapM TagRow.ofText?).map TaggedClass.group

/-- The lines of the tag file of some classes. -/
def lines (s : Settings) (cs : List ClassRecord) : List Text :=
  s.tagHeader ++ cs.flatMap fun r => r.rows.map TagRow.text

/-- Settings whose texts in the header are plain. -/
def PlainHeader (s : Settings) : Prop := s.programName.Plain ∧ s.programVersion.Plain

instance : DecidablePred PlainHeader := fun _ => inferInstanceAs (Decidable (_ ∧ _))

variable {s s' : Settings} {cs cs' : List ClassRecord}

theorem tagFile_eq (s : Settings) (cs : List ClassRecord) :
    s.tagFile cs = (lines s cs).flatMap (· ++ ['\n']) := rfl

/-- The lines depend only on what is tagged of the classes. -/
theorem lines_eq (s : Settings) (cs : List ClassRecord) :
    lines s cs = s.tagHeader ++ ((cs.map ClassRecord.tagged).flatMap TaggedClass.rows).map
      TagRow.text := by
  rw [lines, ← ClassRecord.flatMap_rows, List.map_flatMap]

/-- The header has no line break within a line. -/
theorem newline_not_mem_header (hs : PlainHeader s) : ∀ line ∈ s.tagHeader, '\n' ∉ line := by
  have hName := hs.1.2
  have hVersion := hs.2.2
  simp [Settings.tagHeader, hName, hVersion]

/-- No line of a tag file has a line break in it. -/
theorem newline_not_mem_lines (hs : PlainHeader s) (hcs : ∀ c ∈ cs, ∀ row ∈ c.rows, row.Plain) :
    ∀ line ∈ lines s cs, '\n' ∉ line := by
  intro line hLine
  rcases List.mem_append.mp hLine with hHeader | hRow
  · exact newline_not_mem_header hs line hHeader
  · obtain ⟨c, hc, hText⟩ := List.mem_flatMap.mp hRow
    obtain ⟨row, hOwn, rfl⟩ := List.mem_map.mp hText
    rw [TagRow.newline_not_mem_text]
    exact fun field hField => (TagRow.plain_fields_iff.mpr (hcs c hc row hOwn) field hField).2

/-- The rows of a tag file can be read line by line. -/
theorem body_tagFile (hs : PlainHeader s) (hcs : ∀ c ∈ cs, ∀ row ∈ c.rows, row.Plain) :
    body (s.tagFile cs) = (cs.flatMap ClassRecord.rows).map TagRow.text := by
  rw [body, tagFile_eq, Text.splitOn_lines_iff.mpr (newline_not_mem_lines hs hcs),
    List.dropLast_concat, List.map_flatMap]
  exact List.drop_left' rfl

/-- Plain rows are read back from their lines. -/
theorem mapM_ofText? {rows : List TagRow} (h : ∀ row ∈ rows, row.Plain) :
    (rows.map TagRow.text).mapM TagRow.ofText? = some rows := by
  induction rows with
  | nil => rfl
  | cons row rows ih =>
    rw [List.forall_mem_cons] at h
    rw [List.map_cons, List.mapM_cons, TagRow.ofText?_text h.1, ih h.2]
    rfl

/-- **A tag file is read back** as what was tagged. -/
theorem decode_eq (hs : PlainHeader s) (hcs : ∀ c ∈ cs, ∀ row ∈ c.rows, row.Plain) :
    decode (s.tagFile cs) = some (cs.map ClassRecord.tagged) := by
  have hRows : ∀ row ∈ cs.flatMap ClassRecord.rows, row.Plain := by
    intro row hRow
    obtain ⟨c, hc, hOwn⟩ := List.mem_flatMap.mp hRow
    exact hcs c hc row hOwn
  have hGroup : TaggedClass.group (cs.flatMap ClassRecord.rows) = cs.map ClassRecord.tagged := by
    have hListed : ∀ c ∈ cs.map ClassRecord.tagged, c.Listed := by
      rw [List.forall_mem_map]
      exact fun r _ => r.listed_tagged
    rw [ClassRecord.flatMap_rows, TaggedClass.group_rows hListed]
  rw [decode, body_tagFile hs hcs, mapM_ofText? hRows, Option.map_some, hGroup]

/-- The header of a tag file is that of its settings. -/
theorem header_eq (hs : PlainHeader s) (hs' : PlainHeader s')
    (hcs : ∀ c ∈ cs, ∀ row ∈ c.rows, row.Plain) (hcs' : ∀ c ∈ cs', ∀ row ∈ c.rows, row.Plain)
    (h : s.tagFile cs = s'.tagFile cs') :
    s.programName = s'.programName ∧ s.programVersion = s'.programVersion := by
  have hLines : lines s cs ++ [[]] = lines s' cs' ++ [[]] := by
    rw [← Text.splitOn_lines_iff.mpr (newline_not_mem_lines hs hcs),
      ← Text.splitOn_lines_iff.mpr (newline_not_mem_lines hs' hcs')]
    exact congrArg _ h
  have hHeader : s.tagHeader = s'.tagHeader :=
    (List.append_inj (List.append_cancel_right hLines) rfl).1
  simpa [Settings.tagHeader] using hHeader

/-- **Tag files can be decoded.** From the tag file of any classes whose paths, names and signatures
have no tabs and no line feeds, `decode` reads back every class in its place: its name, path and
line, the name and line of the class it extends, and its members with their kinds, names, lines,
accesses and signatures. So two such tag files are equal just when they tell the same, under the
same header. -/
theorem decode_tagFile (hs : PlainHeader s) (hcs : ∀ c ∈ cs, c.path.Plain ∧ c.Plain) :
    decode (s.tagFile cs) = some (cs.map ClassRecord.tagged) ∧
    ∀ {s' : Settings} {cs' : List ClassRecord}, PlainHeader s' →
      (∀ c ∈ cs', c.path.Plain ∧ c.Plain) →
      (s.tagFile cs = s'.tagFile cs' ↔ s.programName = s'.programName ∧
        s.programVersion = s'.programVersion ∧
          cs.map ClassRecord.tagged = cs'.map ClassRecord.tagged) := by
  simp only [← ClassRecord.plain_rows_iff] at hcs ⊢
  refine ⟨decode_eq hs hcs, fun {s' cs'} hs' hcs' => ⟨fun h => ?_, ?_⟩⟩
  · obtain ⟨hName, hVersion⟩ := header_eq hs hs' hcs hcs' h
    have hClasses : some (cs.map ClassRecord.tagged) = some (cs'.map ClassRecord.tagged) := by
      rw [← decode_eq hs hcs, ← decode_eq hs' hcs', h]
    exact ⟨hName, hVersion, Option.some.inj hClasses⟩
  · rintro ⟨hName, hVersion, hClasses⟩
    rw [tagFile_eq, tagFile_eq, lines_eq, lines_eq, hClasses, Settings.tagHeader,
      Settings.tagHeader, hName, hVersion]

/-- A class whose names look like parts of a tag file. Its parent has no name, and its method, on
one line with an event, has an empty signature. -/
def disguised : ClassRecord where
  path := "/r/ctype:a.js"
  name := "!_TAG_FILE_FORMAT;\""
  body := .object ⟨1, []⟩ []
  parent := some { name := [], node := .expression ⟨2, []⟩ "null" }
  mixins := [{ name := "3;\"", node := .expression ⟨7, []⟩ "null" }]
  methods := [{ name := "access:public", node := .function ⟨4, []⟩ [], signature := some [] }]
  events := [{ name := "__signature:", node := .expression ⟨4, []⟩ "null" }]

/-- The same class with a method that has no signature. -/
def unsigned : ClassRecord :=
  { disguised with
    methods := [{ name := "access:public", node := .function ⟨4, []⟩ [] }] }

/-- Both classes are read back from one file, and each has a tag file of its own. -/
theorem decode_tagFile_disguised :
    decode (Settings.tagFile {} [disguised, unsigned]) = some [disguised.tagged, unsigned.tagged] ∧
      Settings.tagFile {} [disguised] ≠ Settings.tagFile {} [unsigned] := by
  have hHeader : PlainHeader {} := by decide
  have hBoth : ∀ c ∈ [disguised, unsigned], c.path.Plain ∧ c.Plain := by decide
  have hFirst : ∀ c ∈ [disguised], c.path.Plain ∧ c.Plain := by decide
  have hSecond : ∀ c ∈ [unsigned], c.path.Plain ∧ c.Plain := by decide
  refine ⟨(decode_tagFile hHeader hBoth).1, fun h => ?_⟩
  have hTagged := (((decode_tagFile hHeader hFirst).2 hHeader hSecond).mp h).2.2
  rw [List.map_singleton, List.map_singleton, List.singleton_inj] at hTagged
  -- only the first class has a member with an empty signature
  have hSigned : ∀ r : ClassRecord, (∃ m ∈ r.tagged.members, m.signature = some []) ↔
      ∃ member ∈ r.members, member.2.signature = some [] := by
    intro r
    simp [ClassRecord.tagged, ClassRecord.membersByLine]
  have hFirstSigned := (hSigned disguised).mpr (by decide)
  rw [hTagged] at hFirstSigned
  exact absurd ((hSigned unsigned).mp hFirstSigned) (by decide)

end TagFile

end ClassTags
