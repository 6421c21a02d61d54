import ClassTags.ClassRecord.Basic
import ClassTags.Settings

/-!
# Tag files

A tag file has a header of four lines and one row for every class, for the class it extends, and for
its members. The fields of a row are separated by tabs.
-/

namespace ClassTags

/-- Who may use a member, as its name tells. -/
inductive Access where
  | publicAccess
  | privateAccess
  | protectedAccess
deriving DecidableEq, Repr

namespace Access

/-- The word for an access. -/
def name : Access → Text
  | publicAccess => "public"
  | privateAccess => "private"
  | protectedAccess => "protected"

/-- Names that begin with two underscores are protected, those with one are private. -/
def ofName : Text → Access
  | '_' :: '_' :: _ => protectedAccess
  | '_' :: _ => privateAccess
  | _ => publicAccess

end Access

/-- A row of a tag file. -/
structure TagRow where
  name : Text
  path : Text
  line : Nat
  kind : MemberKind
  /-- The class that what is tagged belongs to. -/
  scope : Option Text := none
  access : Option Access := none
  signature : Option Text := none
deriving DecidableEq, Repr

namespace TagRow

/-- A field that begins with its name. -/
def namedField (name value : Text) : Text := name ++ ":" ++ value

/-- The fields that not every row has. -/
def optionalFields (row : TagRow) : List Text :=
  (row.scope.map (namedField "ctype")).toList ++
    (row.access.map fun a => namedField "access" a.name).toList ++
    (row.signature.map (namedField "signature")).toList

/-- The fields of a row. -/
def fields (row : TagRow) : List Text :=
  row.name :: row.path :: (Text.decimal row.line ++ ";\"") :: [row.kind.code] ::
    namedField "line" (Text.decimal row.line) :: row.optionalFields

/-- A row as text, without a line end. -/
def text (row : TagRow) : Text := Text.joinWith ['\t'] row.fields

end TagRow

namespace ClassRecord

/-- The members of a class with their kinds by line. Members on one line keep the order of their
kinds. -/
def membersByLine (r : ClassRecord) : List (MemberKind × MemberEntry) :=
  r.members.mergeSort fun a b => a.2.line ≤ b.2.line

/-- The row of a class itself. -/
def definitionRow (r : ClassRecord) : TagRow :=
  { name := r.name, path := r.path, line := r.line, kind := .definition }

/-- The row of the class that a class extends. -/
def parentRow (r : ClassRecord) (parent : MemberEntry) : TagRow :=
  { name := parent.name, path := r.path, line := parent.line, kind := .parent,
    scope := some r.name }

/-- The row of a member. -/
def memberRow (r : ClassRecord) (member : MemberKind × MemberEntry) : TagRow :=
  { name := member.2.name, path := r.path, line := member.2.line, kind := member.1,
    scope := some r.name, access := some (.ofName member.2.name),
    signature := member.2.signature }

/-- All rows of a class. -/
def rows (r : ClassRecord) : List TagRow :=
  r.definitionRow :: ((r.parent.map r.parentRow).toList ++ r.membersByLine.map r.memberRow)

end ClassRecord

/-- The lines at the head of a tag file. -/
def Settings.tagHeader (s : Settings) : List Text :=
  ["!_TAG_FILE_FORMAT\t2",
    "!_TAG_FILE_SORTED\t1\t/0=unsorted, 1=sorted/",
    "!_TAG_PROGRAM_NAME\t" ++ s.programName,
    "!_TAG_PROGRAM_VERSION\t" ++ s.programVersion]

/-- The tag file of some classes. -/
def Settings.tagFile (s : Settings) (classes : List ClassRecord) : Text :=
  (s.tagHeader ++ classes.flatMap fun r => r.rows.map TagRow.text).flatMap (· ++ "\n")

end ClassTags
