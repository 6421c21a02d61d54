import ClassTags.ClassRecord.Extraction
import ClassTags.Text.UpperCase

/-!
# Settings

What a user can choose. Settings come from named fields, whose values are checked, or from variables
of the environment.
-/

namespace ClassTags

/-- What a user can choose. -/
structure Settings where
  /-- The calls that define classes. -/
  defineCalls : List Text := defaultDefineCalls
  /-- How the names of source files end. -/
  sourceExtension : Text := ".js"
  /-- The names of directories that are not searched. -/
  ignoredDirs : List Text := []
  programName : Text := "qxtags"
  programVersion : Text := "0.1"
  /-- The name of the least level at which notices are shown. -/
  logLevel : Text := "WARNING"
deriving DecidableEq, Repr

/-- The value given for a field. -/
inductive FieldValue where
  | text (t : Text)
  | list (items : List FieldValue)
  | other

/-- What a field should have been. -/
inductive Expected where
  | text
  | list
deriving DecidableEq, Repr

/-- A field, or an item of it, that has the wrong form. -/
structure FieldError where
  field : Text
  item : Option Nat := none
  expected : Expected
deriving DecidableEq, Repr

namespace FieldValue

/-- A field that has to be a text. -/
def asText (field : Text) : FieldValue → Except (List FieldError) Text
  | text t => .ok t
  | _ => .error [{ field, expected := .text }]

/-- The faulty items of a list of texts; the first item has the number `n`. -/
def itemErrors (field : Text) : Nat → List FieldValue → List FieldError
  | _, [] => []
  | n, text _ :: items => itemErrors field (n + 1) items
  | n, _ :: items => { field, item := some n, expected := .text } :: itemErrors field (n + 1) items

/-- The texts among some values. -/
def texts (items : List FieldValue) : List Text :=
  items.filterMap fun
    | text t => some t
    | _ => none

/-- A field that has to be a list of texts. -/
def asTexts (field : Text) : FieldValue → Except (List FieldError) (List Text)
  | list items =>
    match itemErrors field 0 items with
    | [] => .ok (texts items)
    | errors => .error errors
  | _ => .error [{ field, expected := .list }]

end FieldValue

/-- Fields of settings with their values. -/
abbrev Fields := List (Text × FieldValue)

/-- The value of a field, or what stands for it if it is not given. -/
def Fields.value {α : Type} (fields : Fields) (name : Text)
    (read : Text → FieldValue → Except (List FieldError) α) (default : α) :
    Except (List FieldError) α :=
  match fields.lookup name with
  | some v => read name v
  | none => .ok default

/-- The faults of a field. -/
def faults {α : Type} : Except (List FieldError) α → List FieldError
  | .ok _ => []
  | .error errors => errors

namespace Settings

/-- The settings with the given fields, or all that is wrong with them, in the order of the field
names and then of the items. Other fields are ignored. -/
def ofFields (fields : Fields) : Except (List FieldError) Settings :=
  let base : Settings := {}
  let defineCalls := fields.value "define_calls" FieldValue.asTexts base.defineCalls
  let ignoredDirs := fields.value "ignored_dirs" FieldValue.asTexts base.ignoredDirs
  let logLevel := fields.value "log_level" FieldValue.asText base.logLevel
  let programName := fields.value "program_name" FieldValue.asText base.programName
  let programVersion := fields.value "program_version" FieldValue.asText base.programVersion
  let sourceExtension := fields.value "source_extension" FieldValue.asText base.sourceExtension
  match defineCalls, ignoredDirs, logLevel, programName, programVersion, sourceExtension with
  | .ok defineCalls, .ok ignoredDirs, .ok logLevel, .ok programName, .ok programVersion,
    .ok sourceExtension =>
    .ok { defineCalls, sourceExtension, ignoredDirs, programName, programVersion, logLevel }
  | _, _, _, _, _, _ =>
    .error (faults defineCalls ++ faults ignoredDirs ++ faults logLevel ++ faults programName ++
      faults programVersion ++ faults sourceExtension)

/-- The settings that variables of the environment make. Lists are separated by commas. -/
def ofEnvironment (lookUp : Text → Option Text) : Settings :=
  let base : Settings := {}
  let listed (name : Text) : List Text := ((lookUp name).map (Text.listItems ',')).getD []
  let defineCalls := listed "QXTAGS_DEFINE_CALLS"
  { defineCalls := if defineCalls.isEmpty then base.defineCalls else defineCalls
    sourceExtension := (lookUp "QXTAGS_SOURCE_EXTENSION").getD base.sourceExtension
    ignoredDirs := listed "QXTAGS_IGNORED_DIRS"
    logLevel := Text.upper ((lookUp "QXTAGS_LOG_LEVEL").getD base.logLevel) }

end Settings

end ClassTags
