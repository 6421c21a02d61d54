import ClassTags.Path
import ClassTags.Table
import ClassTags.Text.Quoted

/-!
# File systems

A file system is a tree of entries together with marks on paths that deny access. A denied file
cannot be read; a denied directory can be neither listed nor passed.

What can be read need not be a regular file: devices, pipes and links to them open as well. And what
is listed need not be there for those who ask: a link may lead nowhere, or to where they may not
look.

Main definitions:

* `FileSystem.resolve` — the entry at a path, component by component;
* `FileSystem.list`, `FileSystem.kind`, `FileSystem.read` — what can be asked about a path.
-/

namespace ClassTags

/-- What a directory holds under a name. -/
inductive Entry where
  | file (bytes : List UInt8)
  | directory (entries : List (Text × Entry))
  /-- Opens like a file and is no regular one: a device, or a link to it. -/
  | device (bytes : List UInt8)
  /-- Neither a file nor a directory, and cannot be opened. -/
  | socket
  /-- A name behind which there is nothing. -/
  | ghost
  /-- A name behind which nobody may look: a link into a directory that may not be passed. -/
  | barred

/-- What an entry is to someone who does not open it. -/
inductive EntryKind where
  | file
  | directory
  | other
deriving DecidableEq, Repr

/-- What an entry is. -/
def Entry.kind : Entry → EntryKind
  | file _ => .file
  | directory _ => .directory
  | _ => .other

/-- Why a path cannot be used as asked. -/
inductive Fault where
  | missing
  | noDevice
  | denied
  | notDirectory
  | isDirectory
deriving DecidableEq, Repr

namespace Fault

/-- The number of a fault. -/
def number : Fault → Nat
  | missing => 2
  | noDevice => 6
  | denied => 13
  | notDirectory => 20
  | isDirectory => 21

/-- What a fault is called. -/
def description : Fault → Text
  | missing => "No such file or directory"
  | noDevice => "No such device or address"
  | denied => "Permission denied"
  | notDirectory => "Not a directory"
  | isDirectory => "Is a directory"

/-- The message for a fault at a path. -/
def message (f : Fault) (path : Text) : Text :=
  "[Errno " ++ Text.decimal f.number ++ "] " ++ f.description ++ ": " ++ Text.quoted path

end Fault

/-- A tree of entries with marks on paths that deny access. -/
structure FileSystem where
  /-- The entries of the root directory. -/
  root : Table Entry := []
  /-- The components of the denied paths. They need not exist. -/
  denied : List (List Text) := []

namespace FileSystem

/-- The entry that the given components lead to from the entry `e` at `here`. -/
def walk (fs : FileSystem) (here : List Text) (e : Entry) : List Text → Except Fault Entry
  | [] =>
    match e with
    | .ghost => .error .missing
    | .barred => .error .denied
    | e => .ok e
  | name :: rest =>
    match e with
    | .ghost => .error .missing
    | .barred => .error .denied
    | .directory entries =>
      if fs.denied.contains here then .error .denied
      else
        match entries.lookup name with
        | none => .error .missing
        | some child => walk fs (here ++ [name]) child rest
    | _ => .error .notDirectory

/-- The entry at a path. -/
def resolve (fs : FileSystem) (path : Text) : Except Fault Entry :=
  fs.walk [] (.directory fs.root) (Path.components path)

/-- Whether access to a path is denied. -/
def isDenied (fs : FileSystem) (path : Text) : Bool := fs.denied.contains (Path.components path)

/-- The names in a directory. -/
def list (fs : FileSystem) (path : Text) : Except Fault (List Text) := do
  match ← fs.resolve path with
  | .directory entries => if fs.isDenied path then .error .denied else .ok (Table.names entries)
  | _ => .error .notDirectory

/-- What stands at a path. -/
def kind (fs : FileSystem) (path : Text) : Except Fault EntryKind := do
  let e ← fs.resolve path
  pure e.kind

/-- The bytes of a file, or of whatever else can be opened. -/
def read (fs : FileSystem) (path : Text) : Except Fault (List UInt8) := do
  match ← fs.resolve path with
  | .file bytes | .device bytes => if fs.isDenied path then .error .denied else .ok bytes
  | .directory _ => .error .isDirectory
  | _ => .error .noDevice

/-- Whether a path leads to a directory. -/
def isDirectory (fs : FileSystem) (path : Text) : Bool :=
  match fs.kind path with
  | .ok .directory => true
  | _ => false

end FileSystem

end ClassTags
