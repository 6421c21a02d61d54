import ClassTags.FileSystem.Basic

/-!
# Changes of a file system

Whatever is put at a path, the directories above it are made where they are missing, and what stands
in their place and is no directory gives way.
-/

namespace ClassTags

/-- The entries of a directory. Everything else has none. -/
def Entry.entries : Entry → Table Entry
  | directory entries => entries
  | _ => []

namespace FileSystem

/-- Puts an entry below some entries; what stands there already may have a say. -/
def putIn (make : Option Entry → Entry) : List Text → Table Entry → Table Entry
  | [], entries => entries
  | [name], entries => entries.assign name (make (entries.lookup name))
  | name :: rest, entries =>
    let inner := ((entries.lookup name).map Entry.entries).getD []
    entries.assign name (.directory (putIn make rest inner))

/-- Removes an entry, with all below it, if it is there. -/
def removeIn : List Text → Table Entry → Table Entry
  | [], _ => []
  | [name], entries => entries.remove name
  | name :: rest, entries =>
    match entries.lookup name with
    | some (.directory inner) => entries.assign name (.directory (removeIn rest inner))
    | _ => entries

/-- Puts an entry at a path. -/
def put (fs : FileSystem) (path : Text) (e : Entry) : FileSystem :=
  { fs with root := putIn (fun _ => e) (Path.components path) fs.root }

/-- Makes a directory at a path, unless there is one. -/
def makeDirectory (fs : FileSystem) (path : Text) : FileSystem :=
  let make (e : Option Entry) : Entry := .directory ((e.map Entry.entries).getD [])
  { fs with root := putIn make (Path.components path) fs.root }

/-- Removes what is at a path. The root itself stays, empty. -/
def remove (fs : FileSystem) (path : Text) : FileSystem :=
  { fs with root := removeIn (Path.components path) fs.root }

/-- Denies access to a path. -/
def deny (fs : FileSystem) (path : Text) : FileSystem :=
  { fs with denied := Path.components path :: fs.denied }

/-- No longer denies access to a path. -/
def allow (fs : FileSystem) (path : Text) : FileSystem :=
  { fs with denied := fs.denied.filter fun p => p ≠ Path.components path }

end FileSystem

end ClassTags
