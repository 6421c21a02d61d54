import ClassTags.Index.Registry
import ClassTags.Settings

/-!
# The directory indexer

The indexer keeps a registry in step with directory trees. It knows the directories it has scanned.
A scan goes through a tree breadth first and checks the source files of every directory; then it
drops the files and directories that were there before and no longer are.

Main definitions:

* `Indexer.scan` — brings the registry in step with a directory tree;
* `Indexer.remove` — forgets a directory;
* `DirectoryEvent.deliveries` — who is told about added and removed directories.
-/

namespace ClassTags

/-- What an indexer works with. -/
structure IndexContext where
  files : FileSystem
  /-- The calls that define classes. -/
  defineCalls : List Text
  /-- How the names of source files end. -/
  sourceExtension : Text
  /-- The names of directories that are not searched. -/
  ignoredDirs : List Text

/-- A registry with the directories that have been scanned. -/
structure Indexer where
  registry : Registry := {}
  dirs : List Text := []

namespace Indexer

/-- The order of texts by their characters. -/
def textLe (a b : Text) : Bool := !decide (b < a)

/-- Texts in order. -/
def sorted (ts : List Text) : List Text := ts.mergeSort textLe

/-- The known directories in the order of their names. -/
def knownDirs (x : Indexer) : List Text := sorted x.dirs

/-- An action on the registry of an indexer. -/
def onRegistry {α : Type} (a : Action Registry IndexFailure α) : Action Indexer IndexFailure α :=
  a.within registry fun x r => { x with registry := r }

/-- Reads a source file again. -/
def check (ctx : IndexContext) (path : Text) : Action Indexer IndexFailure Bool :=
  onRegistry (Registry.check ctx.defineCalls ctx.files path)

/-- Drops a file and its classes. Gives whether it was known. -/
def retract (path : Text) : Action Indexer IndexFailure Bool := do
  let x ← Action.state
  Action.update fun x => { x with registry := x.registry.retract path }
  pure (x.registry.tracks path)

/-- Forgets a directory and those below it, and checks the files below it. Gives whether the
directory was known. -/
def remove (ctx : IndexContext) (path : Text) : Action Indexer IndexFailure Bool := do
  let x ← Action.state
  if x.dirs.contains path then
    Action.update fun x => { x with dirs := x.dirs.filter fun d => !Path.isUnder d path }
    let below := x.registry.paths.filter fun p => Path.isUnder p path
    Action.forEach (fun p => do
      let _ ← check ctx p
      pure ()) below
    Action.note (.directoryRemoved path)
    pure true
  else pure false

/-- What a scan found in a directory. -/
structure Listing where
  dirs : List Text := []
  files : List Text := []

/-- Looks at the entry of a directory with the given name: takes note of directories, and checks
source files. -/
def visitEntry (ctx : IndexContext) (dir : Text) (found : Listing) (name : Text) :
    Action Indexer IndexFailure Listing := do
  let child := Path.join dir name
  match ctx.files.kind child with
  | .error .missing =>
    Action.note (.entryVanished child)
    pure found
  | .error fault => Action.fail (.file fault child)
  | .ok .directory =>
    if ctx.ignoredDirs.contains name then pure found
    else pure { found with dirs := found.dirs ++ [child] }
  | .ok .file =>
    if ctx.sourceExtension.isSuffixOf name then
      let _ ← check ctx child
      pure { found with files := found.files ++ [child] }
    else pure found
  | .ok .other => pure found

/-- Looks at the entries of a directory, in order. -/
def visitEntries (ctx : IndexContext) (dir : Text) (found : Listing) :
    List Text → Action Indexer IndexFailure Listing
  | [] => pure found
  | name :: names => do
    let found ← visitEntry ctx dir found name
    visitEntries ctx dir found names

/-- The known directories right in a directory that are not in its listing, in the order of their
names. -/
def goneDirs (x : Indexer) (dir : Text) (found : Listing) : List Text :=
  sorted (x.dirs.filter fun d => Path.parent d == dir && d != dir && !found.dirs.contains d)

/-- The known source files right in a directory that are not in its listing. -/
def goneFiles (x : Indexer) (extension dir : Text) (found : Listing) : List Text :=
  x.registry.paths.filter fun p =>
    Path.parent p == dir && extension.isSuffixOf p && !found.files.contains p

/-- Drops what was in a directory and is not in its listing. -/
def prune (ctx : IndexContext) (dir : Text) (found : Listing) :
    Action Indexer IndexFailure Unit := do
  let x ← Action.state
  Action.forEach (fun d => do
    let _ ← remove ctx d
    pure ()) (x.goneDirs dir found)
  let x ← Action.state
  Action.forEach (fun p => do
    let _ ← retract p
    pure ()) (x.goneFiles ctx.sourceExtension dir found)

/-- Makes a directory known. -/
def learn (dir : Text) : Action Indexer IndexFailure Unit := do
  let x ← Action.state
  if x.dirs.contains dir then pure ()
  else
    Action.update fun x => { x with dirs := x.dirs ++ [dir] }
    Action.note (.directoryAdded dir)

/-- Brings the registry in step with one directory whose names are given. Gives the directories in
it. -/
def visit (ctx : IndexContext) (dir : Text) (names : List Text) :
    Action Indexer IndexFailure (List Text) := do
  let found ← visitEntries ctx dir {} (sorted names)
  prune ctx dir found
  learn dir
  pure found.dirs

/-- Works off a queue of directories, for at most `fuel` of them. Gives the directories that are
left and those that have been visited. -/
def drain (ctx : IndexContext) :
    (fuel : Nat) → (queue visited : List Text) → Action Indexer IndexFailure (List Text × List Text)
  | 0, queue, visited => pure (queue, visited)
  | _ + 1, [], visited => pure ([], visited)
  | fuel + 1, dir :: queue, visited =>
    if visited.contains dir then drain ctx fuel queue visited
    else
      match ctx.files.list dir with
      | .error .missing => do
        let _ ← remove ctx dir
        drain ctx fuel queue visited
      | .error fault => Action.fail (.file fault dir)
      | .ok names => do
        let dirs ← visit ctx dir names
        drain ctx fuel (queue ++ dirs) (visited ++ [dir])

end Indexer

mutual

/-- The number of entries in an entry, itself included. -/
def Entry.size : Entry → Nat
  | .directory entries => Entry.sizeAll entries + 1
  | _ => 1

/-- The number of entries in some entries. -/
def Entry.sizeAll : List (Text × Entry) → Nat
  | [] => 0
  | (_, e) :: entries => e.size + Entry.sizeAll entries

end

/-- The number of entries of a file system, the root included. -/
def FileSystem.size (fs : FileSystem) : Nat := Entry.sizeAll fs.root + 1

namespace Indexer

/-- Brings the registry in step with a directory tree. No more directories come into the queue than
the file system has entries. -/
def scan (ctx : IndexContext) (root : Text) : Action Indexer IndexFailure Unit := do
  if Path.isAbsolute root then
    let _ ← drain ctx (ctx.files.size + 1) [Path.normalize root] []
    pure ()
  else Action.fail (.relativePath root)

end Indexer

/-! ## Observers -/

/-- A change of the known directories. -/
inductive DirectoryEvent where
  | added (path : Text)
  | removed (path : Text)
deriving DecidableEq, Repr

/-- The change that a notice reports. -/
def Notice.event? : Notice → Option DirectoryEvent
  | directoryAdded path => some (.added path)
  | directoryRemoved path => some (.removed path)
  | _ => none

namespace DirectoryEvent

/-- The word for a change. -/
def kind : DirectoryEvent → Text
  | added _ => "add"
  | removed _ => "remove"

/-- The directory that is added or removed. -/
def path : DirectoryEvent → Text
  | added p | removed p => p

/-- Who is told what: every change goes to the subscribers in order, and then to the observer of the
call, if it has one. -/
def deliveries (subscribers : List Text) (caller : Option Text) (notices : List Notice) :
    List (Text × DirectoryEvent) :=
  (notices.filterMap Notice.event?).flatMap fun event =>
    (subscribers ++ caller.toList).map fun observer => (observer, event)

end DirectoryEvent

end ClassTags
