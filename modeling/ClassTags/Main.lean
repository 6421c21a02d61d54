import ClassTags.CommandLine
import ClassTags.FileSystem.Edit

/-!
# The executable

Reads what the arguments name into a file system value, and prints what the command line makes of
it.
-/

namespace ClassTags.Main

/-- The path with which a text is looked up on the disk. -/
def diskName (path : Text) : String := String.ofList path

/-- The nearest thing above a path that is on the disk and is no directory, as an empty file. -/
partial def loadAbove (fs : FileSystem) (path : Text) : IO FileSystem := do
  let above := Path.parent path
  if above = path then return fs
  let place := (← IO.currentDir) / diskName above
  if ← place.isDir then return fs.makeDirectory above
  if ← place.pathExists then return fs.put above (.file [])
  loadAbove fs above

/-- Takes what is at a path into a file system. Of the files in directories only those are read
whose names end with `extension` or that are `arguments` themselves. -/
partial def load (extension : Text) (arguments : List Text) (fs : FileSystem) (path : Text) :
    IO FileSystem := do
  let place := (← IO.currentDir) / diskName path
  let isArgument := arguments.contains path
  try
    match (← place.metadata).type with
    | .dir =>
      let mut fs := fs.makeDirectory path
      try
        for entry in ← place.readDir do
          let name := entry.fileName.toList
          -- an entry whose kind cannot be found out is a name with nothing behind it
          fs := fs.put (Path.join path name) .ghost
          fs ← load extension arguments fs (Path.join path name)
        return fs
      catch
        | .permissionDenied .. => return fs.deny path
        | e => throw e
    | .file =>
      if isArgument || extension.isSuffixOf path then
        try
          let bytes ← IO.FS.readBinFile place
          return fs.put path (.file bytes.toList)
        catch
          | .permissionDenied .. => return (fs.put path (.file [])).deny path
          | e => throw e
      else return fs.put path (.file [])
    | _ =>
      -- what is no regular file is opened only if it is asked for by name
      if isArgument then
        try
          let bytes ← IO.FS.readBinFile place
          return fs.put path (.device bytes.toList)
        catch
          | .permissionDenied .. => return (fs.put path (.device [])).deny path
          | _ => return fs.put path .socket
      else return fs.put path .socket
  catch
    | .permissionDenied .. | .invalidArgument .. => return fs.put path .barred
    | _ => if isArgument then loadAbove fs path else return fs

/-- The settings that the environment of the process makes. -/
def settings : IO Settings := do
  let names := ["QXTAGS_DEFINE_CALLS", "QXTAGS_SOURCE_EXTENSION", "QXTAGS_IGNORED_DIRS",
    "QXTAGS_LOG_LEVEL"]
  let values ← names.filterMapM fun name => do
    let value ← IO.getEnv name
    return value.map fun v => (name, v.toList)
  return .ofEnvironment fun name => values.lookup (String.ofList name)

end ClassTags.Main

open ClassTags in
/-- Prints a tag file for the classes in the files and directories that the arguments name. -/
def main (arguments : List String) : IO UInt32 := do
  let settings ← Main.settings
  let directory := (← IO.currentDir).toString.toList
  let texts := arguments.map String.toList
  let paths := match CommandLine.request texts with
    | .ok (.index paths) => paths.map (Path.absolute directory)
    | _ => []
  let files ← paths.foldlM (Main.load settings.sourceExtension paths) {}
  let (ending, broken) := CommandLine.run { files, directory, settings } texts
  IO.eprint (String.ofList ending.diagnostics)
  if let some b := broken then IO.eprintln (String.ofList b.message)
  IO.print (String.ofList ending.output)
  return ending.code.toUInt32
