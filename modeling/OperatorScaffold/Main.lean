import OperatorScaffold.CommandLine.Run
/-!
The program. It reads what stands in the current directory, runs the command on it, and writes back
what the command changed. What stands elsewhere is not seen.
-/

namespace OperatorScaffold

def programVersion : String := "0.2.0"

namespace Disk

/-- Whether a file is taken for one that may be run; the mode is not read from the disk. -/
def modeOf (c : Content) : Nat :=
  match c with
  | .text s => if Text.hasPrefix "#!" s then 0o755 else Workspace.newFileMode
  | .binary _ => Workspace.newFileMode

/-- The entries at and below an entry of the disk; what cannot be read is left out. -/
partial def entriesAt (place : Place) (e : IO.FS.DirEntry) : IO (List (Place × Entry)) := do
  let here := place ++ [e.fileName]
  try
    match (← e.path.symlinkMetadata).type with
    | .symlink => return [(here, .link ⟨(← IO.FS.realPath e.path).toString⟩)]
    | .dir =>
      let inner ← (← e.path.readDir).toList.mapM (entriesAt here)
      return (here, .directory) :: inner.flatten
    | .file =>
      let content := Content.ofBytes (← IO.FS.readBinFile e.path).toList
      return [(here, .file content (modeOf content))]
    | .other => return []
  catch _ => return []

def read : IO Workspace := do
  let current ← IO.currentDir
  let place := (Path.mk current.toString).names
  let above := (List.range place.length).map fun n => (place.take (n + 1), Entry.directory)
  let inside ← (← current.readDir).toList.mapM (entriesAt place)
  return ⟨⟨above ++ inside.flatten⟩, place, []⟩

def pathText (p : Place) : String := (Path.ofPlace p).text

/-- Writes what is new in a workspace, and takes away what is gone from it. -/
def write (before after : Workspace) : IO Unit := do
  for (p, e) in after.files.entries do
    if before.files.at? p ≠ some e then
      match e with
      | .directory => IO.FS.createDirAll (pathText p)
      | .file c _ => IO.FS.writeBinFile (pathText p) ⟨c.bytes.toArray⟩
      | .link _ => pure ()
  for (p, e) in before.files.entries do
    match e with
    | .file .. => if after.files.at? p = none then IO.FS.removeFile (pathText p)
    | _ => pure ()

end Disk

def readEnvironment : IO Environment := do
  let names := ["OPFORGE_CONTROLLER_GEN_BIN", "OPFORGE_LOG_LEVEL", "OPFORGE_LOG_FORMAT",
    "OPFORGE_LOG_LOCATION"]
  let found ← names.mapM fun n => return (n, ← IO.getEnv n)
  return found.filterMap fun (n, v) => v.map (n, ·)

def refuse (r : CommandLine.Refusal) : IO UInt32 := do
  match r with
  | .help => Command.usage.forM (IO.println ·); return 0
  | .version => IO.println s!"opforge {programVersion}"; return 0
  | _ =>
    IO.eprintln s!"error: {r.message}"
    Command.usage.forM (IO.eprintln ·)
    return 2

def runCommand (c : Command) : IO UInt32 := do
  let env ← readEnvironment
  let before ← Disk.read
  let result := c.run env before
  Disk.write before result.space
  if (LogSettings.ofEnvironment env).showsWarnings then
    result.space.notices.forM fun n => IO.eprintln s!"warning: {n.line}"
  result.lines.forM (IO.println ·)
  match result.outcome with
  | .ok () => return 0
  | .error f =>
    let first := f.chain.headD "failed"
    IO.eprintln s!"error: {first}"
    f.chain.tail.forM fun m => IO.eprintln s!"  caused by: {m}"
    return 1

end OperatorScaffold

def main (args : List String) : IO UInt32 :=
  match OperatorScaffold.Command.ofArguments args with
  | .error r => OperatorScaffold.refuse r
  | .ok c => OperatorScaffold.runCommand c
