import RootFinding.CommandLine.Execution
import RootFinding.Storage.Archive
import RootFinding.Storage.Timestamp

namespace RootFinding.CommandLine

def programName : String := "nlsolve-run"

def usage : String := "usage: " ++ programName ++ " " ++ " ".intercalate (Flag.all.map Flag.usage)

def store (t : FileTree) : IO Unit := do
  for directory in t.directories do
    IO.FS.createDirAll directory.text
  for (path, content) in t.files do
    match content with
    | .text s => IO.FS.writeFile path.text s
    | .arrays members => IO.FS.writeBinFile path.text ⟨(Archive.encode members).toArray⟩

/-- One's own home is that of the environment, the others are those of the user database. -/
def environment : IO Host := do
  let own ← IO.getEnv "HOME"
  let users ← try IO.FS.readFile "/etc/passwd" catch _ => pure ""
  let homes := (users.splitOn "\n").filterMap fun line =>
    match line.splitOn ":" with
    | [name, _, _, _, _, home, _] => some (name, home)
    | _ => none
  return ⟨fun name => if name.isEmpty then own else homes.lookup name, fun _ => none⟩

namespace Invocation

def earlierLog (i : Invocation) : IO FileTree := do
  match i.outPath? with
  | none => return .empty
  | some directory =>
    let path := directory.child logName
    try
      return FileTree.empty.write path (.text (← IO.FS.readFile path.text))
    catch _ => return .empty

def time (i : Invocation) : IO String := do
  match i.outPath? with
  | none => return ""
  | some directory =>
    let path ← IO.FS.realPath (directory.child logName).text
    let modified := (← path.metadata).modified
    return Timestamp.text modified.sec (modified.nsec.toNat / 1000)

def run [Host] (i : Invocation) : IO UInt32 := do
  let (_, opened) := i.openLog.on (← i.earlierLog)
  store opened
  let before ← IO.monoMsNow
  let attempted ← IO.lazyPure fun _ => attempt i
  let after ← IO.monoMsNow
  let clock : Clock := ⟨(after - before).toFloat / 1000.0, ← i.time⟩
  let report := execute i attempted opened clock
  for line in report.lines do
    IO.println line.shown
  store report.tree
  match report.ending with
  | .ok status => return UInt32.ofNat status
  | .error e => do
    IO.eprintln (e.className ++ ": " ++ e.message)
    return 1

end Invocation

end RootFinding.CommandLine

open RootFinding.CommandLine in
def main (arguments : List String) : IO UInt32 := do
  match RootFinding.CommandLine.read arguments with
  | .ok i => do
    let host ← environment
    @Invocation.run host i
  | .error .help => do
    IO.println usage
    return 0
  | .error (.misuse m) => do
    IO.eprintln usage
    IO.eprintln (programName ++ ": error: " ++ m.text)
    return 2
