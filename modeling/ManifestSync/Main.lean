import ManifestSync.Command.Execute
import ManifestSync.Files.Snapshot
import ManifestSync.Sync.Instant
import Std.Time.DateTime.Timestamp

/-!
# The program

The arguments say what to do, and the lines of standard input name the files that there are. The
program reads these files, executes the command line on them, writes the files that have come or
changed, and prints what there is to print.
-/

namespace ManifestSync

/-- The lines of a stream. -/
partial def readLines (stream : IO.FS.Stream) : IO (List String) := do
  let line ← stream.getLine
  if line.isEmpty then return []
  let rest ← readLines stream
  return String.ofList (Text.trimEndOf (fun c => c == '\n' || c == '\r') line.toList) :: rest

/-- The disk with the files at some paths. -/
def loadFiles (paths : List String) : IO Files.Disk := do
  let home := (Files.steps (toString (← IO.currentDir))).filter (!·.isEmpty)
  let files ← paths.mapM fun (path : String) => do return (path, (← IO.FS.readBinFile path).toList)
  return (Files.Disk.emptyAt home).addFiles files

/-- Writes the files that have come or changed. -/
def storeChanges (before after : Files.Disk) : IO Unit :=
  (before.changes after).forM fun (path, bytes) => do
    match (Files.parent? path).filter (!·.isEmpty) with
    | some parent => IO.FS.createDirAll parent
    | none => pure ()
    IO.FS.writeBinFile path ⟨bytes.toArray⟩

/-- The time in words. -/
def currentTime : IO String := do
  let now ← Std.Time.Timestamp.now
  return (Instant.mk now.toMillisecondsSinceUnixEpoch.val.toNat).render

/-- Prints a response. -/
def printResponse (response : Command.Response) : IO UInt32 := do
  IO.print (String.ofList response.out)
  IO.eprint (String.ofList response.err)
  return response.exit.toUInt32

end ManifestSync

open ManifestSync in
/-- Runs the program. -/
def main (args : List String) : IO UInt32 := do
  match Command.parse args with
  | .error stop => printResponse stop.response
  | .ok _ =>
    let disk ← loadFiles (← readLines (← IO.getStdin))
    let (response, after) := Command.execute args (← currentTime) disk
    storeChanges disk after
    printResponse response
