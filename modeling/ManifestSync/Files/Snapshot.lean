import ManifestSync.Files.Disk

/-!
# Snapshots

A disk as a list of its files with their paths, for what comes from outside and goes back there.
-/

namespace ManifestSync.Files

mutual

/-- The files in a node, whose path is given, with their paths. -/
def Node.filesAt (path : String) : Node → List (String × List UInt8)
  | .file bytes => [(path, bytes)]
  | .link _ => []
  | .dir entries => Node.filesIn path entries

/-- The files in the entries of a directory, whose path is given, with their paths. -/
def Node.filesIn (path : String) : List (String × Node) → List (String × List UInt8)
  | [] => []
  | (name, node) :: rest => node.filesAt (join path name) ++ filesIn path rest

end

namespace Disk

/-- All files of a disk with their paths from the root. -/
def files (disk : Disk) : List (String × List UInt8) := disk.root.filesAt "/"

/-- Adds a file, and the directories around it; nothing happens where that is impossible. -/
def addFile (disk : Disk) (path : String) (bytes : List UInt8) : Disk :=
  let (_, disk) := disk.makeDirs ((parent? path).getD "")
  (disk.write path bytes).toOption.getD disk

/-- Adds some files, one after the other. -/
def addFiles (disk : Disk) (files : List (String × List UInt8)) : Disk :=
  files.foldl (fun disk (path, bytes) => disk.addFile path bytes) disk

/-- The files that have come or changed from one disk to another. -/
def changes (before after : Disk) : List (String × List UInt8) :=
  let old := before.files
  after.files.filter fun file => !old.contains file

end Disk

end ManifestSync.Files
