import ManifestSync.Files.Cause
import ManifestSync.Files.Tree
import ManifestSync.Text.Utf8

/-!
# Operations on files

A `Disk` is a tree of files with a working directory, together with the operations that are bound
to fail. Every operation resolves its path step by step, from the root or from the working directory,
and follows symbolic links on the way; a link at the end of the path is followed where the operation
looks through links. The directory around the root is the root itself.

Patterns are compiled without a file, and that too can be bound to fail: the engine that matches them
has a limit to their size.
-/

namespace ManifestSync.Files

/-- An operation that may be bound to fail. -/
inductive Operation where
  | read (path : String)
  /-- Listing a directory with all that is below it. -/
  | list (path : String)
  | write (path : String)
  | makeDir (path : String)
  /-- Compiling the patterns for a word. -/
  | compile (word : List Char)
  deriving DecidableEq, Repr

/-- A tree of files, the place of the working directory in it, and why operations fail that would
succeed by the state of the tree. -/
structure Disk where
  root : Node := .dir []
  home : Place := []
  refuses : Operation → Option Cause := fun _ => none

/-- How many symbolic links are followed on the way to one file. -/
def maxLinks : Nat := 40

/-- The longest name of a file, in bytes. -/
def maxName : Nat := 255

/-- Why a name can be that of no file. -/
def nameFault? (name : String) : Option Cause :=
  if name.toList.contains (Char.ofNat 0) then some .badName
  else if maxName < name.utf8ByteSize then some .nameTooLong
  else none

/-- What is known about the end of a resolved path. -/
structure Target where
  place : Place
  /-- What stands there, if anything does. -/
  node : Option Node

/-- Goes along some steps from a directory. `follow` says whether a link at the end is followed, and
`jump` goes on from a directory along the steps of a link's target and those behind it. -/
def walkSteps (root : Node) (follow : Bool)
    (jump : Place → List String → Except Cause Target) :
    Place → List String → Except Cause Target
  | place, [] => .ok ⟨place, root.find? place⟩
  | place, step :: rest =>
    match root.find? place with
    | some (.dir entries) =>
      if step = "" || step = "." then walkSteps root follow jump place rest
      else if step = ".." then walkSteps root follow jump place.dropLast rest
      else match Node.child? step entries with
        | some (.link target) =>
          if rest.isEmpty && !follow then .ok ⟨place ++ [step], some (.link target)⟩
          else if target.isEmpty then .error .notFound
          else jump (if isAbsolute target then [] else place) (steps target ++ rest)
        | some _ => walkSteps root follow jump (place ++ [step]) rest
        | none =>
          match nameFault? step with
          | some cause => .error cause
          | none => if rest.isEmpty then .ok ⟨place ++ [step], none⟩ else .error .notFound
    | _ => .error .notDirectory

/-- Goes along some steps from a directory, following at most so many links. -/
def walkLinks (root : Node) (follow : Bool) : (links : Nat) → Place → List String →
    Except Cause Target
  | 0 => walkSteps root follow fun _ _ => .error .tooManyLinks
  | links + 1 => walkSteps root follow (walkLinks root follow links)

namespace Disk

/-- The disk with nothing but a working directory and the directories around it. -/
def emptyAt (home : Place) : Disk where
  root := home.foldr (fun name node => .dir [(name, node)]) (.dir [])
  home

/-- The end of a path. -/
def resolve (disk : Disk) (follow : Bool) (path : String) : Except Cause Target :=
  if path.toList.contains (Char.ofNat 0) then .error .badName
  else if path.isEmpty then .error .notFound
  else walkLinks disk.root follow maxLinks (if isAbsolute path then [] else disk.home) (steps path)

/-- Fails if an operation is bound to. -/
def permit (disk : Disk) (operation : Operation) : Except Cause Unit :=
  match disk.refuses operation with
  | some cause => .error cause
  | none => .ok ()

/-- What stands at the end of a path, through links. -/
def stat (disk : Disk) (path : String) : Except Cause Node := do
  match (← disk.resolve true path).node with
  | some node => .ok node
  | none => .error .notFound

/-- Whether there is something at the end of a path. -/
def exists? (disk : Disk) (path : String) : Bool := (disk.stat path).isOk

/-- Whether there is a directory at the end of a path. -/
def isDir (disk : Disk) (path : String) : Bool :=
  match disk.stat path with
  | .ok node => node.isDir
  | .error _ => false

/-- Whether a path ends at a symbolic link. -/
def isLink (disk : Disk) (path : String) : Bool :=
  match disk.resolve false path with
  | .ok ⟨_, some (.link _)⟩ => true
  | _ => false

/-- The bytes of a file. -/
def read (disk : Disk) (path : String) : Except Cause (List UInt8) := do
  disk.permit (.read path)
  match ← disk.stat path with
  | .file bytes => .ok bytes
  | .dir _ => .error .isDirectory
  | .link _ => .error .tooManyLinks

/-- The text of a file. -/
def readText (disk : Disk) (path : String) : Except Cause (List Char) := do
  match Text.decode? (← disk.read path) with
  | some text => .ok text
  | none => .error .notText

/-- The entries of a directory. -/
def list (disk : Disk) (path : String) : Except Cause (List (String × Node)) := do
  disk.permit (.list path)
  match ← disk.stat path with
  | .dir entries => .ok entries
  | _ => .error .notDirectory

/-- Gives a file new content; it is created if there is none. A slash at the end of the path makes it
that of a directory. -/
def write (disk : Disk) (path : String) (bytes : List UInt8) : Except Cause Disk := do
  disk.permit (.write path)
  if endsInSlash path then do
    let _ ← disk.resolve false (dropSlashes path)
    .error .isDirectory
  else
    let target ← disk.resolve true path
    match target.node with
    | some (.dir _) => .error .isDirectory
    | _ => .ok { disk with root := Node.put (.file bytes) target.place disk.root }

/-- Makes a directory. -/
def makeDir (disk : Disk) (path : String) : Except Cause Disk := do
  disk.permit (.makeDir path)
  -- A slash behind the name of a directory to be made says nothing.
  let target ← disk.resolve false (dropSlashes path)
  match target.node with
  | some _ => .error .exists
  | none => .ok { disk with root := Node.put (.dir []) target.place disk.root }

/-- Makes a directory and those around it, as far as they do not exist. The number bounds how many
are made. Directories that were made stay when a later one fails. -/
def makeDirsWithin : Nat → Disk → String → Except Cause Unit × Disk
  | 0, disk, _ => (.error .notFound, disk)
  | fuel + 1, disk, path =>
    if path.isEmpty then (.ok (), disk)
    else match disk.makeDir path with
      | .ok disk => (.ok (), disk)
      | .error .notFound =>
        match parent? path with
        | none => (.error .notFound, disk)
        | some parent =>
          match makeDirsWithin fuel disk parent with
          | (.error cause, disk) => (.error cause, disk)
          | (.ok _, disk) =>
            match disk.makeDir path with
            | .ok disk => (.ok (), disk)
            | .error cause => (if disk.isDir path then .ok () else .error cause, disk)
      | .error cause => (if disk.isDir path then .ok () else .error cause, disk)

/-- Makes a directory and those around it, as far as they do not exist. -/
def makeDirs (disk : Disk) (path : String) : Except Cause Unit × Disk :=
  makeDirsWithin ((steps path).length + 1) disk path

/-- Makes a symbolic link. -/
def makeLink (disk : Disk) (path target : String) : Except Cause Disk := do
  let last ← disk.resolve false path
  match last.node with
  | some _ => .error .exists
  | none => .ok { disk with root := Node.put (.link target) last.place disk.root }

/-- Takes away a file, a link, or a directory with all that is in it. -/
def remove (disk : Disk) (path : String) : Except Cause Disk := do
  let target ← disk.resolve false path
  match target.node with
  | some _ => .ok { disk with root := disk.root.remove target.place }
  | none => .error .notFound

end Disk

end ManifestSync.Files
