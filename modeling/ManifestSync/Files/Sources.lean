import ManifestSync.Files.Disk

/-!
# Test sources

The test sources below a directory are its files whose names end with one of some suffixes, in all
directories below it. They are listed with the entries of every directory in the order of their
names, a directory's content in its place. A symbolic link counts as a file and is not followed,
except that the directory itself may be one.
-/

namespace ManifestSync.Files

/-- A test source. -/
structure Source where
  /-- The path to it, which begins with that of the scanned directory. -/
  path : String
  /-- The names on the way from the scanned directory to it, with slashes in between. -/
  relative : String
  deriving DecidableEq, Repr, Inhabited

/-- Whether a name ends with one of some suffixes. -/
def hasSuffix (suffixes : List String) (name : String) : Bool :=
  suffixes.any fun suffix => Text.endsWith name.toList suffix.toList

/-- The entries of a directory in the order of their names. -/
def sortEntries {α : Type} (entries : List (String × α)) : List (String × α) :=
  entries.mergeSort fun a b => compare a.1 b.1 != .gt

/-- A listing of a directory: for each source, the names on the way to it. -/
abbrev Listing := List (List String)

/-- The listings of some entries, put together in the order of the names of the entries. -/
def arrange (listed : List (String × Listing)) : Listing :=
  ((sortEntries listed).map (·.2)).flatten

mutual

/-- The sources in a node with a name. Directories are entered, whatever their names. -/
def listNode (suffixes : List String) (name : String) : Node → Listing
  | .dir entries => (arrange (listEach suffixes entries)).map (name :: ·)
  | .file _ => if hasSuffix suffixes name then [[name]] else []
  | .link _ => if hasSuffix suffixes name then [[name]] else []

/-- The sources in each entry of a directory, with the name of the entry. -/
def listEach (suffixes : List String) : List (String × Node) → List (String × Listing)
  | [] => []
  | (name, node) :: rest => (name, listNode suffixes name node) :: listEach suffixes rest

end

/-- The sources in the entries of a directory. -/
def listEntries (suffixes : List String) (entries : List (String × Node)) : Listing :=
  arrange (listEach suffixes entries)

/-- The source at the end of some names. -/
def sourceAt (root : String) (names : List String) : Source where
  path := names.foldl join root
  relative := String.intercalate "/" names

/-- The sources below a directory. If its path ends at a link to it, the link counts as an entry of
its own name as well. -/
def sourcesIn (disk : Disk) (root : String) (suffixes : List String) :
    Except Cause (List Source) := do
  let entries ← disk.list root
  let itself := if disk.isLink root && hasSuffix suffixes (fileName root) then [[]] else []
  return (itself ++ listEntries suffixes entries).map (sourceAt root)

end ManifestSync.Files
