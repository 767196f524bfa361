import ManifestSync.Files.Path

/-!
# Trees of files

A file system is a tree of files, symbolic links and directories. `Node.find?` looks a place up, and
`Node.put` and `Node.remove` change the tree at a place; a place is a list of names, and no link is
followed on the way to it.
-/

namespace ManifestSync.Files

/-- A file with its bytes, a symbolic link with its target, or a directory with its entries. -/
inductive Node where
  | file (bytes : List UInt8)
  | link (target : String)
  | dir (entries : List (String × Node))
  deriving Repr, Inhabited

/-- Where a node stands: the names on the way from the root. -/
abbrev Place := List String

namespace Node

/-- Whether a node is a directory. -/
def isDir : Node → Bool
  | .dir _ => true
  | _ => false

/-- The entry of a name. -/
def child? (name : String) (entries : List (String × Node)) : Option Node :=
  (entries.find? (·.1 == name)).map (·.2)

/-- Gives a name a node, in its old position if it has one and else at the end. -/
def setEntry (name : String) (node : Node) (entries : List (String × Node)) :
    List (String × Node) :=
  if entries.any (·.1 == name) then
    entries.map fun e => if e.1 == name then (name, node) else e
  else entries ++ [(name, node)]

/-- The node at a place. -/
def find? : Place → Node → Option Node
  | [], node => some node
  | name :: place, .dir entries => (child? name entries).bind (find? place)
  | _ :: _, _ => none

/-- Puts a node at a place, if the directory that holds the place exists. -/
def put (node : Node) : Place → Node → Node
  | [], _ => node
  | [name], .dir entries => .dir (setEntry name node entries)
  | name :: place, .dir entries =>
    match child? name entries with
    | some child => .dir (setEntry name (put node place child) entries)
    | none => .dir entries
  | _ :: _, other => other

/-- Takes away what stands at a place. -/
def remove : Place → Node → Node
  | [name], .dir entries => .dir (entries.filter (·.1 != name))
  | name :: place, .dir entries =>
    match child? name entries with
    | some child => .dir (setEntry name (remove place child) entries)
    | none => .dir entries
  | _, other => other

end Node

end ManifestSync.Files
