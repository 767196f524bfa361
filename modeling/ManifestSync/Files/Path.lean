import ManifestSync.Text.Blank

/-!
# Paths

A path is a text with slashes between the names of its steps. An empty step and `.` stay where they
are, `..` goes up. `parent?` cuts off the last step that counts, `join` adds a name, and the rest of
a path is kept as it is written.
-/

namespace ManifestSync.Files

/-- The steps of a path: the texts between its slashes. -/
def steps (path : String) : List String :=
  (Text.splitOn (· == '/') path.toList).map String.ofList

/-- Whether a path starts at the root of the file system. -/
def isAbsolute (path : String) : Bool :=
  path.toList.head? == some '/'

/-- Whether a path ends in a slash. -/
def endsInSlash (path : String) : Bool :=
  path.toList.getLast? == some '/'

/-- A path without slashes at its end; nothing but slashes is one slash. -/
def dropSlashes (path : String) : String :=
  let bare := Text.trimEndOf (· == '/') path.toList
  if bare.isEmpty && !path.isEmpty then "/" else String.ofList bare

/-- A path with a name behind it. -/
def join (path name : String) : String :=
  if path.isEmpty || endsInSlash path then path ++ name else path ++ "/" ++ name

/-- A path, last character first, without steps at its end that stay where they are. -/
def dropIdle : List Char → List Char
  | ['/'] => ['/']
  | '/' :: rest => dropIdle rest
  | '.' :: '/' :: rest => if rest.isEmpty then ['/'] else dropIdle rest
  | text => text

/-- The path without its last step; none for the empty path and the root. -/
def parent? (path : String) : Option String :=
  match dropIdle path.toList.reverse with
  | [] => none
  | ['/'] => none
  | text => some (String.ofList (dropIdle (text.dropWhile (· != '/'))).reverse)

/-- The last step of a path that counts, or the path if there is none; `..` is no name. -/
def fileName (path : String) : String :=
  match (dropIdle path.toList.reverse).takeWhile (· != '/') with
  | [] => path
  | ['.', '.'] => path
  | name => String.ofList name.reverse

end ManifestSync.Files
