import ManifestSync.Toml.Value

/-!
# Tables that grow by statements

A TOML table may be written in several places, and each way of writing says what may follow. A table
that a header names cannot be named again; one that dotted keys have made takes only dotted keys; an
inline table is closed. `Section` is a table under construction that remembers how it was made.
-/

namespace ManifestSync.Toml

/-- An entry of a table under construction. -/
inductive Item where
  /-- A value, closed to additions. -/
  | value (v : Value)
  /-- A table, with whether it was only implied so far and whether dotted keys have made it. -/
  | table (implied dotted : Bool) (entries : List (String × Item))
  /-- A list of tables that headers in double brackets have begun. -/
  | tables (elements : List (List (String × Item)))
  deriving Inhabited

namespace Item

mutual

/-- The finished value of an entry. -/
def toValue : Item → Value
  | .value v => v
  | .table _ _ entries => .table (entriesToValues entries)
  | .tables elements => .array (elementsToValues elements)

/-- The finished values of the entries of a table. -/
def entriesToValues : List (String × Item) → List (String × Value)
  | [] => []
  | (key, item) :: rest => (key, item.toValue) :: entriesToValues rest

/-- The finished values of a list of tables. -/
def elementsToValues : List (List (String × Item)) → List Value
  | [] => []
  | entries :: rest => .table (entriesToValues entries) :: elementsToValues rest

end

end Item

/-- A table under construction. -/
structure Section where
  implied : Bool := false
  dotted : Bool := false
  entries : List (String × Item) := []
  deriving Inhabited

namespace Section

/-- The entry of a key. -/
def get? (s : Section) (key : String) : Option Item :=
  (s.entries.find? (·.1 == key)).map (·.2)

/-- Gives a key an entry in place of the one it had. -/
def set (s : Section) (key : String) (item : Item) : Section :=
  { s with entries := s.entries.filter (·.1 != key) ++ [(key, item)] }

/-- A table as an entry. -/
def toItem (s : Section) : Item := .table s.implied s.dotted s.entries

/-- Changes the table at a path. Tables that are missing on the way are implied; a list of tables is
entered at its last one. Dotted keys do not enter a table that a header names. -/
def modify (dotted : Bool) (f : Section → Option Section) : List String → Section → Option Section
  | [], s => f s
  | key :: path, s =>
    match s.get? key with
    | none => do
      let child ← modify dotted f path { implied := true, dotted }
      return s.set key child.toItem
    | some (.value _) => none
    | some (.table implied madeDotted entries) =>
      if dotted && !implied then none
      else do
        let child ← modify dotted f path ⟨implied, madeDotted, entries⟩
        return s.set key child.toItem
    | some (.tables elements) =>
      match elements.getLast? with
      | none => none
      | some last => do
        let child ← modify dotted f path { entries := last }
        return s.set key (.tables (elements.dropLast ++ [child.entries]))

/-- Gives a key a value. A path of dotted keys leads to a table that dotted keys have made, and an
empty path to one that they have not. -/
def assign (path : List String) (key : String) (v : Value) (s : Section) : Option Section :=
  s.modify (!path.isEmpty) (fun t =>
    if t.dotted == path.isEmpty || (t.get? key).isSome then none
    else some (t.set key (.value v))) path

/-- The table at a path; one that is not there yet is empty. -/
def at? : List String → Section → Option Section
  | [], s => some s
  | key :: path, s =>
    match s.get? key with
    | none => some {}
    | some (.value _) => none
    | some (.table implied dotted entries) => at? path ⟨implied, dotted, entries⟩
    | some (.tables elements) => elements.getLast?.bind fun last => at? path { entries := last }

/-- Takes the table that a header names out of its parent, to be continued: a new one, or one that
was only implied. -/
def continued? (key : String) (s : Section) : Option Section :=
  match s.get? key with
  | none => some {}
  | some (.table true false entries) => some { entries }
  | _ => none

/-- Puts a finished table under a key of its parent. -/
def place (key : String) (child : Section) (s : Section) : Option Section :=
  match s.get? key with
  | none => some (s.set key child.toItem)
  | some (.table true _ _) => some (s.set key child.toItem)
  | _ => none

/-- Adds a finished table to a list of tables under a key of its parent. -/
def append (key : String) (child : Section) (s : Section) : Option Section :=
  match s.get? key with
  | none => some (s.set key (.tables [child.entries]))
  | some (.tables elements) => some (s.set key (.tables (elements ++ [child.entries])))
  | _ => none

end Section

/-- A statement of a document. -/
inductive Statement where
  | assign (path : List String) (key : String) (v : Value)
  | header (path : List String) (key : String)
  | element (path : List String) (key : String)

/-- A document under construction: the finished tables, and the open one with its place. -/
structure Outline where
  root : Section := {}
  current : Section := {}
  /-- The place of the open table, and whether it is an element of a list; `none` for the root. -/
  place : Option (List String × String × Bool) := none

namespace Outline

/-- Puts the open table in its place. -/
def close (o : Outline) : Option Section :=
  match o.place with
  | none => some o.current
  | some (path, key, true) => o.root.modify false (Section.append key o.current) path
  | some (path, key, false) => o.root.modify false (Section.place key o.current) path

/-- Takes in a statement. -/
def add (o : Outline) : Statement → Option Outline
  | .assign path key v => (o.current.assign path key v).map ({ o with current := · })
  | .header path key => do
    let root ← o.close
    let parent ← Section.at? path root
    let current ← parent.continued? key
    return ⟨root, current, some (path, key, false)⟩
  | .element path key => do
    let root ← o.close
    return ⟨root, {}, some (path, key, true)⟩

/-- The entries of the document that some statements make. -/
def ofStatements? (statements : List Statement) : Option (List (String × Value)) := do
  let o ← statements.foldlM add {}
  let root ← o.close
  return Item.entriesToValues root.entries

end Outline

end ManifestSync.Toml
