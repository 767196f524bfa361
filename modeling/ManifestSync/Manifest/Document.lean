import ManifestSync.Sync.Failure
import ManifestSync.Yaml.Document
import ManifestSync.Yaml.Render

/-!
# The manifest as a document

A manifest is a YAML document with a list of records. Reading stops at the first record that is no
entry; writing puts out the records of all entries anew.
-/

namespace ManifestSync.Manifest

open Yaml (Value)

/-- The entries of a list of records; `index` is the number of the first. -/
def readRecords (index : Nat) : List Value → Except Failure (List Entry)
  | [] => .ok []
  | record :: rest =>
    match Entry.ofRecord record with
    | .error e => .error (.manifestRecord index e)
    | .ok entry => (readRecords (index + 1) rest).map (entry :: ·)

/-- The entries of a document; `origin` is its path. -/
def ofValue (origin : String) : Value → Except Failure (List Entry)
  | .seq records => readRecords 0 records
  | other => .error (.manifestShape origin other)

/-- The document of some entries. -/
def toValue (entries : List Entry) : Value := .seq (entries.map (·.toRecord))

/-- The entries of the text of a manifest; `origin` is its path. -/
def parse (origin : String) (text : List Char) : Except Failure (List Entry) :=
  match Value.parse? text with
  | none => .error .yaml
  | some document => ofValue origin document

/-- The text of a manifest with some entries. -/
def render (entries : List Entry) : List Char := (toValue entries).render

end ManifestSync.Manifest
