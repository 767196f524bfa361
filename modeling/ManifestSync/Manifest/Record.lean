import ManifestSync.Decimal.Text
import ManifestSync.Manifest.Entry
import ManifestSync.Text.Printable

/-!
# Records and entries

A manifest holds an entry as a mapping, its record. `Entry.toRecord` writes all managed fields and
then the other keys; `Entry.ofRecord` reads a record pair by pair, under the current or the older
key of each field, fills absent fields with their defaults and keeps every key it does not know.

A record is refused at its first faulty pair: a key that is no string, a field given twice, a value
of the wrong type, or an unmanaged value with a tag in it.
-/

namespace ManifestSync

open Yaml (Value)

/-- Why a record is no entry. -/
inductive RecordError where
  | notMapping (found : Value)
  | wrongType (found : Value) (expected : String)
  | unknownAutomation (name : String)
  | duplicateField (field : Field)
  | missingField (field : Field)
  | taggedExtra
  deriving Repr, Inhabited

/-- A value of the wrong type in words. `nothing` is the word for the null value. -/
def describeValue (nothing : String) : Value → String
  | .null => nothing
  | .bool b => "boolean `" ++ toString b ++ "`"
  | .int n => "integer `" ++ toString n ++ "`"
  | .float x => "floating point `" ++ String.ofList x.renderPlain ++ "`"
  | .string s => "string " ++ String.ofList (Text.quoted s.toList)
  | .seq _ => "sequence"
  | .map _ => "map"
  | .tagged _ _ => "enum"

/-- The fault of a record in words. `nothing` is the word for the null value. -/
def RecordError.message (nothing : String) : RecordError → String
  | .notMapping found => "expected a mapping, found " ++ found.kind
  | .wrongType found expected =>
    "invalid type: " ++ describeValue nothing found ++ ", expected " ++ expected
  | .unknownAutomation name =>
    "unknown variant `" ++ name ++ "`, expected `ui` or `manual`"
  | .duplicateField field => "duplicate field `" ++ field.name ++ "`"
  | .missingField field => "missing field `" ++ field.name ++ "`"
  | .taggedExtra => "untagged and internally tagged enums do not support enum input"

/-! ## Values of fields -/

/-- Reads a text. -/
def readText (v : Value) : Except RecordError String :=
  match v.untagged with
  | .string s => .ok s
  | other => .error (.wrongType other "a string")

/-- Reads a truth value. -/
def readBool (v : Value) : Except RecordError Bool :=
  match v.untagged with
  | .bool b => .ok b
  | other => .error (.wrongType other "a boolean")

/-- Reads a list of texts; the null value under a tag is the empty list. -/
def readTexts (v : Value) : Except RecordError (List String) :=
  match v.untagged with
  | .seq items => items.mapM readText
  | .null => .ok []
  | other => .error (.wrongType other "a sequence")

/-- Reads a value that may be absent: a bare null value is absence. -/
def readOptional {α : Type} (read : Value → Except RecordError α) :
    Value → Except RecordError (Option α)
  | .null => .ok none
  | v => (read v).map some

/-- The kind of automation with a name. -/
def readAutomationName (name : String) : Except RecordError Automation :=
  match Automation.ofName? name with
  | some a => .ok a
  | none => .error (.unknownAutomation name)

/-- A tag without its exclamation mark. -/
def tagName (tag : String) : String :=
  match tag.toList with
  | '!' :: c :: rest => String.ofList (c :: rest)
  | _ => tag

/-- Reads a kind of automation: its name, or the name as a tag on nothing. -/
def readAutomation : Value → Except RecordError Automation
  | .string name => readAutomationName name
  | .tagged tag content =>
    match readAutomationName (tagName tag), content with
    | .error e, _ => .error e
    | .ok a, .null => .ok a
    | .ok _, other => .error (.wrongType other "unit")
  | other => .error (.wrongType other "a Value::Tagged enum")

/-! ## Records -/

/-- What has been read of a record. -/
structure Draft where
  testId : Option String := none
  testFile : Option String := none
  title : Option String := none
  bugId : Option (Option String) := none
  priority : Option (Option String) := none
  feature : Option (Option String) := none
  tags : Option (Option (List String)) := none
  isSkipped : Option Bool := none
  automation : Option Automation := none
  description : Option (Option String) := none
  expectedResult : Option (Option String) := none
  isAutomated : Option Bool := none
  extra : Extra := .empty
  deriving Repr, Inhabited

namespace Draft

/-- Reads the value of a field that must not have one yet. -/
def fill {α : Type} (field : Field) (slot : Option α) (read : Value → Except RecordError α)
    (v : Value) : Except RecordError (Option α) :=
  match slot with
  | some _ => .error (.duplicateField field)
  | none => (read v).map some

/-- Takes in the value of a managed field. -/
def put (d : Draft) (field : Field) (v : Value) : Except RecordError Draft :=
  match field with
  | .testId => (fill field d.testId readText v).map ({ d with testId := · })
  | .testFile => (fill field d.testFile readText v).map ({ d with testFile := · })
  | .title => (fill field d.title readText v).map ({ d with title := · })
  | .bugId => (fill field d.bugId (readOptional readText) v).map ({ d with bugId := · })
  | .priority => (fill field d.priority (readOptional readText) v).map ({ d with priority := · })
  | .feature => (fill field d.feature (readOptional readText) v).map ({ d with feature := · })
  | .tags => (fill field d.tags (readOptional readTexts) v).map ({ d with tags := · })
  | .isSkipped => (fill field d.isSkipped readBool v).map ({ d with isSkipped := · })
  | .automation => (fill field d.automation readAutomation v).map ({ d with automation := · })
  | .description =>
    (fill field d.description (readOptional readText) v).map ({ d with description := · })
  | .expectedResult =>
    (fill field d.expectedResult (readOptional readText) v).map ({ d with expectedResult := · })
  | .isAutomated => (fill field d.isAutomated readBool v).map ({ d with isAutomated := · })

/-- Takes in one pair of a record. -/
def takePair (d : Draft) (pair : Value × Value) : Except RecordError Draft :=
  match pair.1.untagged with
  | .string key =>
    match Field.ofKey? key with
    | some field => d.put field pair.2
    | none =>
      if pair.2.hasTag then .error .taggedExtra
      else .ok { d with extra := d.extra.insert key pair.2 }
  | other => .error (.wrongType other "field identifier")

/-- The entry of a record that has been read to its end. -/
def finish (d : Draft) : Except RecordError Entry :=
  match d.testId with
  | none => .error (.missingField .testId)
  | some testId => .ok
    { testId
      testFile := d.testFile.getD ""
      title := d.title.getD ""
      bugId := d.bugId.getD none
      priority := d.priority.getD none
      feature := d.feature.getD none
      tags := d.tags.getD none
      isSkipped := d.isSkipped.getD false
      automation := d.automation.getD .manual
      description := d.description.getD none
      expectedResult := d.expectedResult.getD none
      isAutomated := d.isAutomated.getD false
      extra := d.extra }

end Draft

namespace Entry

/-- The entry that the pairs of a record describe. -/
def ofPairs (pairs : List (Value × Value)) : Except RecordError Entry :=
  (pairs.foldlM Draft.takePair {}).bind Draft.finish

/-- The entry that a record describes. -/
def ofRecord (record : Value) : Except RecordError Entry :=
  match record.untagged with
  | .map pairs => ofPairs pairs
  | _ => .error (.notMapping record)

/-- A text that may be absent, as a value. -/
def optional : Option String → Value
  | none => .null
  | some s => .string s

/-- The value of a managed field in the record of an entry. -/
def fieldValue (e : Entry) : Field → Value
  | .testId => .string e.testId
  | .testFile => .string e.testFile
  | .title => .string e.title
  | .bugId => optional e.bugId
  | .priority => optional e.priority
  | .feature => optional e.feature
  | .tags => match e.tags with
    | none => .null
    | some tags => .seq (tags.map .string)
  | .isSkipped => .bool e.isSkipped
  | .automation => .string e.automation.name
  | .description => optional e.description
  | .expectedResult => optional e.expectedResult
  | .isAutomated => .bool e.isAutomated

/-- The record of an entry: every managed field under its key, then the other keys. -/
def toRecord (e : Entry) : Value :=
  .map (Field.all.map (fun field => (.string field.name, e.fieldValue field))
    ++ e.extra.pairs.map fun (key, v) => (.string key, v))

end Entry

end ManifestSync
