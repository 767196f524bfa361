import ManifestSync.Yaml.Value

/-!
# JSON output

The values that are written as JSON, in the order in which their fields are given, indented by two
spaces a level. `toYaml` is the same value for output as YAML.
-/

namespace ManifestSync.Json

/-- A value to be written. -/
inductive Value where
  | null
  | bool (b : Bool)
  | nat (n : Nat)
  | text (s : String)
  | list (items : List Value)
  | record (fields : List (String × Value))
  deriving Repr, Inhabited

/-- A character of a string, escaped if it is a quote, a backslash or a control. -/
def escapedChar (c : Char) : List Char :=
  let n := c.toNat
  if c = '"' then ['\\', '"']
  else if c = '\\' then ['\\', '\\']
  else if 32 ≤ n then [c]
  else if n = 8 then ['\\', 'b']
  else if n = 9 then ['\\', 't']
  else if n = 10 then ['\\', 'n']
  else if n = 12 then ['\\', 'f']
  else if n = 13 then ['\\', 'r']
  else ['\\', 'u', '0', '0', Nat.digitChar (n / 16), Nat.digitChar (n % 16)]

/-- A string with its quotes. -/
def quotedString (s : String) : List Char :=
  '"' :: s.toList.flatMap escapedChar ++ ['"']

/-- A line break and the indentation of a level. -/
def newLine (level : Nat) : List Char :=
  '\n' :: List.replicate (2 * level) ' '

/-- Items between two brackets, each on a line of its own one level deeper. -/
def bracketed (opening closing : Char) (level : Nat) (items : List (List Char)) : List Char :=
  if items.isEmpty then [opening, closing]
  else
    opening :: ((items.map (newLine (level + 1) ++ ·)).intersperse [',']).flatten
      ++ newLine level ++ [closing]

namespace Value

mutual

/-- A value at a level of indentation. -/
def renderAt (level : Nat) : Value → List Char
  | .null => ['n', 'u', 'l', 'l']
  | .bool true => ['t', 'r', 'u', 'e']
  | .bool false => ['f', 'a', 'l', 's', 'e']
  | .nat n => Nat.toDigits 10 n
  | .text s => quotedString s
  | .list items => bracketed '[' ']' level (renderItems (level + 1) items)
  | .record fields => bracketed '{' '}' level (renderFields (level + 1) fields)

/-- The items of a list at a level of indentation. -/
def renderItems (level : Nat) : List Value → List (List Char)
  | [] => []
  | item :: rest => item.renderAt level :: renderItems level rest

/-- The fields of a record at a level of indentation. -/
def renderFields (level : Nat) : List (String × Value) → List (List Char)
  | [] => []
  | (name, value) :: rest =>
    (quotedString name ++ [':', ' '] ++ value.renderAt level) :: renderFields level rest

end

/-- A value as text, without a line break at the end. -/
def render (v : Value) : List Char := v.renderAt 0

mutual

/-- The same value in YAML. -/
def toYaml : Value → Yaml.Value
  | .null => .null
  | .bool b => .bool b
  | .nat n => .int n
  | .text s => .string s
  | .list items => .seq (itemsToYaml items)
  | .record fields => .map (fieldsToYaml fields)

/-- The same items in YAML. -/
def itemsToYaml : List Value → List Yaml.Value
  | [] => []
  | item :: rest => item.toYaml :: itemsToYaml rest

/-- The same fields in YAML. -/
def fieldsToYaml : List (String × Value) → List (Yaml.Value × Yaml.Value)
  | [] => []
  | (name, value) :: rest => (.string name, value.toYaml) :: fieldsToYaml rest

end

end Value

end ManifestSync.Json
