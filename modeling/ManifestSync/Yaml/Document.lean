import ManifestSync.Yaml.Node
import ManifestSync.Yaml.Scalar

/-!
# Reading a document

`Value.parse?` reads a text that holds one YAML document. It refuses a text that is not well formed,
a second document, a mapping with the same key twice, collections nested more than 128 deep, aliases
that are followed more than a hundred times as often as the document has events, and integers beyond
64 bits.
-/

namespace ManifestSync.Yaml

namespace Value

/-- The collections that may be nested in one another. -/
def maxDepth : Nat := 128

/-- A tag of the standard set. -/
def standardTag (name : String) : List Char := ("tag:yaml.org,2002:" ++ name).toList

/-- The value of a scalar that has a tag which is not one of the application's. -/
def ofTagged? (tag text : List Char) : Option Value :=
  if tag == standardTag "bool" then (bool? text).map .bool
  else if tag == standardTag "int" then (integer? text).bind ofInteger
  else if tag == standardTag "float" then (float? text).map .float
  else if tag == standardTag "null" then if isNull text then some .null else none
  else some (.string (String.ofList text))

/-- The value of a scalar without a tag. -/
def ofUntagged? (text : List Char) (plain : Bool) : Option Value :=
  if plain then ofPlain text else some (.string (String.ofList text))

/-- Puts a value under the tag of a node. -/
def underTag (props : Properties) (v : Value) : Value :=
  match props.tag with
  | some ('!' :: rest) => .tagged (String.ofList ('!' :: rest)) v
  | _ => v

/-- The value of a scalar. -/
def ofScalar? (props : Properties) (text : List Char) (plain : Bool) : Option Value :=
  match props.tag with
  | none => ofUntagged? text plain
  | some ('!' :: _) => (ofUntagged? text plain).map (underTag props)
  | some tag => ofTagged? tag text

/-- Adds a pair to a mapping that must not have its key yet. -/
def addPair? (pairs : List (Value × Value)) (key value : Value) : Option (List (Value × Value)) :=
  if pairs.any fun p => p.1.same key then none else some (pairs ++ [(key, value)])

/-- The nodes that have an anchor, each with its number. -/
structure Links where
  named : List (Nat × Node Nat)

/-- The node that an alias stands for: of several with its number, the last one. -/
def Links.target? (links : Links) (number : Nat) : Option (Node Nat) :=
  (links.named.reverse.find? (·.1 == number)).map (·.2)

/-- Follows a node that is an alias; `jumps` is how many aliases may still be followed. -/
def follow? (links : Links) (jumps : Nat) : Node Nat → Option (Node Nat × Nat)
  | .alias number =>
    match jumps with
    | 0 => none
    | jumps + 1 => (links.target? number).map (·, jumps)
  | node => some (node, jumps)

/-- The value of a node in which collections may be nested to a depth, and how many aliases may
still be followed behind it. -/
def ofNode? (links : Links) : (depth jumps : Nat) → Node Nat → Option (Value × Nat)
  | depth, jumps, node => do
    let (node, jumps) ← follow? links jumps node
    match node, depth with
    | .alias _, _ => none
    | .scalar props text plain, _ => return (← ofScalar? props text plain, jumps)
    | .sequence props items, depth + 1 =>
      let (values, jumps) ← items.foldlM (fun (values, jumps) item => do
        let (value, jumps) ← ofNode? links depth jumps item
        return (value :: values, jumps)) (([] : List Value), jumps)
      return (underTag props (.seq values.reverse), jumps)
    | .mapping props pairs, depth + 1 =>
      let (values, jumps) ← pairs.foldlM (fun (values, jumps) (key, value) => do
        let (key, jumps) ← ofNode? links depth jumps key
        let (value, jumps) ← ofNode? links depth jumps value
        return (← addPair? values key value, jumps)) (([] : List (Value × Value)), jumps)
      return (underTag props (.map values), jumps)
    | _, 0 => none

/-- The value that a text holds. -/
def parse? (text : List Char) : Option Value := do
  let node ← Node.ofTokens? (← Token.scan? text)
  let linked ← Node.link? [] node
  let (value, _) ← ofNode? ⟨linked.named⟩ maxDepth (100 * linked.node.size) linked.node
  return value

end Value

end ManifestSync.Yaml
