import ManifestSync.Decimal.Binary64

/-!
# YAML values

The tree that a document denotes. A mapping is a list of pairs in document order. `same` compares
values as the format means them: the order of a mapping does not matter, both zeros are one number,
and so is every NaN.
-/

namespace ManifestSync.Yaml

/-- What a YAML document denotes. -/
inductive Value where
  | null
  | bool (b : Bool)
  | int (n : Int)
  | float (x : Decimal.Binary64)
  | string (s : String)
  | seq (items : List Value)
  | map (pairs : List (Value × Value))
  /-- A value under a tag of the application, which is written with its exclamation mark. -/
  | tagged (tag : String) (value : Value)
  deriving Repr, Inhabited

namespace Value

mutual

/-- Whether two values mean the same. -/
def same : Value → Value → Bool
  | .null, .null => true
  | .bool a, .bool b => a == b
  | .int a, .int b => a == b
  | .float a, .float b => a.same b
  | .string a, .string b => a == b
  | .seq as, .seq bs => sameItems as bs
  | .map ps, .map qs => ps.length == qs.length && sameWithin ps qs
  | .tagged t a, .tagged u b => t == u && same a b
  | _, _ => false

/-- Whether the items of two lists mean the same, one by one. -/
def sameItems : List Value → List Value → Bool
  | [], [] => true
  | a :: as, b :: bs => same a b && sameItems as bs
  | _, _ => false

/-- Whether each pair of a list has an equivalent in another list. -/
def sameWithin : List (Value × Value) → List (Value × Value) → Bool
  | [], _ => true
  | (k, v) :: rest, qs => qs.any (fun q => same k q.1 && same v q.2) && sameWithin rest qs

end

mutual

/-- Whether a value is or contains a tagged value. -/
def hasTag : Value → Bool
  | .tagged _ _ => true
  | .seq items => anyTag items
  | .map pairs => anyTagInPairs pairs
  | _ => false

/-- Whether an item of a list contains a tagged value. -/
def anyTag : List Value → Bool
  | [] => false
  | item :: rest => item.hasTag || anyTag rest

/-- Whether a key or value of a list of pairs contains a tagged value. -/
def anyTagInPairs : List (Value × Value) → Bool
  | [] => false
  | (k, v) :: rest => k.hasTag || v.hasTag || anyTagInPairs rest

end

/-- The value under all tags. -/
def untagged : Value → Value
  | .tagged _ v => v.untagged
  | v => v

/-- A value in words, for a message that says what was found in place of something else. -/
def kind : Value → String
  | .null => "an empty document"
  | .bool _ => "a boolean"
  | .int _ => "a number"
  | .float _ => "a number"
  | .string _ => "a string"
  | .seq _ => "a list"
  | .map _ => "a mapping"
  | .tagged _ _ => "a tagged value"

end Value

end ManifestSync.Yaml
