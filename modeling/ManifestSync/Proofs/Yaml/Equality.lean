import ManifestSync.Yaml.Value

/-!
# Equality of values

Two YAML values are compared as trees: the order of a mapping matters, and so does which of the two
zeros a number is. `Value.equal` computes it, along the three kinds of lists that a tree is made of,
and `Value.equal_iff` makes equality decidable, so that what reading gives for a text can be tested.
-/

namespace ManifestSync.Yaml.Value

mutual

/-- Whether two values are the same tree. -/
def equal : Value → Value → Bool
  | .null, .null => true
  | .bool a, .bool b => a == b
  | .int a, .int b => a == b
  | .float a, .float b => a == b
  | .string a, .string b => a == b
  | .seq as, .seq bs => equalItems as bs
  | .map ps, .map qs => equalPairs ps qs
  | .tagged t a, .tagged u b => t == u && equal a b
  | _, _ => false

/-- Whether two lists have the same trees as items. -/
def equalItems : List Value → List Value → Bool
  | [], [] => true
  | a :: as, b :: bs => equal a b && equalItems as bs
  | _, _ => false

/-- Whether two mappings have the same trees as keys and values, in the same order. -/
def equalPairs : List (Value × Value) → List (Value × Value) → Bool
  | [], [] => true
  | (k, v) :: ps, (l, w) :: qs => equal k l && equal v w && equalPairs ps qs
  | _, _ => false

end

mutual

/-- Values are equal exactly if they are the same tree. -/
theorem equal_iff : (a b : Value) → (equal a b = true ↔ a = b)
  | .seq as, b => by
    cases b with
    | seq bs => rw [equal, equalItems_iff as bs, Value.seq.injEq]
    | _ => exact ⟨nofun, nofun⟩
  | .map ps, b => by
    cases b with
    | map qs => rw [equal, equalPairs_iff ps qs, Value.map.injEq]
    | _ => exact ⟨nofun, nofun⟩
  | .tagged t a, b => by
    cases b with
    | tagged u b => rw [equal, Bool.and_eq_true_iff, beq_iff_eq, equal_iff a b, Value.tagged.injEq]
    | _ => exact ⟨nofun, nofun⟩
  | .null, b => by cases b <;> simp [equal]
  | .bool a, b => by cases b <;> simp [equal]
  | .int a, b => by cases b <;> simp [equal]
  | .float a, b => by cases b <;> simp [equal]
  | .string a, b => by cases b <;> simp [equal]

/-- Lists of values are equal exactly if their items are. -/
theorem equalItems_iff : (as bs : List Value) → (equalItems as bs = true ↔ as = bs)
  | [], [] => ⟨fun _ => rfl, fun _ => rfl⟩
  | [], _ :: _ => ⟨nofun, nofun⟩
  | _ :: _, [] => ⟨nofun, nofun⟩
  | a :: as, b :: bs => by
    rw [equalItems, Bool.and_eq_true_iff, equal_iff a b, equalItems_iff as bs, List.cons.injEq]

/-- Mappings are equal exactly if their pairs are. -/
theorem equalPairs_iff : (ps qs : List (Value × Value)) → (equalPairs ps qs = true ↔ ps = qs)
  | [], [] => ⟨fun _ => rfl, fun _ => rfl⟩
  | [], _ :: _ => ⟨nofun, nofun⟩
  | _ :: _, [] => ⟨nofun, nofun⟩
  | (k, v) :: ps, (l, w) :: qs => by
    rw [equalPairs, Bool.and_eq_true_iff, Bool.and_eq_true_iff, equal_iff k l, equal_iff v w,
      equalPairs_iff ps qs, List.cons.injEq, Prod.mk.injEq]

end

instance : DecidableEq Value := fun a b => decidable_of_iff (equal a b = true) (equal_iff a b)

end ManifestSync.Yaml.Value
