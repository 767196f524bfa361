import ManifestSync.Yaml.Value

/-!
# Unmanaged keys of a record

A record may have keys that the tool does not manage. They are kept with their values, sorted by
key and each once; two `Extra`s are equal exactly if they hold the same pairs.
-/

namespace ManifestSync

open Yaml (Value)

/-- Puts a pair into a list of pairs sorted by key, in place of a pair with the same key. -/
def insertSorted (key : String) (value : Value) : List (String × Value) → List (String × Value)
  | [] => [(key, value)]
  | (k, v) :: rest =>
    if key < k then (key, value) :: (k, v) :: rest
    else if k < key then (k, v) :: insertSorted key value rest
    else (key, value) :: rest

/-- The keys of the list after an insertion are the new key and the old ones. -/
theorem mem_insertSorted {key : String} {value : Value} {pairs : List (String × Value)}
    {p : String × Value} (h : p ∈ insertSorted key value pairs) :
    p = (key, value) ∨ p ∈ pairs := by
  induction pairs with
  | nil => simpa [insertSorted] using h
  | cons q rest ih =>
    obtain ⟨k, v⟩ := q
    unfold insertSorted at h
    split at h
    · simpa using h
    · split at h
      · rcases List.mem_cons.1 h with rfl | h
        · exact .inr List.mem_cons_self
        · exact (ih h).imp_right (List.mem_cons_of_mem _)
      · rcases List.mem_cons.1 h with rfl | h
        · exact .inl rfl
        · exact .inr (List.mem_cons_of_mem _ h)

/-- Insertion keeps a list sorted by strictly increasing keys. -/
theorem pairwise_insertSorted (key : String) (value : Value) {pairs : List (String × Value)}
    (h : pairs.Pairwise (·.1 < ·.1)) : (insertSorted key value pairs).Pairwise (·.1 < ·.1) := by
  induction pairs with
  | nil => simp [insertSorted]
  | cons q rest ih =>
    obtain ⟨k, v⟩ := q
    obtain ⟨hk, hrest⟩ := List.pairwise_cons.1 h
    unfold insertSorted
    split
    · rename_i hlt
      refine List.pairwise_cons.2 ⟨fun p hp => ?_, h⟩
      rcases List.mem_cons.1 hp with rfl | hp
      · exact hlt
      · exact String.lt_trans hlt (hk p hp)
    · split
      · rename_i hlt
        refine List.pairwise_cons.2 ⟨fun p hp => ?_, ih hrest⟩
        rcases mem_insertSorted hp with rfl | hp
        · exact hlt
        · exact hk p hp
      · rename_i h1 h2
        have hkey : k = key := String.le_antisymm h1 h2
        subst hkey
        exact List.pairwise_cons.2 ⟨hk, hrest⟩

/-- The unmanaged keys of a record with their values. -/
structure Extra where
  pairs : List (String × Value)
  sorted : pairs.Pairwise (·.1 < ·.1)
  deriving Repr

namespace Extra

/-- No keys. -/
def empty : Extra := ⟨[], .nil⟩

instance : Inhabited Extra := ⟨empty⟩

/-- Adds a key with its value; a value that the key had before is dropped. -/
def insert (extra : Extra) (key : String) (value : Value) : Extra :=
  ⟨insertSorted key value extra.pairs, pairwise_insertSorted key value extra.sorted⟩

/-- The pairs of a list by key; of several pairs with one key the last counts. -/
def ofList (pairs : List (String × Value)) : Extra :=
  pairs.foldl (fun extra p => extra.insert p.1 p.2) empty

/-- The value of a key. -/
def get? (extra : Extra) (key : String) : Option Value :=
  (extra.pairs.find? (·.1 == key)).map (·.2)

@[ext]
theorem ext {a b : Extra} (h : a.pairs = b.pairs) : a = b := by
  cases a
  cases b
  cases h
  rfl

/-- Whether two records have the same unmanaged keys with values that mean the same. -/
def same (a b : Extra) : Bool :=
  a.pairs.length == b.pairs.length
    && (a.pairs.zip b.pairs).all fun (p, q) => p.1 == q.1 && p.2.same q.2

end Extra

end ManifestSync
