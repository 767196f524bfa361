import Std.Data.TreeMap

/-!
# Keys of tests

A test is known by its identifier, either within its file or in the whole manifest. A `TestKey`
holds both parts; under the global scope the file part is empty. Keys are ordered by file and then
by identifier, both by code points.
-/

namespace ManifestSync

/-- What a test is known by. -/
structure TestKey where
  /-- The file that declares the test, relative to the scan root; empty under the global scope. -/
  file : String
  /-- The identifier. -/
  id : String
  deriving DecidableEq, Repr, Inhabited

namespace TestKey

instance : Ord TestKey := ⟨compareLex (compareOn TestKey.file) (compareOn TestKey.id)⟩

instance : Std.TransOrd TestKey :=
  inferInstanceAs (Std.TransCmp (compareLex (compareOn TestKey.file) (compareOn TestKey.id)))

instance : Std.LawfulEqOrd TestKey where
  eq_of_compare {a b} h := by
    obtain ⟨af, ai⟩ := a
    obtain ⟨bf, bi⟩ := b
    have h' : (compare af bf).then (compare ai bi) = .eq := h
    rw [Ordering.then_eq_eq] at h'
    rw [Std.LawfulEqOrd.eq_of_compare h'.1, Std.LawfulEqOrd.eq_of_compare h'.2]

/-- The key in words: the identifier, behind its file if there is one. -/
def display (key : TestKey) : String :=
  if key.file.isEmpty then key.id else key.file ++ "::" ++ key.id

end TestKey

/-- Where an identifier is unique. -/
inductive KeyScope where
  /-- Within the file that declares the test. -/
  | file
  /-- In the whole manifest. -/
  | global
  deriving DecidableEq, Repr, Inhabited

namespace KeyScope

/-- The key of a test under a scope. -/
def key : KeyScope → (file id : String) → TestKey
  | .file, f, i => ⟨f, i⟩
  | .global, _, i => ⟨"", i⟩

/-- The word for a scope. -/
def name : KeyScope → String
  | .file => "file"
  | .global => "global"

/-- The scope that a word stands for. -/
def ofName? (name : String) : Option KeyScope :=
  [KeyScope.file, KeyScope.global].find? (·.name == name)

end KeyScope

end ManifestSync
