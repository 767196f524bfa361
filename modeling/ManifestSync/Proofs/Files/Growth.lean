import ManifestSync.Proofs.Files.Tree

/-!
# Trees that grow

Writing and making directories leaves most of a tree as it is. `Grows touched old new` says what
stays: what is a directory or a file remains one, no link comes, goes or changes, and no file comes
or changes except at the touched places. It is reflexive and transitive, so that it holds from the
start of a run to its end. It follows from what becomes of each place (`Grows.of_kept`), and so a node
that is put into a directory makes the tree grow (`grows_put`).
-/

namespace ManifestSync.Files

open Node (find? put)

/-- What stays of a tree when files are written at some places and directories are made anywhere. -/
structure Grows (touched : List Place) (old new : Node) : Prop where
  /-- A directory stays one. -/
  dir : ∀ {place entries}, find? place old = some (.dir entries) →
    ∃ entries', find? place new = some (.dir entries')
  /-- A file stays one. -/
  file : ∀ {place bytes}, find? place old = some (.file bytes) →
    ∃ bytes', find? place new = some (.file bytes')
  /-- The links are the same. -/
  link : ∀ {place target},
    find? place old = some (.link target) ↔ find? place new = some (.link target)
  /-- The files at all other places are the same. -/
  untouched : ∀ {place bytes}, place ∉ touched →
    (find? place old = some (.file bytes) ↔ find? place new = some (.file bytes))

/-- What may become of what stands at a place, if anything does: it stays, a directory is changed or
made, and if the place is touched a file is written. -/
inductive Kept (touched : Prop) : Option Node → Option Node → Prop
  | same (node : Option Node) : Kept touched node node
  | dir (old new : List (String × Node)) : Kept touched (some (.dir old)) (some (.dir new))
  | made (entries : List (String × Node)) : Kept touched none (some (.dir entries))
  | created (bytes : List UInt8) (h : touched) : Kept touched none (some (.file bytes))
  | written (old new : List UInt8) (h : touched) :
    Kept touched (some (.file old)) (some (.file new))

namespace Grows

/-- A tree grows if each of its places is kept. -/
theorem of_kept {touched : List Place} {old new : Node}
    (h : ∀ place, Kept (place ∈ touched) (find? place old) (find? place new)) :
    Grows touched old new := by
  constructor
  · intro place entries hdir
    have hkept := h place
    rw [hdir] at hkept
    generalize find? place new = node at hkept ⊢
    cases hkept with
    | same => exact ⟨entries, rfl⟩
    | dir _ entries' => exact ⟨entries', rfl⟩
  · intro place bytes hfile
    have hkept := h place
    rw [hfile] at hkept
    generalize find? place new = node at hkept ⊢
    cases hkept with
    | same => exact ⟨bytes, rfl⟩
    | written _ bytes' _ => exact ⟨bytes', rfl⟩
  · intro place target
    have hkept := h place
    generalize find? place old = node at hkept ⊢
    generalize find? place new = node' at hkept ⊢
    cases hkept with
    | same => exact Iff.rfl
    | _ => exact ⟨nofun, nofun⟩
  · intro place bytes hplace
    have hkept := h place
    generalize find? place old = node at hkept ⊢
    generalize find? place new = node' at hkept ⊢
    cases hkept with
    | same => exact Iff.rfl
    | dir => exact ⟨nofun, nofun⟩
    | made => exact ⟨nofun, nofun⟩
    | created _ htouched => exact absurd htouched hplace
    | written _ _ htouched => exact absurd htouched hplace

/-- A tree grows into itself. -/
theorem refl (touched : List Place) (root : Node) : Grows touched root root :=
  ⟨fun h => ⟨_, h⟩, fun h => ⟨_, h⟩, Iff.rfl, fun _ => Iff.rfl⟩

/-- A tree that grows twice grows. -/
theorem trans {touched touched' : List Place} {a b c : Node} (h : Grows touched a b)
    (h' : Grows touched' b c) : Grows (touched ++ touched') a c where
  dir hdir := by
    obtain ⟨entries, hdir⟩ := h.dir hdir
    exact h'.dir hdir
  file hfile := by
    obtain ⟨bytes, hfile⟩ := h.file hfile
    exact h'.file hfile
  link := h.link.trans h'.link
  untouched hplace := by
    rw [List.mem_append, not_or] at hplace
    exact (h.untouched hplace.1).trans (h'.untouched hplace.2)

/-- A file or directory that is there stays, and no link takes its place. -/
theorem exists_find? {touched : List Place} {old new : Node} (h : Grows touched old new)
    {place : Place} {node : Node} (hnode : find? place old = some node)
    (hlink : ∀ target, node ≠ .link target) :
    ∃ node', find? place new = some node' ∧ ∀ target, node' ≠ .link target := by
  cases node with
  | dir entries =>
    obtain ⟨entries', h'⟩ := h.dir hnode
    exact ⟨_, h', fun _ => Node.noConfusion⟩
  | file bytes =>
    obtain ⟨bytes', h'⟩ := h.file hnode
    exact ⟨_, h', fun _ => Node.noConfusion⟩
  | link target => exact absurd rfl (hlink target)

end Grows

/-! ## Putting a node into a directory -/

section
variable {root : Node} {p : Place} {name : String} {entries : List (String × Node)}
  (hp : find? p root = some (.dir entries))
include hp

/-- What stands where after a node without entries was put where no directory was: the node, the old
nodes elsewhere, and directories on the way. -/
theorem find?_put_leaf {node : Node} (hnode : ∀ r, r ≠ [] → find? r node = none)
    (hold : ∀ r, r ≠ [] → find? (p ++ [name] ++ r) root = none) (q : Place) :
    q = p ++ [name] ∨ find? q (put node (p ++ [name]) root) = find? q root ∨
      ∃ old new, find? q root = some (.dir old) ∧
        find? q (put node (p ++ [name]) root) = some (.dir new) := by
  rcases Node.find?_put_cases hp node name q with ⟨r, rfl, h⟩ | h
  · cases r with
    | nil => exact .inl (List.append_nil _)
    | cons a r =>
      refine .inr (.inl ?_)
      rw [h, hnode _ (List.cons_ne_nil a r), hold _ (List.cons_ne_nil a r)]
  · exact .inr h

/-- Putting a file, or a new directory where nothing was, makes the tree grow; a file takes the
place of a file or of nothing. -/
theorem grows_put {touched : List Place} {node : Node}
    (hnode : node = .dir [] ∧ find? (p ++ [name]) root = none ∨
      p ++ [name] ∈ touched ∧ (∃ bytes, node = .file bytes) ∧
        ∀ old, find? (p ++ [name]) root = some old → ∃ bytes, old = .file bytes) :
    Grows touched root (put node (p ++ [name]) root) := by
  have hself : Kept (p ++ [name] ∈ touched) (find? (p ++ [name]) root) (some node) := by
    rcases hnode with ⟨rfl, hnone⟩ | ⟨htouched, ⟨bytes, rfl⟩, hfile⟩
    · rw [hnone]
      exact .made []
    · cases hold : find? (p ++ [name]) root with
      | none => exact .created bytes htouched
      | some old =>
        obtain ⟨bytes', rfl⟩ := hfile old hold
        exact .written bytes' bytes htouched
  -- There is nothing below the new node, and nothing was below what it replaces.
  have hbelow : ∀ r, r ≠ [] → find? r node = none := by
    intro r hr
    obtain ⟨a, r, rfl⟩ := List.exists_cons_of_ne_nil hr
    rcases hnode with ⟨rfl, -⟩ | ⟨-, ⟨bytes, rfl⟩, -⟩ <;> rfl
  have hbefore : ∀ r, r ≠ [] → find? (p ++ [name] ++ r) root = none := by
    intro r hr
    obtain ⟨a, r, rfl⟩ := List.exists_cons_of_ne_nil hr
    rw [Node.find?_append]
    cases hold : find? (p ++ [name]) root with
    | none => rfl
    | some old =>
      rcases hnode with ⟨-, hnone⟩ | ⟨-, -, hfile⟩
      · rw [hold] at hnone
        exact nomatch hnone
      · obtain ⟨bytes, rfl⟩ := hfile old hold
        rfl
  refine .of_kept fun q => ?_
  rcases find?_put_leaf hp hbelow hbefore q with rfl | h | ⟨old, new, h, h'⟩
  · rw [Node.find?_put_self hp node name]
    exact hself
  · rw [h]
    exact .same _
  · rw [h, h']
    exact .dir old new

end

end ManifestSync.Files
