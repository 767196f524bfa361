import Mathlib.Tactic.SplitIfs
import ManifestSync.Files.Tree

/-!
# Looking up what was put

What stands where after a node has been put into a tree: the node at its place and below it what the
node holds, the old nodes elsewhere, and on the way to the place the old directories with one entry
changed (`find?_put_cases`).

A tree is well formed if the entries of each directory have distinct names, each of which can be the
name of a file (`Node.wellFormed`). Putting a node under such a name keeps a tree well formed.
-/

namespace ManifestSync.Files

/-- Whether a text can be the name of a file. -/
def properName (name : String) : Bool :=
  name != "" && name != "." && name != ".." && !name.toList.contains '/'
    && !name.toList.contains (Char.ofNat 0)

namespace Node

/-! ## Entries of a directory -/

section
variable (name : String) (node : Node) (entries : List (String × Node))

/-- The entry of the first name of a list, or else the entry that the rest has. -/
theorem child?_cons (e : String × Node) :
    child? name (e :: entries) = if e.1 = name then some e.2 else child? name entries := by
  unfold child?
  rw [List.find?_cons]
  by_cases h : e.1 = name
  · rw [if_pos h, beq_iff_eq.2 h]
    rfl
  · rw [if_neg h, beq_eq_false_iff_ne.2 h]

/-- A name that no entry has, has no node. -/
theorem child?_eq_none_iff : child? name entries = none ↔ ∀ e ∈ entries, e.1 ≠ name := by
  unfold child?
  rw [Option.map_eq_none_iff, List.find?_eq_none]
  simp only [beq_iff_eq, ne_eq]

/-- The node of a name comes from an entry. -/
theorem mem_of_child? {name : String} {entries : List (String × Node)} {node : Node}
    (h : child? name entries = some node) : (name, node) ∈ entries := by
  unfold child? at h
  obtain ⟨⟨name', node'⟩, hfind, rfl⟩ := Option.map_eq_some_iff.1 h
  have hname := List.find?_some hfind
  obtain rfl := beq_iff_eq.1 hname
  exact List.mem_of_find?_eq_some hfind

/-- Where the entries of a name are replaced, the name has the new node if it had one before, and
other names have their old ones. -/
theorem child?_map_replace (name' : String) :
    child? name' (entries.map fun e => if e.1 == name then (name, node) else e) =
      if name' = name then (child? name entries).map fun _ => node else child? name' entries := by
  induction entries with
  | nil => split_ifs <;> rfl
  | cons e entries ih =>
    rw [List.map_cons, child?_cons, child?_cons, child?_cons, ih]
    by_cases he : e.1 = name
    · subst he
      by_cases hname : name' = e.1
      · simp [hname]
      · simp [hname, Ne.symm hname]
    · by_cases hname : name' = name
      · simp [he, hname]
      · simp [he, hname]

/-- After a name was given a node, it has that node, and other names have their old ones. -/
theorem child?_setEntry (name' : String) :
    child? name' (setEntry name node entries) =
      if name' = name then some node else child? name' entries := by
  unfold setEntry
  cases hany : entries.any (·.1 == name) with
  | true =>
    obtain ⟨e, he, hname⟩ := List.any_eq_true.1 hany
    have hsome : child? name entries ≠ none := fun h =>
      (child?_eq_none_iff name entries).1 h e he (beq_iff_eq.1 hname)
    obtain ⟨old, hold⟩ := Option.ne_none_iff_exists'.1 hsome
    rw [if_pos rfl, child?_map_replace, hold]
    rfl
  | false =>
    have hnone : child? name entries = none := by
      rw [child?_eq_none_iff]
      intro e he heq
      exact List.any_eq_false.1 hany e he (beq_iff_eq.2 heq)
    have happend : child? name' (entries ++ [(name, node)]) =
        (child? name' entries).or (child? name' [(name, node)]) := by
      unfold child?
      rw [List.find?_append, Option.map_or]
    rw [if_neg Bool.false_ne_true, happend, child?_cons]
    by_cases hname : name' = name
    · rw [if_pos hname.symm, if_pos hname, hname, hnone]
      rfl
    · rw [if_neg (Ne.symm hname), if_neg hname]
      exact Option.or_none

end

/-! ## Looking up -/

/-- The node behind a name in a directory is found from the entry of the name. -/
theorem find?_cons (name : String) (p : Place) (entries : List (String × Node)) :
    find? (name :: p) (.dir entries) = (child? name entries).bind (find? p) := rfl

/-- A place is looked up in two parts. -/
theorem find?_append (p q : Place) (root : Node) :
    find? (p ++ q) root = (find? p root).bind (find? q) := by
  induction p generalizing root with
  | nil => rfl
  | cons name p ih =>
    cases root with
    | dir entries =>
      rw [List.cons_append, find?_cons, find?_cons, Option.bind_assoc]
      exact congrArg _ (funext ih)
    | file bytes => rfl
    | link target => rfl

/-- What stands in a directory is the entry of its name. -/
theorem find?_concat {p : Place} {root : Node} {entries : List (String × Node)}
    (h : find? p root = some (.dir entries)) (name : String) :
    find? (p ++ [name]) root = child? name entries := by
  rw [find?_append, h]
  show (child? name entries).bind some = _
  cases child? name entries <;> rfl

/-- Something stands at a place in a directory only. -/
theorem exists_dir_of_find?_concat {p : Place} {root : Node} {name : String} {node : Node}
    (h : find? (p ++ [name]) root = some node) : ∃ entries, find? p root = some (.dir entries) := by
  rw [find?_append, Option.bind_eq_some_iff] at h
  obtain ⟨parent, hparent, h⟩ := h
  cases parent with
  | dir entries => exact ⟨entries, hparent⟩
  | file bytes => exact nomatch h
  | link target => exact nomatch h

/-! ## Putting a node into a tree -/

/-- A node for a name is put into the entries. -/
theorem put_name (node : Node) (name : String) (entries : List (String × Node)) :
    put node [name] (.dir entries) = .dir (setEntry name node entries) := rfl

/-- A node for a place further down is put into the entry on the way. -/
theorem put_cons_concat (node : Node) (a : String) (p : Place) (name : String)
    (entries : List (String × Node)) :
    put node (a :: (p ++ [name])) (.dir entries) =
      match child? a entries with
      | some child => .dir (setEntry a (put node (p ++ [name]) child) entries)
      | none => .dir entries := by
  cases p <;> rfl

/-- After a node was put into a directory, there is the node with what it holds at its place; every
other place has its old node, or is that of a directory that has remained one. -/
theorem find?_put_cases {root : Node} {p : Place} {entries : List (String × Node)}
    (hp : find? p root = some (.dir entries)) (node : Node) (name : String) (q : Place) :
    (∃ r, q = p ++ [name] ++ r ∧ find? q (put node (p ++ [name]) root) = find? r node) ∨
      find? q (put node (p ++ [name]) root) = find? q root ∨
      (∃ old new, find? q root = some (.dir old) ∧
        find? q (put node (p ++ [name]) root) = some (.dir new)) := by
  -- Along the way to the node: a place ends on it, leaves it, or follows it further down.
  induction p generalizing root q with
  | nil =>
    obtain rfl := Option.some.inj hp
    cases q with
    | nil => exact .inr (.inr ⟨_, _, rfl, rfl⟩)
    | cons b q =>
      rw [List.nil_append, put_name, find?_cons, child?_setEntry]
      by_cases hb : b = name
      · subst hb
        refine .inl ⟨q, rfl, ?_⟩
        rw [if_pos rfl]
        rfl
      · rw [if_neg hb]
        exact .inr (.inl rfl)
  | cons a p ih =>
    cases root with
    | file bytes => exact nomatch hp
    | link target => exact nomatch hp
    | dir es =>
      obtain ⟨child, hchild, hp'⟩ := Option.bind_eq_some_iff.1 hp
      rw [List.cons_append, put_cons_concat, hchild]
      cases q with
      | nil => exact .inr (.inr ⟨_, _, rfl, rfl⟩)
      | cons b q =>
        rw [find?_cons, find?_cons, child?_setEntry]
        by_cases hb : b = a
        · -- The place lies below the same entry as the node that is put.
          subst hb
          rw [if_pos rfl, hchild, Option.bind_some, Option.bind_some]
          rcases ih hp' q with ⟨r, rfl, h⟩ | h | h
          · exact .inl ⟨r, rfl, h⟩
          · exact .inr (.inl h)
          · exact .inr (.inr h)
        · rw [if_neg hb]
          exact .inr (.inl rfl)

/-- After a node was put into a directory, it is at its place. -/
theorem find?_put_self {root : Node} {p : Place} {entries : List (String × Node)}
    (hp : find? p root = some (.dir entries)) (node : Node) (name : String) :
    find? (p ++ [name]) (put node (p ++ [name]) root) = some node := by
  induction p generalizing root with
  | nil =>
    obtain rfl := Option.some.inj hp
    rw [List.nil_append, put_name, find?_cons, child?_setEntry, if_pos rfl]
    rfl
  | cons a p ih =>
    cases root with
    | file bytes => exact nomatch hp
    | link target => exact nomatch hp
    | dir es =>
      obtain ⟨child, hchild, hp'⟩ := Option.bind_eq_some_iff.1 hp
      rw [List.cons_append, put_cons_concat, hchild]
      dsimp only
      rw [find?_cons, child?_setEntry, if_pos rfl]
      exact ih hp'

/-- After a node was put in place of another one, what it holds stands below its place. -/
theorem find?_put_append {root old : Node} {place : Place} (h : find? place root = some old)
    (node : Node) (below : Place) :
    find? (place ++ below) (put node place root) = find? below node := by
  rcases List.eq_nil_or_concat place with rfl | ⟨p, name, rfl⟩
  · rw [List.nil_append, put]
  · rw [List.concat_eq_append] at h ⊢
    obtain ⟨entries, hp⟩ := exists_dir_of_find?_concat h
    rw [find?_append, find?_put_self hp node name, Option.bind_some]

/-! ## Well-formed trees -/

mutual

/-- Whether the entries of each directory have distinct names, each of which can be that of a file. -/
def wellFormed : Node → Bool
  | .dir entries => decide (entries.map (·.1)).Nodup && wellFormedEntries entries
  | _ => true

/-- Whether entries have names that can be those of files and lead to well-formed trees. -/
def wellFormedEntries : List (String × Node) → Bool
  | [] => true
  | (name, node) :: rest => properName name && node.wellFormed && wellFormedEntries rest

end

/-- Entries are well formed exactly if each of them is. -/
theorem wellFormedEntries_iff {entries : List (String × Node)} :
    wellFormedEntries entries = true ↔
      ∀ e ∈ entries, properName e.1 = true ∧ e.2.wellFormed = true := by
  induction entries with
  | nil => simp [wellFormedEntries]
  | cons e entries ih =>
    rw [wellFormedEntries, Bool.and_eq_true_iff, Bool.and_eq_true_iff, ih, List.forall_mem_cons]

/-- A directory is well formed exactly if its names are distinct and its entries well formed. -/
theorem wellFormed_dir_iff {entries : List (String × Node)} :
    (Node.dir entries).wellFormed = true ↔ (entries.map (·.1)).Nodup ∧
      ∀ e ∈ entries, properName e.1 = true ∧ e.2.wellFormed = true := by
  rw [wellFormed, Bool.and_eq_true_iff, wellFormedEntries_iff, decide_eq_true_iff]

/-- In a well-formed directory the node of a name is that of its only entry. -/
theorem child?_eq_some_iff {entries : List (String × Node)} (h : (entries.map (·.1)).Nodup)
    {name : String} {node : Node} : child? name entries = some node ↔ (name, node) ∈ entries := by
  refine ⟨mem_of_child?, fun hmem => ?_⟩
  induction entries with
  | nil => exact absurd hmem List.not_mem_nil
  | cons e entries ih =>
    obtain ⟨hnot, hnodup⟩ := List.nodup_cons.1 h
    rw [child?_cons]
    rcases List.mem_cons.1 hmem with rfl | hmem
    · rw [if_pos rfl]
    · rw [if_neg, ih hnodup hmem]
      intro heq
      exact hnot (List.mem_map.2 ⟨_, hmem, heq.symm⟩)

/-- What stands in a well-formed tree is well formed. -/
theorem wellFormed_of_find? {p : Place} {root node : Node} (hroot : root.wellFormed = true)
    (h : find? p root = some node) : node.wellFormed = true := by
  induction p generalizing root with
  | nil => exact Option.some.inj h ▸ hroot
  | cons name p ih =>
    cases root with
    | file bytes => exact nomatch h
    | link target => exact nomatch h
    | dir entries =>
      obtain ⟨child, hchild, h⟩ := Option.bind_eq_some_iff.1 h
      exact ih ((wellFormed_dir_iff.1 hroot).2 _ (mem_of_child? hchild)).2 h

/-- The names on the way to what stands in a well-formed tree can be those of files. -/
theorem properName_of_find? {p : Place} {root node : Node} (hroot : root.wellFormed = true)
    (h : find? p root = some node) : ∀ name ∈ p, properName name = true := by
  induction p generalizing root with
  | nil => exact List.forall_mem_nil _
  | cons name p ih =>
    cases root with
    | file bytes => exact nomatch h
    | link target => exact nomatch h
    | dir entries =>
      obtain ⟨child, hchild, h⟩ := Option.bind_eq_some_iff.1 h
      obtain ⟨hname, hwell⟩ := (wellFormed_dir_iff.1 hroot).2 _ (mem_of_child? hchild)
      exact List.forall_mem_cons.2 ⟨hname, ih hwell h⟩

/-- An entry after a name was given a node is the new one or an old one. -/
theorem mem_setEntry {name : String} {node : Node} {entries : List (String × Node)}
    {e : String × Node} (h : e ∈ setEntry name node entries) : e = (name, node) ∨ e ∈ entries := by
  unfold setEntry at h
  split at h
  · obtain ⟨old, hold, rfl⟩ := List.mem_map.1 h
    split
    · exact .inl rfl
    · exact .inr hold
  · rcases List.mem_append.1 h with h | h
    · exact .inr h
    · exact .inl (List.mem_singleton.1 h)

/-- Distinct names stay distinct when a name is given a node. -/
theorem nodup_setEntry {entries : List (String × Node)} (h : (entries.map (·.1)).Nodup)
    (name : String) (node : Node) : ((setEntry name node entries).map (·.1)).Nodup := by
  unfold setEntry
  split
  · have hnames : (entries.map fun e => if e.1 == name then (name, node) else e).map (·.1) =
        entries.map (·.1) := by
      rw [List.map_map]
      refine List.map_congr_left fun e _ => ?_
      by_cases he : e.1 = name
      · simp [he]
      · simp [he]
    rw [hnames]
    exact h
  · rename_i hany
    rw [List.map_append, List.nodup_append]
    refine ⟨h, List.pairwise_singleton _ name, ?_⟩
    rintro a ha b hb rfl
    obtain ⟨e, he, rfl⟩ := List.mem_map.1 ha
    exact hany (List.any_eq_true.2 ⟨e, he, beq_iff_eq.2 (List.mem_singleton.1 hb)⟩)

/-- A well-formed directory stays so when a name that can be that of a file gets a well-formed node. -/
theorem wellFormed_setEntry {entries : List (String × Node)}
    (hentries : (Node.dir entries).wellFormed = true) {name : String}
    (hname : properName name = true) {node : Node} (hnode : node.wellFormed = true) :
    (Node.dir (setEntry name node entries)).wellFormed = true := by
  obtain ⟨hnodup, hgood⟩ := wellFormed_dir_iff.1 hentries
  refine wellFormed_dir_iff.2 ⟨nodup_setEntry hnodup name node, fun e he => ?_⟩
  rcases mem_setEntry he with rfl | he
  · exact ⟨hname, hnode⟩
  · exact hgood e he

/-- A well-formed tree stays so when a well-formed node is put into one of its directories under a
name that can be that of a file. -/
theorem wellFormed_put {root : Node} (hroot : root.wellFormed = true) {p : Place}
    {entries : List (String × Node)} (hp : find? p root = some (.dir entries)) {name : String}
    (hname : properName name = true) {node : Node} (hnode : node.wellFormed = true) :
    (put node (p ++ [name]) root).wellFormed = true := by
  induction p generalizing root with
  | nil =>
    obtain rfl := Option.some.inj hp
    exact wellFormed_setEntry hroot hname hnode
  | cons a p ih =>
    cases root with
    | file bytes => exact nomatch hp
    | link target => exact nomatch hp
    | dir es =>
      obtain ⟨child, hchild, hp'⟩ := Option.bind_eq_some_iff.1 hp
      obtain ⟨ha, hwell⟩ := (wellFormed_dir_iff.1 hroot).2 _ (mem_of_child? hchild)
      rw [List.cons_append, put_cons_concat, hchild]
      exact wellFormed_setEntry hroot ha (ih hwell hp')

end Node

end ManifestSync.Files
