import Mathlib.Data.List.Sort
import Mathlib.Tactic.SplitIfs
import ManifestSync.Files.Sources
import ManifestSync.Proofs.Files.Resolve

/-!
# Listing the sources

A source of a directory is a list of names that leads from it to a file or a link, the last of the
names with a suffix that counts (`IsListed`). The listing of a well-formed directory has every source
once (`mem_listEntries_iff`), in the order of the names (`pairwise_listEntries`), so that two
directories with the same sources have the same listing (`listEntries_eq_of_isListed`). The path of a
listed file leads to it (`Disk.Leads.along`): no link is passed on the way from the scanned
directory, and the names are joined as they are.
-/

namespace ManifestSync.Files

open Node (find? child?)

variable {suffixes : List String} {entries : List (String × Node)}

/-! ## Members of a listing -/

/-- Some names lead from a directory to a file or a link, and the last of them has a suffix that
counts. -/
def IsListed (suffixes : List String) (entries : List (String × Node)) (names : List String) :
    Prop :=
  ∃ node, find? names (.dir entries) = some node ∧ node.isDir = false ∧
    ∃ name, names.getLast? = some name ∧ hasSuffix suffixes name = true

/-- The sources of each entry are those of its node under its name. -/
theorem listEach_eq_map (entries : List (String × Node)) :
    listEach suffixes entries = entries.map fun e => (e.1, listNode suffixes e.1 e.2) := by
  induction entries with
  | nil => rw [listEach, List.map_nil]
  | cons e entries ih => rw [listEach, ih, List.map_cons]

/-- A listing has the sources of each entry. -/
theorem mem_listEntries {names : List String} :
    names ∈ listEntries suffixes entries ↔ ∃ e ∈ entries, names ∈ listNode suffixes e.1 e.2 := by
  unfold listEntries arrange sortEntries
  rw [List.mem_flatten]
  simp only [List.mem_map, List.mem_mergeSort, listEach_eq_map]
  constructor
  · rintro ⟨_, ⟨_, ⟨e, he, rfl⟩, rfl⟩, hnames⟩
    exact ⟨e, he, hnames⟩
  · rintro ⟨e, he, hnames⟩
    exact ⟨_, ⟨_, ⟨e, he, rfl⟩, rfl⟩, hnames⟩

/-- The names of a source start with that of the node, and go on within it if it is a directory. -/
theorem mem_listNode {name : String} {node : Node} {names : List String} :
    names ∈ listNode suffixes name node ↔ ∃ rest, names = name :: rest ∧
      ((∃ entries, node = .dir entries ∧ rest ∈ listEntries suffixes entries) ∨
        (node.isDir = false ∧ rest = [] ∧ hasSuffix suffixes name = true)) := by
  cases node with
  | dir entries =>
    rw [listNode, ← listEntries, List.mem_map]
    constructor
    · rintro ⟨rest, hrest, rfl⟩
      exact ⟨rest, rfl, .inl ⟨entries, rfl, hrest⟩⟩
    · rintro ⟨rest, rfl, ⟨_, heq, hrest⟩ | ⟨hdir, -⟩⟩
      · obtain rfl := Node.dir.inj heq
        exact ⟨rest, hrest, rfl⟩
      · exact nomatch hdir
  | file bytes =>
    rw [listNode]
    split_ifs with hsuffix <;> simp [hsuffix, Node.isDir]
  | link target =>
    rw [listNode]
    split_ifs with hsuffix <;> simp [hsuffix, Node.isDir]

/-- The names of a source of a directory start with that of an entry, and go on to a source of the
entry if it is a directory. -/
theorem isListed_cons_iff {name : String} {rest : List String} :
    IsListed suffixes entries (name :: rest) ↔ ∃ node, child? name entries = some node ∧
      ((∃ entries', node = .dir entries' ∧ IsListed suffixes entries' rest) ∨
        (node.isDir = false ∧ rest = [] ∧ hasSuffix suffixes name = true)) := by
  have hcons : ∀ {node}, child? name entries = some node →
      find? (name :: rest) (.dir entries) = find? rest node := by
    intro node hchild
    rw [Node.find?_cons, hchild, Option.bind_some]
  constructor
  · rintro ⟨node', hfind, hdir, last, hlast, hsuffix⟩
    obtain ⟨node, hchild, hfind⟩ := Option.bind_eq_some_iff.1 hfind
    refine ⟨node, hchild, ?_⟩
    cases rest with
    | nil =>
      obtain rfl := Option.some.inj hfind
      obtain rfl := Option.some.inj hlast
      exact .inr ⟨hdir, rfl, hsuffix⟩
    | cons name' rest =>
      cases node with
      | file bytes => exact nomatch hfind
      | link target => exact nomatch hfind
      | dir entries' =>
        rw [List.getLast?_cons_cons] at hlast
        exact .inl ⟨entries', rfl, node', hfind, hdir, last, hlast, hsuffix⟩
  · rintro ⟨node, hchild, ⟨entries', rfl, node', hfind, hdir, last, hlast, hsuffix⟩ |
      ⟨hdir, rfl, hsuffix⟩⟩
    · refine ⟨node', (hcons hchild).trans hfind, hdir, last, ?_, hsuffix⟩
      rw [List.getLast?_cons, hlast]
      rfl
    · exact ⟨node, hcons hchild, hdir, name, rfl, hsuffix⟩

/-- The listing of a well-formed directory has exactly its sources. -/
theorem mem_listEntries_iff (h : (Node.dir entries).wellFormed = true) {names : List String} :
    names ∈ listEntries suffixes entries ↔ IsListed suffixes entries names := by
  induction names generalizing entries with
  | nil =>
    rw [mem_listEntries]
    constructor
    · rintro ⟨e, -, hnames⟩
      obtain ⟨rest, hcons, -⟩ := mem_listNode.1 hnames
      exact nomatch hcons
    · rintro ⟨_, _, _, name, hlast, _⟩
      exact nomatch hlast
  | cons name rest ih =>
    obtain ⟨hnodup, hgood⟩ := Node.wellFormed_dir_iff.1 h
    rw [mem_listEntries, isListed_cons_iff]
    constructor
    · rintro ⟨⟨_, node⟩, he, hnames⟩
      obtain ⟨_, hcons, hnode⟩ := mem_listNode.1 hnames
      obtain ⟨rfl, rfl⟩ := List.cons.inj hcons
      refine ⟨node, (Node.child?_eq_some_iff hnodup).2 he, hnode.imp_left ?_⟩
      rintro ⟨entries', rfl, hrest⟩
      exact ⟨entries', rfl, (ih (hgood _ he).2).1 hrest⟩
    · rintro ⟨node, hchild, hnode⟩
      have he : (name, node) ∈ entries := Node.mem_of_child? hchild
      refine ⟨(name, node), he, mem_listNode.2 ⟨rest, rfl, hnode.imp_left ?_⟩⟩
      rintro ⟨entries', rfl, hrest⟩
      exact ⟨entries', rfl, (ih (hgood _ he).2).2 hrest⟩

/-! ## The order of a listing -/

/-- The comparison of two names. -/
theorem compare_ne_gt_iff {a b : String} : (compare a b != .gt) = true ↔ a ≤ b := by
  show (compareOfLessAndEq a b != .gt) = true ↔ a ≤ b
  unfold compareOfLessAndEq
  split_ifs with hlt heq
  · exact ⟨fun _ => String.not_lt.1 (String.lt_asymm hlt), fun _ => rfl⟩
  · exact ⟨fun _ => heq ▸ String.le_refl a, fun _ => rfl⟩
  · refine ⟨nofun, fun hle => ?_⟩
    exact absurd (String.le_antisymm hle (String.not_lt.1 hlt)) heq

/-- Entries with distinct names are sorted by strictly increasing names. -/
theorem pairwise_sortEntries {α : Type} {entries : List (String × α)}
    (h : (entries.map (·.1)).Nodup) : (sortEntries entries).Pairwise (·.1 < ·.1) := by
  have hle : (sortEntries entries).Pairwise (·.1 ≤ ·.1) := by
    refine (List.pairwise_mergeSort ?_ ?_ entries).imp compare_ne_gt_iff.1
    · intro a b c hab hbc
      exact compare_ne_gt_iff.2
        (String.le_trans (compare_ne_gt_iff.1 hab) (compare_ne_gt_iff.1 hbc))
    · intro a b
      rw [Bool.or_eq_true_iff, compare_ne_gt_iff, compare_ne_gt_iff]
      exact String.le_total a.1 b.1
  have hne : (sortEntries entries).Pairwise (·.1 ≠ ·.1) := by
    rw [← List.pairwise_map]
    exact ((List.mergeSort_perm entries _).map _).nodup_iff.2 h
  refine hle.imp₂ (fun a b hle hne => ?_) hne
  exact String.not_le.1 fun hge => hne (String.le_antisymm hle hge)

/-- A listing is in order if the entries have distinct names and the sources of each are. -/
theorem pairwise_listEntries_of_each (hnodup : (entries.map (·.1)).Nodup)
    (h : ∀ e ∈ entries, (listNode suffixes e.1 e.2).Pairwise (· < ·)) :
    (listEntries suffixes entries).Pairwise (· < ·) := by
  have hmem : ∀ p ∈ sortEntries (listEach suffixes entries),
      ∃ e ∈ entries, (e.1, listNode suffixes e.1 e.2) = p := by
    intro p hp
    unfold sortEntries at hp
    rw [List.mem_mergeSort, listEach_eq_map] at hp
    exact List.mem_map.1 hp
  have hsorted : (sortEntries (listEach suffixes entries)).Pairwise (·.1 < ·.1) := by
    apply pairwise_sortEntries
    rw [listEach_eq_map, List.map_map]
    exact hnodup
  unfold listEntries arrange
  rw [List.pairwise_flatten]
  constructor
  · intro l hl
    obtain ⟨p, hp, rfl⟩ := List.mem_map.1 hl
    obtain ⟨e, he, rfl⟩ := hmem p hp
    exact h e he
  · -- Sources of different entries differ in their first names.
    rw [List.pairwise_map]
    refine hsorted.imp_of_mem fun {p q} hp hq hlt a ha b hb => ?_
    obtain ⟨e, -, rfl⟩ := hmem p hp
    obtain ⟨f, -, rfl⟩ := hmem q hq
    obtain ⟨resta, rfl, -⟩ := mem_listNode.1 ha
    obtain ⟨restb, rfl, -⟩ := mem_listNode.1 hb
    exact List.cons_lt_cons_iff.2 (.inl hlt)

mutual

/-- The sources of a well-formed node are in order. -/
theorem pairwise_listNode : (node : Node) → node.wellFormed = true → (name : String) →
    (listNode suffixes name node).Pairwise (· < ·)
  | .dir entries, h, name => by
    obtain ⟨hnodup, hgood⟩ := Node.wellFormed_dir_iff.1 h
    rw [listNode, ← listEntries, List.pairwise_map]
    refine (pairwise_listEntries_of_each hnodup ?_).imp fun hlt => ?_
    · exact pairwise_listEach entries fun e he => (hgood e he).2
    · exact List.cons_lt_cons_iff.2 (.inr ⟨rfl, hlt⟩)
  | .file _, _, name => by
    rw [listNode]
    split_ifs
    · exact List.pairwise_singleton _ _
    · exact .nil
  | .link _, _, name => by
    rw [listNode]
    split_ifs
    · exact List.pairwise_singleton _ _
    · exact .nil

/-- The sources of each well-formed entry are in order. -/
theorem pairwise_listEach : (entries : List (String × Node)) →
    (∀ e ∈ entries, e.2.wellFormed = true) →
    ∀ e ∈ entries, (listNode suffixes e.1 e.2).Pairwise (· < ·)
  | [], _, e, he => absurd he List.not_mem_nil
  | (name, node) :: rest, h, e, he => by
    rcases List.mem_cons.1 he with rfl | he
    · exact pairwise_listNode node (h _ List.mem_cons_self) name
    · exact pairwise_listEach rest (fun e he => h e (List.mem_cons_of_mem _ he)) e he

end

/-- The listing of a well-formed directory is in order. -/
theorem pairwise_listEntries (h : (Node.dir entries).wellFormed = true) :
    (listEntries suffixes entries).Pairwise (· < ·) := by
  obtain ⟨hnodup, hgood⟩ := Node.wellFormed_dir_iff.1 h
  exact pairwise_listEntries_of_each hnodup
    (pairwise_listEach entries fun e he => (hgood e he).2)

/-- Well-formed directories with the same sources have the same listing. -/
theorem listEntries_eq_of_isListed {entries' : List (String × Node)}
    (h : (Node.dir entries).wellFormed = true) (h' : (Node.dir entries').wellFormed = true)
    (hsame : ∀ names, IsListed suffixes entries names ↔ IsListed suffixes entries' names) :
    listEntries suffixes entries = listEntries suffixes entries' := by
  refine (pairwise_listEntries h).eq_of_mem_iff (pairwise_listEntries h') fun names => ?_
  rw [mem_listEntries_iff h, mem_listEntries_iff h']
  exact hsame names

/-! ## The paths of the sources -/

/-- A name that can be that of a file is neither empty nor one of dots, and has no slash in it. -/
theorem properName_iff {name : String} : properName name = true ↔
    IsName name ∧ '/' ∉ name.toList ∧ Char.ofNat 0 ∉ name.toList := by
  unfold properName
  simp only [Bool.and_eq_true_iff, bne_iff_ne, Bool.not_eq_true', ← Bool.not_eq_true,
    List.contains_iff_mem]
  constructor
  · rintro ⟨⟨⟨⟨hempty, hdot⟩, hdots⟩, hslash⟩, hnul⟩
    exact ⟨⟨hempty, hdot, hdots⟩, hslash, hnul⟩
  · rintro ⟨⟨hempty, hdot, hdots⟩, hslash, hnul⟩
    exact ⟨⟨⟨⟨hempty, hdot⟩, hdots⟩, hslash⟩, hnul⟩

namespace Disk

variable {disk : Disk} {path : String} {goal : Place}

/-- A name behind the path of a directory leads to its entry; a link must not be followed. -/
theorem Leads.join {follow : Bool} (h : disk.Leads true path goal)
    (hgoal : find? goal disk.root = some (.dir entries)) {name : String}
    (hname : properName name = true) {node : Node}
    (hnode : find? (goal ++ [name]) disk.root = some node)
    (hlink : ∀ target, node = .link target → follow = false) :
    disk.Leads follow (join path name) (goal ++ [name]) := by
  obtain ⟨hstep, hslash, hnul⟩ := properName_iff.1 hname
  refine ⟨fun hmem => ?_, join_ne_empty h.ne_empty name, ?_⟩
  · rcases mem_join hmem with hpath | heq | hname
    · exact h.no_nul hpath
    · exact absurd heq (by decide)
    · exact hnul hname
  rw [isAbsolute_join h.ne_empty]
  obtain ⟨left, happend⟩ := h.walks.append hgoal
  have hend : Walks disk.root follow left goal [name] (goal ++ [name]) := by
    cases node with
    | file bytes => exact .down hgoal hstep hnode (fun _ => Node.noConfusion) .done
    | dir entries => exact .down hgoal hstep hnode (fun _ => Node.noConfusion) .done
    | link target => exact .halt hgoal hstep hnode (hlink target rfl)
  have hlast := happend [name] (goal ++ [name]) (.inl (List.cons_ne_nil name [])) hend
  rcases steps_join h.ne_empty hslash with hsteps | ⟨before, hpath, hsteps⟩
  · rw [hsteps]
    exact hlast
  · -- The slash at the end of the path is the one in front of the name.
    rw [hpath, List.append_assoc] at hlast
    rw [hsteps]
    exact hlast.drop_idle (.inl (List.cons_ne_nil name []))

/-- The path of what stands below a directory leads to it; a link at its end must not be followed. -/
theorem Leads.along {follow : Bool} (hroot : disk.root.wellFormed = true)
    (h : disk.Leads true path goal) {names : List String} {node : Node}
    (hnode : find? (goal ++ names) disk.root = some node) (hnames : names ≠ [] ∨ follow = true)
    (hlink : ∀ target, node = .link target → follow = false) :
    disk.Leads follow (names.foldl Files.join path) (goal ++ names) := by
  induction names generalizing path goal with
  | nil =>
    obtain rfl := hnames.resolve_left fun hne => hne rfl
    rw [List.append_nil]
    exact h
  | cons name rest ih =>
    rw [List.append_cons] at hnode ⊢
    rw [Node.find?_append] at hnode
    obtain ⟨child, hchild, hrest⟩ := Option.bind_eq_some_iff.1 hnode
    obtain ⟨entries, hdir⟩ := Node.exists_dir_of_find?_concat hchild
    -- The name is an entry, so that it can be that of a file.
    have hmem : (name, child) ∈ entries := by
      rw [Node.find?_concat hdir] at hchild
      exact Node.mem_of_child? hchild
    have hname : properName name = true :=
      ((Node.wellFormed_dir_iff.1 (Node.wellFormed_of_find? hroot hdir)).2 _ hmem).1
    cases rest with
    | nil =>
      obtain rfl := Option.some.inj hrest
      rw [List.append_nil]
      exact h.join hdir hname hchild hlink
    | cons name' rest =>
      -- It leads on, so that it is no link.
      have hnolink : ∀ target, child = .link target → true = false := by
        rintro target rfl
        exact nomatch hrest
      refine ih (h.join hdir hname hchild hnolink) ?_ (.inl (List.cons_ne_nil name' rest))
      rw [Node.find?_append, hchild]
      exact hrest

/-! ## The sources of a disk that has grown -/

/-- The names that a link at the end of the path of a directory adds to its sources: none, behind the
path itself. -/
def itself (disk : Disk) (path : String) (suffixes : List String) : Listing :=
  if disk.isLink path && hasSuffix suffixes (fileName path) then [[]] else []

/-- The sources of a directory are found exactly if it is listed. -/
theorem sourcesIn_eq_ok_iff {found : List Source} : sourcesIn disk path suffixes = .ok found ↔
    ∃ entries, disk.list path = .ok entries ∧
      (disk.itself path suffixes ++ listEntries suffixes entries).map (sourceAt path) = found := by
  unfold sourcesIn
  rw [bind_eq_ok]
  constructor
  · rintro ⟨entries, hlist, h⟩
    exact ⟨entries, hlist, Except.ok.inj h⟩
  · rintro ⟨entries, hlist, h⟩
    exact ⟨entries, hlist, congrArg _ h⟩

/-- A source of a directory in a tree. -/
theorem isListed_iff {root : Node} (hgoal : find? goal root = some (.dir entries))
    {names : List String} : IsListed suffixes entries names ↔
      ∃ node, find? (goal ++ names) root = some node ∧ node.isDir = false ∧
        ∃ name, names.getLast? = some name ∧ hasSuffix suffixes name = true := by
  rw [Node.find?_append, hgoal]
  exact Iff.rfl

variable {touched : List Place} {a b : Disk}

/-- In a tree that has grown a directory has the same sources, if none of those that it has now is a
file at a touched place. -/
theorem isListed_iff_of_grows {root root' : Node} (h : Grows touched root root')
    {entries' : List (String × Node)} (hdir : find? goal root = some (.dir entries))
    (hdir' : find? goal root' = some (.dir entries')) {names : List String}
    (hfar : IsListed suffixes entries' names → ∀ bytes,
      find? (goal ++ names) root' = some (.file bytes) → goal ++ names ∉ touched) :
    IsListed suffixes entries names ↔ IsListed suffixes entries' names := by
  constructor
  · intro hnames
    obtain ⟨node, hnode, hisDir, hlast⟩ := (isListed_iff hdir).1 hnames
    refine (isListed_iff hdir').2 ?_
    cases node with
    | dir _ => exact nomatch hisDir
    | link target => exact ⟨_, h.link.1 hnode, hisDir, hlast⟩
    | file bytes =>
      obtain ⟨bytes', hnode⟩ := h.file hnode
      exact ⟨_, hnode, rfl, hlast⟩
  · intro hnames
    obtain ⟨node, hnode, hisDir, hlast⟩ := (isListed_iff hdir').1 hnames
    refine (isListed_iff hdir).2 ⟨node, ?_, hisDir, hlast⟩
    cases node with
    | dir _ => exact nomatch hisDir
    | link target => exact h.link.2 hnode
    | file bytes => exact (h.untouched (hfar hnames bytes hnode)).2 hnode

/-- On a disk that has grown a directory has the sources that it had, if none of those that it has now
leads to a touched place. -/
theorem Grown.sourcesIn_eq_ok (h : Grown touched a b) (hroot : a.root.wellFormed = true)
    {found : List Source} (hfound : sourcesIn a path suffixes = .ok found)
    (hfar : ∀ found', sourcesIn b path suffixes = .ok found' →
      ∀ source ∈ found', ∀ place, b.Leads true source.path place → place ∉ touched) :
    sourcesIn b path suffixes = .ok found := by
  obtain ⟨entries, hlist, rfl⟩ := sourcesIn_eq_ok_iff.1 hfound
  obtain ⟨hpermit, goal, hleads, hdir⟩ := list_eq_ok_iff.1 hlist
  obtain ⟨entries', hdir'⟩ := h.root.dir hdir
  have hroot' := h.wellFormed hroot
  have hleads' := h.leads hleads
  have hlist' : b.list path = .ok entries' := by
    refine list_eq_ok_iff.2 ⟨?_, goal, hleads', hdir'⟩
    rw [h.refuses]
    exact hpermit
  have hwell := Node.wellFormed_of_find? hroot hdir
  have hwell' := Node.wellFormed_of_find? hroot' hdir'
  have hitself : b.itself path suffixes = a.itself path suffixes := by
    unfold itself
    rw [h.isLink_eq hleads]
  have hlisting : listEntries suffixes entries = listEntries suffixes entries' := by
    refine listEntries_eq_of_isListed hwell hwell' fun names => ?_
    refine isListed_iff_of_grows h.root hdir hdir' fun hnames bytes hfile => ?_
    -- The path of a file that is listed leads to it, so that it is none of the touched ones.
    have hmem : names ∈ b.itself path suffixes ++ listEntries suffixes entries' :=
      List.mem_append_right _ ((mem_listEntries_iff hwell').2 hnames)
    exact hfar _ (sourcesIn_eq_ok_iff.2 ⟨entries', hlist', rfl⟩) _ (List.mem_map_of_mem hmem) _
      (hleads'.along hroot' hfile (.inr rfl) fun _ => Node.noConfusion)
  refine sourcesIn_eq_ok_iff.2 ⟨entries', hlist', ?_⟩
  rw [hitself, hlisting]

end Disk

end ManifestSync.Files
