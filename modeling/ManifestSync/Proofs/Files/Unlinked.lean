import ManifestSync.Proofs.Files.Listing

/-!
# Trees without their links

`Disk.withoutLinks` takes all links away that stand beneath a directory. What stands at each place
afterwards is what stood there, less the links and, in directories, less their entries for links
(`pruned_withoutLinks`). A way that leads to something then leads there with the links as well
(`Walks.of_pruned`), since it has passed over none of them. So a path that leads to the directory without
the links is read, listed and checked for a link at its end as with them.
-/

namespace ManifestSync.Files

open Node (find? child? put)

namespace Node

/-! ## Taking the links away -/

/-- Whether a node is a link. -/
def isLink : Node → Bool
  | .link _ => true
  | _ => false

mutual

/-- A tree without the links in its directories. -/
def withoutLinks : Node → Node
  | .dir entries => .dir (withoutLinksEach entries)
  | .file bytes => .file bytes
  | .link target => .link target

/-- Entries without the links among them and in them. -/
def withoutLinksEach : List (String × Node) → List (String × Node)
  | [] => []
  | (name, node) :: rest =>
    if node.isLink then withoutLinksEach rest else (name, node.withoutLinks) :: withoutLinksEach rest

end

/-- What is left of an entry's node: nothing of a link. -/
def unlinked? (node : Node) : Option Node :=
  if node.isLink then none else some node.withoutLinks

/-- The entries that are left are what is left of each entry. -/
theorem withoutLinksEach_eq_filterMap (entries : List (String × Node)) :
    withoutLinksEach entries = entries.filterMap fun e => e.2.unlinked?.map (e.1, ·) := by
  induction entries with
  | nil => rw [withoutLinksEach, List.filterMap_nil]
  | cons e entries ih =>
    rw [withoutLinksEach, List.filterMap_cons, unlinked?]
    split_ifs
    · exact ih
    · exact congrArg _ ih

/-- The names that are left are in the order in which they were. -/
theorem sublist_names_withoutLinksEach (entries : List (String × Node)) :
    ((withoutLinksEach entries).map (·.1)).Sublist (entries.map (·.1)) := by
  induction entries with
  | nil => exact List.Sublist.refl []
  | cons e entries ih =>
    rw [withoutLinksEach]
    split_ifs
    · exact ih.cons _
    · exact ih.cons_cons _

/-- An entry is left if it has been there and is no link. -/
theorem mem_withoutLinksEach {entries : List (String × Node)} {name : String} {node : Node} :
    (name, node) ∈ withoutLinksEach entries ↔
      ∃ old, (name, old) ∈ entries ∧ old.unlinked? = some node := by
  rw [withoutLinksEach_eq_filterMap, List.mem_filterMap]
  constructor
  · rintro ⟨⟨_, old⟩, hmem, hold⟩
    obtain ⟨node', hleft, heq⟩ := Option.map_eq_some_iff.1 hold
    obtain ⟨rfl, rfl⟩ := Prod.mk.inj heq
    exact ⟨old, hmem, hleft⟩
  · rintro ⟨old, hmem, hold⟩
    exact ⟨(name, old), hmem, by rw [hold, Option.map_some]⟩

mutual

/-- A tree stays well formed without its links. -/
theorem wellFormed_withoutLinks : (node : Node) → node.wellFormed = true →
    node.withoutLinks.wellFormed = true
  | .dir entries, h => by
    obtain ⟨hnodup, hgood⟩ := wellFormed_dir_iff.1 h
    rw [withoutLinks, wellFormed_dir_iff]
    exact ⟨(sublist_names_withoutLinksEach entries).nodup hnodup,
      properName_and_wellFormed_withoutLinksEach entries hgood⟩
  | .file bytes, h => by rwa [withoutLinks]
  | .link target, h => by rwa [withoutLinks]

/-- Well-formed entries stay so without their links. -/
theorem properName_and_wellFormed_withoutLinksEach : (entries : List (String × Node)) →
    (∀ e ∈ entries, properName e.1 = true ∧ e.2.wellFormed = true) →
    ∀ e ∈ withoutLinksEach entries, properName e.1 = true ∧ e.2.wellFormed = true
  | [], _, e, he => absurd he (by rw [withoutLinksEach]; exact List.not_mem_nil)
  | (name, node) :: rest, h, e, he => by
    obtain ⟨⟨hname, hwell⟩, hrest⟩ := List.forall_mem_cons.1 h
    rw [withoutLinksEach] at he
    split_ifs at he
    · exact properName_and_wellFormed_withoutLinksEach rest hrest e he
    · rcases List.mem_cons.1 he with rfl | he
      · exact ⟨hname, wellFormed_withoutLinks node hwell⟩
      · exact properName_and_wellFormed_withoutLinksEach rest hrest e he

end

/-- The node of a name is what is left of the one that it had. -/
theorem child?_withoutLinksEach {entries : List (String × Node)}
    (h : (entries.map (·.1)).Nodup) (name : String) :
    child? name (withoutLinksEach entries) = (child? name entries).bind unlinked? := by
  have hnodup := (sublist_names_withoutLinksEach entries).nodup h
  refine Option.ext fun node => ?_
  rw [child?_eq_some_iff hnodup, mem_withoutLinksEach, Option.bind_eq_some_iff]
  simp only [child?_eq_some_iff h]

/-- What stands in a tree without its links is what is left of what stood there. -/
theorem find?_withoutLinks {root : Node} (h : root.wellFormed = true) {place : Place}
    (hplace : place ≠ []) : find? place root.withoutLinks = (find? place root).bind unlinked? := by
  induction place generalizing root with
  | nil => exact absurd rfl hplace
  | cons name rest ih =>
    cases root with
    | file bytes => rw [withoutLinks]; rfl
    | link target => rw [withoutLinks]; rfl
    | dir entries =>
      obtain ⟨hnodup, hgood⟩ := wellFormed_dir_iff.1 h
      rw [withoutLinks, find?_cons, find?_cons, child?_withoutLinksEach hnodup]
      cases hchild : child? name entries with
      | none => rfl
      | some child =>
        have hwell := (hgood _ (mem_of_child? hchild)).2
        rw [Option.bind_some, Option.bind_some]
        cases rest with
        | nil => exact Option.bind_fun_some _
        | cons name' rest =>
          rw [← ih hwell (List.cons_ne_nil name' rest), unlinked?]
          cases child with
          | dir entries' => rfl
          | file bytes => rfl
          | link target => rw [withoutLinks]; rfl

end Node

/-! ## Taking them away at a place -/

/-- What has become of what stood at a place: it is the same, a directory has been changed, or a link
is gone. -/
inductive Pruned : Option Node → Option Node → Prop
  | same (node : Option Node) : Pruned node node
  | dir (old new : List (String × Node)) : Pruned (some (.dir old)) (some (.dir new))
  | gone (target : String) : Pruned (some (.link target)) none

/-- What a node without its links stands for has been pruned. -/
theorem pruned_unlinked? (node : Option Node) : Pruned node (node.bind Node.unlinked?) := by
  cases node with
  | none => exact .same none
  | some node =>
    cases node with
    | dir entries => exact .dir entries _
    | file bytes => exact .same _
    | link target => exact .gone target

/-- Where a directory is, one has been. -/
theorem Pruned.exists_dir {old : Option Node} {new : List (String × Node)}
    (h : Pruned old (some (.dir new))) : ∃ entries, old = some (.dir entries) := by
  generalize hnew : some (Node.dir new) = node at h
  cases h with
  | same => exact ⟨new, hnew.symm⟩
  | dir entries _ => exact ⟨entries, rfl⟩
  | gone target => exact nomatch hnew

/-- What is there and is no directory has been there. -/
theorem Pruned.eq_some {old : Option Node} {node : Node} (h : Pruned old (some node))
    (hnode : node.isDir = false) : old = some node := by
  generalize hnew : some node = new at h
  cases h with
  | same => rfl
  | dir _ entries =>
    obtain rfl := Option.some.inj hnew
    exact nomatch hnode
  | gone target => exact nomatch hnew

/-- A way that leads to something leads there as well in a tree with more links. -/
theorem Walks.of_pruned {old new : Node}
    (hpruned : ∀ place, Pruned (find? place old) (find? place new)) {follow : Bool} {links : Nat}
    {place goal : Place} {steps : List String} (h : Walks new follow links place steps goal)
    (hgoal : find? goal new ≠ none) : Walks old follow links place steps goal := by
  have hdirs : ∀ {place entries}, find? place new = some (.dir entries) →
      ∃ entries', find? place old = some (.dir entries') := by
    intro place entries hdir
    exact (hdir ▸ hpruned place).exists_dir
  have hlinks : ∀ {place target}, find? place new = some (.link target) →
      find? place old = some (.link target) := by
    intro place target hlink
    exact (hlink ▸ hpruned place).eq_some rfl
  -- What each rule asks of the tree has been so; only where nothing is, a link may have been.
  induction h with
  | done => exact .done
  | stay hdir hstep _ ih =>
    obtain ⟨_, hdir⟩ := hdirs hdir
    exact .stay hdir hstep (ih hgoal)
  | up hdir _ ih =>
    obtain ⟨_, hdir⟩ := hdirs hdir
    exact .up hdir (ih hgoal)
  | @down _ place _ step _ _ node hdir hstep hnode hlink _ ih =>
    obtain ⟨_, hdir⟩ := hdirs hdir
    cases node with
    | link target => exact absurd rfl (hlink target)
    | dir entries =>
      obtain ⟨_, hnode⟩ := hdirs hnode
      exact .down hdir hstep hnode (fun _ => Node.noConfusion) (ih hgoal)
    | file bytes =>
      have hfile := (hnode ▸ hpruned (place ++ [step])).eq_some rfl
      exact .down hdir hstep hfile (fun _ => Node.noConfusion) (ih hgoal)
  | halt hdir hstep hnode hfollow =>
    obtain ⟨_, hdir⟩ := hdirs hdir
    exact .halt hdir hstep (hlinks hnode) hfollow
  | jump hdir hstep hnode hfollow htarget _ ih =>
    obtain ⟨_, hdir⟩ := hdirs hdir
    exact .jump hdir hstep (hlinks hnode) hfollow htarget (ih hgoal)
  | fresh _ _ hnode _ => exact absurd hnode hgoal

namespace Disk

/-- A disk without the links beneath a place. -/
def withoutLinks (disk : Disk) (place : Place) : Disk :=
  match find? place disk.root with
  | some node => { disk with root := put node.withoutLinks place disk.root }
  | none => disk

/-- The working directory is the same without the links. -/
theorem home_withoutLinks (disk : Disk) (place : Place) :
    (disk.withoutLinks place).home = disk.home := by
  unfold withoutLinks
  split <;> rfl

/-- The same operations are bound to fail without the links. -/
theorem refuses_withoutLinks (disk : Disk) (place : Place) :
    (disk.withoutLinks place).refuses = disk.refuses := by
  unfold withoutLinks
  split <;> rfl

section
variable {disk : Disk} {place : Place} {entries : List (String × Node)}
  (hdir : find? place disk.root = some (.dir entries))
include hdir

/-- The tree of a disk without the links beneath a directory. -/
theorem root_withoutLinks :
    (disk.withoutLinks place).root = put (Node.dir entries).withoutLinks place disk.root := by
  rw [withoutLinks, hdir]

/-- The directory itself without the links. -/
theorem find?_withoutLinks_self : find? place (disk.withoutLinks place).root =
    some (.dir (Node.withoutLinksEach entries)) := by
  have h := Node.find?_put_append hdir (Node.dir entries).withoutLinks []
  rw [List.append_nil] at h
  rw [root_withoutLinks hdir, h, Node.withoutLinks]
  rfl

variable (hroot : disk.root.wellFormed = true)
include hroot

/-- What stands beneath the directory without the links. -/
theorem find?_append_withoutLinks {names : Place} (hnames : names ≠ []) :
    find? (place ++ names) (disk.withoutLinks place).root =
      (find? (place ++ names) disk.root).bind Node.unlinked? := by
  rw [root_withoutLinks hdir, Node.find?_put_append hdir,
    Node.find?_withoutLinks (Node.wellFormed_of_find? hroot hdir) hnames, Node.find?_append, hdir,
    Option.bind_some]

/-- What has become of each place on a disk without the links beneath a directory. -/
theorem pruned_withoutLinks (q : Place) :
    Pruned (find? q disk.root) (find? q (disk.withoutLinks place).root) := by
  by_cases hq : place <+: q
  · obtain ⟨names, rfl⟩ := hq
    by_cases hnames : names = []
    · rw [hnames, List.append_nil, hdir, find?_withoutLinks_self hdir]
      exact .dir _ _
    · rw [find?_append_withoutLinks hdir hroot hnames]
      exact pruned_unlinked? _
  · -- The place is elsewhere, or that of a directory above.
    rcases List.eq_nil_or_concat place with rfl | ⟨p, name, rfl⟩
    · exact absurd List.nil_prefix hq
    rw [List.concat_eq_append] at *
    obtain ⟨_, hp⟩ := Node.exists_dir_of_find?_concat hdir
    rw [root_withoutLinks hdir]
    rcases Node.find?_put_cases hp (Node.dir entries).withoutLinks name q with
      ⟨r, rfl, -⟩ | h | ⟨old, new, h, h'⟩
    · exact absurd (List.prefix_append _ r) hq
    · rw [h]
      exact .same _
    · rw [h, h']
      exact .dir old new

/-- A disk stays well formed without the links beneath a directory. -/
theorem wellFormed_root_withoutLinks : (disk.withoutLinks place).root.wellFormed = true := by
  have hwell := Node.wellFormed_withoutLinks _ (Node.wellFormed_of_find? hroot hdir)
  rw [root_withoutLinks hdir]
  rcases List.eq_nil_or_concat place with rfl | ⟨p, name, rfl⟩
  · rw [put]
    exact hwell
  · rw [List.concat_eq_append] at *
    obtain ⟨_, hp⟩ := Node.exists_dir_of_find?_concat hdir
    have hname := Node.properName_of_find? hroot hdir name
      (List.mem_append_right p (List.mem_singleton_self name))
    exact Node.wellFormed_put hroot hp hname hwell

/-! ## Paths -/

variable {path : String}

/-- A path that leads to something without the links leads there with them. -/
theorem Leads.of_withoutLinks {follow : Bool} {goal : Place}
    (h : (disk.withoutLinks place).Leads follow path goal)
    (hgoal : find? goal (disk.withoutLinks place).root ≠ none) : disk.Leads follow path goal := by
  have hwalks := h.walks.of_pruned (pruned_withoutLinks hdir hroot) hgoal
  rw [home_withoutLinks] at hwalks
  exact ⟨h.no_nul, h.ne_empty, hwalks⟩

/-- A path to the directory leads to one without the links exactly if it leads to that directory
still. -/
theorem isDir_withoutLinks_iff (hleads : disk.Leads true path place) :
    (disk.withoutLinks place).isDir path = true ↔
      (disk.withoutLinks place).Leads true path place := by
  rw [isDir_iff]
  constructor
  · rintro ⟨goal, entries', hleads', hdir'⟩
    have hgoal : find? goal (disk.withoutLinks place).root ≠ none := by
      rw [hdir']
      exact Option.some_ne_none _
    exact hleads.unique (hleads'.of_withoutLinks hdir hroot hgoal) ▸ hleads'
  · exact fun hleads' => ⟨place, _, hleads', find?_withoutLinks_self hdir⟩

/-- A path that leads to the directory without the links ends at a link exactly if it does with
them. -/
theorem isLink_withoutLinks (hleads' : (disk.withoutLinks place).Leads true path place) :
    (disk.withoutLinks place).isLink path = disk.isLink path := by
  have hself := find?_withoutLinks_self hdir
  have hsome {goal : Place} {node : Node}
      (h : find? goal (disk.withoutLinks place).root = some node) :
      find? goal (disk.withoutLinks place).root ≠ none := by
    rw [h]
    exact Option.some_ne_none node
  obtain ⟨goal, hwalks, hgoal⟩ := hleads'.walks.stop_at_link
  have hstop : (disk.withoutLinks place).Leads false path goal :=
    ⟨hleads'.no_nul, hleads'.ne_empty, hwalks⟩
  rw [Bool.eq_iff_iff, isLink_iff, isLink_iff]
  constructor
  · rintro ⟨goal', target, hgoal', hlink⟩
    refine ⟨goal', target, hgoal'.of_withoutLinks hdir hroot (hsome hlink), ?_⟩
    exact (hlink ▸ pruned_withoutLinks hdir hroot goal').eq_some rfl
  · rintro ⟨goal', target, hgoal', hlink⟩
    rcases hgoal with rfl | ⟨target', hlink'⟩
    · -- The path would lead to the directory, and not to a link.
      have hleads := hstop.of_withoutLinks hdir hroot (hsome hself)
      obtain rfl := hleads.unique hgoal'
      exact nomatch hdir.symm.trans hlink
    · exact ⟨goal, target', hstop, hlink'⟩

end

end Disk

end ManifestSync.Files
