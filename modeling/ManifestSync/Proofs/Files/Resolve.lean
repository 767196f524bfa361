import ManifestSync.Proofs.Files.Path
import ManifestSync.Proofs.Files.Walk
import ManifestSync.Proofs.Steps

/-!
# Paths of a disk

`Disk.Leads disk follow path goal` says that a path of a disk leads to a place. What the operations
that only look find is what stands at that place (`Disk.read_eq_ok_iff`, `Disk.list_eq_ok_iff`,
`Disk.isDir_iff`). The place is one of a directory or lies in one (`Arrived`), and on a disk that has
grown (`Disk.Grown`) the path leads to it still.
-/

namespace ManifestSync.Files

open Node (find?)

/-! ## Where a way ends -/

/-- A place is that of a directory or lies in one, under a name that can be that of a file if nothing
is there, and, where links are followed, no link is there. -/
structure Arrived (root : Node) (follow : Bool) (goal : Place) : Prop where
  lodged : (∃ entries, find? goal root = some (.dir entries)) ∨
    ∃ p name entries, goal = p ++ [name] ∧ find? p root = some (.dir entries) ∧
      (find? goal root = none → properName name = true)
  no_link : follow = true → ∀ target, find? goal root ≠ some (.link target)

variable {root : Node} {follow : Bool}

/-- At a directory a way may end. -/
theorem arrived_of_dir {place : Place} {entries : List (String × Node)}
    (h : find? place root = some (.dir entries)) : Arrived root follow place := by
  refine ⟨.inl ⟨entries, h⟩, fun _ target hlink => ?_⟩
  rw [h] at hlink
  exact nomatch hlink

/-- What is above a directory is a directory. -/
theorem exists_dir_dropLast {place : Place} {entries : List (String × Node)}
    (h : find? place root = some (.dir entries)) :
    ∃ entries', find? place.dropLast root = some (.dir entries') := by
  rcases List.eq_nil_or_concat place with rfl | ⟨p, name, rfl⟩
  · exact ⟨entries, h⟩
  · rw [List.concat_eq_append] at h
    rw [List.concat_eq_append, List.dropLast_concat]
    exact Node.exists_dir_of_find?_concat h

/-- A name that is no fault and no slash can be that of a file. -/
theorem properName_of_nameFault? {step : String} (hstep : IsName step)
    (hslash : '/' ∉ step.toList) (hfault : nameFault? step = none) : properName step = true := by
  have hnul : step.toList.contains (Char.ofNat 0) = false := by
    unfold nameFault? at hfault
    split at hfault
    · exact nomatch hfault
    · exact eq_false_of_ne_true ‹_›
  have hslash' : step.toList.contains '/' = false := by
    rw [← Bool.not_eq_true, List.contains_iff_mem]
    exact hslash
  unfold properName
  rw [bne_iff_ne.2 hstep.ne_empty, bne_iff_ne.2 hstep.ne_dot, bne_iff_ne.2 hstep.ne_dots, hslash',
    hnul]
  rfl

/-- A way of at least one step ends at a directory or in one. -/
theorem Walks.arrived {links : Nat} {place goal : Place} {steps : List String}
    (h : Walks root follow links place steps goal)
    (hstart : steps ≠ [] ∨ Arrived root follow place)
    (hslash : ∀ step ∈ steps, '/' ∉ step.toList) : Arrived root follow goal := by
  -- After each step the way has arrived at the place where it goes on, or it has steps left.
  induction h with
  | done => exact hstart.resolve_left fun h => h rfl
  | stay hdir _ _ ih =>
    exact ih (.inr (arrived_of_dir hdir)) fun s hs => hslash s (List.mem_cons_of_mem _ hs)
  | up hdir _ ih =>
    obtain ⟨_, hdir⟩ := exists_dir_dropLast hdir
    exact ih (.inr (arrived_of_dir hdir)) fun s hs => hslash s (List.mem_cons_of_mem _ hs)
  | down hdir _ hnode hlink _ ih =>
    refine ih (.inr ⟨.inr ⟨_, _, _, rfl, hdir, fun hnone => ?_⟩, fun _ target h => ?_⟩)
      fun s hs => hslash s (List.mem_cons_of_mem _ hs)
    · rw [hnode] at hnone
      exact nomatch hnone
    · rw [hnode] at h
      exact hlink target (Option.some.inj h)
  | halt hdir _ hnode hfollow =>
    refine ⟨.inr ⟨_, _, _, rfl, hdir, fun hnone => ?_⟩, fun h => ?_⟩
    · rw [hnode] at hnone
      exact nomatch hnone
    · rw [hfollow] at h
      exact nomatch h
  | @jump _ _ _ _ target rest _ _ _ _ _ _ _ ih =>
    refine ih (.inl fun h => steps_ne_nil target (List.append_eq_nil_iff.1 h).1) fun s hs => ?_
    rcases List.mem_append.1 hs with hs | hs
    · exact not_mem_of_mem_steps hs
    · exact hslash s (List.mem_cons_of_mem _ hs)
  | fresh hdir hstep hnode hfault =>
    have hproper := properName_of_nameFault? hstep (hslash _ List.mem_cons_self) hfault
    refine ⟨.inr ⟨_, _, _, rfl, hdir, fun _ => hproper⟩, fun _ target h => ?_⟩
    rw [hnode] at h
    exact nomatch h

namespace Disk

/-! ## Paths -/

/-- A path of a disk leads to a place. -/
structure Leads (disk : Disk) (follow : Bool) (path : String) (goal : Place) : Prop where
  /-- The path has no character that no name may have. -/
  no_nul : Char.ofNat 0 ∉ path.toList
  /-- The path is not empty. -/
  ne_empty : path ≠ ""
  /-- The way along its steps leads there. -/
  walks : Walks disk.root follow maxLinks (if isAbsolute path then [] else disk.home) (steps path)
    goal

variable {disk : Disk} {path : String} {goal : Place}

/-- Resolving a path succeeds exactly if the path leads to a place; it gives the place and what stands
there. -/
theorem resolve_eq_ok_iff {t : Target} : disk.resolve follow path = .ok t ↔
    ∃ goal, disk.Leads follow path goal ∧ t = ⟨goal, find? goal disk.root⟩ := by
  unfold resolve
  constructor
  · intro h
    by_cases hnul : path.toList.contains (Char.ofNat 0) = true
    · rw [if_pos hnul] at h
      exact nomatch h
    by_cases hempty : path.isEmpty = true
    · rw [if_neg hnul, if_pos hempty] at h
      exact nomatch h
    rw [if_neg hnul, if_neg hempty, walkLinks_eq_ok_iff] at h
    obtain ⟨goal, hwalks, ht⟩ := h
    exact ⟨goal, ⟨by simpa using hnul, by simpa using hempty, hwalks⟩, ht⟩
  · rintro ⟨goal, ⟨hnul, hempty, hwalks⟩, rfl⟩
    rw [if_neg (by simpa using hnul), if_neg (by simpa using hempty)]
    exact hwalks.walkLinks_eq_ok

/-- Where a path leads, resolving it gives what stands there. -/
theorem Leads.resolve_eq (h : disk.Leads follow path goal) :
    disk.resolve follow path = .ok ⟨goal, find? goal disk.root⟩ :=
  resolve_eq_ok_iff.2 ⟨goal, h, rfl⟩

/-- A path leads to one place. -/
theorem Leads.unique {goal' : Place} (h : disk.Leads follow path goal)
    (h' : disk.Leads follow path goal') : goal = goal' := by
  have heq := h.resolve_eq.symm.trans h'.resolve_eq
  exact congrArg Target.place (Except.ok.inj heq)

/-- A path leads to a directory or into one. -/
theorem Leads.arrived (h : disk.Leads follow path goal) : Arrived disk.root follow goal :=
  h.walks.arrived (.inl (steps_ne_nil path)) fun _ hs => not_mem_of_mem_steps hs

/-- A path leads to the same place if a link at its end is followed, unless there is one. -/
theorem Leads.follow_end (h : disk.Leads false path goal)
    (hgoal : ∀ target, find? goal disk.root ≠ some (.link target)) : disk.Leads true path goal :=
  ⟨h.no_nul, h.ne_empty, h.walks.follow_end hgoal⟩

/-- The place that a path leads to through links, if it leads anywhere. -/
def place? (disk : Disk) (path : String) : Option Place :=
  (disk.resolve true path).toOption.map (·.place)

/-- A path has a place exactly if it leads there. -/
theorem place?_eq_some_iff : disk.place? path = some goal ↔ disk.Leads true path goal := by
  unfold place?
  constructor
  · intro h
    obtain ⟨t, ht, rfl⟩ := Option.map_eq_some_iff.1 h
    cases hresolve : disk.resolve true path with
    | error cause =>
      rw [hresolve] at ht
      exact nomatch ht
    | ok t' =>
      rw [hresolve] at ht
      obtain rfl := Option.some.inj ht
      obtain ⟨goal, hleads, rfl⟩ := resolve_eq_ok_iff.1 hresolve
      exact hleads
  · intro h
    rw [h.resolve_eq]
    rfl

/-! ## Looking -/

/-- What an operation that is permitted needs of the disk. -/
theorem permit_eq_ok_iff {operation : Operation} :
    disk.permit operation = .ok () ↔ disk.refuses operation = none := by
  unfold permit
  cases disk.refuses operation with
  | none => exact ⟨fun _ => rfl, fun _ => rfl⟩
  | some cause => exact ⟨nofun, nofun⟩

/-- Something stands at the end of a path exactly if the path leads to it through links. -/
theorem stat_eq_ok_iff {node : Node} : disk.stat path = .ok node ↔
    ∃ goal, disk.Leads true path goal ∧ find? goal disk.root = some node := by
  unfold stat
  rw [bind_eq_ok]
  constructor
  · rintro ⟨t, ht, hnode⟩
    obtain ⟨goal, hleads, rfl⟩ := resolve_eq_ok_iff.1 ht
    refine ⟨goal, hleads, ?_⟩
    dsimp only at hnode
    split at hnode
    · obtain rfl := Except.ok.inj hnode
      assumption
    · exact nomatch hnode
  · rintro ⟨goal, hleads, hnode⟩
    refine ⟨_, hleads.resolve_eq, ?_⟩
    rw [hnode]

/-- There is a directory at the end of a path exactly if the path leads to it through links. -/
theorem isDir_iff : disk.isDir path = true ↔
    ∃ goal entries, disk.Leads true path goal ∧ find? goal disk.root = some (.dir entries) := by
  unfold isDir
  constructor
  · intro h
    cases hstat : disk.stat path with
    | error cause =>
      rw [hstat] at h
      exact nomatch h
    | ok node =>
      obtain ⟨goal, hleads, hnode⟩ := stat_eq_ok_iff.1 hstat
      rw [hstat] at h
      cases node with
      | dir entries => exact ⟨goal, entries, hleads, hnode⟩
      | file bytes => exact nomatch h
      | link target => exact nomatch h
  · rintro ⟨goal, entries, hleads, hnode⟩
    rw [stat_eq_ok_iff.2 ⟨goal, hleads, hnode⟩]
    rfl

/-- A path ends at a link exactly if it leads to one without following it. -/
theorem isLink_iff : disk.isLink path = true ↔
    ∃ goal target, disk.Leads false path goal ∧ find? goal disk.root = some (.link target) := by
  unfold isLink
  constructor
  · intro h
    split at h
    · rename_i target heq
      obtain ⟨goal, hleads, ht⟩ := resolve_eq_ok_iff.1 heq
      exact ⟨goal, target, hleads, (congrArg Target.node ht).symm⟩
    · exact nomatch h
  · rintro ⟨goal, target, hleads, hnode⟩
    rw [hleads.resolve_eq, hnode]

/-- A file is read exactly if that is permitted and its path leads to it through links. -/
theorem read_eq_ok_iff {bytes : List UInt8} : disk.read path = .ok bytes ↔
    disk.refuses (.read path) = none ∧
      ∃ goal, disk.Leads true path goal ∧ find? goal disk.root = some (.file bytes) := by
  unfold read
  rw [bind_eq_ok]
  constructor
  · rintro ⟨⟨⟩, hpermit, h⟩
    obtain ⟨node, hnode, h⟩ := bind_eq_ok.1 h
    refine ⟨permit_eq_ok_iff.1 hpermit, ?_⟩
    cases node with
    | dir entries => exact nomatch h
    | link target => exact nomatch h
    | file bytes' =>
      obtain rfl := Except.ok.inj h
      exact stat_eq_ok_iff.1 hnode
  · rintro ⟨hpermit, hstat⟩
    exact ⟨(), permit_eq_ok_iff.2 hpermit, bind_eq_ok.2 ⟨_, stat_eq_ok_iff.2 hstat, rfl⟩⟩

/-- What a path leads to is read exactly if that is permitted and it is a file. -/
theorem read_eq_ok_iff_of_leads (h : disk.Leads true path goal) {bytes : List UInt8} :
    disk.read path = .ok bytes ↔
      disk.refuses (.read path) = none ∧ find? goal disk.root = some (.file bytes) := by
  rw [read_eq_ok_iff]
  refine and_congr_right fun _ => ⟨?_, fun hfile => ⟨goal, h, hfile⟩⟩
  rintro ⟨goal', hgoal', hfile⟩
  rwa [h.unique hgoal']

/-- A directory is listed exactly if that is permitted and its path leads to it through links. -/
theorem list_eq_ok_iff {entries : List (String × Node)} : disk.list path = .ok entries ↔
    disk.refuses (.list path) = none ∧
      ∃ goal, disk.Leads true path goal ∧ find? goal disk.root = some (.dir entries) := by
  unfold list
  rw [bind_eq_ok]
  constructor
  · rintro ⟨⟨⟩, hpermit, h⟩
    obtain ⟨node, hnode, h⟩ := bind_eq_ok.1 h
    refine ⟨permit_eq_ok_iff.1 hpermit, ?_⟩
    cases node with
    | dir entries' =>
      obtain rfl := Except.ok.inj h
      exact stat_eq_ok_iff.1 hnode
    | link target => exact nomatch h
    | file bytes => exact nomatch h
  · rintro ⟨hpermit, hstat⟩
    exact ⟨(), permit_eq_ok_iff.2 hpermit, bind_eq_ok.2 ⟨_, stat_eq_ok_iff.2 hstat, rfl⟩⟩

/-! ## Disks that grow -/

/-- A disk has only grown: its tree has, a well-formed tree has stayed well formed, and nothing else
has changed. -/
structure Grown (touched : List Place) (old new : Disk) : Prop where
  home : new.home = old.home
  refuses : new.refuses = old.refuses
  root : Grows touched old.root new.root
  wellFormed : old.root.wellFormed = true → new.root.wellFormed = true

namespace Grown

/-- A disk that has not changed has only grown. -/
theorem refl (touched : List Place) (disk : Disk) : Grown touched disk disk :=
  ⟨rfl, rfl, .refl _ _, id⟩

variable {touched touched' : List Place} {a b c : Disk}

/-- A disk that has grown twice has only grown. -/
theorem trans (h : Grown touched a b) (h' : Grown touched' b c) : Grown (touched ++ touched') a c :=
  ⟨h'.home.trans h.home, h'.refuses.trans h.refuses, h.root.trans h'.root,
    h'.wellFormed ∘ h.wellFormed⟩

/-- A path leads where it did. -/
theorem leads (h : Grown touched a b) (hleads : a.Leads follow path goal) :
    b.Leads follow path goal := by
  refine ⟨hleads.no_nul, hleads.ne_empty, ?_⟩
  rw [h.home]
  exact hleads.walks.grows h.root

/-- A directory at the end of a path stays one. -/
theorem isDir (h : Grown touched a b) (hdir : a.isDir path = true) : b.isDir path = true := by
  obtain ⟨goal, entries, hleads, hnode⟩ := isDir_iff.1 hdir
  obtain ⟨entries', hnode⟩ := h.root.dir hnode
  exact isDir_iff.2 ⟨goal, entries', h.leads hleads, hnode⟩

/-- A path to something ends at a link exactly if it did. -/
theorem isLink_eq (h : Grown touched a b) (hleads : a.Leads true path goal) :
    b.isLink path = a.isLink path := by
  obtain ⟨goal', hwalks, -⟩ := hleads.walks.stop_at_link
  have hleads' : a.Leads false path goal' := ⟨hleads.no_nul, hleads.ne_empty, hwalks⟩
  rw [Bool.eq_iff_iff, isLink_iff, isLink_iff]
  constructor
  · rintro ⟨goal'', target, hb, hnode⟩
    obtain rfl := (h.leads hleads').unique hb
    exact ⟨_, target, hleads', h.root.link.2 hnode⟩
  · rintro ⟨goal'', target, ha, hnode⟩
    exact ⟨goal'', target, h.leads ha, h.root.link.1 hnode⟩

/-- What was read from a file elsewhere than at the touched places is still read from it. -/
theorem read_eq_ok (h : Grown touched a b) {bytes : List UInt8} (hread : a.read path = .ok bytes)
    (hfar : ∀ goal, a.Leads true path goal → goal ∉ touched) : b.read path = .ok bytes := by
  obtain ⟨hpermit, goal, hleads, hnode⟩ := read_eq_ok_iff.1 hread
  refine read_eq_ok_iff.2 ⟨?_, goal, h.leads hleads, (h.root.untouched (hfar goal hleads)).1 hnode⟩
  rw [h.refuses]
  exact hpermit

end Grown

end Disk

end ManifestSync.Files
