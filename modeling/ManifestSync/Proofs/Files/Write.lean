import ManifestSync.Proofs.Files.Resolve

/-!
# Writing files and making directories

What a successful write has done (`Disk.Wrote`): the file is at the place that its path leads to, and
the rest of the disk has only grown. Making directories only makes the disk grow, whether it succeeds
or not, and when it succeeds there is a directory at the end of the path
(`Disk.grown_makeDirsWithin`). On a disk that has grown since then making it again changes nothing
(`Disk.makeDirsWithin_again`).
-/

namespace ManifestSync.Files

open Node (find? put)

namespace Disk

variable {disk disk' : Disk} {path : String} {goal : Place} {follow : Bool}

/-! ## Putting a node at a place -/

/-- A file put where one can be written, or a directory put where nothing is, makes a disk grow. -/
theorem grown_put {node : Node} {touched : List Place} {p : Place} {name : String}
    {entries : List (String × Node)} (hp : find? p disk.root = some (.dir entries))
    (hproper : find? (p ++ [name]) disk.root = none → properName name = true)
    (hwell : node.wellFormed = true)
    (hnode : node = .dir [] ∧ find? (p ++ [name]) disk.root = none ∨
      p ++ [name] ∈ touched ∧ (∃ bytes, node = .file bytes) ∧
        ∀ old, find? (p ++ [name]) disk.root = some old → ∃ bytes, old = .file bytes) :
    Grown touched disk { disk with root := put node (p ++ [name]) disk.root } where
  home := rfl
  refuses := rfl
  root := grows_put hp hnode
  wellFormed hroot := by
    refine Node.wellFormed_put hroot hp ?_ hwell
    cases hold : find? (p ++ [name]) disk.root with
    | none => exact hproper hold
    | some old =>
      rw [Node.find?_concat hp] at hold
      have hdir := Node.wellFormed_of_find? hroot hp
      exact ((Node.wellFormed_dir_iff.1 hdir).2 _ (Node.mem_of_child? hold)).1

/-! ## Writing a file -/

/-- What a successful write of some bytes has done. -/
structure Wrote (disk : Disk) (path : String) (bytes : List UInt8) (goal : Place) (disk' : Disk) :
    Prop where
  /-- The write is permitted. -/
  permitted : disk.refuses (.write path) = none
  /-- The path is not written as that of a directory. -/
  no_slash : endsInSlash path = false
  /-- The path leads to the place of the file. -/
  leads : disk.Leads true path goal
  /-- The file has the bytes. -/
  written : find? goal disk'.root = some (.file bytes)
  /-- Nothing else has changed. -/
  grown : Grown [goal] disk disk'

/-- A write that succeeds has written. -/
theorem exists_wrote {bytes : List UInt8} (h : disk.write path bytes = .ok disk') :
    ∃ goal, Wrote disk path bytes goal disk' := by
  unfold write at h
  obtain ⟨⟨⟩, hpermit, h⟩ := bind_eq_ok.1 h
  cases hslash : endsInSlash path with
  | true =>
    rw [hslash, if_pos rfl] at h
    obtain ⟨_, -, h⟩ := bind_eq_ok.1 h
    exact nomatch h
  | false =>
    rw [hslash, if_neg Bool.false_ne_true] at h
    obtain ⟨t, ht, h⟩ := bind_eq_ok.1 h
    obtain ⟨goal, hleads, rfl⟩ := resolve_eq_ok_iff.1 ht
    dsimp only at h
    have hdir : ∀ entries, find? goal disk.root ≠ some (.dir entries) := by
      intro entries hdir
      rw [hdir] at h
      exact nomatch h
    obtain ⟨hlodged, hlink⟩ := hleads.arrived
    obtain ⟨entries, hdir'⟩ | ⟨p, name, entries, rfl, hp, hproper⟩ := hlodged
    · exact absurd hdir' (hdir entries)
    have hdisk : disk' = { disk with root := put (.file bytes) (p ++ [name]) disk.root } := by
      split at h
      · exact nomatch h
      · exact (Except.ok.inj h).symm
    subst hdisk
    refine ⟨p ++ [name], permit_eq_ok_iff.1 hpermit, hslash, hleads, Node.find?_put_self hp _ name,
      grown_put hp hproper rfl (.inr ⟨List.mem_singleton_self _, ⟨bytes, rfl⟩, ?_⟩)⟩
    intro old hold
    cases old with
    | file bytes' => exact ⟨bytes', rfl⟩
    | dir entries' => exact absurd hold (hdir entries')
    | link target => exact absurd hold (hlink rfl target)

/-- A file that is there is written, if that is permitted. -/
theorem exists_write_eq_ok {bytes : List UInt8} (hpermit : disk.refuses (.write path) = none)
    (hslash : endsInSlash path = false) (hleads : disk.Leads true path goal)
    (hfile : find? goal disk.root = some (.file bytes)) (bytes' : List UInt8) :
    ∃ disk', disk.write path bytes' = .ok disk' := by
  refine ⟨{ disk with root := put (.file bytes') goal disk.root }, ?_⟩
  unfold write
  refine bind_eq_ok.2 ⟨(), permit_eq_ok_iff.2 hpermit, ?_⟩
  rw [hslash, if_neg Bool.false_ne_true]
  refine bind_eq_ok.2 ⟨_, hleads.resolve_eq, ?_⟩
  rw [hfile]

/-! ## Making one directory -/

/-- Where a path leads to a directory without the slashes at its end, it leads with them. -/
theorem Leads.of_dropSlashes (h : disk.Leads true (Files.dropSlashes path) goal)
    {entries : List (String × Node)} (hdir : find? goal disk.root = some (.dir entries)) :
    disk.Leads true path goal := by
  obtain ⟨n, hn⟩ := steps_dropSlashes path
  obtain ⟨left, happend⟩ := h.walks.append hdir
  refine ⟨fun hnul => ?_, ?_, ?_⟩
  · rcases mem_of_mem_path hnul with hslash | hnul
    · exact absurd hslash (by decide)
    · exact h.no_nul hnul
  · rintro rfl
    exact h.ne_empty rfl
  · rw [hn, ← isAbsolute_dropSlashes path]
    exact happend _ _ (.inr rfl) (.idle hdir n)

/-- Where a path leads, it leads without the slashes at its end. -/
theorem Leads.dropSlashes (h : disk.Leads true path goal) :
    disk.Leads true (Files.dropSlashes path) goal := by
  obtain ⟨n, hn⟩ := steps_dropSlashes path
  have hwalks := h.walks
  rw [hn, ← isAbsolute_dropSlashes path] at hwalks
  exact ⟨fun hnul => h.no_nul (mem_dropSlashes hnul), dropSlashes_ne_empty h.ne_empty,
    hwalks.drop_idle_end⟩

/-- A directory that is made makes the disk grow, and it is there. -/
theorem grown_makeDir (h : disk.makeDir path = .ok disk') :
    Grown [] disk disk' ∧ disk'.isDir path = true := by
  unfold makeDir at h
  obtain ⟨⟨⟩, -, h⟩ := bind_eq_ok.1 h
  obtain ⟨t, ht, h⟩ := bind_eq_ok.1 h
  obtain ⟨goal, hleads, rfl⟩ := resolve_eq_ok_iff.1 ht
  dsimp only at h
  split at h
  · exact nomatch h
  rename_i hnone
  obtain ⟨entries, hdir⟩ | ⟨p, name, entries, rfl, hp, hproper⟩ := hleads.arrived.lodged
  · rw [hdir] at hnone
    exact nomatch hnone
  have hdisk : disk' = { disk with root := put (.dir []) (p ++ [name]) disk.root } :=
    (Except.ok.inj h).symm
  have hgrown : Grown [] disk disk' := hdisk ▸ grown_put hp hproper rfl (.inl ⟨rfl, hnone⟩)
  have hself : find? (p ++ [name]) disk'.root = some (.dir []) :=
    hdisk ▸ Node.find?_put_self hp (.dir []) name
  -- The new directory is at the end of the path, and slashes behind it stay there.
  have hfollow : disk'.Leads true (Files.dropSlashes path) (p ++ [name]) := by
    refine (hgrown.leads hleads).follow_end fun target hlink => ?_
    rw [hself] at hlink
    exact nomatch hlink
  exact ⟨hgrown, isDir_iff.2 ⟨p ++ [name], [], hfollow.of_dropSlashes hself, hself⟩⟩

/-- Where there is a directory, none is made. -/
theorem makeDir_of_isDir (hpermit : disk.refuses (.makeDir path) = none)
    (h : disk.isDir path = true) : disk.makeDir path = .error .exists := by
  obtain ⟨goal, entries, hleads, hdir⟩ := isDir_iff.1 h
  obtain ⟨hnul, hempty, hwalks⟩ := hleads.dropSlashes
  obtain ⟨goal', hwalks', hgoal⟩ := hwalks.stop_at_link
  have hleads' : disk.Leads false (Files.dropSlashes path) goal' := ⟨hnul, hempty, hwalks'⟩
  have hsome : ∃ node, find? goal' disk.root = some node := by
    rcases hgoal with rfl | ⟨target, hlink⟩
    · exact ⟨_, hdir⟩
    · exact ⟨_, hlink⟩
  obtain ⟨node, hnode⟩ := hsome
  unfold makeDir
  rw [permit_eq_ok_iff.2 hpermit]
  show (disk.resolve false (Files.dropSlashes path) >>= _) = _
  rw [hleads'.resolve_eq, hnode]
  rfl

/-- A directory that may not be made is not made. -/
theorem makeDir_of_refuses {cause : Cause} (h : disk.refuses (.makeDir path) = some cause) :
    disk.makeDir path = .error cause := by
  unfold makeDir permit
  rw [h]
  rfl

/-- A directory that is there counts as missing only if making it is refused so. -/
theorem refuses_of_makeDir_notFound (hdir : disk.isDir path = true)
    (h : disk.makeDir path = .error .notFound) : disk.refuses (.makeDir path) = some .notFound := by
  cases hrefuses : disk.refuses (.makeDir path) with
  | none =>
    rw [makeDir_of_isDir hrefuses hdir] at h
    exact nomatch h
  | some cause =>
    rw [makeDir_of_refuses hrefuses] at h
    rw [Except.error.inj h]

/-! ## Making a directory and those around it -/

/-- Makes a directory, unless there is one. -/
def tryDir (disk : Disk) (path : String) : Except Cause Unit × Disk :=
  match disk.makeDir path with
  | .ok disk' => (.ok (), disk')
  | .error cause => (if disk.isDir path then .ok () else .error cause, disk)

/-- Making directories starts with the one at the end of the path, unless what is around it is
missing. -/
theorem makeDirsWithin_of_ne (fuel : Nat) (hpath : path ≠ "")
    (h : disk.makeDir path ≠ .error .notFound) :
    makeDirsWithin (fuel + 1) disk path = disk.tryDir path := by
  unfold makeDirsWithin tryDir
  rw [if_neg (by simpa using hpath)]
  cases hmake : disk.makeDir path with
  | ok disk' => rfl
  | error cause =>
    cases cause with
    | notFound => exact absurd hmake h
    | _ => rfl

/-- Where something is missing around a directory, that is made first. -/
theorem makeDirsWithin_of_notFound (fuel : Nat) (hpath : path ≠ "")
    (h : disk.makeDir path = .error .notFound) :
    makeDirsWithin (fuel + 1) disk path =
      match parent? path with
      | none => (.error .notFound, disk)
      | some parent =>
        match makeDirsWithin fuel disk parent with
        | (.error cause, disk) => (.error cause, disk)
        | (.ok _, disk) => disk.tryDir path := by
  rw [makeDirsWithin, if_neg (by simpa using hpath), h]
  rfl

/-- An attempt makes the disk grow, and where it succeeds there is a directory. -/
theorem grown_tryDir (disk : Disk) (path : String) :
    Grown [] disk (disk.tryDir path).2 ∧
      ((disk.tryDir path).1 = .ok () → (disk.tryDir path).2.isDir path = true) := by
  unfold tryDir
  cases hmake : disk.makeDir path with
  | ok disk' =>
    obtain ⟨hgrown, hdir⟩ := grown_makeDir hmake
    exact ⟨hgrown, fun _ => hdir⟩
  | error cause =>
    refine ⟨.refl _ _, fun h => ?_⟩
    cases hdir : disk.isDir path with
    | true => rfl
    | false =>
      rw [hdir] at h
      exact nomatch h

/-- Where there is a directory, an attempt succeeds and changes nothing. -/
theorem tryDir_of_isDir (h : disk.isDir path = true) : disk.tryDir path = (.ok (), disk) := by
  have herror : ∃ cause, disk.makeDir path = .error cause := by
    cases hrefuses : disk.refuses (.makeDir path) with
    | some cause => exact ⟨cause, makeDir_of_refuses hrefuses⟩
    | none => exact ⟨.exists, makeDir_of_isDir hrefuses h⟩
  obtain ⟨cause, herror⟩ := herror
  unfold tryDir
  rw [herror, h]
  rfl

/-- Making directories makes the disk grow, also where it fails; where it succeeds there is a directory
at the end of the path. -/
theorem grown_makeDirsWithin (fuel : Nat) (disk : Disk) (path : String) :
    Grown [] disk (makeDirsWithin fuel disk path).2 ∧
      ((makeDirsWithin fuel disk path).1 = .ok () →
        path = "" ∨ (makeDirsWithin fuel disk path).2.isDir path = true) := by
  induction fuel generalizing disk path with
  | zero => exact ⟨.refl _ _, nofun⟩
  | succ fuel ih =>
    by_cases hpath : path = ""
    · subst hpath
      exact ⟨.refl _ _, fun _ => .inl rfl⟩
    by_cases hmake : disk.makeDir path = .error .notFound
    · rw [makeDirsWithin_of_notFound fuel hpath hmake]
      cases parent? path with
      | none => exact ⟨.refl _ _, nofun⟩
      | some parent =>
        obtain ⟨hgrown, -⟩ := ih disk parent
        dsimp only
        split
        · rename_i heq
          rw [heq] at hgrown
          exact ⟨hgrown, nofun⟩
        · rename_i disk' heq
          rw [heq] at hgrown
          obtain ⟨hgrown', hdir⟩ := grown_tryDir disk' path
          exact ⟨hgrown.trans hgrown', fun h => .inr (hdir h)⟩
    · rw [makeDirsWithin_of_ne fuel hpath hmake]
      obtain ⟨hgrown, hdir⟩ := grown_tryDir disk path
      exact ⟨hgrown, fun h => .inr (hdir h)⟩

/-- Directories that were made once are there, on a disk that has grown since too: making them again
succeeds and changes nothing. -/
theorem makeDirsWithin_again {fuel : Nat} {touched : List Place} {new : Disk}
    (h : makeDirsWithin fuel disk path = (.ok (), disk')) (hgrown : Grown touched disk' new) :
    makeDirsWithin fuel new path = (.ok (), new) := by
  -- The second time goes the way of the first: what was missing then is there now.
  induction fuel generalizing disk disk' path touched with
  | zero => exact nomatch h
  | succ fuel ih =>
    by_cases hpath : path = ""
    · subst hpath
      rfl
    obtain ⟨hfirst, hdir⟩ := grown_makeDirsWithin (fuel + 1) disk path
    rw [h] at hfirst hdir
    have hnew : new.isDir path = true := hgrown.isDir ((hdir rfl).resolve_left hpath)
    by_cases hmake : new.makeDir path = .error .notFound
    · -- The directory is there and counts as missing, so making it has been refused before.
      have hrefuses := refuses_of_makeDir_notFound hnew hmake
      have hbefore : disk.makeDir path = .error .notFound := by
        apply makeDir_of_refuses
        rw [← hfirst.refuses, ← hgrown.refuses]
        exact hrefuses
      rw [makeDirsWithin_of_notFound fuel hpath hbefore] at h
      rw [makeDirsWithin_of_notFound fuel hpath hmake]
      cases hparent : parent? path with
      | none =>
        rw [hparent] at h
        exact nomatch h
      | some parent =>
        rw [hparent] at h
        dsimp only at h ⊢
        split at h
        · exact nomatch h
        · rename_i disk'' heq
          have hlast : Grown [] disk'' disk' := by
            have := (grown_tryDir disk'' path).1
            rw [h] at this
            exact this
          rw [ih heq (hlast.trans hgrown)]
          exact tryDir_of_isDir hnew
    · rw [makeDirsWithin_of_ne fuel hpath hmake]
      exact tryDir_of_isDir hnew

end Disk

end ManifestSync.Files
