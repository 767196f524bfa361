import ManifestSync.Proofs.Files.Write
import ManifestSync.Proofs.Sync.Scanning

/-!
# Committing a plan

What a successful commit has done (`Committed`): the manifest has the text of the plan's entries, and
the rest of the disk has only grown, except at the places of the manifest and of the statistics. On a
disk that it has left another commit succeeds (`exists_commit_again`): the directory of the
statistics is there, and both files exist and may be written.
-/

namespace ManifestSync

open Files (Disk Place)
open Files.Disk (Grown Wrote)
open Files.Node (find?)

/-! ## Steps of a commit -/

/-- A step that changes the disk, and if it succeeds another one. -/
def andThen (first : Except Failure Unit × Disk) (next : Disk → Except Failure Unit × Disk) :
    Except Failure Unit × Disk :=
  match first with
  | (.error e, disk) => (.error e, disk)
  | (.ok _, disk) => next disk

/-- Writes a text to a file, as a step. -/
def putText (path : String) (text : List Char) (disk : Disk) : Except Failure Unit × Disk :=
  match writeText disk path text with
  | .error e => (.error e, disk)
  | .ok disk => (.ok (), disk)

/-- Makes the directory around a path, where the path names one, as a step. -/
def makeParent (path : String) (disk : Disk) : Except Failure Unit × Disk :=
  match (Files.parent? path).filter (!·.isEmpty) with
  | none => (.ok (), disk)
  | some parent => (onPath parent (disk.makeDirs parent).1, (disk.makeDirs parent).2)

variable {disk disk' new : Disk} {path : String} {touched : List Place}

/-- Two steps succeed exactly if the first does and, on the disk that it leaves, the second. -/
theorem andThen_eq_ok_iff {first : Except Failure Unit × Disk}
    {next : Disk → Except Failure Unit × Disk} : andThen first next = (.ok (), disk') ↔
      ∃ mid, first = (.ok (), mid) ∧ next mid = (.ok (), disk') := by
  obtain ⟨written, mid⟩ := first
  cases written with
  | error e =>
    constructor
    · exact fun h => nomatch congrArg Prod.fst h
    · rintro ⟨mid', hmid, -⟩
      exact nomatch congrArg Prod.fst hmid
  | ok u =>
    constructor
    · exact fun h => ⟨mid, rfl, h⟩
    · rintro ⟨mid', hmid, h⟩
      obtain rfl : mid = mid' := congrArg Prod.snd hmid
      exact h

/-- A text is written exactly if its bytes are. -/
theorem putText_eq_ok_iff {text : List Char} : putText path text disk = (.ok (), disk') ↔
    disk.write path (Text.utf8 text) = .ok disk' := by
  rw [← onPath_eq_ok]
  show _ ↔ writeText disk path text = .ok disk'
  unfold putText
  cases writeText disk path text with
  | error e =>
    constructor
    · exact fun h => nomatch congrArg Prod.fst h
    · exact fun h => nomatch h
  | ok written =>
    constructor
    · exact fun h => congrArg Except.ok (congrArg Prod.snd h)
    · intro h
      obtain rfl := Except.ok.inj h
      rfl

/-- Writing the statistics makes the directory around their path and then writes their text. -/
theorem writeStatistics_eq (disk : Disk) (path : String) (statistics : Statistics) :
    writeStatistics disk path statistics =
      andThen (makeParent path disk) (putText path statistics.toJson.render) := by
  unfold writeStatistics makeParent
  cases (Files.parent? path).filter (!·.isEmpty) with
  | none => rfl
  | some parent =>
    dsimp only
    obtain ⟨made, mid⟩ := disk.makeDirs parent
    cases made with
    | error cause => rfl
    | ok u => rfl

/-- A commit writes the statistics and then the text of the entries. -/
theorem commit_eq (config : Config) (plan : Plan) (disk : Disk) :
    commit config plan disk = andThen (writeStatistics disk config.statsPath plan.outcome.statistics)
      (putText config.manifestPath (Manifest.render plan.entries)) := by
  unfold commit
  obtain ⟨written, mid⟩ := writeStatistics disk config.statsPath plan.outcome.statistics
  cases written with
  | error e => rfl
  | ok u => rfl

/-! ## The directory of the statistics -/

/-- The directory around a path has been made exactly if there is none to be made or making it has
succeeded. -/
theorem makeParent_eq_ok_iff : makeParent path disk = (.ok (), disk') ↔
    ((Files.parent? path).filter (!·.isEmpty) = none ∧ disk' = disk) ∨
      ∃ parent, (Files.parent? path).filter (!·.isEmpty) = some parent ∧
        disk.makeDirs parent = (.ok (), disk') := by
  unfold makeParent
  cases (Files.parent? path).filter (!·.isEmpty) with
  | none =>
    constructor
    · exact fun h => .inl ⟨rfl, (congrArg Prod.snd h).symm⟩
    · rintro (⟨-, rfl⟩ | ⟨parent, hparent, -⟩)
      · rfl
      · exact nomatch hparent
  | some parent =>
    constructor
    · intro h
      have hmade : onPath parent (disk.makeDirs parent).1 = .ok () := congrArg Prod.fst h
      have hdisk : (disk.makeDirs parent).2 = disk' := congrArg Prod.snd h
      exact .inr ⟨parent, rfl, Prod.ext (onPath_eq_ok.1 hmade) hdisk⟩
    · rintro (⟨hnone, -⟩ | ⟨parent', hparent, h⟩)
      · exact nomatch hnone
      · obtain rfl := Option.some.inj hparent
        dsimp only
        rw [h, onPath_eq_ok.2 rfl]

/-- Making the directory around a path makes the disk grow, also where it fails. -/
theorem grown_makeParent (path : String) (disk : Disk) :
    Grown [] disk (makeParent path disk).2 := by
  unfold makeParent
  cases (Files.parent? path).filter (!·.isEmpty) with
  | none => exact .refl [] disk
  | some parent => exact (Disk.grown_makeDirsWithin _ disk parent).1

/-- A directory that has been made around a path is there on a disk that has grown since. -/
theorem makeParent_again (h : makeParent path disk = (.ok (), disk'))
    (hgrown : Grown touched disk' new) : makeParent path new = (.ok (), new) := by
  rw [makeParent_eq_ok_iff]
  rcases makeParent_eq_ok_iff.1 h with ⟨hnone, -⟩ | ⟨parent, hparent, hmade⟩
  · exact .inl ⟨hnone, rfl⟩
  · exact .inr ⟨parent, hparent, Disk.makeDirsWithin_again hmade hgrown⟩

/-! ## Both files -/

variable {config : Config} {plan : Plan}

/-- What the parts of a successful commit have done: the directory of the statistics has been made,
and the two files have been written. -/
theorem commit_eq_ok_iff : commit config plan disk = (.ok (), disk') ↔
    ∃ made mid, makeParent config.statsPath disk = (.ok (), made) ∧
      made.write config.statsPath (Text.utf8 plan.outcome.statistics.toJson.render) = .ok mid ∧
      mid.write config.manifestPath (Text.utf8 (Manifest.render plan.entries)) = .ok disk' := by
  rw [commit_eq, andThen_eq_ok_iff]
  simp only [writeStatistics_eq, andThen_eq_ok_iff, putText_eq_ok_iff]
  constructor
  · rintro ⟨mid, ⟨made, hmade, hstats⟩, hmanifest⟩
    exact ⟨made, mid, hmade, hstats, hmanifest⟩
  · rintro ⟨made, mid, hmade, hstats, hmanifest⟩
    exact ⟨mid, ⟨made, hmade, hstats⟩, hmanifest⟩

/-- A file that has been written can be written again on a disk that has grown since. -/
theorem Files.Disk.Wrote.again {bytes : List UInt8} {goal : Place}
    (h : Wrote disk path bytes goal disk') (hgrown : Grown touched disk' new)
    (bytes' : List UInt8) : ∃ new', new.write path bytes' = .ok new' := by
  have hpermit : new.refuses (.write path) = none := by
    rw [hgrown.refuses, h.grown.refuses]
    exact h.permitted
  obtain ⟨old, hfile⟩ := hgrown.root.file h.written
  exact Disk.exists_write_eq_ok hpermit h.no_slash (hgrown.leads (h.grown.leads h.leads)) hfile bytes'

/-- What a successful commit has done, with the places of the statistics and of the manifest. -/
structure Committed (config : Config) (plan : Plan) (disk : Disk) (statsPlace manifestPlace : Place)
    (disk' : Disk) : Prop where
  /-- The path of the statistics leads to their place. -/
  statistics : disk'.Leads true config.statsPath statsPlace
  /-- The path of the manifest leads to its place. -/
  manifest : disk'.Leads true config.manifestPath manifestPlace
  /-- The manifest has the text of the entries. -/
  text : find? manifestPlace disk'.root = some (.file (Text.utf8 (Manifest.render plan.entries)))
  /-- Nothing else has changed. -/
  grown : Grown [statsPlace, manifestPlace] disk disk'

/-- A commit that succeeds has committed. -/
theorem exists_committed (h : commit config plan disk = (.ok (), disk')) :
    ∃ statsPlace manifestPlace, Committed config plan disk statsPlace manifestPlace disk' := by
  obtain ⟨made, mid, hmade, hstats, hmanifest⟩ := commit_eq_ok_iff.1 h
  obtain ⟨statsPlace, hstats⟩ := Disk.exists_wrote hstats
  obtain ⟨manifestPlace, hmanifest⟩ := Disk.exists_wrote hmanifest
  have hgrown : Grown [] disk made := by
    have := grown_makeParent config.statsPath disk
    rwa [hmade] at this
  refine ⟨statsPlace, manifestPlace, ?_⟩
  exact
    { statistics := hmanifest.grown.leads (hstats.grown.leads hstats.leads)
      manifest := hmanifest.grown.leads hmanifest.leads
      text := hmanifest.written
      grown := (hgrown.trans hstats.grown).trans hmanifest.grown }

/-- After a commit that has succeeded another one succeeds. -/
theorem exists_commit_again (h : commit config plan disk = (.ok (), disk')) (plan' : Plan) :
    ∃ disk'', commit config plan' disk' = (.ok (), disk'') := by
  obtain ⟨made, mid, hmade, hstats, hmanifest⟩ := commit_eq_ok_iff.1 h
  obtain ⟨_, hstats⟩ := Disk.exists_wrote hstats
  obtain ⟨_, hmanifest⟩ := Disk.exists_wrote hmanifest
  have hmade' : makeParent config.statsPath disk' = (.ok (), disk') :=
    makeParent_again hmade (hstats.grown.trans hmanifest.grown)
  obtain ⟨mid', hstats'⟩ :=
    hstats.again hmanifest.grown (Text.utf8 plan'.outcome.statistics.toJson.render)
  obtain ⟨_, hgrown⟩ := Disk.exists_wrote hstats'
  obtain ⟨disk'', hmanifest'⟩ :=
    hmanifest.again hgrown.grown (Text.utf8 (Manifest.render plan'.entries))
  exact ⟨disk'', commit_eq_ok_iff.2 ⟨disk', mid', hmade', hstats', hmanifest'⟩⟩

end ManifestSync
