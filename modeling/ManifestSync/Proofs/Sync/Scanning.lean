import ManifestSync.Proofs.Files.Listing
import ManifestSync.Proofs.Scan.Extraction
import ManifestSync.Proofs.Sync.Exactness
import ManifestSync.Sync.Run

/-!
# Scanning a disk

What a run makes of the sources of a disk. The index that it builds is keyed (`keyed_scan`), since a
source enters its tests with their identifiers and its own name. On a disk that has grown since,
scanning finds what it has found (`scan_eq_ok_of_grown`), provided that no source leads to a file
that has been written in between: the sources are the same, and each is read with the same bytes.
-/

namespace ManifestSync

open Files (Disk Place Source)
open Files.Disk (Grown)

variable {config : Config}

/-! ## The index of a scan -/

/-- An index stays keyed when the tests of one source are taken in. -/
theorem keyed_add {summary : ScanSummary} (h : Keyed config.keyScope summary.index)
    (relative : String) (bytes : List UInt8) :
    Keyed config.keyScope (summary.add config relative (scanBytes config relative bytes)).index := by
  refine List.foldlRecOn (motive := Keyed config.keyScope) _ _ h ?_
  rintro index hindex ⟨id, m⟩ hm
  obtain ⟨hid, hfile⟩ := Scan.named_of_mem_tests_extract _ _ _ hm
  apply hindex.insert
  rw [hid, hfile]

/-- A scan that succeeds has built a keyed index. -/
theorem keyed_scan {disk : Disk} {summary : ScanSummary} (h : scan config disk = .ok summary) :
    Keyed config.keyScope summary.index := by
  unfold scan at h
  obtain ⟨found, -, h⟩ := bind_eq_ok.1 h
  -- Each source keeps the index keyed.
  refine foldlM_invariant (fun s => Keyed config.keyScope s.index) ?_ (keyed_empty _) h
  intro s source s' hs hstep
  unfold ScanSummary.addSource at hstep
  obtain ⟨bytes, -, hstep⟩ := bind_eq_ok.1 hstep
  obtain rfl := Except.ok.inj hstep
  exact keyed_add hs source.relative bytes

/-! ## Scanning a disk that has grown -/

/-- An operation on a path succeeds exactly if it does without the path. -/
theorem onPath_eq_ok {α : Type} {path : String} {x : Except Files.Cause α} {a : α} :
    onPath path x = .ok a ↔ x = .ok a := by
  cases x with
  | ok b => exact ⟨fun h => congrArg Except.ok (Except.ok.inj h), fun h => h ▸ rfl⟩
  | error cause => exact ⟨nofun, nofun⟩

/-- The sources of a configuration are found exactly if its directory is one and they are found in
it. -/
theorem sources_eq_ok_iff {disk : Disk} {found : List Source} :
    sources config disk = .ok found ↔ disk.isDir config.testsDir = true ∧
      Files.sourcesIn disk config.testsDir config.fileExtensions = .ok found := by
  unfold sources
  cases hdir : disk.isDir config.testsDir with
  | false => exact ⟨nofun, nofun⟩
  | true =>
    rw [Bool.not_true, if_neg Bool.false_ne_true]
    cases hfound : Files.sourcesIn disk config.testsDir config.fileExtensions with
    | ok found' =>
      constructor
      · exact fun h => ⟨rfl, congrArg _ (Except.ok.inj h)⟩
      · exact fun h => congrArg _ (Except.ok.inj h.2)
    | error cause => exact ⟨nofun, nofun⟩

/-- No source that a configuration asks for leads to one of some places. -/
def Config.Unread (config : Config) (disk : Disk) (places : List Place) : Prop :=
  ∀ found, sources config disk = .ok found →
    ∀ source ∈ found, ∀ place, disk.Leads true source.path place → place ∉ places

variable {touched : List Place} {a b : Disk}

/-- On a disk that has grown the sources are those that there were. -/
theorem sources_eq_ok_of_grown (h : Grown touched a b) (hroot : a.root.wellFormed = true)
    (hunread : config.Unread b touched) {found : List Source}
    (hfound : sources config a = .ok found) : sources config b = .ok found := by
  obtain ⟨hdir, hin⟩ := sources_eq_ok_iff.1 hfound
  have hdir' := h.isDir hdir
  refine sources_eq_ok_iff.2 ⟨hdir', h.sourcesIn_eq_ok hroot hin fun found' hin' => ?_⟩
  exact hunread found' (sources_eq_ok_iff.2 ⟨hdir', hin'⟩)

/-- On a disk that has grown scanning finds what it has found. -/
theorem scan_eq_ok_of_grown (h : Grown touched a b) (hroot : a.root.wellFormed = true)
    (hunread : config.Unread b touched) {summary : ScanSummary}
    (hscan : scan config a = .ok summary) : scan config b = .ok summary := by
  unfold scan at hscan
  obtain ⟨found, hfound, hscan⟩ := bind_eq_ok.1 hscan
  have hfound' := sources_eq_ok_of_grown h hroot hunread hfound
  -- The same sources in the same order, each with the bytes that it had.
  refine bind_eq_ok.2 ⟨found, hfound', foldlM_congr (fun source hsource s s' hstep => ?_) hscan⟩
  unfold ScanSummary.addSource at hstep
  obtain ⟨bytes, hread, hstep⟩ := bind_eq_ok.1 hstep
  refine bind_eq_ok.2 ⟨bytes, onPath_eq_ok.2 (h.read_eq_ok (onPath_eq_ok.1 hread) ?_), hstep⟩
  exact fun place hleads => hunread found hfound' source hsource place (h.leads hleads)

end ManifestSync
