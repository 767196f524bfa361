import ManifestSync.Proofs.Sync.Commit
import ManifestSync.Proofs.Sync.Fixpoint
import ManifestSync.Proofs.Text.Decoding

/-!
# Running twice

A run that has succeeded can be repeated on the files that it has left, and changes no more
(`run_idempotent`): the second run updates and promotes nothing, writes the same manifest, and
reports the same shadows, orphans and counts. The two files that a run writes must not be sources
themselves (`Config.outputsUnread`), and the text of the manifest must denote the document that it
was written from (`Manifest.ReadsBack`).

The first run has brought the disk into a state in which each part of a second run finds what the
first has found or made: the manifest reads back as the entries that were written
(`Committed.loadManifest_eq`), the scan finds the same tests on a disk that has grown
(`scan_eq_ok_of_grown`), the reconciliation is at its fixed point (`reconcile_reconcile`), and the
files can be written again (`exists_commit_again`).
-/

namespace ManifestSync

open Files (Disk Place Source)
open Files.Disk (Grown)

/-! ## The parts of a run -/

/-- What a run makes of the entries that it has loaded and the tests that it has found. -/
def planOf (config : Config) (options : Options) (now : String) (loaded : List Entry)
    (found : ScanSummary) : Plan :=
  let result := reconcile config.keyScope loaded found.index options.acceptShadows
  ⟨result.1, ⟨result.2, .compute result.1 result.2 now, found.filesScanned, found.unidentified⟩⟩

variable {config : Config} {options : Options} {now : String} {disk disk' : Disk}

/-- A plan is prepared exactly if the manifest is loaded and the sources are scanned. -/
theorem prepare_eq_ok_iff {plan : Plan} : prepare config options now disk = .ok plan ↔
    ∃ loaded found, loadManifest disk config.manifestPath = .ok loaded ∧
      scan config disk = .ok found ∧ planOf config options now loaded found = plan := by
  unfold prepare
  rw [bind_eq_ok]
  constructor
  · rintro ⟨loaded, hload, h⟩
    obtain ⟨found, hscan, h⟩ := bind_eq_ok.1 h
    exact ⟨loaded, found, hload, hscan, Except.ok.inj h⟩
  · rintro ⟨loaded, found, hload, hscan, rfl⟩
    exact ⟨loaded, hload, bind_eq_ok.2 ⟨found, hscan, rfl⟩⟩

/-- A configuration is set up exactly if it is valid and its patterns may be compiled. -/
theorem setUp_eq_ok_iff : setUp config disk = .ok () ↔ config.validate = .ok () ∧
    disk.refuses (.compile config.settings.idWord.word) = none := by
  unfold setUp
  rw [bind_eq_ok, ← Disk.permit_eq_ok_iff]
  cases disk.permit (.compile config.settings.idWord.word) with
  | error cause =>
    constructor
    · rintro ⟨-, -, h⟩
      exact nomatch h
    · rintro ⟨-, h⟩
      exact nomatch h
  | ok u =>
    constructor
    · rintro ⟨⟨⟩, hvalid, -⟩
      exact ⟨hvalid, rfl⟩
    · rintro ⟨hvalid, -⟩
      exact ⟨(), hvalid, rfl⟩

/-- A run comes to commit a plan. -/
structure Commits (config : Config) (options : Options) (now : String) (disk : Disk) (plan : Plan) :
    Prop where
  /-- The run is not dry. -/
  writes : options.dryRun = false
  /-- Its configuration is accepted. -/
  ready : setUp config disk = .ok ()
  /-- The plan is what it has prepared. -/
  planned : prepare config options now disk = .ok plan

/-- A run that comes to commit a plan does that, and has the outcome that was planned if it succeeds. -/
theorem Commits.run_eq {plan : Plan} (h : Commits config options now disk plan) :
    run config options now disk =
      ((commit config plan disk).1.map fun _ => plan.outcome, (commit config plan disk).2) := by
  unfold run runSetUp
  rw [h.ready]
  dsimp only
  rw [h.planned]
  dsimp only
  rw [h.writes, if_neg Bool.false_ne_true]

/-- A run that does not come to commit a plan leaves the disk as it was, and it fails unless it is
dry. -/
theorem run_of_not_commits (h : ∀ plan, ¬ Commits config options now disk plan) :
    (run config options now disk).2 = disk ∧
      (options.dryRun = false → ∀ outcome, (run config options now disk).1 ≠ .ok outcome) := by
  unfold run
  cases hready : setUp config disk with
  | error e => exact ⟨rfl, fun _ _ => nofun⟩
  | ok u =>
    dsimp only
    unfold runSetUp
    cases hplan : prepare config options now disk with
    | error e => exact ⟨rfl, fun _ _ => nofun⟩
    | ok plan =>
      dsimp only
      cases hdry : options.dryRun with
      | true => exact ⟨rfl, nofun⟩
      | false => exact absurd ⟨hdry, hready, hplan⟩ (h plan)

/-- A run that writes succeeds exactly if it comes to commit a plan and the plan is committed. -/
theorem run_eq_ok_iff (hdry : options.dryRun = false) {outcome : Outcome} :
    run config options now disk = (.ok outcome, disk') ↔ ∃ plan,
      Commits config options now disk plan ∧ commit config plan disk = (.ok (), disk') ∧
        plan.outcome = outcome := by
  constructor
  · intro h
    by_cases hcommits : ∃ plan, Commits config options now disk plan
    · obtain ⟨plan, hplan⟩ := hcommits
      rw [hplan.run_eq] at h
      have hwritten : (commit config plan disk).1.map (fun _ => plan.outcome) = .ok outcome :=
        congrArg Prod.fst h
      have hdisk : (commit config plan disk).2 = disk' := congrArg Prod.snd h
      obtain ⟨⟨⟩, hdone, houtcome⟩ := map_eq_ok.1 hwritten
      exact ⟨plan, hplan, Prod.ext hdone hdisk, houtcome⟩
    · obtain ⟨-, hfails⟩ := run_of_not_commits (not_exists.1 hcommits)
      exact absurd (congrArg Prod.fst h) (hfails hdry outcome)
  · rintro ⟨plan, hplan, hcommit, rfl⟩
    rw [hplan.run_eq, hcommit]
    rfl

/-- The entries that a manifest is loaded with have no managed key among their other keys. -/
theorem unmanaged_of_loadManifest {path : String} {entries : List Entry}
    (h : loadManifest disk path = .ok entries) : ∀ e ∈ entries, e.extra.Unmanaged := by
  unfold loadManifest at h
  obtain ⟨text, -, h⟩ := bind_eq_ok.1 h
  exact Manifest.unmanaged_of_parse h

/-- Loading a manifest is permitted and has read its file. -/
theorem exists_read_of_loadManifest {path : String} {entries : List Entry}
    (h : loadManifest disk path = .ok entries) : ∃ bytes, disk.read path = .ok bytes := by
  unfold loadManifest at h
  obtain ⟨text, htext, -⟩ := bind_eq_ok.1 h
  have htext := onPath_eq_ok.1 htext
  unfold Disk.readText at htext
  obtain ⟨bytes, hread, -⟩ := bind_eq_ok.1 htext
  exact ⟨bytes, hread⟩

/-! ## The files that a run has left -/

section
variable {plan : Plan} {statsPlace manifestPlace : Place}

/-- The manifest has the bytes of its text after a commit, if it may be read. -/
theorem Committed.read_eq (h : Committed config plan disk statsPlace manifestPlace disk')
    (hpermit : disk.refuses (.read config.manifestPath) = none) :
    disk'.read config.manifestPath = .ok (Text.utf8 (Manifest.render plan.entries)) := by
  refine Disk.read_eq_ok_iff.2 ⟨?_, manifestPlace, h.manifest, h.text⟩
  rw [h.grown.refuses]
  exact hpermit

/-- The manifest is loaded after a commit with the entries that were written. -/
theorem Committed.loadManifest_eq (h : Committed config plan disk statsPlace manifestPlace disk')
    (hpermit : disk.refuses (.read config.manifestPath) = none)
    (hback : Manifest.ReadsBack plan.entries) (hextra : ∀ e ∈ plan.entries, e.extra.Unmanaged) :
    loadManifest disk' config.manifestPath = .ok plan.entries := by
  have htext : disk'.readText config.manifestPath = .ok (Manifest.render plan.entries) := by
    unfold Disk.readText
    refine bind_eq_ok.2 ⟨_, h.read_eq hpermit, ?_⟩
    rw [Text.decode?_utf8]
  unfold loadManifest
  exact bind_eq_ok.2 ⟨_, onPath_eq_ok.2 htext, Manifest.parse_render hback _ hextra⟩

end

/-- Whether the scan reads neither the manifest nor the statistics as a source, be it directly or
through a link. -/
def Config.outputsUnread (config : Config) (disk : Disk) : Bool :=
  match sources config disk with
  | .ok found => found.all fun source =>
      disk.place? source.path != disk.place? config.manifestPath
        && disk.place? source.path != disk.place? config.statsPath
  | .error _ => true

/-- Where the outputs are no sources, no source leads to them. -/
theorem unread_of_outputsUnread (h : config.outputsUnread disk = true) {statsPlace manifestPlace : Place}
    (hstats : disk.Leads true config.statsPath statsPlace)
    (hmanifest : disk.Leads true config.manifestPath manifestPlace) :
    config.Unread disk [statsPlace, manifestPlace] := by
  intro found hfound source hsource place hleads hmem
  unfold Config.outputsUnread at h
  rw [hfound] at h
  have hsource := List.all_eq_true.1 h source hsource
  rw [Bool.and_eq_true_iff, bne_iff_ne, bne_iff_ne, Disk.place?_eq_some_iff.2 hleads,
    Disk.place?_eq_some_iff.2 hstats, Disk.place?_eq_some_iff.2 hmanifest] at hsource
  rcases List.mem_cons.1 hmem with rfl | hmem
  · exact hsource.2 rfl
  · exact hsource.1 (congrArg some (List.mem_singleton.1 hmem).symm).symm

/-! ## The second run -/

/-- What a second run shares with the first, and that it has found nothing to do. -/
structure Outcome.Repeats (again first : Outcome) : Prop where
  /-- No entry has changed. -/
  updates : again.report.updates = []
  /-- No entry has been added. -/
  promoted : again.report.promoted = []
  shadows : again.report.shadows = first.report.shadows
  orphans : again.report.orphans = first.report.orphans
  exitCode : again.exitCode = first.exitCode
  /-- The statistics agree in all but their time. -/
  counts : again.statistics.sameCounts first.statistics = true

/-- A plan for the entries of a plan, with the same tests, has these entries, and its outcome repeats
that of the first. -/
theorem planOf_again {loaded : List Entry} {found : ScanSummary} {plan : Plan}
    (h : Keyed config.keyScope found.index) (hplan : planOf config options now loaded found = plan)
    (now' : String) : (planOf config options now' plan.entries found).entries = plan.entries ∧
      (planOf config options now' plan.entries found).outcome.Repeats plan.outcome := by
  subst hplan
  unfold planOf
  dsimp only
  rw [reconcile_reconcile h loaded options.acceptShadows]
  -- The statistics are computed from the same entries and keys, so that only their time differs.
  refine ⟨rfl, ⟨rfl, rfl, rfl, rfl, rfl, ?_⟩⟩
  exact beq_iff_eq.2 rfl

/-- A run that writes and succeeds can be repeated on the files that it has left, on any tree of files
and at any later time. The second run succeeds and finds nothing to update or to promote; it leaves
the bytes of the manifest as they are, and its shadows, orphans, exit status and counts are those of
the first.

The manifest and the statistics must not be sources after the first run, which may have made the
statistics, and the text that the first run has written must denote the document of its entries. -/
theorem run_idempotent {outcome : Outcome} (now' : String) (hdry : options.dryRun = false)
    (htree : disk.root.wellFormed = true)
    (hrun : run config options now disk = (.ok outcome, disk'))
    (hunread : config.outputsUnread disk' = true)
    (hback : ∀ plan, prepare config options now disk = .ok plan →
      Manifest.ReadsBack plan.entries) :
    ∃ outcome' disk'' bytes, run config options now' disk' = (.ok outcome', disk'') ∧
      outcome'.Repeats outcome ∧
      disk'.read config.manifestPath = .ok bytes ∧ disk''.read config.manifestPath = .ok bytes := by
  obtain ⟨plan, ⟨-, hready, hplan⟩, hcommit, rfl⟩ := (run_eq_ok_iff hdry).1 hrun
  obtain ⟨loaded, found, hload, hscan, hplanOf⟩ := prepare_eq_ok_iff.1 hplan
  obtain ⟨statsPlace, manifestPlace, hdone⟩ := exists_committed hcommit
  obtain ⟨bytes, hread⟩ := exists_read_of_loadManifest hload
  have hpermit := (Disk.read_eq_ok_iff.1 hread).1
  have hextra : ∀ e ∈ plan.entries, e.extra.Unmanaged := by
    rw [← hplanOf]
    exact unmanaged_reconcile (unmanaged_of_loadManifest hload) options.acceptShadows
  -- The second run loads and finds what the first has written and found.
  have hload' : loadManifest disk' config.manifestPath = .ok plan.entries :=
    hdone.loadManifest_eq hpermit (hback plan hplan) hextra
  have hscan' : scan config disk' = .ok found :=
    scan_eq_ok_of_grown hdone.grown htree
      (unread_of_outputsUnread hunread hdone.statistics hdone.manifest) hscan
  let plan' := planOf config options now' plan.entries found
  have hplan' : prepare config options now' disk' = .ok plan' :=
    prepare_eq_ok_iff.2 ⟨plan.entries, found, hload', hscan', rfl⟩
  obtain ⟨hentries, hrepeats⟩ := planOf_again (keyed_scan hscan) hplanOf now'
  have hready' : setUp config disk' = .ok () := by
    rw [setUp_eq_ok_iff, hdone.grown.refuses]
    exact setUp_eq_ok_iff.1 hready
  -- It can write, and what it writes to the manifest is what stands there.
  obtain ⟨disk'', hcommit'⟩ := exists_commit_again hcommit plan'
  obtain ⟨_, _, hdone'⟩ := exists_committed hcommit'
  have hpermit' : disk'.refuses (.read config.manifestPath) = none := by
    rw [hdone.grown.refuses]
    exact hpermit
  have hread' : disk'.read config.manifestPath = .ok (Text.utf8 (Manifest.render plan.entries)) :=
    hdone.read_eq hpermit
  have hread'' : disk''.read config.manifestPath = .ok (Text.utf8 (Manifest.render plan.entries)) := by
    rw [← hentries]
    exact hdone'.read_eq hpermit'
  have hrun' : run config options now' disk' = (.ok plan'.outcome, disk'') :=
    (run_eq_ok_iff hdry).2 ⟨plan', ⟨hdry, hready', hplan'⟩, hcommit', rfl⟩
  exact ⟨plan'.outcome, disk'', _, hrun', hrepeats, hread', hread''⟩

/-- A result that shows something has succeeded. -/
theorem exists_eq_ok_of_toOption {α β γ ε : Type} {result : Except ε α × γ} {f : α → β} {b : β}
    (h : result.1.toOption.map f = some b) : ∃ a, result = (.ok a, result.2) ∧ f a = b := by
  obtain ⟨x, c⟩ := result
  cases x with
  | error e => exact nomatch h
  | ok a => exact ⟨a, rfl, Option.some.inj h⟩

/-- A disk with a manifest of one test that no source declares, and with a source of another one. -/
def Files.Disk.outOfStep : Disk where
  root := .dir [("tests.yml", .file (Text.utf8 "- testId: TC-2\n".toList)),
    ("tests", .dir [("a.spec.ts", .file (Text.utf8 "test('TC-1: a', () => {});".toList))])]

/-- The run that promotes the one test and finds the other without a source, and the run after it. -/
theorem run_idempotent_outOfStep :
    ∃ outcome disk', run {} { acceptShadows := true } "now" .outOfStep = (.ok outcome, disk') ∧
      outcome.report.promoted = [⟨"a.spec.ts", "TC-1"⟩] ∧
      outcome.report.orphans = [⟨"", "TC-2"⟩] ∧
      ∃ outcome' disk'' bytes,
        run {} { acceptShadows := true } "later" disk' = (.ok outcome', disk'') ∧
          outcome'.Repeats outcome ∧ disk'.read "./tests.yml" = .ok bytes ∧
          disk''.read "./tests.yml" = .ok bytes := by
  have hfound : (run {} { acceptShadows := true } "now" .outOfStep).1.toOption.map
      (fun outcome => (outcome.report.promoted, outcome.report.orphans)) =
        some ([⟨"a.spec.ts", "TC-1"⟩], [⟨"", "TC-2"⟩]) := by
    decide +kernel
  obtain ⟨outcome, hrun, hreport⟩ := exists_eq_ok_of_toOption hfound
  obtain ⟨hpromoted, horphans⟩ := Prod.mk.inj hreport
  refine ⟨outcome, _, hrun, hpromoted, horphans, ?_⟩
  refine run_idempotent "later" rfl (by decide +kernel) hrun (by decide +kernel) fun plan hplan => ?_
  have hback : ((prepare {} { acceptShadows := true } "now" .outOfStep).map fun plan =>
      decide (Manifest.ReadsBack plan.entries)).toOption = some true := by
    decide +kernel
  rw [hplan] at hback
  exact of_decide_eq_true (Option.some.inj hback)

end ManifestSync
