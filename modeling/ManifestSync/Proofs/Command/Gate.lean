import ManifestSync.Command.Execute
import ManifestSync.Proofs.Sync.Idempotence

/-!
# The exit status as a gate

What the exit status of a synchronisation says. `ReadingFails`, `WritingFails` and `LacksTests` are
conditions on the disk, the path of the configuration and what stands in for parts of it; neither the
format nor a dry run occurs in them, and nothing of the entries but their keys. `exit_gates` says
which of them decides each status.

The proof follows the stages. Reading fails or gives a manifest and what a scan has found
(`readingFails_or_exists_allRead`). In the second case the run ends with the outcome that is planned,
unless it writes and a write fails (`fst_run`). The status of that outcome is read off its shadows,
which are the keys that no loaded entry has, although the entries have been updated by then
(`exitCode_planOf_eq_one_iff`).
-/

namespace ManifestSync.Command

open Files (Disk)

/-! ## What decides the status -/

/-- One of the stages before writing fails. `adjust` replaces parts of the configuration. -/
inductive ReadingFails (disk : Disk) (path : String) (adjust : Config → Config) : Prop where
  /-- The configuration cannot be loaded. -/
  | configuration (failure : Failure) (h : loadConfig disk path = .error failure)
  /-- The configuration is refused when parts of it have been replaced: it is not valid, or its patterns
  cannot be compiled. -/
  | validation (config : Config) (failure : Failure) (hconfig : loadConfig disk path = .ok config)
      (h : setUp (adjust config) disk = .error failure)
  /-- The manifest cannot be loaded. -/
  | manifest (config : Config) (failure : Failure) (hconfig : loadConfig disk path = .ok config)
      (h : loadManifest disk (adjust config).manifestPath = .error failure)
  /-- The sources cannot be scanned. -/
  | scanning (config : Config) (failure : Failure) (hconfig : loadConfig disk path = .ok config)
      (h : scan (adjust config) disk = .error failure)

/-- Every stage before writing succeeds, and this is what they give. -/
structure AllRead (disk : Disk) (path : String) (adjust : Config → Config) (config : Config)
    (loaded : List Entry) (found : ScanSummary) : Prop where
  configuration : ∃ written, loadConfig disk path = .ok written ∧ adjust written = config
  ready : setUp config disk = .ok ()
  manifest : loadManifest disk config.manifestPath = .ok loaded
  scanned : scan config disk = .ok found

/-- All is read, but writing the statistics or the manifest fails. -/
def WritingFails (disk : Disk) (path : String) (adjust : Config → Config) (accept : Bool)
    (now : String) : Prop :=
  ∃ config loaded found failure, AllRead disk path adjust config loaded found ∧
    (commit config (planOf config { acceptShadows := accept } now loaded found) disk).1 =
      .error failure

/-- All is read, and some key of the index is not that of any loaded entry. -/
def LacksTests (disk : Disk) (path : String) (adjust : Config → Config) : Prop :=
  ∃ config loaded found key, AllRead disk path adjust config loaded found ∧
    key ∈ found.index ∧ ∀ e ∈ loaded, e.key config.keyScope ≠ key

/-! ## Reading -/

section
variable {disk : Disk} {path : String} {adjust : Config → Config} {config : Config}
  {loaded : List Entry} {found : ScanSummary}

/-- Reading fails or gives something. -/
theorem readingFails_or_exists_allRead (disk : Disk) (path : String) (adjust : Config → Config) :
    ReadingFails disk path adjust ∨ ∃ config loaded found,
      AllRead disk path adjust config loaded found := by
  cases hconfig : loadConfig disk path with
  | error failure => exact .inl (.configuration failure hconfig)
  | ok written =>
    cases hready : setUp (adjust written) disk with
    | error failure => exact .inl (.validation written failure hconfig hready)
    | ok u =>
      cases hload : loadManifest disk (adjust written).manifestPath with
      | error failure => exact .inl (.manifest written failure hconfig hload)
      | ok loaded =>
        cases hscan : scan (adjust written) disk with
        | error failure => exact .inl (.scanning written failure hconfig hscan)
        | ok found => exact .inr ⟨_, loaded, found, ⟨written, hconfig, rfl⟩, hready, hload, hscan⟩

/-- When all is read, it is read in one way. -/
theorem AllRead.unique (h : AllRead disk path adjust config loaded found) {config' : Config}
    {loaded' : List Entry} {found' : ScanSummary}
    (h' : AllRead disk path adjust config' loaded' found') :
    config' = config ∧ loaded' = loaded ∧ found' = found := by
  obtain ⟨written, hconfig, rfl⟩ := h.configuration
  obtain ⟨written', hconfig', rfl⟩ := h'.configuration
  obtain rfl : written' = written := Except.ok.inj (hconfig'.symm.trans hconfig)
  exact ⟨rfl, Except.ok.inj (h'.manifest.symm.trans h.manifest),
    Except.ok.inj (h'.scanned.symm.trans h.scanned)⟩

/-- When all is read, reading does not fail. -/
theorem AllRead.not_readingFails (h : AllRead disk path adjust config loaded found) :
    ¬ ReadingFails disk path adjust := by
  obtain ⟨written, hconfig, rfl⟩ := h.configuration
  intro hfails
  cases hfails with
  | configuration failure hfailure => exact nomatch hconfig.symm.trans hfailure
  | validation config failure hconfig' hfailure =>
    obtain rfl := Except.ok.inj (hconfig'.symm.trans hconfig)
    exact nomatch h.ready.symm.trans hfailure
  | manifest config failure hconfig' hfailure =>
    obtain rfl := Except.ok.inj (hconfig'.symm.trans hconfig)
    exact nomatch h.manifest.symm.trans hfailure
  | scanning config failure hconfig' hfailure =>
    obtain rfl := Except.ok.inj (hconfig'.symm.trans hconfig)
    exact nomatch h.scanned.symm.trans hfailure

/-- When all is read, writing fails exactly if the plan cannot be committed. -/
theorem AllRead.writingFails_iff (h : AllRead disk path adjust config loaded found) {accept : Bool}
    {now : String} : WritingFails disk path adjust accept now ↔ ∃ failure,
      (commit config (planOf config { acceptShadows := accept } now loaded found) disk).1 =
        .error failure := by
  constructor
  · rintro ⟨_, _, _, failure, hread, hfailure⟩
    obtain ⟨rfl, rfl, rfl⟩ := h.unique hread
    exact ⟨failure, hfailure⟩
  · rintro ⟨failure, hfailure⟩
    exact ⟨config, loaded, found, failure, h, hfailure⟩

/-- When all is read, tests are lacking exactly if a key of the index is not that of any entry. -/
theorem AllRead.lacksTests_iff (h : AllRead disk path adjust config loaded found) :
    LacksTests disk path adjust ↔
      ∃ key, key ∈ found.index ∧ ∀ e ∈ loaded, e.key config.keyScope ≠ key := by
  constructor
  · rintro ⟨_, _, _, key, hread, hkey⟩
    obtain ⟨rfl, rfl, rfl⟩ := h.unique hread
    exact ⟨key, hkey⟩
  · rintro ⟨key, hkey⟩
    exact ⟨config, loaded, found, key, h, hkey⟩

/-- When all is read, a run ends as planned if it is dry, and otherwise if it can write. -/
theorem AllRead.fst_run (h : AllRead disk path adjust config loaded found) (options : Options)
    (now : String) : (run config options now disk).1 =
      if options.dryRun then .ok (planOf config options now loaded found).outcome
      else (commit config (planOf config options now loaded found) disk).1.map
        fun _ => (planOf config options now loaded found).outcome := by
  have hplan : prepare config options now disk = .ok (planOf config options now loaded found) :=
    prepare_eq_ok_iff.2 ⟨loaded, found, h.manifest, h.scanned, rfl⟩
  unfold run runSetUp
  rw [h.ready]
  dsimp only
  rw [hplan]
  cases options.dryRun <;> rfl

/-- When all is read, a run fails if it writes and a write fails. -/
theorem AllRead.exists_fst_run (h : AllRead disk path adjust config loaded found)
    {options : Options} {now : String} (hdry : options.dryRun = false)
    (hwriting : WritingFails disk path adjust options.acceptShadows now) :
    ∃ failure, (run config options now disk).1 = .error failure := by
  obtain ⟨failure, hcommit⟩ := h.writingFails_iff.1 hwriting
  have hcommit' : (commit config (planOf config options now loaded found) disk).1 =
      .error failure := hcommit
  refine ⟨failure, ?_⟩
  rw [h.fst_run, hdry, if_neg Bool.false_ne_true, hcommit']
  rfl

/-- When all is read, a run ends as planned unless it writes and a write fails. -/
theorem AllRead.fst_run_eq_ok (h : AllRead disk path adjust config loaded found)
    {options : Options} {now : String}
    (hwriting : ¬ (options.dryRun = false ∧
      WritingFails disk path adjust options.acceptShadows now)) :
    (run config options now disk).1 = .ok (planOf config options now loaded found).outcome := by
  rw [h.fst_run]
  cases hdry : options.dryRun with
  | true => rfl
  | false =>
    cases hcommit : (commit config (planOf config options now loaded found) disk).1 with
    | error failure => exact absurd ⟨hdry, h.writingFails_iff.2 ⟨failure, hcommit⟩⟩ hwriting
    | ok u => rfl

/-- When reading fails although there is a configuration, a run fails. -/
theorem ReadingFails.exists_fst_run {written : Config} (h : ReadingFails disk path adjust)
    (hconfig : loadConfig disk path = .ok written) (options : Options) (now : String) :
    ∃ failure, (run (adjust written) options now disk).1 = .error failure := by
  have hfailed : (∃ failure, setUp (adjust written) disk = .error failure) ∨
      ∃ failure, prepare (adjust written) options now disk = .error failure := by
    cases h with
    | configuration failure h => exact nomatch hconfig.symm.trans h
    | validation config failure hconfig' h =>
      obtain rfl := Except.ok.inj (hconfig'.symm.trans hconfig)
      exact .inl ⟨failure, h⟩
    | manifest config failure hconfig' h =>
      obtain rfl := Except.ok.inj (hconfig'.symm.trans hconfig)
      exact .inr ⟨failure, by rw [prepare, h]; rfl⟩
    | scanning config failure hconfig' h =>
      obtain rfl := Except.ok.inj (hconfig'.symm.trans hconfig)
      -- The manifest is read first, and that may have failed too.
      cases hload : loadManifest disk (adjust config).manifestPath with
      | error failure' => exact .inr ⟨failure', by rw [prepare, hload]; rfl⟩
      | ok loaded => exact .inr ⟨failure, by rw [prepare, hload, h]; rfl⟩
  unfold run
  cases hready : setUp (adjust written) disk with
  | error failure => exact ⟨failure, rfl⟩
  | ok u =>
    obtain ⟨failure, h⟩ | ⟨failure, h⟩ := hfailed
    · exact nomatch hready.symm.trans h
    · exact ⟨failure, by rw [runSetUp, h]⟩

end

/-! ## The status -/

/-- A run has the exit status 1 exactly if it does not accept shadows and the index has a key that is
not that of any loaded entry. -/
theorem exitCode_planOf_eq_one_iff (config : Config) (options : Options) (now : String)
    (loaded : List Entry) (found : ScanSummary) :
    (planOf config options now loaded found).outcome.exitCode = 1 ↔ options.acceptShadows = false ∧
      ∃ key, key ∈ found.index ∧ ∀ e ∈ loaded, e.key config.keyScope ≠ key := by
  have hshadows : (planOf config options now loaded found).outcome.report.shadows =
      if options.acceptShadows then []
      else (unlisted config.keyScope loaded found.index).map (·.1) :=
    shadows_reconcile config.keyScope loaded found.index options.acceptShadows
  unfold Outcome.exitCode Report.hasShadows
  rw [hshadows]
  cases options.acceptShadows with
  | true => simp
  | false =>
    simp only [← mem_keys_unlisted, ← List.isEmpty_eq_false_iff_exists_mem, if_neg Bool.false_ne_true,
      true_and]
    cases ((unlisted config.keyScope loaded found.index).map (·.1)).isEmpty <;> decide

/-- A run has the exit status 0 or 1. -/
theorem exitCode_eq_zero_or_one (outcome : Outcome) :
    outcome.exitCode = 0 ∨ outcome.exitCode = 1 := by
  unfold Outcome.exitCode
  split_ifs
  · exact .inr rfl
  · exact .inl rfl

/-- However it is printed, an outcome has its exit status. -/
theorem exit_renderOutcome (format : Format) (options : Options) (outcome : Outcome) :
    (renderOutcome format options outcome).exit = outcome.exitCode := by
  cases format <;> rfl

/-- What the exit status of a synchronisation says. -/
structure Gated (disk : Disk) (path : String) (adjust : Config → Config) (options : Options)
    (now : String) (status : Nat) : Prop where
  /-- The status is 2 exactly if reading fails or a write does; a dry run does not write. -/
  two_iff : status = 2 ↔ ReadingFails disk path adjust ∨
    options.dryRun = false ∧ WritingFails disk path adjust options.acceptShadows now
  /-- Otherwise it is 1 exactly if shadows are not accepted and the manifest lacks tests. -/
  one_iff : status = 1 ↔ status ≠ 2 ∧ options.acceptShadows = false ∧ LacksTests disk path adjust
  /-- Otherwise it is 0. -/
  zero_iff : status = 0 ↔ status ≠ 2 ∧ status ≠ 1

section
variable {args : List String} {invocation : Invocation} {now : String} {disk : Disk}
  {manifest testsDir stats : Option String} {options : Options}

/-- The status of a synchronisation whose configuration has been loaded is that of its run. -/
theorem exit_execute {written : Config} (hparse : parse args = .ok invocation)
    (htask : invocation.task = .sync manifest testsDir stats options)
    (hconfig : loadConfig disk invocation.configPath = .ok written) :
    (execute args now disk).1.exit =
      match (run (invocation.task.adjust written) options now disk).1 with
      | .ok outcome => outcome.exitCode
      | .error _ => failed := by
  unfold execute
  rw [hparse]
  dsimp only
  rw [hconfig, htask]
  dsimp only [perform]
  generalize run _ options now disk = result
  obtain ⟨failure | outcome, disk'⟩ := result
  · rfl
  · exact exit_renderOutcome _ _ _

/-- The status of a synchronisation is 2 when reading fails. -/
theorem exit_execute_of_readingFails (hparse : parse args = .ok invocation)
    (htask : invocation.task = .sync manifest testsDir stats options)
    (h : ReadingFails disk invocation.configPath invocation.task.adjust) :
    (execute args now disk).1.exit = 2 := by
  cases hconfig : loadConfig disk invocation.configPath with
  | error failure =>
    unfold execute
    rw [hparse]
    dsimp only
    rw [hconfig]
    rfl
  | ok written =>
    obtain ⟨failure, hrun⟩ := h.exists_fst_run hconfig options now
    rw [exit_execute hparse htask hconfig, hrun]
    rfl

/-- The status of a synchronisation says what it should. -/
theorem gated_execute (now : String) (disk : Disk) (hparse : parse args = .ok invocation)
    (htask : invocation.task = .sync manifest testsDir stats options) :
    Gated disk invocation.configPath invocation.task.adjust options now
      (execute args now disk).1.exit := by
  obtain hfails | ⟨config, loaded, found, hread⟩ :=
    readingFails_or_exists_allRead disk invocation.configPath invocation.task.adjust
  · rw [exit_execute_of_readingFails hparse htask hfails]
    exact ⟨⟨fun _ => .inl hfails, fun _ => rfl⟩, by simp, by simp⟩
  have hnot := hread.not_readingFails
  obtain ⟨written, hconfig, rfl⟩ := hread.configuration
  rw [exit_execute hparse htask hconfig]
  by_cases hwriting : options.dryRun = false ∧
      WritingFails disk invocation.configPath invocation.task.adjust options.acceptShadows now
  · obtain ⟨failure, hrun⟩ := hread.exists_fst_run hwriting.1 hwriting.2
    rw [hrun]
    exact ⟨⟨fun _ => .inr hwriting, fun _ => rfl⟩, by simp [failed], by simp [failed]⟩
  · rw [hread.fst_run_eq_ok hwriting]
    dsimp only
    have hone := exitCode_planOf_eq_one_iff (invocation.task.adjust written) options now loaded found
    rw [← hread.lacksTests_iff] at hone
    have hfine : ¬ (ReadingFails disk invocation.configPath invocation.task.adjust ∨
        options.dryRun = false ∧ WritingFails disk invocation.configPath invocation.task.adjust
          options.acceptShadows now) := by
      rintro (h | h)
      · exact hnot h
      · exact hwriting h
    obtain hzero | hone' := exitCode_eq_zero_or_one
      (planOf (invocation.task.adjust written) options now loaded found).outcome
    · rw [hzero] at hone ⊢
      exact ⟨by simpa using hfine, by simpa using hone, by simp⟩
    · rw [hone'] at hone ⊢
      exact ⟨by simpa using hfine, by simpa using hone, by simp⟩

end

/-- A gated status is 2, 1 or 0, and its conditions decide it. -/
theorem Gated.unique {disk : Disk} {path : String} {adjust : Config → Config}
    {options options' : Options} {now : String} {status status' : Nat}
    (h : Gated disk path adjust options now status)
    (h' : Gated disk path adjust options' now status')
    (haccept : options'.acceptShadows = options.acceptShadows)
    (hdry : options'.dryRun = options.dryRun ∨
      ¬ WritingFails disk path adjust options.acceptShadows now) : status' = status := by
  have htwo : status' = 2 ↔ status = 2 := by
    rw [h.two_iff, h'.two_iff, haccept]
    rcases hdry with hdry | hwriting
    · rw [hdry]
    · simp only [hwriting, and_false]
  have hone : status' = 1 ↔ status = 1 := by
    rw [h.one_iff, h'.one_iff, haccept, Ne, htwo]
  have hzero := h.zero_iff
  have hzero' := h'.zero_iff
  omega

/-- The exit status of a synchronisation is a sound gate: it is 2 exactly if something fails, else 1
exactly if shadows are not accepted and a key of the index is not that of any loaded entry, else 0.
Another command line with the same paths and the same flag for shadows has the same status, whatever
its format, and whether it is dry or not if no write fails. -/
theorem exit_gates {args : List String} {invocation : Invocation}
    {manifest testsDir stats : Option String} {options : Options} (now : String) (disk : Disk)
    (hparse : parse args = .ok invocation)
    (htask : invocation.task = .sync manifest testsDir stats options) :
    Gated disk invocation.configPath invocation.task.adjust options now
        (execute args now disk).1.exit ∧
      ∀ args' invocation' options', parse args' = .ok invocation' →
        invocation'.configPath = invocation.configPath →
        invocation'.task = .sync manifest testsDir stats options' →
        options'.acceptShadows = options.acceptShadows →
        (options'.dryRun = options.dryRun ∨ ¬ WritingFails disk invocation.configPath
          invocation.task.adjust options.acceptShadows now) →
        (execute args' now disk).1.exit = (execute args now disk).1.exit := by
  have hgated := gated_execute now disk hparse htask
  refine ⟨hgated, ?_⟩
  intro args' invocation' options' hparse' hpath htask' haccept hdry
  have hgated' := gated_execute now disk hparse' htask'
  -- The same parts of the configuration are replaced.
  have hadjust : invocation'.task.adjust = invocation.task.adjust := by
    rw [htask, htask']
    rfl
  rw [hpath, hadjust] at hgated'
  exact hgated.unique hgated' haccept hdry

/-- On a disk without a configuration file, with a test that the manifest lacks and a manifest entry
without a test, the status is 1, and a dry run with another format has it as well. -/
theorem exit_gates_outOfStep :
    parse ["sync"] = .ok ⟨"tcsync.toml", .table, .sync none none none {}⟩ ∧
      Gated .outOfStep "tcsync.toml" id {} "now" 1 ∧
      (execute ["--format", "json", "sync", "--dry-run"] "now" .outOfStep).1.exit = 1 := by
  have hparse : parse ["sync"] = .ok ⟨"tcsync.toml", .table, .sync none none none {}⟩ := rfl
  have hparse' : parse ["--format", "json", "sync", "--dry-run"] =
      .ok ⟨"tcsync.toml", .json, .sync none none none { dryRun := true }⟩ := rfl
  have hexit : (execute ["sync"] "now" .outOfStep).1.exit = 1 := by decide +kernel
  obtain ⟨hgated, hsame⟩ := exit_gates "now" .outOfStep hparse rfl
  rw [hexit] at hgated hsame
  refine ⟨hparse, hgated, hsame _ _ _ hparse' rfl rfl rfl (.inr fun hwriting => ?_)⟩
  -- Its status would be 2 otherwise.
  exact absurd (hgated.two_iff.2 (.inr ⟨rfl, hwriting⟩)) (by decide)

end ManifestSync.Command
