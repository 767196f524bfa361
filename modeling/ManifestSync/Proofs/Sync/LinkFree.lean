import ManifestSync.Proofs.Files.Unlinked
import ManifestSync.Proofs.Sync.Enumeration
import ManifestSync.Proofs.Sync.Indexing

/-!
# Scanning without the links

`sameOutcome_withoutLinks_iff` says when the links beneath the scan root make a difference to a scan. A
link counts as a source if its name has a suffix that counts, and is then read through: it brings in
what it leads to, or makes the scan fail if that cannot be read. Only if no link has such a name, or the
scan fails for another reason, is the outcome the same without them. The path of the scan root may itself
pass over one of the links, as `tests/here/..` does; then there is no scan root without them.

Without the links the sources are those that are no links (`listing_withoutLinks_eq_filter`), and they
are read as before (`read_withoutLinks_iff`). So a scan takes in what is left of the sources
(`scan_withoutLinks_eq_ok_iff`), and as it counts them, it gives the same only if all are left.
-/

namespace ManifestSync

open Files (Disk Place Source sourceAt)
open Files.Node (find?)

namespace Files

variable {disk : Disk} {path : String} {place : Place} {entries : List (String × Node)}
  {suffixes : List String}

/-- Whether what stands behind some names at a place is a link, and not the place itself. -/
def Disk.linkBehind (disk : Disk) (place : Place) (names : List String) : Bool :=
  !names.isEmpty && (find? (place ++ names) disk.root).any (·.isLink)

/-- Beneath a place there is a link whose name has a suffix that counts. -/
def HoldsLink (disk : Disk) (place : Place) (suffixes : List String) : Prop :=
  ∃ above name target, find? (place ++ (above ++ [name])) disk.root = some (.link target) ∧
    ∃ suffix ∈ suffixes, suffix.toList <:+ name.toList

/-- Behind some names is a link exactly if there are names and a link stands there. -/
theorem Disk.linkBehind_iff {names : List String} : disk.linkBehind place names = true ↔
    names ≠ [] ∧ ∃ target, find? (place ++ names) disk.root = some (.link target) := by
  unfold Disk.linkBehind
  rw [Bool.and_eq_true, Option.any_eq_true]
  refine and_congr (by simp) ⟨?_, ?_⟩
  · rintro ⟨node, hnode, hlink⟩
    cases node with
    | dir entries => exact nomatch hlink
    | file bytes => exact nomatch hlink
    | link target => exact ⟨target, hnode⟩
  · rintro ⟨target, hnode⟩
    exact ⟨_, hnode, rfl⟩

section
variable (hroot : disk.root.wellFormed = true) (hleads : disk.Leads true path place)
  (hdir : find? place disk.root = some (.dir entries))
include hroot hleads hdir

/-! ## The sources without the links -/

/-- A link beneath the directory has a suffix that counts exactly if one is listed. -/
theorem holdsLink_iff : HoldsLink disk place suffixes ↔
    ∃ names ∈ disk.listing path suffixes entries, disk.linkBehind place names = true := by
  simp only [mem_listing_iff hroot hleads hdir, Disk.linkBehind_iff]
  constructor
  · rintro ⟨above, name, target, hlink, suffix, hsuffix, hends⟩
    have hne : above ++ [name] ≠ [] :=
      List.append_ne_nil_of_right_ne_nil above (List.cons_ne_nil name [])
    refine ⟨above ++ [name], ⟨.link target, ?_, rfl, suffix, hsuffix, ?_⟩, hne, target, hlink⟩
    · rwa [Disk.met?_of_ne_nil hne]
    · rwa [List.getLast?_concat, Option.getD_some]
  · rintro ⟨names, ⟨-, -, -, suffix, hsuffix, hends⟩, hne, target, hlink⟩
    obtain rfl | ⟨above, name, rfl⟩ := List.eq_nil_or_concat names
    · exact absurd rfl hne
    rw [List.concat_eq_append] at *
    rw [List.getLast?_concat, Option.getD_some] at hends
    exact ⟨above, name, target, hlink, suffix, hsuffix, hends⟩

variable (hleads' : (disk.withoutLinks place).Leads true path place)
include hleads'

/-- Without the links a walk meets the sources that are no links beneath the directory. -/
theorem isSource_withoutLinks_iff {names : List String} :
    IsSource (disk.withoutLinks place) path place suffixes names ↔
      IsSource disk path place suffixes names ∧ disk.linkBehind place names = false := by
  cases names with
  | nil =>
    have hself := Disk.find?_withoutLinks_self hdir
    rw [isSource_nil_iff hleads' hself, isSource_nil_iff hleads hdir,
      Disk.isLink_withoutLinks hdir hroot hleads']
    exact (and_iff_left rfl).symm
  | cons name names =>
    simp only [IsSource, Disk.met?, Disk.linkBehind]
    rw [Disk.find?_append_withoutLinks hdir hroot (List.cons_ne_nil name names)]
    cases find? (place ++ name :: names) disk.root with
    | none => simp
    | some node =>
      cases node with
      | dir entries => simp [Node.unlinked?, Node.isLink, Node.withoutLinks, Node.isDir]
      | file bytes => simp [Node.unlinked?, Node.isLink, Node.withoutLinks]
      | link target => simp [Node.unlinked?, Node.isLink]

/-- Without the links the sources that are no links beneath the directory are listed. -/
theorem listing_withoutLinks_eq_filter :
    (disk.withoutLinks place).listing path suffixes (Node.withoutLinksEach entries) =
      (disk.listing path suffixes entries).filter (!disk.linkBehind place ·) := by
  have hroot' := Disk.wellFormed_root_withoutLinks hdir hroot
  have hself := Disk.find?_withoutLinks_self hdir
  refine (pairwise_listing hroot' hself path).eq_of_mem_iff
    ((pairwise_listing hroot hdir path).filter _) fun names => ?_
  rw [mem_listing_iff hroot' hleads' hself, List.mem_filter, mem_listing_iff hroot hleads hdir,
    Bool.not_eq_true']
  exact isSource_withoutLinks_iff hroot hleads hdir hleads'

/-- Without the links as many sources are listed exactly if there is no link whose name has a suffix
that counts. -/
theorem length_listing_withoutLinks_eq_iff :
    ((disk.withoutLinks place).listing path suffixes (Node.withoutLinksEach entries)).length =
      (disk.listing path suffixes entries).length ↔ ¬ HoldsLink disk place suffixes := by
  rw [listing_withoutLinks_eq_filter hroot hleads hdir hleads', List.length_filter_eq_length_iff,
    holdsLink_iff hroot hleads hdir]
  simp

/-- Where a source is met without the links, the same file is on both disks, or the directory. -/
theorem unlinked_of_mem_listing {names : List String}
    (hlisted : names ∈ (disk.withoutLinks place).listing path suffixes
      (Node.withoutLinksEach entries)) :
    ∃ node node', find? (place ++ names) disk.root = some node ∧
      find? (place ++ names) (disk.withoutLinks place).root = some node' ∧
      node.isLink = false ∧ node'.isLink = false ∧
      ∀ bytes, node' = .file bytes ↔ node = .file bytes := by
  cases names with
  | nil =>
    rw [List.append_nil]
    exact ⟨_, _, hdir, Disk.find?_withoutLinks_self hdir, rfl, rfl, fun _ => ⟨nofun, nofun⟩⟩
  | cons name names =>
    rw [listing_withoutLinks_eq_filter hroot hleads hdir hleads', List.mem_filter,
      Bool.not_eq_true'] at hlisted
    obtain ⟨hlisted, hbehind⟩ := hlisted
    obtain ⟨node, hmet, hnode, -⟩ := (mem_listing_iff hroot hleads hdir).1 hlisted
    have hfind : find? (place ++ name :: names) disk.root = some node := hmet
    rw [Disk.find?_append_withoutLinks hdir hroot (List.cons_ne_nil name names), hfind]
    cases node with
    | dir entries => exact nomatch hnode
    | link target =>
      rw [Disk.linkBehind, hfind] at hbehind
      exact nomatch hbehind
    | file bytes => exact ⟨_, _, rfl, rfl, rfl, rfl, fun _ => Iff.rfl⟩

/-- A source that is met without the links is read as it is with them. -/
theorem read_withoutLinks_iff {names : List String}
    (hlisted : names ∈ (disk.withoutLinks place).listing path suffixes
      (Node.withoutLinksEach entries)) {bytes : List UInt8} :
    (disk.withoutLinks place).read (sourceAt path names).path = .ok bytes ↔
      disk.read (sourceAt path names).path = .ok bytes := by
  obtain ⟨node, node', hnode, hnode', hlink, hlink', hfile⟩ :=
    unlinked_of_mem_listing hroot hleads hdir hleads' hlisted
  have halong {disk : Disk} {node : Node} (hroot : disk.root.wellFormed = true)
      (hleads : disk.Leads true path place) (hnode : find? (place ++ names) disk.root = some node)
      (hlink : node.isLink = false) :
      disk.Leads true (sourceAt path names).path (place ++ names) := by
    refine hleads.along hroot hnode (.inr rfl) ?_
    rintro target rfl
    exact nomatch hlink
  rw [Disk.read_eq_ok_iff_of_leads (halong (Disk.wellFormed_root_withoutLinks hdir hroot) hleads'
      hnode' hlink'), Disk.read_eq_ok_iff_of_leads (halong hroot hleads hnode hlink),
    Disk.refuses_withoutLinks, hnode, hnode', Option.some.injEq, Option.some.injEq, hfile]

end

end Files

/-! ## Taking in the sources of a listing -/

variable {config : Config} {disk : Disk} {place : Place} {entries : List (String × Files.Node)}

/-- A source is taken in exactly if it is read. -/
theorem ScanSummary.addSource_eq_ok_iff {summary summary' : ScanSummary} {source : Source} :
    ScanSummary.addSource config disk summary source = .ok summary' ↔
      ∃ bytes, disk.read source.path = .ok bytes ∧
        summary.add config source.relative (scanBytes config source.relative bytes) = summary' := by
  unfold ScanSummary.addSource
  simp only [bind_eq_ok, onPath_eq_ok]
  exact exists_congr fun bytes => and_congr_right fun _ => ⟨Except.ok.inj, congrArg Except.ok⟩

/-- Sources are taken in one after another exactly if each of them is read. -/
theorem exists_foldlM_addSource_iff {found : List Source} {summary : ScanSummary} :
    (∃ summary', found.foldlM (ScanSummary.addSource config disk) summary = .ok summary') ↔
      ∀ source ∈ found, ∃ bytes, disk.read source.path = .ok bytes := by
  induction found generalizing summary with
  | nil => exact ⟨fun _ => nofun, fun _ => ⟨summary, rfl⟩⟩
  | cons source found ih =>
    simp only [List.foldlM_cons, bind_eq_ok, ScanSummary.addSource_eq_ok_iff, List.forall_mem_cons]
    constructor
    · rintro ⟨summary', next, ⟨bytes, hread, -⟩, hrest⟩
      exact ⟨⟨bytes, hread⟩, ih.1 ⟨summary', hrest⟩⟩
    · rintro ⟨⟨bytes, hread⟩, hreads⟩
      obtain ⟨summary', hrest⟩ := ih.2 hreads
      exact ⟨summary', _, ⟨bytes, hread, rfl⟩, hrest⟩

section
variable (hleads : disk.Leads true config.testsDir place)
  (hdir : find? place disk.root = some (.dir entries)) {summary : ScanSummary}
include hleads hdir

/-- A directory is scanned exactly if it may be listed and what is listed is taken in. -/
theorem scan_eq_ok_iff_listing : scan config disk = .ok summary ↔
    disk.refuses (.list config.testsDir) = none ∧
      ((disk.listing config.testsDir config.fileExtensions entries).map
        (sourceAt config.testsDir)).foldlM (ScanSummary.addSource config disk) {} = .ok summary := by
  unfold scan
  simp only [bind_eq_ok, sources_eq_ok_iff_listing hleads hdir, and_assoc, exists_and_left,
    exists_eq_left']

/-- A scan counts what is listed. -/
theorem filesScanned_eq_length_listing (h : scan config disk = .ok summary) :
    summary.filesScanned =
      (disk.listing config.testsDir config.fileExtensions entries).length := by
  obtain ⟨scanned, hsources, -, hindexed⟩ := scan_indexed h
  obtain ⟨-, hlisting⟩ := (sources_eq_ok_iff_listing hleads hdir).1 hsources
  calc summary.filesScanned
      = (scanned.map (·.1)).length := by rw [hindexed.filesScanned, List.length_map]
    _ = (disk.listing config.testsDir config.fileExtensions entries).length := by
      rw [← hlisting, List.length_map]

end

/-! ## The outcome of a scan -/

/-- Two runs give the same result, or both fail. -/
def SameOutcome {ε α : Type} (x y : Except ε α) : Prop :=
  ∀ a, x = .ok a ↔ y = .ok a

/-- A run gives no result. -/
def Fails {ε α : Type} (x : Except ε α) : Prop :=
  ∀ a, x ≠ .ok a

section
variable (hroot : disk.root.wellFormed = true) (hleads : disk.Leads true config.testsDir place)
  (hdir : find? place disk.root = some (.dir entries))
  (hleads' : (disk.withoutLinks place).Leads true config.testsDir place)
  {summary : ScanSummary}
include hroot hleads hdir hleads'

/-- Without the links a scan takes in the sources that are left, as a scan with them would. -/
theorem scan_withoutLinks_eq_ok_iff : scan config (disk.withoutLinks place) = .ok summary ↔
    disk.refuses (.list config.testsDir) = none ∧
      (((disk.withoutLinks place).listing config.testsDir config.fileExtensions
        (Files.Node.withoutLinksEach entries)).map (sourceAt config.testsDir)).foldlM
          (ScanSummary.addSource config disk) {} = .ok summary := by
  have hstep : ∀ source ∈ ((disk.withoutLinks place).listing config.testsDir config.fileExtensions
      (Files.Node.withoutLinksEach entries)).map (sourceAt config.testsDir), ∀ c d,
      ScanSummary.addSource config (disk.withoutLinks place) c source = .ok d ↔
        ScanSummary.addSource config disk c source = .ok d := by
    rw [List.forall_mem_map]
    intro names hlisted c d
    simp only [ScanSummary.addSource_eq_ok_iff,
      Files.read_withoutLinks_iff hroot hleads hdir hleads' hlisted]
  rw [scan_eq_ok_iff_listing hleads' (Disk.find?_withoutLinks_self hdir), Disk.refuses_withoutLinks]
  exact and_congr_right fun _ =>
    ⟨foldlM_congr fun source hsource c d => (hstep source hsource c d).1,
      foldlM_congr fun source hsource c d => (hstep source hsource c d).2⟩

/-- If no link has a suffix that counts, a scan gives the same without the links. -/
theorem sameOutcome_of_not_holdsLink
    (h : ¬ Files.HoldsLink disk place config.fileExtensions) :
    SameOutcome (scan config disk) (scan config (disk.withoutLinks place)) := by
  have hlength := (Files.length_listing_withoutLinks_eq_iff hroot hleads hdir hleads').2 h
  intro summary
  rw [scan_eq_ok_iff_listing hleads hdir, scan_withoutLinks_eq_ok_iff hroot hleads hdir hleads']
  rw [Files.listing_withoutLinks_eq_filter hroot hleads hdir hleads'] at hlength ⊢
  rw [List.filter_eq_self.2 (List.length_filter_eq_length_iff.1 hlength)]

/-- A scan that succeeds does so without the links. -/
theorem exists_scan_withoutLinks (h : scan config disk = .ok summary) :
    ∃ summary', scan config (disk.withoutLinks place) = .ok summary' := by
  obtain ⟨hpermit, hscan⟩ := (scan_eq_ok_iff_listing hleads hdir).1 h
  have hreads := exists_foldlM_addSource_iff.1 ⟨summary, hscan⟩
  have hsub := (List.filter_sublist (p := (!disk.linkBehind place ·))
    (l := disk.listing config.testsDir config.fileExtensions entries)).map
      (sourceAt config.testsDir)
  rw [← Files.listing_withoutLinks_eq_filter hroot hleads hdir hleads'] at hsub
  obtain ⟨summary', hscan'⟩ := exists_foldlM_addSource_iff.2 fun source hsource =>
    hreads source (hsub.subset hsource)
  exact ⟨summary', (scan_withoutLinks_eq_ok_iff hroot hleads hdir hleads').2 ⟨hpermit, hscan'⟩⟩

/-- If a scan gives the same without the links, no link has a suffix that counts. -/
theorem not_holdsLink_of_scan_eq (h : scan config disk = .ok summary)
    (h' : scan config (disk.withoutLinks place) = .ok summary) :
    ¬ Files.HoldsLink disk place config.fileExtensions := by
  refine (Files.length_listing_withoutLinks_eq_iff hroot hleads hdir hleads').1 ?_
  rw [← filesScanned_eq_length_listing hleads hdir h,
    ← filesScanned_eq_length_listing hleads' (Disk.find?_withoutLinks_self hdir) h']

end

/-- The links beneath the scan root make no difference to a scan exactly if, where the path of the root
leads to a directory without them, no link has a suffix that counts or the scan fails without them too,
and where it does not lead there, the scan fails with them. -/
theorem sameOutcome_withoutLinks_iff (hroot : disk.root.wellFormed = true)
    (hleads : disk.Leads true config.testsDir place)
    (hdir : find? place disk.root = some (.dir entries)) :
    SameOutcome (scan config disk) (scan config (disk.withoutLinks place)) ↔
      ((disk.withoutLinks place).isDir config.testsDir = true →
        Files.HoldsLink disk place config.fileExtensions →
          Fails (scan config (disk.withoutLinks place))) ∧
      ((disk.withoutLinks place).isDir config.testsDir = false → Fails (scan config disk)) := by
  by_cases hisDir : (disk.withoutLinks place).isDir config.testsDir = true
  · have hleads' := (Disk.isDir_withoutLinks_iff hdir hroot hleads).1 hisDir
    simp only [hisDir, forall_const, Bool.true_eq_false, IsEmpty.forall_iff, and_true]
    constructor
    · intro hsame hholds summary hscan
      exact not_holdsLink_of_scan_eq hroot hleads hdir hleads' ((hsame summary).2 hscan) hscan hholds
    · intro hfails
      by_cases hholds : Files.HoldsLink disk place config.fileExtensions
      · -- The scan fails without the links, and so with them.
        refine fun summary => iff_of_false (fun hscan => ?_) (hfails hholds summary)
        obtain ⟨summary', hscan'⟩ := exists_scan_withoutLinks hroot hleads hdir hleads' hscan
        exact hfails hholds summary' hscan'
      · exact sameOutcome_of_not_holdsLink hroot hleads hdir hleads' hholds
  · have hfails : Fails (scan config (disk.withoutLinks place)) := fun summary hscan => by
      obtain ⟨found, hfound, -⟩ := bind_eq_ok.1 hscan
      exact hisDir (sources_eq_ok_iff.1 hfound).1
    rw [Bool.not_eq_true] at hisDir
    simp only [hisDir, forall_const, Bool.false_eq_true, IsEmpty.forall_iff, true_and]
    exact forall_congr' fun summary => iff_false_right (hfails summary)

/-- A scan root with nothing but a link to a source outside. -/
def linked : Disk :=
  { root := .dir [("outside.spec.ts", .file (Text.utf8 "test('TC-1: a', f);".toList)),
      ("tests", .dir [("a.spec.ts", .link "../outside.spec.ts")])] }

/-- The link has a suffix that counts, so that it makes a difference unless a scan without it fails. -/
theorem sameOutcome_withoutLinks_iff_linked :
    (SameOutcome (scan {} linked) (scan {} (linked.withoutLinks ["tests"])) ↔
      ((linked.withoutLinks ["tests"]).isDir "./tests" = true →
        Files.HoldsLink linked ["tests"] ({} : Config).fileExtensions →
          Fails (scan {} (linked.withoutLinks ["tests"]))) ∧
      ((linked.withoutLinks ["tests"]).isDir "./tests" = false → Fails (scan {} linked))) ∧
    (linked.withoutLinks ["tests"]).isDir "./tests" = true ∧
    Files.HoldsLink linked ["tests"] ({} : Config).fileExtensions := by
  have hleads : linked.Leads true ({} : Config).testsDir ["tests"] :=
    Disk.place?_eq_some_iff.1 (by decide +kernel)
  refine ⟨sameOutcome_withoutLinks_iff (by decide +kernel) hleads rfl, by decide +kernel, ?_⟩
  exact ⟨[], "a.spec.ts", "../outside.spec.ts", rfl, ".spec.ts", by decide, by decide +kernel⟩

/-- Links beneath the scan root can make a difference: one to a source outside is scanned. -/
theorem not_forall_sameOutcome_withoutLinks :
    ¬ ∀ (config : Config) (disk : Disk) (place : Place) (entries : List (String × Files.Node)),
      config.validate = .ok () → disk.root.wellFormed = true →
      disk.Leads true config.testsDir place → find? place disk.root = some (.dir entries) →
      SameOutcome (scan config disk) (scan config (disk.withoutLinks place)) := by
  intro hall
  have hroot : linked.root.wellFormed = true := by decide +kernel
  have hleads : linked.Leads true ({} : Config).testsDir ["tests"] :=
    Disk.place?_eq_some_iff.1 (by decide +kernel)
  have hleads' : (linked.withoutLinks ["tests"]).Leads true ({} : Config).testsDir ["tests"] :=
    Disk.place?_eq_some_iff.1 (by decide +kernel)
  have hsame := hall {} linked ["tests"] _ rfl hroot hleads rfl
  -- The link leads to a file, so that the scan succeeds. A directory of one entry is in order.
  have hlisting : linked.listing "./tests" ({} : Config).fileExtensions
      [("a.spec.ts", .link "../outside.spec.ts")] = [["a.spec.ts"]] := by
    unfold Disk.listing Files.listEntries Files.arrange Files.sortEntries
    rw [List.mergeSort_of_pairwise (by decide +kernel)]
    decide +kernel
  have hread : ∃ bytes, linked.read (sourceAt "./tests" ["a.spec.ts"]).path = .ok bytes :=
    ⟨Text.utf8 "test('TC-1: a', f);".toList, by decide +kernel⟩
  obtain ⟨summary, hscan⟩ : ∃ summary, scan {} linked = .ok summary := by
    have hreads : ∀ source ∈ [["a.spec.ts"]].map (sourceAt "./tests"),
        ∃ bytes, linked.read source.path = .ok bytes := List.forall_mem_singleton.2 hread
    obtain ⟨summary, hsummary⟩ := exists_foldlM_addSource_iff.2 hreads
    refine ⟨summary, (scan_eq_ok_iff_listing hleads rfl).2 ⟨rfl, ?_⟩⟩
    rw [hlisting]
    exact hsummary
  refine not_holdsLink_of_scan_eq hroot hleads rfl hleads' hscan ((hsame summary).1 hscan) ?_
  exact ⟨[], "a.spec.ts", "../outside.spec.ts", rfl, ".spec.ts", by decide, by decide +kernel⟩

end ManifestSync
