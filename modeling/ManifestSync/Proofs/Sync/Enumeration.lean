import ManifestSync.Proofs.Sync.Scanning
import ManifestSync.Proofs.Text.Order

/-!
# Which sources there are, and in which order

`sources_enumerated` says what the sources of a configuration are: the files and links that can be
reached from the scan root through directories alone and whose names have a suffix that counts, each of
them once. They are in the order of the components of their relative paths, compared byte by byte. That
is not the order of the relative paths, in which `a-b.spec.ts` comes before `a/b.spec.ts`: a slash
separates components and is greater than a hyphen.

The root may be a link to a directory. Then it counts as a link with its own name and the empty relative
path, which comes before all others.
-/

namespace ManifestSync

namespace Files

open Node (find?)

/-! ## What a walk meets -/

namespace Disk

/-- What a walk through the directory at the end of a path meets behind some names: without names that
is what stands at the end of the path, a link if there is one, and else what stands behind the names in
the directory. No link is passed on the way. `place` is the place of the directory. -/
def met? (disk : Disk) (path : String) (place : Place) : List String → Option Node
  | [] => (disk.resolve false path).toOption.bind (·.node)
  | name :: names => find? (place ++ name :: names) disk.root

/-- Behind some names a walk meets what stands there. -/
theorem met?_of_ne_nil {disk : Disk} {path : String} {place : Place} {names : List String}
    (h : names ≠ []) : disk.met? path place names = find? (place ++ names) disk.root := by
  cases names with
  | nil => exact absurd rfl h
  | cons name names => rfl

/-- The names behind which the sources of a directory with some entries stand; there are none in front
of a link at the end of its path. -/
def listing (disk : Disk) (path : String) (suffixes : List String)
    (entries : List (String × Node)) : Listing :=
  disk.itself path suffixes ++ listEntries suffixes entries

variable {disk : Disk} {path : String} {place : Place} {entries : List (String × Node)}

/-- A walk through a directory meets another node than a directory without names exactly if the path
ends at a link. -/
theorem exists_met?_nil_iff (hleads : disk.Leads true path place)
    (hdir : find? place disk.root = some (.dir entries)) :
    (∃ node, disk.met? path place [] = some node ∧ node.isDir = false) ↔
      disk.isLink path = true := by
  rw [isLink_iff]
  constructor
  · rintro ⟨node, hmet, hnode⟩
    obtain ⟨t, ht, htnode⟩ := Option.bind_eq_some_iff.1 hmet
    cases hresolve : disk.resolve false path with
    | error cause =>
      rw [hresolve] at ht
      exact nomatch ht
    | ok t' =>
      rw [hresolve] at ht
      obtain rfl := Option.some.inj ht
      obtain ⟨goal, hgoal, rfl⟩ := resolve_eq_ok_iff.1 hresolve
      refine ⟨goal, ?_⟩
      cases node with
      | dir entries' => exact nomatch hnode
      | link target => exact ⟨target, hgoal, htnode⟩
      | file bytes =>
        -- The path would lead to the file through links as well, and not to the directory.
        have hfile : find? goal disk.root = some (.file bytes) := htnode
        have hgoal' := hgoal.follow_end fun target hlink => nomatch hfile.symm.trans hlink
        rw [hgoal'.unique hleads, hdir] at hfile
        exact nomatch hfile
  · rintro ⟨goal, target, hgoal, hnode⟩
    refine ⟨.link target, ?_, rfl⟩
    rw [met?, hgoal.resolve_eq]
    exact hnode

end Disk

/-- A walk through a directory meets a file or a link behind some names, with a suffix that counts. The
name is the last one of the names, or that at the end of the path. -/
def IsSource (disk : Disk) (path : String) (place : Place) (suffixes : List String)
    (names : List String) : Prop :=
  ∃ node, disk.met? path place names = some node ∧ node.isDir = false ∧
    ∃ suffix ∈ suffixes, suffix.toList <:+ (names.getLast?.getD (fileName path)).toList

/-- The sources in the directory at the end of a path, with the place of the directory. -/
structure Enumerated (disk : Disk) (path : String) (place : Place) (suffixes : List String)
    (found : List Source) : Prop where
  /-- Exactly the files and links that a walk meets, with a suffix that counts, are listed. -/
  mem_iff : ∀ names, (∃ source ∈ found, components source.relative = names) ↔
    IsSource disk path place suffixes names
  /-- The components of the relative paths strictly increase, compared one by one in bytes. -/
  increasing : (found.map fun source =>
    (components source.relative).map fun name => Text.utf8 name.toList).Pairwise (· < ·)
  /-- No relative path is listed twice. -/
  distinct : (found.map (·.relative)).Nodup
  /-- A relative path is its components with slashes in between. -/
  relative_eq : ∀ source ∈ found,
    source.relative = String.intercalate "/" (components source.relative)
  /-- The path of a source is its relative path behind the path of the directory. -/
  path_eq : ∀ source ∈ found,
    source.path = if source.relative = "" then path else join path source.relative
  /-- The relative path behind that of the directory leads to where the components do. -/
  leads : ∀ source ∈ found,
    disk.Leads false (join path source.relative) (place ++ components source.relative)

/-! ## The listing -/

/-- A name has a suffix that counts exactly if it ends with one of them. -/
theorem hasSuffix_iff {suffixes : List String} {name : String} :
    hasSuffix suffixes name = true ↔ ∃ suffix ∈ suffixes, suffix.toList <:+ name.toList := by
  unfold hasSuffix Text.endsWith
  simp only [List.any_eq_true, List.isSuffixOf_iff_suffix]

section
variable {disk : Disk} {path : String} {place : Place} {entries : List (String × Node)}
  {suffixes : List String} (hroot : disk.root.wellFormed = true)
  (hleads : disk.Leads true path place) (hdir : find? place disk.root = some (.dir entries))
include hroot hleads hdir

omit hroot in
/-- The path itself ends at a source exactly if it ends at a link with a suffix that counts. -/
theorem isSource_nil_iff : IsSource disk path place suffixes [] ↔
    disk.isLink path = true ∧ ∃ suffix ∈ suffixes, suffix.toList <:+ (fileName path).toList := by
  rw [← Disk.exists_met?_nil_iff hleads hdir]
  simp only [IsSource, List.getLast?_nil, Option.getD_none, ← and_assoc, exists_and_right]

/-- The names that are listed are those of the sources. -/
theorem mem_listing_iff {names : List String} :
    names ∈ disk.listing path suffixes entries ↔
      IsSource disk path place suffixes names := by
  have hwell := Node.wellFormed_of_find? hroot hdir
  rw [Disk.listing, List.mem_append, mem_listEntries_iff hwell]
  cases names with
  | nil =>
    have hnot : ¬ IsListed suffixes entries [] := fun ⟨_, _, _, _, hlast, _⟩ => nomatch hlast
    have hitself : [] ∈ disk.itself path suffixes ↔
        disk.isLink path = true ∧ hasSuffix suffixes (fileName path) = true := by
      unfold Disk.itself
      split_ifs with h <;> simpa using h
    rw [or_iff_left hnot, hitself, isSource_nil_iff hleads hdir, hasSuffix_iff]
  | cons name names =>
    have hnot : name :: names ∉ disk.itself path suffixes := by
      unfold Disk.itself
      split_ifs <;> simp
    obtain ⟨last, hlast⟩ := Option.ne_none_iff_exists'.1
      (mt List.getLast?_eq_none_iff.1 (List.cons_ne_nil name names))
    rw [or_iff_right hnot, Disk.isListed_iff hdir]
    simp only [IsSource, Disk.met?, hlast, Option.getD_some, Option.some.injEq, hasSuffix_iff,
      exists_eq_left']

/-- The names that are listed can be those of files. -/
theorem properName_of_mem_listing {names : List String}
    (h : names ∈ disk.listing path suffixes entries) :
    ∀ name ∈ names, properName name = true := by
  obtain ⟨node, hmet, -⟩ := (mem_listing_iff hroot hleads hdir).1 h
  cases names with
  | nil => exact List.forall_mem_nil _
  | cons name names =>
    intro n hn
    exact Node.properName_of_find? hroot hmet n (List.mem_append_right place hn)

/-- The names that are listed are those on the relative paths of the sources. -/
theorem components_relative_sourceAt {names : List String}
    (h : names ∈ disk.listing path suffixes entries) :
    components (sourceAt path names).relative = names := by
  refine components_intercalate fun name hname => ?_
  obtain ⟨hstep, hslash, -⟩ :=
    properName_iff.1 (properName_of_mem_listing hroot hleads hdir h name hname)
  exact ⟨hstep.ne_empty, hslash⟩

omit hroot in
/-- The path of a link to a directory leads to the directory with a slash behind it. -/
theorem leads_join_empty (hlink : disk.isLink path = true) :
    disk.Leads false (join path "") place := by
  obtain ⟨goal, target, hgoal, hnode⟩ := Disk.isLink_iff.1 hlink
  refine ⟨fun hnul => ?_, join_ne_empty hleads.ne_empty "", ?_⟩
  · rcases mem_join hnul with h | h | h
    · exact hleads.no_nul h
    · exact absurd h (by decide)
    · exact absurd h List.not_mem_nil
  rw [isAbsolute_join hleads.ne_empty]
  rcases steps_join hleads.ne_empty (show '/' ∉ "".toList from List.not_mem_nil) with
    hsteps | ⟨before, hpath, -⟩
  · rw [hsteps]
    obtain ⟨left, happend⟩ := hleads.walks.append hdir
    exact happend [""] place (.inl (List.cons_ne_nil "" [])) (.stay hdir (.inl rfl) .done)
  · -- A path with a slash at its end ends at no link.
    have hwalks := hgoal.walks
    rw [hpath] at hwalks
    obtain ⟨_, hdir'⟩ := hwalks.exists_dir_of_idle_end
    exact nomatch hnode.symm.trans hdir'

omit hleads in
/-- The names that are listed are in order. -/
theorem pairwise_listing (path : String) :
    (disk.listing path suffixes entries).Pairwise (· < ·) := by
  have hwell := Node.wellFormed_of_find? hroot hdir
  rw [Disk.listing, List.pairwise_append]
  refine ⟨?_, pairwise_listEntries hwell, ?_⟩
  · unfold Disk.itself
    split_ifs
    · exact List.pairwise_singleton _ _
    · exact .nil
  · intro names hnames names' hnames'
    obtain ⟨node, -, -, name, hlast, -⟩ := (mem_listEntries_iff hwell).1 hnames'
    obtain ⟨first, more, rfl⟩ := List.exists_cons_of_ne_nil
      (mt List.getLast?_eq_none_iff.2 (Option.ne_none_iff_exists'.2 ⟨name, hlast⟩))
    unfold Disk.itself at hnames
    split_ifs at hnames
    · rw [List.mem_singleton.1 hnames]
      exact .nil
    · exact absurd hnames List.not_mem_nil

/-- The relative path of a source behind the path of the directory is the path of the source, unless
the source is what that path ends at. -/
theorem join_relative_sourceAt {name : String} {names : List String}
    (h : name :: names ∈ disk.listing path suffixes entries) :
    join path (sourceAt path (name :: names)).relative = (sourceAt path (name :: names)).path := by
  refine join_intercalate (fun n hn => ?_) path
  obtain ⟨hstep, hslash, -⟩ := properName_iff.1 (properName_of_mem_listing hroot hleads hdir h n hn)
  exact ⟨hstep.ne_empty, hslash⟩

/-- The relative path of a source behind the path of the directory leads to the source, or to the
directory if that is what the path ends at. -/
theorem leads_join_relative {names : List String}
    (h : names ∈ disk.listing path suffixes entries) :
    disk.Leads false (join path (sourceAt path names).relative) (place ++ names) := by
  obtain ⟨node, hmet, hnode, -⟩ := (mem_listing_iff hroot hleads hdir).1 h
  cases names with
  | nil =>
    rw [List.append_nil]
    exact leads_join_empty hleads hdir
      ((Disk.exists_met?_nil_iff hleads hdir).1 ⟨node, hmet, hnode⟩)
  | cons name names =>
    rw [join_relative_sourceAt hroot hleads hdir h]
    exact hleads.along hroot hmet (.inl (List.cons_ne_nil name names)) fun _ _ => rfl

/-- What is listed are the sources in the directory. -/
theorem enumerated_map_sourceAt : Enumerated disk path place suffixes
    ((disk.listing path suffixes entries).map (sourceAt path)) := by
  have hnames : ∀ names ∈ disk.listing path suffixes entries,
      components (sourceAt path names).relative = names :=
    fun _ hlisted => components_relative_sourceAt hroot hleads hdir hlisted
  have hincreasing : (((disk.listing path suffixes entries).map (sourceAt path)).map fun source =>
      (components source.relative).map fun name => Text.utf8 name.toList).Pairwise (· < ·) := by
    rw [List.map_map, List.pairwise_map]
    refine (pairwise_listing hroot hdir path).imp_of_mem fun {a b} ha hb hlt => ?_
    show (components (sourceAt path a).relative).map _ < (components (sourceAt path b).relative).map _
    rw [hnames a ha, hnames b hb]
    exact List.map_lt (fun _ _ h => Text.utf8_lt_utf8 h) hlt
  refine ⟨fun names => ?_, hincreasing, ?_, ?_, ?_, ?_⟩
  · rw [← mem_listing_iff hroot hleads hdir]
    constructor
    · rintro ⟨_, hsource, rfl⟩
      obtain ⟨names, hlisted, rfl⟩ := List.mem_map.1 hsource
      rwa [hnames names hlisted]
    · exact fun hlisted => ⟨_, List.mem_map_of_mem hlisted, hnames names hlisted⟩
  · -- Sources with one relative path would have the same components.
    rw [List.nodup_iff_pairwise_ne, List.pairwise_map]
    rw [List.pairwise_map] at hincreasing
    refine hincreasing.imp fun hlt heq => ?_
    rw [heq] at hlt
    exact List.lt_irrefl _ hlt
  all_goals
    rw [List.forall_mem_map]
    intro names hlisted
  · rw [hnames names hlisted]
    rfl
  · cases names with
    | nil => rfl
    | cons name names =>
      rw [if_neg, join_relative_sourceAt hroot hleads hdir hlisted]
      intro hempty
      have hcomponents := hnames _ hlisted
      rw [hempty] at hcomponents
      exact List.cons_ne_nil name names (hcomponents.symm.trans (by decide +kernel))
  · rw [hnames names hlisted]
    exact leads_join_relative hroot hleads hdir hlisted

end

end Files

open Files (Disk)

variable {config : Config} {disk : Disk}

/-- The sources in a directory are found exactly if it may be listed. -/
theorem sources_eq_ok_iff_listing {place : Files.Place} {entries : List (String × Files.Node)}
    (hleads : disk.Leads true config.testsDir place)
    (hdir : Files.Node.find? place disk.root = some (.dir entries)) {found : List Files.Source} :
    sources config disk = .ok found ↔ disk.refuses (.list config.testsDir) = none ∧
      (disk.listing config.testsDir config.fileExtensions entries).map
        (Files.sourceAt config.testsDir) = found := by
  have hisDir : disk.isDir config.testsDir = true :=
    Disk.isDir_iff.2 ⟨place, entries, hleads, hdir⟩
  rw [sources_eq_ok_iff, and_iff_right hisDir, Disk.sourcesIn_eq_ok_iff]
  constructor
  · rintro ⟨entries', hlist, hfound⟩
    obtain ⟨hpermit, place', hleads', hdir'⟩ := Disk.list_eq_ok_iff.1 hlist
    obtain rfl := hleads.unique hleads'
    obtain rfl : entries = entries' := by simpa [hdir] using hdir'
    exact ⟨hpermit, hfound⟩
  · rintro ⟨hpermit, hfound⟩
    exact ⟨entries, Disk.list_eq_ok_iff.2 ⟨hpermit, place, hleads, hdir⟩, hfound⟩

/-- The sources of a configuration are found if its directory is one and may be listed: they are the
files and links that a walk meets, in the order of their components. -/
theorem sources_enumerated (hroot : disk.root.wellFormed = true)
    (hdir : disk.isDir config.testsDir = true)
    (hpermit : disk.refuses (.list config.testsDir) = none) :
    ∃ found place, sources config disk = .ok found ∧ disk.Leads true config.testsDir place ∧
      Files.Enumerated disk config.testsDir place config.fileExtensions found := by
  obtain ⟨place, entries, hleads, hentries⟩ := Disk.isDir_iff.1 hdir
  exact ⟨_, place, (sources_eq_ok_iff_listing hleads hentries).2 ⟨hpermit, rfl⟩, hleads,
    Files.enumerated_map_sourceAt hroot hleads hentries⟩

/-- A scan root with a source in a directory of its own, a link that leads nowhere and a file that is
no source. -/
def nested : Disk :=
  { root := .dir [("tests", .dir [("a", .dir [("b.spec.ts", .file [])]),
      ("a-b.spec.ts", .link "nowhere"), ("readme.md", .file [])])] }

/-- The source in the directory and the link are listed, and the other file is not. -/
theorem sources_enumerated_nested :
    ∃ found place, sources {} nested = .ok found ∧
      nested.Leads true ({} : Config).testsDir place ∧
      Files.Enumerated nested ({} : Config).testsDir place ({} : Config).fileExtensions found ∧
      (∃ source ∈ found, Files.components source.relative = ["a", "b.spec.ts"]) ∧
      (∃ source ∈ found, Files.components source.relative = ["a-b.spec.ts"]) ∧
      ¬ ∃ source ∈ found, Files.components source.relative = ["readme.md"] := by
  obtain ⟨found, place, hfound, hleads, henumerated⟩ :=
    @sources_enumerated {} nested (by decide +kernel) (by decide +kernel) rfl
  have hplace : nested.Leads true ({} : Config).testsDir ["tests"] :=
    Disk.place?_eq_some_iff.1 (by decide +kernel)
  obtain rfl := hleads.unique hplace
  refine ⟨found, _, hfound, hleads, henumerated, ?_, ?_, ?_⟩
  · rw [henumerated.mem_iff]
    exact ⟨.file [], by rfl, rfl, ".spec.ts", by decide, by decide +kernel⟩
  · rw [henumerated.mem_iff]
    exact ⟨.link "nowhere", by rfl, rfl, ".spec.ts", by decide, by decide +kernel⟩
  · rw [henumerated.mem_iff]
    rintro ⟨-, -, -, suffix, hsuffix, hends⟩
    revert suffix
    decide +kernel

end ManifestSync
