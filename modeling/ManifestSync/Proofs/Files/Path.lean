import ManifestSync.Files.Path
import ManifestSync.Proofs.Text.Blank

/-!
# Steps of paths

How the steps of a path change when a name is joined to it (`steps_join`) and when slashes at its end
are dropped (`steps_dropSlashes`): up to empty steps, which stay where they are, the one adds a step
and the other changes nothing. Both follow from how a text is split at one of its slashes
(`Text.splitOn_append_cons`). Names with slashes in between are a path whose components they are
(`components_intercalate`), and joining that path is joining the names (`join_intercalate`).
-/

namespace ManifestSync

namespace Files

open Text (splitOn)

/-- A path has at least one step. -/
theorem steps_ne_nil (path : String) : steps path ≠ [] := by
  unfold steps
  rw [ne_eq, List.map_eq_nil_iff]
  exact Text.splitOn_ne_nil _

/-- There is no slash in a step of a path. -/
theorem not_mem_of_mem_steps {path step : String} (h : step ∈ steps path) : '/' ∉ step.toList := by
  obtain ⟨piece, hpiece, rfl⟩ := List.mem_map.1 h
  rw [String.toList_ofList]
  intro hslash
  exact Bool.false_ne_true ((Text.not_mem_of_mem_splitOn hpiece _ hslash).symm.trans (by decide))

/-- The steps of a path with a slash in it are those in front of the slash and those behind it. -/
theorem steps_of_toList_eq {path : String} {a b : List Char} (h : path.toList = a ++ '/' :: b) :
    steps path = steps (String.ofList a) ++ steps (String.ofList b) := by
  unfold steps
  rw [h, String.toList_ofList, String.toList_ofList, Text.splitOn_append_cons a (by decide) b,
    List.map_append]

/-- A name is its only step. -/
theorem steps_name {name : String} (h : '/' ∉ name.toList) : steps name = [name] := by
  unfold steps
  rw [Text.splitOn_eq_singleton]
  · rw [List.map_singleton, String.ofList_toList]
  · intro c hc
    exact beq_eq_false_iff_ne.2 fun heq => h (heq ▸ hc)

/-- A name that is joined to a path is one more step, in place of an empty step at the end if there is
one. -/
theorem steps_join {path name : String} (hpath : path ≠ "") (hname : '/' ∉ name.toList) :
    steps (join path name) = steps path ++ [name] ∨
      ∃ before, steps path = before ++ [""] ∧ steps (join path name) = before ++ [name] := by
  unfold join
  have hempty : path.isEmpty = false := by simpa using hpath
  rw [hempty, Bool.false_or]
  cases hslash : endsInSlash path with
  | true =>
    obtain ⟨a, ha⟩ := List.getLast?_eq_some_iff.1 (beq_iff_eq.1 hslash)
    refine .inr ⟨steps (String.ofList a), steps_of_toList_eq ha, ?_⟩
    have hlist : (path ++ name).toList = a ++ '/' :: name.toList := by
      rw [String.toList_append, ha, List.append_assoc]
      rfl
    rw [if_pos rfl, steps_of_toList_eq hlist, String.ofList_toList, steps_name hname]
  | false =>
    have hlist : (path ++ "/" ++ name).toList = path.toList ++ '/' :: name.toList := by
      rw [String.toList_append, String.toList_append, List.append_assoc]
      rfl
    rw [if_neg Bool.false_ne_true, steps_of_toList_eq hlist, String.ofList_toList,
      String.ofList_toList, steps_name hname]
    exact .inl rfl

/-- A path to which a name is joined starts where it did. -/
theorem isAbsolute_join {path : String} (hpath : path ≠ "") (name : String) :
    isAbsolute (join path name) = isAbsolute path := by
  obtain ⟨c, rest, hlist⟩ := List.exists_cons_of_ne_nil (mt String.toList_eq_nil_iff.1 hpath)
  have hhead : ∀ behind : String, (path ++ behind).toList.head? = path.toList.head? := by
    intro behind
    rw [String.toList_append, hlist]
    rfl
  unfold isAbsolute join
  split
  · rw [hhead]
  · rw [String.append_assoc, hhead]

/-- The characters of a joined path are those of the path and of the name, and perhaps a slash. -/
theorem mem_join {path name : String} {c : Char} (h : c ∈ (join path name).toList) :
    c ∈ path.toList ∨ c = '/' ∨ c ∈ name.toList := by
  unfold join at h
  split at h
  · rw [String.toList_append, List.mem_append] at h
    exact h.imp_right .inr
  · rw [String.toList_append, String.toList_append, List.mem_append, List.mem_append] at h
    rcases h with (h | h) | h
    · exact .inl h
    · exact .inr (.inl (List.mem_singleton.1 h))
    · exact .inr (.inr h)

/-- A joined path is not empty. -/
theorem join_ne_empty {path : String} (hpath : path ≠ "") (name : String) :
    join path name ≠ "" := by
  have hlist := mt String.toList_eq_nil_iff.1 hpath
  rw [ne_eq, ← String.toList_eq_nil_iff]
  unfold join
  split
  · rw [String.toList_append, List.append_eq_nil_iff]
    exact fun h => hlist h.1
  · rw [String.toList_append, String.toList_append, List.append_eq_nil_iff, List.append_eq_nil_iff]
    exact fun h => hlist h.1.1

/-! ## Slashes at the end -/

/-- Some slashes behind a path are as many empty steps. -/
theorem steps_append_slashes (a : List Char) (n : Nat) :
    steps (String.ofList (a ++ List.replicate n '/')) =
      steps (String.ofList a) ++ List.replicate n "" := by
  induction n generalizing a with
  | zero => simp
  | succ n ih =>
    have hlist : (String.ofList (a ++ List.replicate (n + 1) '/')).toList =
        a ++ '/' :: List.replicate n '/' := by
      rw [String.toList_ofList, List.replicate_succ]
    have hrest : steps (String.ofList (List.replicate n '/')) = "" :: List.replicate n "" := by
      have := ih []
      rw [List.nil_append] at this
      exact this
    rw [steps_of_toList_eq hlist, hrest, List.replicate_succ]

/-- A path is slashes alone and becomes one of them, or it loses the slashes at its end and is empty
only if it was. -/
theorem dropSlashes_cases (path : String) :
    (∃ n, path.toList = List.replicate (n + 1) '/' ∧ dropSlashes path = "/") ∨
      ((∃ n, path.toList = (dropSlashes path).toList ++ List.replicate n '/') ∧
        (dropSlashes path = "" → path = "")) := by
  obtain ⟨n, hn⟩ := Text.exists_trimEndOf_char '/' path.toList
  unfold dropSlashes
  dsimp only
  generalize Text.trimEndOf (· == '/') path.toList = bare at *
  cases bare with
  | cons c rest =>
    refine .inr ⟨⟨n, ?_⟩, ?_⟩
    · rw [List.isEmpty_cons, Bool.false_and, if_neg Bool.false_ne_true, String.toList_ofList]
      exact hn
    · intro h
      rw [List.isEmpty_cons, Bool.false_and, if_neg Bool.false_ne_true, ← String.toList_eq_nil_iff,
        String.toList_ofList] at h
      exact nomatch h
  | nil =>
    cases n with
    | zero =>
      have hpath : path = "" := String.toList_eq_nil_iff.1 hn
      subst hpath
      exact .inr ⟨⟨0, rfl⟩, fun _ => rfl⟩
    | succ n =>
      have hne : path.isEmpty = false := by
        rw [← Bool.not_eq_true, String.isEmpty_iff, ← String.toList_eq_nil_iff, hn]
        exact List.cons_ne_nil _ _
      refine .inl ⟨n, hn, ?_⟩
      rw [hne]
      rfl

/-- Without the slashes at its end a path has the same steps, save empty ones at the end. -/
theorem steps_dropSlashes (path : String) :
    ∃ n, steps path = steps (dropSlashes path) ++ List.replicate n "" := by
  rcases dropSlashes_cases path with ⟨n, hlist, hdrop⟩ | ⟨⟨n, hlist⟩, -⟩
  · have hpath := steps_append_slashes [] (n + 1)
    rw [List.nil_append, ← hlist, String.ofList_toList] at hpath
    rw [hdrop, hpath, List.replicate_succ]
    exact ⟨n, rfl⟩
  · have hpath := steps_append_slashes (dropSlashes path).toList n
    rw [← hlist, String.ofList_toList, String.ofList_toList] at hpath
    exact ⟨n, hpath⟩

/-- Without the slashes at its end a path starts where it did. -/
theorem isAbsolute_dropSlashes (path : String) :
    isAbsolute (dropSlashes path) = isAbsolute path := by
  unfold isAbsolute
  rcases dropSlashes_cases path with ⟨n, hlist, hdrop⟩ | ⟨⟨n, hlist⟩, hempty⟩
  · rw [hdrop, hlist]
    rfl
  · by_cases hdrop : dropSlashes path = ""
    · rw [hdrop, hempty hdrop]
    · obtain ⟨c, rest, hcons⟩ := List.exists_cons_of_ne_nil (mt String.toList_eq_nil_iff.1 hdrop)
      rw [hlist, hcons]
      rfl

/-- Without the slashes at its end a path is empty only if it was. -/
theorem dropSlashes_ne_empty {path : String} (h : path ≠ "") : dropSlashes path ≠ "" := by
  rcases dropSlashes_cases path with ⟨n, -, hdrop⟩ | ⟨-, hempty⟩
  · rw [hdrop]
    decide
  · exact fun hdrop => h (hempty hdrop)

/-- Dropping the slashes at the end of a path takes only slashes away. -/
theorem mem_of_mem_path {path : String} {c : Char} (h : c ∈ path.toList) :
    c = '/' ∨ c ∈ (dropSlashes path).toList := by
  rcases dropSlashes_cases path with ⟨n, hlist, -⟩ | ⟨⟨n, hlist⟩, -⟩
  · rw [hlist] at h
    exact .inl (List.eq_of_mem_replicate h)
  · rw [hlist] at h
    rcases List.mem_append.1 h with h | h
    · exact .inr h
    · exact .inl (List.eq_of_mem_replicate h)

/-- Dropping the slashes at the end of a path adds no character to it. -/
theorem mem_dropSlashes {path : String} {c : Char} (h : c ∈ (dropSlashes path).toList) :
    c ∈ path.toList := by
  rcases dropSlashes_cases path with ⟨n, hlist, hdrop⟩ | ⟨⟨n, hlist⟩, -⟩
  · rw [hdrop] at h
    rw [hlist, List.mem_replicate]
    exact ⟨Nat.succ_ne_zero n, List.mem_singleton.1 h⟩
  · rw [hlist]
    exact List.mem_append_left _ h

/-! ## Names with slashes in between -/

/-- The names on a path: its steps, without empty ones. -/
def components (path : String) : List String :=
  (steps path).filter (· ≠ "")

/-- The steps of a name and of names behind it, with slashes in between. -/
theorem steps_intercalate {name : String} {names : List String}
    (h : ∀ n ∈ name :: names, '/' ∉ n.toList) :
    steps (String.intercalate "/" (name :: names)) = name :: names := by
  induction names generalizing name with
  | nil =>
    rw [String.intercalate_singleton]
    exact steps_name (h name List.mem_cons_self)
  | cons name' names ih =>
    have hlist : (String.intercalate "/" (name :: name' :: names)).toList =
        name.toList ++ '/' :: (String.intercalate "/" (name' :: names)).toList := by
      rw [String.intercalate_cons_cons, String.toList_append, String.toList_append,
        List.append_assoc]
      rfl
    rw [steps_of_toList_eq hlist, String.ofList_toList, String.ofList_toList,
      steps_name (h name List.mem_cons_self), ih fun n hn => h n (List.mem_cons_of_mem name hn),
      List.singleton_append]

/-- Names with slashes in between are a path with these components. -/
theorem components_intercalate {names : List String}
    (h : ∀ n ∈ names, n ≠ "" ∧ '/' ∉ n.toList) :
    components (String.intercalate "/" names) = names := by
  unfold components
  cases names with
  | nil => decide +kernel
  | cons name names =>
    rw [steps_intercalate fun n hn => (h n hn).2, List.filter_eq_self]
    exact fun n hn => decide_eq_true (h n hn).1

/-- A name is joined to a path behind the path or behind the slash that it gets. -/
theorem exists_join_eq (path : String) : ∃ front, ∀ name, join path name = front ++ name := by
  unfold join
  split
  · exact ⟨path, fun _ => rfl⟩
  · exact ⟨path ++ "/", fun _ => rfl⟩

/-- What is joined behind a name is joined with a slash in between. -/
theorem join_join {name : String} (hne : name ≠ "") (hslash : '/' ∉ name.toList)
    (path behind : String) :
    join (join path name) behind = join path (name ++ "/" ++ behind) := by
  obtain ⟨front, hfront⟩ := exists_join_eq path
  obtain ⟨last, hlast⟩ := Option.ne_none_iff_exists'.1
    (mt List.getLast?_eq_none_iff.1 (mt String.toList_eq_nil_iff.1 hne))
  have hempty : (front ++ name).isEmpty = false := by simp [hne]
  have hends : endsInSlash (front ++ name) = false := by
    unfold endsInSlash
    rw [String.toList_append, List.getLast?_append, hlast, Option.some_or, beq_eq_false_iff_ne]
    intro h
    exact hslash (Option.some.inj h ▸ List.mem_of_getLast? hlast)
  calc join (join path name) behind
      = front ++ name ++ "/" ++ behind := by
        rw [hfront, join, hempty, hends]
        rfl
    _ = join path (name ++ "/" ++ behind) := by
        rw [hfront, String.append_assoc, String.append_assoc, String.append_assoc]

/-- Names are joined one after the other as they are with slashes in between. -/
theorem join_intercalate {name : String} {names : List String}
    (h : ∀ n ∈ name :: names, n ≠ "" ∧ '/' ∉ n.toList) (path : String) :
    join path (String.intercalate "/" (name :: names)) = (name :: names).foldl join path := by
  induction names generalizing name path with
  | nil => rw [String.intercalate_singleton, List.foldl_cons, List.foldl_nil]
  | cons name' names ih =>
    obtain ⟨hne, hslash⟩ := h name List.mem_cons_self
    rw [String.intercalate_cons_cons, ← join_join hne hslash]
    exact ih (fun n hn => h n (List.mem_cons_of_mem name hn)) (join path name)

end Files

end ManifestSync
