import ManifestSync.Files.Disk
import ManifestSync.Proofs.Files.Growth

/-!
# Walks along a path

`Walks root follow links place steps goal` says that the way along some steps from a place leads to
a goal, over at most so many links, with one rule for each thing a step can be. It is what
`walkLinks` computes (`walkLinks_eq_ok_iff`), so that a property of resolved paths is one induction
over the rules: a way stays the same in a tree that grows (`Walks.grows`), it can be gone on behind a
directory (`Walks.append`), and empty steps do not matter (`Walks.drop_idle`, `Walks.idle`).
-/

namespace ManifestSync.Files

open Node (find? put)

/-- A step that is a name: it neither stays nor goes up. -/
structure IsName (step : String) : Prop where
  ne_empty : step ≠ ""
  ne_dot : step ≠ "."
  ne_dots : step ≠ ".."

/-- The way along some steps from a place leads to a goal. -/
inductive Walks (root : Node) (follow : Bool) : (links : Nat) → Place → List String → Place → Prop
  /-- Without steps the goal is reached. -/
  | done {links : Nat} {place : Place} : Walks root follow links place [] place
  /-- An empty step or a dot stays in a directory. -/
  | stay {links : Nat} {place goal : Place} {step : String} {rest : List String}
    {entries : List (String × Node)} (hdir : find? place root = some (.dir entries))
    (hstep : step = "" ∨ step = ".") (hrest : Walks root follow links place rest goal) :
    Walks root follow links place (step :: rest) goal
  /-- Two dots go up. -/
  | up {links : Nat} {place goal : Place} {rest : List String} {entries : List (String × Node)}
    (hdir : find? place root = some (.dir entries))
    (hrest : Walks root follow links place.dropLast rest goal) :
    Walks root follow links place (".." :: rest) goal
  /-- The name of a file or a directory goes there. -/
  | down {links : Nat} {place goal : Place} {step : String} {rest : List String}
    {entries : List (String × Node)} {node : Node} (hdir : find? place root = some (.dir entries))
    (hstep : IsName step) (hnode : find? (place ++ [step]) root = some node)
    (hlink : ∀ target, node ≠ .link target)
    (hrest : Walks root follow links (place ++ [step]) rest goal) :
    Walks root follow links place (step :: rest) goal
  /-- A link at the end is the goal if it is not followed. -/
  | halt {links : Nat} {place : Place} {step target : String} {entries : List (String × Node)}
    (hdir : find? place root = some (.dir entries)) (hstep : IsName step)
    (hnode : find? (place ++ [step]) root = some (.link target)) (hfollow : follow = false) :
    Walks root follow links place [step] (place ++ [step])
  /-- Another link is replaced by the steps of its target. -/
  | jump {links : Nat} {place goal : Place} {step target : String} {rest : List String}
    {entries : List (String × Node)} (hdir : find? place root = some (.dir entries))
    (hstep : IsName step) (hnode : find? (place ++ [step]) root = some (.link target))
    (hfollow : rest ≠ [] ∨ follow = true) (htarget : target ≠ "")
    (hrest : Walks root follow links (if isAbsolute target then [] else place)
      (steps target ++ rest) goal) :
    Walks root follow (links + 1) place (step :: rest) goal
  /-- A name that no entry has, at the end, is the goal if it can be the name of a file. -/
  | fresh {links : Nat} {place : Place} {step : String} {entries : List (String × Node)}
    (hdir : find? place root = some (.dir entries)) (hstep : IsName step)
    (hnode : find? (place ++ [step]) root = none) (hfault : nameFault? step = none) :
    Walks root follow links place [step] (place ++ [step])

variable {root : Node} {follow : Bool}

/-! ## The relation and the function -/

section
variable {jump : Place → List String → Except Cause Target} {place : Place} {step : String}
  {rest : List String} {entries : List (String × Node)}

/-- Going on from a directory along a step that stays there. -/
theorem walkSteps_stay (hdir : find? place root = some (.dir entries))
    (hstep : step = "" ∨ step = ".") :
    walkSteps root follow jump place (step :: rest) = walkSteps root follow jump place rest := by
  rw [walkSteps, hdir]
  exact if_pos (by simpa using hstep)

/-- Going on from a directory along two dots. -/
theorem walkSteps_up (hdir : find? place root = some (.dir entries)) :
    walkSteps root follow jump place (".." :: rest) =
      walkSteps root follow jump place.dropLast rest := by
  rw [walkSteps, hdir]
  rfl

/-- Going on from a directory along a name. -/
theorem walkSteps_name (hdir : find? place root = some (.dir entries)) (hstep : IsName step) :
    walkSteps root follow jump place (step :: rest) =
      match find? (place ++ [step]) root with
      | some (.link target) =>
        if rest.isEmpty && !follow then .ok ⟨place ++ [step], some (.link target)⟩
        else if target.isEmpty then .error .notFound
        else jump (if isAbsolute target then [] else place) (steps target ++ rest)
      | some _ => walkSteps root follow jump (place ++ [step]) rest
      | none =>
        match nameFault? step with
        | some cause => .error cause
        | none => if rest.isEmpty then .ok ⟨place ++ [step], none⟩ else .error .notFound := by
  rw [walkSteps, hdir, Node.find?_concat hdir]
  have hstay : ¬ (decide (step = "") || decide (step = ".")) = true := by
    simp [hstep.ne_empty, hstep.ne_dot]
  dsimp only
  rw [if_neg hstay]
  exact if_neg hstep.ne_dots

end

/-- Where a way goes on behind a link, if it may go over so many links. -/
def jumpWithin (root : Node) (follow : Bool) :
    (links : Nat) → Place → List String → Except Cause Target
  | 0 => fun _ _ => .error .tooManyLinks
  | links + 1 => walkLinks root follow links

/-- A way over at most so many links takes the first link with one less. -/
theorem walkLinks_eq (links : Nat) :
    walkLinks root follow links = walkSteps root follow (jumpWithin root follow links) := by
  cases links <;> rfl

/-- A way that leads to a goal is found. -/
theorem Walks.walkLinks_eq_ok {links : Nat} {place goal : Place} {steps : List String}
    (h : Walks root follow links place steps goal) :
    walkLinks root follow links place steps = .ok ⟨goal, find? goal root⟩ := by
  -- The rules are the branches of the function.
  induction h with
  | done =>
    rw [walkLinks_eq]
    rfl
  | stay hdir hstep _ ih => rw [walkLinks_eq, walkSteps_stay hdir hstep, ← walkLinks_eq, ih]
  | up hdir _ ih => rw [walkLinks_eq, walkSteps_up hdir, ← walkLinks_eq, ih]
  | @down _ _ _ _ _ _ node hdir hstep hnode hlink _ ih =>
    rw [walkLinks_eq, walkSteps_name hdir hstep, hnode, ← walkLinks_eq]
    cases node with
    | link target => exact absurd rfl (hlink target)
    | file bytes => exact ih
    | dir entries => exact ih
  | halt hdir hstep hnode hfollow =>
    rw [walkLinks_eq, walkSteps_name hdir hstep, hnode, hfollow]
    rfl
  | @jump _ _ _ _ _ rest _ hdir hstep hnode hfollow htarget _ ih =>
    have hgo : ¬ (rest.isEmpty && !follow) = true := by
      rcases hfollow with hrest | rfl
      · simp [hrest]
      · simp
    rw [walkLinks_eq, walkSteps_name hdir hstep, hnode]
    dsimp only
    rw [if_neg hgo, if_neg (by simpa using htarget)]
    exact ih
  | fresh hdir hstep hnode hfault =>
    rw [walkLinks_eq, walkSteps_name hdir hstep, hnode, hfault]
    rfl

section
variable {links : Nat} {jump : Place → List String → Except Cause Target}
  (hjump : ∀ place steps t, jump place steps = .ok t →
    ∃ k goal, links = k + 1 ∧ Walks root follow k place steps goal ∧ t = ⟨goal, find? goal root⟩)
  {place : Place} {step : String} {rest : List String} {entries : List (String × Node)} {t : Target}
include hjump

/-- What is found behind a link is where the way leads that halts at it or jumps to its target. -/
theorem exists_walks_of_link {target : String} (hdir : find? place root = some (.dir entries))
    (hstep : IsName step) (hnode : find? (place ++ [step]) root = some (.link target))
    (h : (if rest.isEmpty && !follow then .ok ⟨place ++ [step], some (.link target)⟩
      else if target.isEmpty then .error .notFound
      else jump (if isAbsolute target then [] else place) (steps target ++ rest)) = .ok t) :
    ∃ goal, Walks root follow links place (step :: rest) goal ∧ t = ⟨goal, find? goal root⟩ := by
  by_cases hhalt : (rest.isEmpty && !follow) = true
  · rw [if_pos hhalt] at h
    rw [Bool.and_eq_true_iff, List.isEmpty_iff, Bool.not_eq_true'] at hhalt
    obtain ⟨rfl, hfollow⟩ := hhalt
    refine ⟨place ++ [step], .halt hdir hstep hnode hfollow, ?_⟩
    rw [hnode]
    exact (Except.ok.inj h).symm
  by_cases htarget : target = ""
  · subst htarget
    rw [if_neg hhalt] at h
    exact nomatch h
  rw [if_neg hhalt, if_neg (by simpa using htarget)] at h
  obtain ⟨k, goal, rfl, hrest, ht⟩ := hjump _ _ _ h
  refine ⟨goal, .jump hdir hstep hnode ?_ htarget hrest, ht⟩
  rcases Bool.and_eq_false_iff.1 (eq_false_of_ne_true hhalt) with hrest | hfollow
  · exact .inl (List.isEmpty_eq_false_iff.1 hrest)
  · exact .inr (by simpa using hfollow)

/-- What is found along a name and the steps behind it is where the way leads, if the same holds of
the steps behind it. -/
theorem exists_walks_of_name (hdir : find? place root = some (.dir entries)) (hstep : IsName step)
    (hrest : walkSteps root follow jump (place ++ [step]) rest = .ok t →
      ∃ goal, Walks root follow links (place ++ [step]) rest goal ∧ t = ⟨goal, find? goal root⟩)
    (h : walkSteps root follow jump place (step :: rest) = .ok t) :
    ∃ goal, Walks root follow links place (step :: rest) goal ∧ t = ⟨goal, find? goal root⟩ := by
  rw [walkSteps_name hdir hstep] at h
  cases hnode : find? (place ++ [step]) root with
  | none =>
    rw [hnode] at h
    cases hfault : nameFault? step with
    | some cause =>
      rw [hfault] at h
      exact nomatch h
    | none =>
      rw [hfault] at h
      cases rest with
      | cons a rest => exact nomatch h
      | nil =>
        refine ⟨place ++ [step], .fresh hdir hstep hnode hfault, ?_⟩
        rw [hnode]
        exact (Except.ok.inj h).symm
  | some node =>
    rw [hnode] at h
    cases node with
    | link target => exact exists_walks_of_link hjump hdir hstep hnode h
    | dir entries' =>
      obtain ⟨goal, hwalks, ht⟩ := hrest h
      exact ⟨goal, .down hdir hstep hnode (fun _ => Node.noConfusion) hwalks, ht⟩
    | file bytes =>
      obtain ⟨goal, hwalks, ht⟩ := hrest h
      exact ⟨goal, .down hdir hstep hnode (fun _ => Node.noConfusion) hwalks, ht⟩

/-- What going along some steps finds is where the way leads, if the same holds of what follows a
link. -/
theorem exists_walks_of_walkSteps {steps : List String}
    (h : walkSteps root follow jump place steps = .ok t) :
    ∃ goal, Walks root follow links place steps goal ∧ t = ⟨goal, find? goal root⟩ := by
  induction steps generalizing place with
  | nil => exact ⟨place, .done, (Except.ok.inj h).symm⟩
  | cons step rest ih =>
    -- A step is only taken from a directory.
    have hdir : ∃ entries, find? place root = some (.dir entries) := by
      unfold walkSteps at h
      split at h
      · exact ⟨_, ‹_›⟩
      · exact nomatch h
    obtain ⟨entries, hdir⟩ := hdir
    by_cases hstay : step = "" ∨ step = "."
    · rw [walkSteps_stay hdir hstay] at h
      obtain ⟨goal, hrest, ht⟩ := ih h
      exact ⟨goal, .stay hdir hstay hrest, ht⟩
    by_cases hup : step = ".."
    · subst hup
      rw [walkSteps_up hdir] at h
      obtain ⟨goal, hrest, ht⟩ := ih h
      exact ⟨goal, .up hdir hrest, ht⟩
    obtain ⟨hempty, hdot⟩ := not_or.1 hstay
    exact exists_walks_of_name hjump hdir ⟨hempty, hdot, hup⟩ ih h

end

/-- Resolving some steps succeeds exactly if the way leads to a goal; it gives the goal and what
stands there. -/
theorem walkLinks_eq_ok_iff {links : Nat} {place : Place} {steps : List String} {t : Target} :
    walkLinks root follow links place steps = .ok t ↔
      ∃ goal, Walks root follow links place steps goal ∧ t = ⟨goal, find? goal root⟩ := by
  constructor
  · intro h
    induction links generalizing place steps t with
    | zero =>
      refine exists_walks_of_walkSteps (fun place steps t h => ?_) h
      exact nomatch h
    | succ links ih =>
      refine exists_walks_of_walkSteps (fun place steps t h => ?_) h
      obtain ⟨goal, hwalk, ht⟩ := ih h
      exact ⟨links, goal, rfl, hwalk, ht⟩
  · rintro ⟨goal, hwalk, rfl⟩
    exact hwalk.walkLinks_eq_ok

namespace Walks

/-! ## Ways in a tree that grows -/

/-- In a tree that has grown a way leads to the same goal. -/
theorem grows {touched : List Place} {root' : Node} (hgrows : Grows touched root root') {links : Nat}
    {place goal : Place} {steps : List String} (h : Walks root follow links place steps goal) :
    Walks root' follow links place steps goal := by
  -- What each rule asks of the tree is kept; only what was fresh may have become a file.
  induction h with
  | done => exact .done
  | stay hdir hstep _ ih =>
    obtain ⟨_, hdir⟩ := hgrows.dir hdir
    exact .stay hdir hstep ih
  | up hdir _ ih =>
    obtain ⟨_, hdir⟩ := hgrows.dir hdir
    exact .up hdir ih
  | down hdir hstep hnode hlink _ ih =>
    obtain ⟨_, hdir⟩ := hgrows.dir hdir
    obtain ⟨_, hnode, hlink⟩ := hgrows.exists_find? hnode hlink
    exact .down hdir hstep hnode hlink ih
  | halt hdir hstep hnode hfollow =>
    obtain ⟨_, hdir⟩ := hgrows.dir hdir
    exact .halt hdir hstep (hgrows.link.1 hnode) hfollow
  | jump hdir hstep hnode hfollow htarget _ ih =>
    obtain ⟨_, hdir⟩ := hgrows.dir hdir
    exact .jump hdir hstep (hgrows.link.1 hnode) hfollow htarget ih
  | @fresh _ place step _ hdir hstep hnode hfault =>
    obtain ⟨_, hdir⟩ := hgrows.dir hdir
    -- What has come under the name is no link, so the way ends there as before.
    cases hnode' : find? (place ++ [step]) root' with
    | none => exact .fresh hdir hstep hnode' hfault
    | some node =>
      refine .down hdir hstep hnode' ?_ .done
      rintro target rfl
      rw [hgrows.link.2 hnode'] at hnode
      exact nomatch hnode

/-! ## Links at the end -/

/-- A way without following a link at its end is the way with following, if the goal is no link. -/
theorem follow_end {links : Nat} {place goal : Place} {steps : List String}
    (h : Walks root false links place steps goal)
    (hgoal : ∀ target, find? goal root ≠ some (.link target)) :
    Walks root true links place steps goal := by
  induction h with
  | done => exact .done
  | stay hdir hstep _ ih => exact .stay hdir hstep (ih hgoal)
  | up hdir _ ih => exact .up hdir (ih hgoal)
  | down hdir hstep hnode hlink _ ih => exact .down hdir hstep hnode hlink (ih hgoal)
  | halt _ _ hnode _ => exact absurd hnode (hgoal _)
  | jump hdir hstep hnode _ htarget _ ih =>
    exact .jump hdir hstep hnode (.inr rfl) htarget (ih hgoal)
  | fresh hdir hstep hnode hfault => exact .fresh hdir hstep hnode hfault

/-- A way with following a link at its end goes, without following, to the same goal or to a link. -/
theorem stop_at_link {links : Nat} {place goal : Place} {steps : List String}
    (h : Walks root true links place steps goal) :
    ∃ goal', Walks root false links place steps goal' ∧
      (goal' = goal ∨ ∃ target, find? goal' root = some (.link target)) := by
  -- The two ways part at a link that is the last step.
  induction h with
  | done => exact ⟨_, .done, .inl rfl⟩
  | stay hdir hstep _ ih =>
    obtain ⟨goal', h, hgoal⟩ := ih
    exact ⟨goal', .stay hdir hstep h, hgoal⟩
  | up hdir _ ih =>
    obtain ⟨goal', h, hgoal⟩ := ih
    exact ⟨goal', .up hdir h, hgoal⟩
  | down hdir hstep hnode hlink _ ih =>
    obtain ⟨goal', h, hgoal⟩ := ih
    exact ⟨goal', .down hdir hstep hnode hlink h, hgoal⟩
  | halt _ _ _ hfollow => exact absurd hfollow (Bool.false_ne_true ∘ Eq.symm)
  | @jump _ _ _ _ _ rest _ hdir hstep hnode _ htarget _ ih =>
    cases rest with
    | nil => exact ⟨_, .halt hdir hstep hnode rfl, .inr ⟨_, hnode⟩⟩
    | cons a rest =>
      obtain ⟨goal', h, hgoal⟩ := ih
      exact ⟨goal', .jump hdir hstep hnode (.inl (List.cons_ne_nil a rest)) htarget h, hgoal⟩
  | fresh hdir hstep hnode hfault => exact ⟨_, .fresh hdir hstep hnode hfault, .inl rfl⟩

/-! ## Parts of a way -/

/-- Behind a way that leads to a directory one can go on from there, over the links that are left. Only
the steps behind it say whether a link at the end is followed. -/
theorem append {links : Nat} {place goal : Place} {steps : List String}
    {entries : List (String × Node)} (h : Walks root true links place steps goal)
    (hgoal : find? goal root = some (.dir entries)) :
    ∃ left, ∀ {follow : Bool} steps' goal', (steps' ≠ [] ∨ follow = true) →
      Walks root follow left goal steps' goal' →
        Walks root follow links place (steps ++ steps') goal' := by
  -- Each rule goes on with the same rule; only a jump uses a link up.
  induction h with
  | done => exact ⟨_, fun _ _ _ h' => h'⟩
  | stay hdir hstep _ ih =>
    obtain ⟨left, ih⟩ := ih hgoal
    exact ⟨left, fun steps' goal' hend h' => .stay hdir hstep (ih steps' goal' hend h')⟩
  | up hdir _ ih =>
    obtain ⟨left, ih⟩ := ih hgoal
    exact ⟨left, fun steps' goal' hend h' => .up hdir (ih steps' goal' hend h')⟩
  | down hdir hstep hnode hlink _ ih =>
    obtain ⟨left, ih⟩ := ih hgoal
    exact ⟨left, fun steps' goal' hend h' =>
      .down hdir hstep hnode hlink (ih steps' goal' hend h')⟩
  | halt _ _ _ hfollow => exact absurd hfollow (Bool.false_ne_true ∘ Eq.symm)
  | jump hdir hstep hnode _ htarget _ ih =>
    obtain ⟨left, ih⟩ := ih hgoal
    refine ⟨left, fun steps' goal' hend h' => ?_⟩
    have hrest := ih steps' goal' hend h'
    rw [List.append_assoc] at hrest
    exact .jump hdir hstep hnode (hend.imp_left (List.append_ne_nil_of_right_ne_nil _)) htarget hrest
  | fresh _ _ hnode _ =>
    rw [hnode] at hgoal
    exact nomatch hgoal

/-- An empty step can be left out, unless it stands at the end and keeps a link in front of it from
being the goal. -/
theorem drop_idle {links : Nat} {place goal : Place} {before behind : List String}
    (h : Walks root follow links place (before ++ "" :: behind) goal)
    (hend : behind ≠ [] ∨ follow = true) :
    Walks root follow links place (before ++ behind) goal := by
  generalize hsteps : before ++ "" :: behind = steps at h
  -- The empty step is the one that is taken, or it stands behind that one.
  induction h generalizing before with
  | done => exact absurd hsteps (by simp)
  | stay hdir hstep hrest ih =>
    cases before with
    | nil =>
      obtain ⟨-, rfl⟩ := List.cons.inj hsteps
      exact hrest
    | cons a before =>
      obtain ⟨rfl, hrest'⟩ := List.cons.inj hsteps
      exact .stay hdir hstep (ih hrest')
  | up hdir _ ih =>
    cases before with
    | nil => exact absurd (List.cons.inj hsteps).1 (by decide)
    | cons a before =>
      obtain ⟨rfl, hrest'⟩ := List.cons.inj hsteps
      exact .up hdir (ih hrest')
  | down hdir hstep hnode hlink _ ih =>
    cases before with
    | nil => exact absurd (List.cons.inj hsteps).1.symm hstep.ne_empty
    | cons a before =>
      obtain ⟨rfl, hrest'⟩ := List.cons.inj hsteps
      exact .down hdir hstep hnode hlink (ih hrest')
  | halt _ hstep _ _ =>
    cases before with
    | nil => exact absurd (List.cons.inj hsteps).1.symm hstep.ne_empty
    | cons a before => exact absurd (List.cons.inj hsteps).2 (by simp)
  | jump hdir hstep hnode hfollow htarget _ ih =>
    cases before with
    | nil => exact absurd (List.cons.inj hsteps).1.symm hstep.ne_empty
    | cons a before =>
      obtain ⟨rfl, rfl⟩ := List.cons.inj hsteps
      have hrest := ih (List.append_assoc _ _ _)
      rw [List.append_assoc] at hrest
      exact .jump hdir hstep hnode (hend.imp_left (List.append_ne_nil_of_right_ne_nil _)) htarget
        hrest
  | fresh _ hstep _ _ =>
    cases before with
    | nil => exact absurd (List.cons.inj hsteps).1.symm hstep.ne_empty
    | cons a before => exact absurd (List.cons.inj hsteps).2 (by simp)

/-- Empty steps at the end can be left out. -/
theorem drop_idle_end {links : Nat} {place goal : Place} {steps : List String} {n : Nat}
    (h : Walks root true links place (steps ++ List.replicate n "") goal) :
    Walks root true links place steps goal := by
  induction n with
  | zero =>
    rw [List.replicate_zero, List.append_nil] at h
    exact h
  | succ n ih =>
    rw [List.replicate_succ] at h
    exact ih (h.drop_idle (.inr rfl))

/-- Empty steps stay in a directory. -/
theorem idle {links : Nat} {place : Place} {entries : List (String × Node)}
    (hdir : find? place root = some (.dir entries)) (n : Nat) :
    Walks root follow links place (List.replicate n "") place := by
  induction n with
  | zero => exact .done
  | succ n ih => exact .stay hdir (.inl rfl) ih

/-- A way with an empty step at its end leads to a directory. -/
theorem exists_dir_of_idle_end {links : Nat} {place goal : Place} {before : List String}
    (h : Walks root follow links place (before ++ [""]) goal) :
    ∃ entries, find? goal root = some (.dir entries) := by
  generalize hsteps : before ++ [""] = steps at h
  -- The last step can only be one that stays, and that is taken in a directory.
  induction h generalizing before with
  | done => exact absurd hsteps (by simp)
  | stay hdir _ hrest ih =>
    cases before with
    | nil =>
      obtain ⟨-, rfl⟩ := List.cons.inj hsteps
      cases hrest
      exact ⟨_, hdir⟩
    | cons a before => exact ih (List.cons.inj hsteps).2
  | up _ _ ih =>
    cases before with
    | nil => exact absurd (List.cons.inj hsteps).1 (by decide)
    | cons a before => exact ih (List.cons.inj hsteps).2
  | down _ hstep _ _ _ ih =>
    cases before with
    | nil => exact absurd (List.cons.inj hsteps).1.symm hstep.ne_empty
    | cons a before => exact ih (List.cons.inj hsteps).2
  | halt _ hstep _ _ =>
    cases before with
    | nil => exact absurd (List.cons.inj hsteps).1.symm hstep.ne_empty
    | cons a before => exact absurd (List.cons.inj hsteps).2 (by simp)
  | jump _ hstep _ _ _ _ ih =>
    cases before with
    | nil => exact absurd (List.cons.inj hsteps).1.symm hstep.ne_empty
    | cons a before =>
      obtain ⟨-, rfl⟩ := List.cons.inj hsteps
      exact ih (List.append_assoc _ _ _)
  | fresh _ hstep _ _ =>
    cases before with
    | nil => exact absurd (List.cons.inj hsteps).1.symm hstep.ne_empty
    | cons a before => exact absurd (List.cons.inj hsteps).2 (by simp)

end Walks

end ManifestSync.Files
