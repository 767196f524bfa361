import Mathlib.Order.Bounds.Basic
import Mathlib.Order.Nat
import ManifestSync.Source.Bounds

/-!
# Brackets among the tokens of a walk

Where a bracket closes is a matter of counting: it is the first offset at which, of the brackets behind
it, more are closed than opened. `Brackets` is a choice of the tokens that open and close one, and
`Overrun` compares their numbers up to an offset.

`firstOverrun` finds the first such offset in one pass that carries the number of open brackets. That it
finds the least one (`firstOverrun_eq_some_iff`) is proved for any number of brackets open at the start,
since behind the first token that number is another one. The offsets of the tokens have to increase, as
those of a walk do.

Blocks nest, because a pass with more brackets open ends later (`firstOverrun_lt_of_lt`): what closes
a bracket leaves those open that were opened before it (`exists_firstOverrun_of_opens`).
-/

namespace ManifestSync.Source

/-- The number of tokens before an offset that are of a kind. -/
def countBefore (p : Token → Bool) (ts : List Token) (i : Nat) : Nat :=
  ts.countP fun t => p t && t.offset < i

theorem countBefore_cons (p : Token → Bool) (t : Token) (ts : List Token) (i : Nat) :
    countBefore p (t :: ts) i = countBefore p ts i + if p t && t.offset < i then 1 else 0 :=
  List.countP_cons

/-- Before the first token there is nothing to count. -/
theorem countBefore_eq_zero {ts : List Token} {i : Nat} (p : Token → Bool)
    (h : ∀ t ∈ ts, i ≤ t.offset) : countBefore p ts i = 0 := by
  refine List.countP_eq_zero.2 fun t ht => ?_
  have hle := h t ht
  simp
  omega

/-- A kind of brackets: which tokens open one and which close one. -/
structure Brackets where
  opens : Token → Bool
  closes : Token → Bool
  /-- No token does both. -/
  apart : ∀ t, opens t = true → closes t = false

namespace Brackets

/-- The parentheses in code. -/
def parens : Brackets where
  opens t := t.isCode openParen
  closes t := t.isCode closeParen
  apart t h := by
    unfold Token.isCode at h ⊢
    grind [openParen, closeParen]

/-- The braces in code outside of parentheses. -/
def braces : Brackets where
  opens t := t.isCode openBrace && t.depth == 0
  closes t := t.isCode closeBrace && t.depth == 0
  apart t h := by
    unfold Token.isCode at h ⊢
    grind [openBrace, closeBrace]

variable (k : Brackets)

/-- Up to the byte at an offset, that one included, more brackets are closed than opened. -/
def Overrun (ts : List Token) (i : Nat) : Prop :=
  countBefore k.opens ts (i + 1) < countBefore k.closes ts (i + 1)

/-- The brackets before an offset are balanced. -/
structure Balanced (ts : List Token) (i : Nat) : Prop where
  /-- At no point more of them are closed than opened. -/
  le : ∀ j ≤ i, countBefore k.closes ts j ≤ countBefore k.opens ts j
  /-- As many are closed as are opened. -/
  eq : countBefore k.closes ts i = countBefore k.opens ts i

/-- The number of open brackets behind a token, when it is `n` before it. -/
def behind (n : Nat) (t : Token) : Nat :=
  if k.opens t then n + 1 else if k.closes t then n - 1 else n

/-- The offset of the first token that closes a bracket when none is open, with `n` brackets open at
the start. -/
def firstOverrun (n : Nat) : List Token → Option Nat
  | [] => none
  | t :: ts => if k.closes t ∧ n = 0 then some t.offset else firstOverrun (k.behind n t) ts

/-! ## Counting -/

variable {k} {t : Token} {ts : List Token} {n i : Nat}

/-- Unless a token closes what is not open, the brackets overrun those open before it exactly where
the brackets behind it overrun those open there. -/
theorem overrun_cons_iff (hlt : ∀ u ∈ ts, t.offset < u.offset) (hopen : ¬(k.closes t ∧ n = 0))
    (i : Nat) :
    countBefore k.opens (t :: ts) (i + 1) + n < countBefore k.closes (t :: ts) (i + 1) ↔
      countBefore k.opens ts (i + 1) + k.behind n t < countBefore k.closes ts (i + 1) := by
  have happart := k.apart t
  rw [countBefore_cons, countBefore_cons, behind]
  by_cases hi : t.offset < i + 1
  · cases hopens : k.opens t with
    | true => simp [happart hopens, hi]; omega
    | false =>
      cases hcloses : k.closes t with
      | true =>
        have hn : n ≠ 0 := fun hn => hopen ⟨hcloses, hn⟩
        simp [hi]
        omega
      | false => simp
  · -- Up to an offset before the token nothing is counted on either side.
    have hzero (p : Token → Bool) : countBefore p ts (i + 1) = 0 := by
      refine countBefore_eq_zero p fun u hu => ?_
      have hu := hlt u hu
      omega
    simp [hzero, hi]

/-- A token that closes what is not open is where the brackets overrun first. -/
theorem isLeast_of_closes (hlt : ∀ u ∈ ts, t.offset < u.offset) (hcloses : k.closes t) :
    IsLeast {i | countBefore k.opens (t :: ts) (i + 1) + 0 < countBefore k.closes (t :: ts) (i + 1)}
      t.offset := by
  have hopens : ¬ k.opens t := by
    intro hopens
    rw [k.apart t hopens] at hcloses
    exact nomatch hcloses
  refine ⟨?_, fun i hi => ?_⟩
  · have hzero := countBefore_eq_zero k.opens (i := t.offset + 1) hlt
    have hopened : countBefore k.opens (t :: ts) (t.offset + 1) = 0 := by
      simp [countBefore_cons, hzero, hopens]
    have hclosed : 0 < countBefore k.closes (t :: ts) (t.offset + 1) := by
      simp [countBefore_cons, hcloses]
    rw [Set.mem_ofPred_eq, hopened]
    exact hclosed
  · by_contra hlow
    have hzero : countBefore k.closes (t :: ts) (i + 1) = 0 := by
      refine countBefore_eq_zero k.closes fun u hu => ?_
      rcases List.mem_cons.1 hu with rfl | hu
      · omega
      · have hu := hlt u hu
        omega
    rw [Set.mem_ofPred_eq, hzero] at hi
    exact absurd hi (Nat.not_lt_zero _)

/-- A pass finds the least offset at which the brackets overrun those open at its start. -/
theorem firstOverrun_eq_some_iff (hts : ts.Pairwise (·.offset < ·.offset)) {e : Nat} :
    k.firstOverrun n ts = some e ↔
      IsLeast {i | countBefore k.opens ts (i + 1) + n < countBefore k.closes ts (i + 1)} e := by
  induction ts generalizing n with
  | nil => exact ⟨fun h => (nomatch h), fun h => absurd h.1 (Nat.not_lt_zero _)⟩
  | cons t ts ih =>
    obtain ⟨hlt, hts⟩ := List.pairwise_cons.1 hts
    rw [firstOverrun]
    split_ifs with hstop
    · obtain ⟨hcloses, rfl⟩ := hstop
      have hleast := isLeast_of_closes hlt hcloses
      exact ⟨fun h => Option.some.inj h ▸ hleast, fun h => congrArg some (hleast.unique h)⟩
    · rw [ih hts]
      simp only [overrun_cons_iff hlt hstop]

/-- Where the brackets overrun, a pass has found where they overrun first. -/
theorem Overrun.exists_firstOverrun (hts : ts.Pairwise (·.offset < ·.offset))
    (h : k.Overrun ts i) : ∃ e ≤ i, k.firstOverrun 0 ts = some e := by
  classical
  have hex : ∃ j, countBefore k.opens ts (j + 1) + 0 < countBefore k.closes ts (j + 1) := ⟨i, h⟩
  have hleast := Nat.isLeast_find hex
  exact ⟨Nat.find hex, hleast.2 h, (firstOverrun_eq_some_iff hts).2 hleast⟩

/-- A pass finds nothing where the brackets overrun nowhere. -/
theorem firstOverrun_eq_none_iff (hts : ts.Pairwise (·.offset < ·.offset)) :
    k.firstOverrun 0 ts = none ↔ ∀ i, ¬ k.Overrun ts i := by
  constructor
  · intro hnone i hi
    obtain ⟨e, -, hsome⟩ := hi.exists_firstOverrun hts
    rw [hnone] at hsome
    exact nomatch hsome
  · intro hall
    cases hsome : k.firstOverrun 0 ts with
    | none => rfl
    | some e => exact absurd ((firstOverrun_eq_some_iff hts).1 hsome).1 (hall e)

/-! ## Nesting -/

/-- What a pass finds is the offset of a token. -/
theorem exists_of_firstOverrun {e : Nat} (h : k.firstOverrun n ts = some e) :
    ∃ t ∈ ts, t.offset = e := by
  induction ts generalizing n with
  | nil => exact nomatch h
  | cons t ts ih =>
    rw [firstOverrun] at h
    split_ifs at h
    · exact ⟨t, List.mem_cons_self, Option.some.inj h⟩
    · obtain ⟨u, hu, hoffset⟩ := ih h
      exact ⟨u, List.mem_cons_of_mem _ hu, hoffset⟩

/-- A pass with one bracket more open at its start ends later. -/
theorem firstOverrun_lt_of_succ (hts : ts.Pairwise (·.offset < ·.offset)) {e : Nat}
    (h : k.firstOverrun (n + 1) ts = some e) : ∃ e' < e, k.firstOverrun n ts = some e' := by
  induction ts generalizing n with
  | nil => exact nomatch h
  | cons t ts ih =>
    obtain ⟨hlt, hts⟩ := List.pairwise_cons.1 hts
    have hgo : k.firstOverrun (k.behind (n + 1) t) ts = some e := by
      simpa [firstOverrun] using h
    rw [firstOverrun]
    split_ifs with hstop
    · obtain ⟨u, hu, rfl⟩ := exists_of_firstOverrun hgo
      exact ⟨t.offset, hlt u hu, rfl⟩
    · have hbehind : k.behind (n + 1) t = k.behind n t + 1 := by
        unfold behind
        split_ifs with hopens hcloses
        · rfl
        · have hn : n ≠ 0 := fun hn => hstop ⟨hcloses, hn⟩
          omega
        · rfl
      rw [hbehind] at hgo
      exact ih hts hgo

/-- A pass with brackets open at its start ends later than one with none. -/
theorem firstOverrun_lt_of_lt (hts : ts.Pairwise (·.offset < ·.offset)) {e : Nat}
    (h : k.firstOverrun (n + 1) ts = some e) : ∃ e' < e, k.firstOverrun 0 ts = some e' := by
  induction n generalizing e with
  | zero => exact firstOverrun_lt_of_succ hts h
  | succ n ih =>
    obtain ⟨e', hlt, h'⟩ := firstOverrun_lt_of_succ hts h
    obtain ⟨e'', hlt', h''⟩ := ih h'
    exact ⟨e'', Nat.lt_trans hlt' hlt, h''⟩

/-- A bracket that is opened before the end of a pass is closed before it. -/
theorem exists_firstOverrun_of_opens (hts : ts.Pairwise (·.offset < ·.offset)) {e : Nat}
    (h : k.firstOverrun n ts = some e) (ht : t ∈ ts) (hopens : k.opens t) (hlt : t.offset < e) :
    ∃ e' < e, k.firstOverrun 0 (ts.filter (t.offset + 1 ≤ ·.offset)) = some e' := by
  induction ts generalizing n with
  | nil => exact absurd ht List.not_mem_nil
  | cons u ts ih =>
    obtain ⟨hfirst, hrest⟩ := List.pairwise_cons.1 hts
    rw [firstOverrun] at h
    rcases List.mem_cons.1 ht with rfl | ht
    · -- The pass goes on behind the bracket with one more open.
      have hcloses := k.apart t hopens
      have hgo : k.firstOverrun (n + 1) ts = some e := by
        simpa [hcloses, behind, hopens] using h
      have hfilter : (t :: ts).filter (t.offset + 1 ≤ ·.offset) = ts := by
        rw [List.filter_cons_of_neg (by simp), List.filter_eq_self]
        intro v hv
        exact decide_eq_true (hfirst v hv)
      rw [hfilter]
      exact firstOverrun_lt_of_lt hrest hgo
    · have hu := hfirst t ht
      have hfilter : (u :: ts).filter (t.offset + 1 ≤ ·.offset) =
          ts.filter (t.offset + 1 ≤ ·.offset) :=
        List.filter_cons_of_neg (by simp; omega)
      rw [hfilter]
      split_ifs at h with hstop
      · have := Option.some.inj h
        omega
      · exact ih hrest h ht

end Brackets

end ManifestSync.Source
