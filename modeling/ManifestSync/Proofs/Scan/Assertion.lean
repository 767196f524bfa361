import ManifestSync.Proofs.Scan.Tidy
import ManifestSync.Proofs.Source.LiteralScan

/-!
# What cleaning does to literals

Cleaning an assertion does not look at its string literals. `literals_cleanAssertion` says when they
come through nevertheless: if each of them is tidy and none stands behind a line comment, which ends
at no line break any more once the statement is on one line. One thing can still go wrong, and is
excluded: where an `await` is dropped, the characters around it can make a comment delimiter
(`Glued`).

A lexer goes over a statement and over what a rule makes of it side by side. It sees the same
literals in both if it does so at each place where the rule is applied (`literals_eq_of_rewrites`).
Within a literal that is tidy the rule changes nothing, since the whole piece belongs to the literal.
Outside of literals the piece and what comes in its place are no delimiters (`literals_of_rewrites`).
-/

namespace ManifestSync.Scan

open Pattern Source

/-! ## Side by side -/

section
variable {rule : Replacement} {prev : Option Char} {s t : List Char}

/-- A lexer sees the same literals in a text and in what a rule makes of it if it does so at each
place where the rule is applied, whatever has become of the text behind it. -/
theorem literals_eq_of_rewrites (h : Rewrites rule prev s t) (l : Source.Lex Char)
    (hplace : ∀ u a b z t', s = u ++ (a ++ z) → rule (u.getLast?.or prev) a b z →
      Rewrites rule (a.getLast?.or (u.getLast?.or prev)) z t' →
      (l.after Mark.ofChar u).literals Mark.ofChar (a ++ t') =
        (l.after Mark.ofChar u).literals Mark.ofChar (b ++ t')) :
    l.literals Mark.ofChar t = l.literals Mark.ofChar s := by
  induction h generalizing l with
  | nil => rfl
  | @keep prev c s t _ _ ih =>
    rw [Lex.literals_cons, Lex.literals_cons, ih]
    intro u a b z t' hs hrule ht
    rw [← getLast?_cons_or c u prev] at hrule ht
    exact hplace (c :: u) a b z t' (congrArg (c :: ·) hs) hrule ht
  | @rewrite prev a b z t hrule h ih =>
    have hhere : l.literals Mark.ofChar (a ++ t) = l.literals Mark.ofChar (b ++ t) :=
      hplace [] a b z t rfl hrule h
    rw [← hhere, Lex.literals_append, Lex.literals_append, ih]
    intro u a' b' z' t' hz hrule' ht
    rw [← getLast?_append_or a u prev] at hrule' ht
    rw [← Lex.after_append]
    exact hplace (a ++ u) a' b' z' t' (by rw [hz, List.append_assoc]) hrule' ht

/-- A character that is no delimiter, but for the end of a line. -/
def IsPlain (c : Char) : Prop := Mark.ofChar c = .other ∨ Mark.ofChar c = .lineFeed

/-- No quote is plain. -/
theorem not_isPlain_quote (q : Quote) : ¬ IsPlain q.char := by
  have hmark := (Mark.ofChar_eq_iff (m := .quote q) rfl).2 rfl
  rintro (h | h) <;> exact nomatch hmark.symm.trans h

/-- A rule leaves literals alone that are tidy. -/
structure Harmless (rule : Replacement) : Prop where
  /-- Something is rewritten. -/
  nonempty : ∀ {prev a b z}, rule prev a b z → a ≠ []
  /-- No delimiter is rewritten. -/
  reads : ∀ {prev a b z}, rule prev a b z → ∀ c ∈ a, IsPlain c
  /-- Nothing becomes a delimiter. -/
  writes : ∀ {prev a b z}, rule prev a b z → ∀ c ∈ b, IsPlain c
  /-- What stands within a tidy text stays. -/
  idle : ∀ {p a b z y}, p ≠ [] → rule p.getLast? a b z → Tidy (p ++ (a ++ y)) → b = a

/-- A harmless rule leaves a text its literals if they are closed and tidy, and if no delimiter is
completed where it puts nothing in the place of a piece. -/
theorem literals_of_rewrites (hrule : Harmless rule) (h : Rewrites rule none s t)
    (hclosed : ∀ lit ∈ leadingLiterals s, Closed lit) (htidy : ∀ lit ∈ leadingLiterals s, Tidy lit)
    (hjoin : ∀ u a z t', s = u ++ (a ++ z) → rule (u.getLast?.or none) a [] z →
      Rewrites rule (a.getLast?.or (u.getLast?.or none)) z t' →
      ∀ c ∈ t'.head?, ¬ ((Lex.code false).after Mark.ofChar u).Completes (Mark.ofChar c)) :
    leadingLiterals t = leadingLiterals s := by
  rw [leadingLiterals_eq] at hclosed htidy ⊢
  rw [leadingLiterals_eq]
  refine literals_eq_of_rewrites h (Lex.code false) fun u a b z t' hs hrewrite ht => ?_
  by_cases hliteral : ((Lex.code false).after Mark.ofChar u).InLiteral
  · -- The piece belongs to the literal that is open, as a whole.
    cases hstate : (Lex.code false).after Mark.ofChar u with
    | literal q escaped opened =>
      subst hs
      obtain ⟨y, -, -, hmem⟩ := Lex.exists_literal_around hclosed rfl
        (fun q hq => not_isPlain_quote q (hrule.reads hrewrite _ hq)) hstate
      obtain ⟨⟨u', rfl⟩, ⟨tail, htail⟩, -⟩ := Lex.exists_of_after_eq_literal hstate
      have hne : opened ≠ [] := htail ▸ List.cons_ne_nil _ _
      rw [Option.or_none, List.getLast?_append_of_ne_nil u' hne] at hrewrite
      rw [hrule.idle hne hrewrite (htidy _ hmem)]
    | _ =>
      rw [hstate] at hliteral
      exact hliteral.elim
  · refine Lex.literals_replace hliteral (hrule.nonempty hrewrite) (hrule.reads hrewrite)
      (hrule.writes hrewrite) ?_
    rintro rfl
    exact hjoin u a z t' hs hrewrite ht

/-- A rule that puts something in the place of each piece completes no delimiter. -/
theorem literals_of_rewrites_ne_nil (hrule : Harmless rule) (hne : ∀ {prev a z}, ¬ rule prev a [] z)
    (h : Rewrites rule none s t) (hclosed : ∀ lit ∈ leadingLiterals s, Closed lit)
    (htidy : ∀ lit ∈ leadingLiterals s, Tidy lit) : leadingLiterals t = leadingLiterals s :=
  literals_of_rewrites hrule h hclosed htidy fun _ _ _ _ _ hnil _ => absurd hnil hne

end

/-! ## The steps -/

section
variable {s : List Char}

/-- Every blank is plain. -/
theorem isPlain_of_isBlank {c : Char} (hc : Text.isBlank c = true) : IsPlain c := by
  cases hmark : Mark.ofChar c with
  | other => exact .inl hmark
  | lineFeed => exact .inr hmark
  | quote q =>
    obtain rfl := (Mark.ofChar_eq_iff rfl).1 hmark
    cases q <;> exact nomatch hc
  | _ =>
    obtain rfl := (Mark.ofChar_eq_iff rfl).1 hmark
    exact nomatch hc

/-- Dropping `await` is harmless: in a tidy text there is none. -/
theorem harmless_await : Harmless awaitRule where
  nonempty := by
    rintro prev a b z ⟨-, ⟨w, hw, rfl⟩, -⟩
    exact List.append_ne_nil_of_right_ne_nil _ hw.1
  reads := by
    rintro prev a b z ⟨-, ⟨w, hw, rfl⟩, -⟩
    have hword : awaitWord.all (Mark.ofChar · == .other) = true := by decide
    exact List.forall_mem_append.2
      ⟨fun c hc => .inl (beq_iff_eq.1 (List.all_eq_true.1 hword c hc)),
        fun c hc => isPlain_of_isBlank (hw.2 c hc)⟩
  writes := by
    rintro prev a b z ⟨-, -, -, rfl⟩
    exact List.forall_mem_nil _
  idle := by
    rintro p a b z y - ⟨hprev, ⟨w, ⟨hne, hw⟩, rfl⟩, -⟩ htidy
    obtain ⟨c, w, rfl⟩ := List.exists_cons_of_ne_nil hne
    have hword := htidy.noAwait p c (w ++ y) (by rw [List.append_assoc]; rfl)
      (hw c List.mem_cons_self)
    rw [Option.or_none, hprev] at hword
    exact absurd hword Bool.false_ne_true

/-- Closing gaps is harmless: in a tidy text there is none. -/
theorem harmless_gap : Harmless gapRule where
  nonempty := by
    rintro prev a b z ⟨⟨w, -, rfl⟩, -⟩
    exact List.append_ne_nil_of_right_ne_nil _ (List.cons_ne_nil _ _)
  reads := by
    rintro prev a b z ⟨⟨w, hw, rfl⟩, -⟩
    exact List.forall_mem_append.2 ⟨fun c hc => isPlain_of_isBlank (hw.2 c hc),
      List.forall_mem_singleton.2 (.inl (by decide))⟩
  writes := by
    rintro prev a b z ⟨-, rfl⟩
    exact List.forall_mem_singleton.2 (.inl (by decide))
  idle := by
    rintro p a b z y - ⟨⟨w, hw, rfl⟩, -⟩ htidy
    -- The last of the blanks would be a space in front of a full stop.
    obtain ⟨c, hlast, hmem, hc⟩ := hw.exists_getLast?
    have hspace := htidy.spaces c (by simp [hmem]) hc
    have hchain := htidy.single.right_of_append.left_of_append
    exact absurd rfl ((List.isChain_append.1 hchain).2.2 c hlast _ rfl hspace).2

/-- Making blanks single spaces is harmless: in a tidy text they are that. -/
theorem harmless_blank : Harmless blankRule where
  nonempty h := h.1.1
  reads h c hc := isPlain_of_isBlank (h.1.2 c hc)
  writes := by
    rintro prev a b z ⟨-, -, rfl⟩
    exact List.forall_mem_singleton.2 (.inl (by decide))
  idle := by
    rintro p a b z y - ⟨⟨hne, ha⟩, -, rfl⟩ htidy
    have hspace : ∀ c ∈ a, c = ' ' := fun c hc => htidy.spaces c (by simp [hc]) (ha c hc)
    have hchain := htidy.single.right_of_append.left_of_append
    match a, hne with
    | [c], _ => rw [hspace c List.mem_cons_self]
    | c :: d :: a, _ =>
      have hd := hspace d (by simp)
      exact absurd hd ((List.isChain_cons_cons.1 hchain).1 (hspace c List.mem_cons_self)).1

/-- Words `await` with blanks behind each of them. -/
inductive Awaits : List Char → Prop where
  /-- None. -/
  | nil : Awaits []
  /-- One more in front. -/
  | cons {w v : List Char} (hw : AreBlanks w) (h : Awaits v) : Awaits ((awaitWord ++ w) ++ v)

/-- Dropping `await` puts two characters next to each other that make a comment delimiter. -/
def Glued (statement : List Char) : Prop :=
  ∃ u w v, statement = u ++ (w ++ v) ∧ Awaits w ∧ w ≠ [] ∧
    ∃ c ∈ v.head?, ((Lex.code false).after Mark.ofChar u).Completes (Mark.ofChar c)

/-- Without slashes and stars nothing makes a comment delimiter. -/
theorem not_glued (hslash : '/' ∉ s) (hstar : '*' ∉ s) : ¬ Glued s := by
  rintro ⟨u, w, v, rfl, -, -, c, hc, hcompletes⟩
  have hmem : c ∈ u ++ (w ++ v) :=
    List.mem_append_right u (List.mem_append_right w (List.mem_of_mem_head? hc))
  have hmark : Mark.ofChar c = .slash ∨ Mark.ofChar c = .star :=
    hcompletes.elim (·.2) fun h => .inl h.2
  rcases hmark with h | h
  · obtain rfl : c = '/' := (Mark.ofChar_eq_iff rfl).1 h
    exact hslash hmem
  · obtain rfl : c = '*' := (Mark.ofChar_eq_iff rfl).1 h
    exact hstar hmem

/-- What is left of a text without `await` begins behind some of them. -/
theorem exists_awaits {prev : Option Char} {t : List Char} (h : Rewrites awaitRule prev s t) :
    ∃ w v, s = w ++ v ∧ Awaits w ∧ v.head? = t.head? := by
  induction h with
  | nil => exact ⟨[], [], rfl, .nil, rfl⟩
  | @keep prev c s t _ _ ih => exact ⟨[], c :: s, rfl, .nil, rfl⟩
  | @rewrite prev a b z t hrule _ ih =>
    obtain ⟨w, v, rfl, hawaits, hhead⟩ := ih
    obtain ⟨-, ⟨blanks, hblanks, rfl⟩, -, rfl⟩ := hrule
    exact ⟨_, v, (List.append_assoc ..).symm, .cons hblanks hawaits, hhead⟩

/-- A statement without `await` has the literals of the statement, if nothing is glued. -/
theorem literals_await {t : List Char} (h : Rewrites awaitRule none s t)
    (hclosed : ∀ lit ∈ leadingLiterals s, Closed lit) (htidy : ∀ lit ∈ leadingLiterals s, Tidy lit)
    (hglued : ¬ Glued s) : leadingLiterals t = leadingLiterals s := by
  refine literals_of_rewrites harmless_await h hclosed htidy ?_
  rintro u a z t' rfl hrule ht c hc hcompletes
  obtain ⟨w, v, rfl, hawaits, hhead⟩ := exists_awaits ht
  obtain ⟨-, ⟨blanks, hblanks, rfl⟩, -⟩ := hrule
  refine hglued ⟨u, (awaitWord ++ blanks) ++ w, v, by simp only [List.append_assoc],
    .cons hblanks hawaits, ?_, c, hhead ▸ hc, hcompletes⟩
  exact List.append_ne_nil_of_left_ne_nil (List.append_ne_nil_of_right_ne_nil _ hblanks.1) _

/-- A trimmed text has the literals of the text. -/
theorem literals_trim (hclosed : ∀ lit ∈ leadingLiterals s, Closed lit) :
    leadingLiterals (Text.trim s) = leadingLiterals s := by
  obtain ⟨w, w', hw, hw', htext⟩ := Text.exists_trim s
  rw [leadingLiterals_eq, leadingLiterals_eq]
  rw [leadingLiterals_eq] at hclosed
  have hstart : (Lex.code false).literals Mark.ofChar s =
      (Lex.code false).literals Mark.ofChar (Text.trim s ++ w') := by
    by_cases hne : w = []
    · rw [hne] at htext
      exact congrArg _ htext
    · refine (congrArg _ htext).trans (Lex.literals_replace (b := []) id hne
        (fun c hc => isPlain_of_isBlank (hw c hc)) (List.forall_mem_nil _) ?_)
      rintro - c - (⟨h, -⟩ | ⟨h, -⟩) <;> exact nomatch h
  rw [hstart] at hclosed ⊢
  exact (Lex.literals_append_plain hclosed fun c hc => isPlain_of_isBlank (hw' c hc)).symm

/-- A text without semicolons at its end has the literals of the text. -/
theorem literals_trimEndOf (hclosed : ∀ lit ∈ leadingLiterals s, Closed lit) :
    leadingLiterals (Text.trimEndOf (· == ';') s) = leadingLiterals s := by
  obtain ⟨n, htext⟩ := Text.exists_trimEndOf_char ';' s
  rw [htext, leadingLiterals_eq] at hclosed
  have hplain : ∀ c ∈ List.replicate n ';', IsPlain c := fun c hc =>
    .inl (List.eq_of_mem_replicate hc ▸ by decide)
  calc leadingLiterals (Text.trimEndOf (· == ';') s)
      = leadingLiterals (Text.trimEndOf (· == ';') s ++ List.replicate n ';') := by
        rw [leadingLiterals_eq, leadingLiterals_eq, Lex.literals_append_plain hclosed hplain]
    _ = leadingLiterals s := congrArg leadingLiterals htext.symm

end

/-! ## Cleaning -/

/-- The characters of a text that are no blanks. -/
def visible (text : List Char) : List Char := text.filter (!Text.isBlank ·)

/-- No string literal stands behind a line comment. -/
def LineCommentsLast (text : List Char) : Prop :=
  ∀ s ∈ (segments 0 (Text.utf8 text)).dropWhile (·.region ≠ .lineComment), s.region.isString = false

section
variable {s : List Char}

/-- The literals of a text are its leading literals just if none stands behind a line comment. -/
theorem leadingLiterals_eq_literals_iff : leadingLiterals s = literals s ↔ LineCommentsLast s := by
  have hsplit : literals s = leadingLiterals s ++ literalTexts
      ((segments 0 (Text.utf8 s)).dropWhile (·.region ≠ .lineComment)) := by
    unfold leadingLiterals literals literalTexts
    rw [← List.map_append, ← List.filter_append, List.takeWhile_append_dropWhile]
  rw [hsplit, List.self_eq_append_right, literalTexts, List.map_eq_nil_iff, List.filter_eq_nil_iff]
  simp only [Bool.not_eq_true]
  rfl

/-- Literals that are closed and tidy, in front of the first line comment, come through cleaning if
nothing is glued. -/
theorem leadingLiterals_cleanAssertion (hclosed : ∀ lit ∈ leadingLiterals s, Closed lit)
    (htidy : ∀ lit ∈ leadingLiterals s, Tidy lit) (hglued : ¬ Glued s) :
    leadingLiterals (cleanAssertion s) = leadingLiterals s := by
  obtain ⟨kept, joined, hsteps⟩ := exists_steps s
  -- Each step hands the literals on, and so the next one finds them closed and tidy.
  have hkept : leadingLiterals kept = leadingLiterals s :=
    literals_await hsteps.await hclosed htidy hglued
  have htrim : leadingLiterals (Text.trim kept) = leadingLiterals s :=
    (literals_trim (hkept ▸ hclosed)).trans hkept
  have hbare : leadingLiterals (Text.trimEndOf (· == ';') (Text.trim kept)) = leadingLiterals s :=
    (literals_trimEndOf (htrim ▸ hclosed)).trans htrim
  have hjoined : leadingLiterals joined = leadingLiterals s :=
    (literals_of_rewrites_ne_nil harmless_gap (fun h => nomatch h.2) hsteps.gap (hbare ▸ hclosed)
      (hbare ▸ htidy)).trans hbare
  have htrim' : leadingLiterals (Text.trim joined) = leadingLiterals s :=
    (literals_trim (hjoined ▸ hclosed)).trans hjoined
  exact (literals_of_rewrites_ne_nil harmless_blank (fun h => nomatch h.2.2) hsteps.blank
    (htrim' ▸ hclosed) (htrim' ▸ htidy)).trans htrim'

/-- What cleaning leaves has no line break, and so no literal stands behind a line comment. -/
theorem leadingLiterals_cleanAssertion_eq (s : List Char) :
    leadingLiterals (cleanAssertion s) = literals (cleanAssertion s) :=
  leadingLiterals_eq_literals (tidy_cleanAssertion s).not_mem_lineFeed

/-- The literals of what cleaning leaves are tidy. -/
theorem tidy_of_mem_literals : ∀ lit ∈ literals (cleanAssertion s), Tidy lit := by
  rw [← leadingLiterals_cleanAssertion_eq, leadingLiterals_eq]
  intro lit hlit
  rcases Lex.exists_of_mem_literals hlit with ⟨w, z, q, tail, htext, hquote⟩ | ⟨_, _, _, _, _, h, -⟩
  · have htidy := tidy_cleanAssertion s
    rw [htext] at htidy
    exact htidy.infix hquote (by cases q <;> rfl)
  · exact nomatch h

/-- Rewriting pieces into others with the same visible characters leaves a text its visible
characters. -/
theorem visible_of_rewrites {rule : Replacement} {prev : Option Char} {t : List Char}
    (hrule : ∀ {prev a b z}, rule prev a b z → visible b = visible a)
    (h : Rewrites rule prev s t) : visible t = visible s := by
  unfold visible at hrule ⊢
  induction h with
  | nil => rfl
  | keep _ _ ih => rw [List.filter_cons, List.filter_cons, ih]
  | rewrite hrewrite _ ih => rw [List.filter_append, List.filter_append, ih, hrule hrewrite]

/-- Blanks are not visible. -/
theorem visible_eq_nil {w : List Char} (hw : ∀ c ∈ w, Text.isBlank c = true) : visible w = [] :=
  List.filter_eq_nil_iff.2 fun c hc => by simp [hw c hc]

/-- A trimmed text has the visible characters of the text. -/
theorem visible_trim (s : List Char) : visible (Text.trim s) = visible s := by
  obtain ⟨w, w', hw, hw', htext⟩ := Text.exists_trim s
  calc visible (Text.trim s)
      = visible w ++ (visible (Text.trim s) ++ visible w') := by
        rw [visible_eq_nil hw, visible_eq_nil hw', List.append_nil, List.nil_append]
    _ = visible (w ++ (Text.trim s ++ w')) := by
        unfold visible
        rw [List.filter_append, List.filter_append]
    _ = visible s := congrArg visible htext.symm

/-- Cleaning drops words `await` with the blanks behind them and semicolons at the end. Otherwise it
drops nothing but blanks. -/
theorem exists_visible_cleanAssertion (s : List Char) :
    ∃ kept n, Rewrites awaitRule none s kept ∧
      visible kept = visible (cleanAssertion s) ++ List.replicate n ';' := by
  obtain ⟨kept, joined, hsteps⟩ := exists_steps s
  obtain ⟨n, hn⟩ := Text.exists_trimEndOf_char ';' (Text.trim kept)
  refine ⟨kept, n, hsteps.await, ?_⟩
  have hgap : ∀ {prev a b z}, gapRule prev a b z → visible b = visible a := by
    rintro prev a b z ⟨⟨w, hw, rfl⟩, rfl⟩
    rw [visible, visible, List.filter_append]
    exact congrArg (· ++ ['.']) (visible_eq_nil hw.2).symm
  have hblank : ∀ {prev a b z}, blankRule prev a b z → visible b = visible a := by
    rintro prev a b z ⟨ha, -, rfl⟩
    rw [visible_eq_nil ha.2]
    rfl
  have hsemicolons : visible (List.replicate n ';') = List.replicate n ';' :=
    List.filter_eq_self.2 fun c hc => by rw [List.eq_of_mem_replicate hc]; rfl
  have hclean : visible (cleanAssertion s) =
      visible (Text.trimEndOf (· == ';') (Text.trim kept)) := by
    rw [visible_of_rewrites hblank hsteps.blank, visible_trim, visible_of_rewrites hgap hsteps.gap]
  calc visible kept
      = visible (Text.trim kept) := (visible_trim kept).symm
    _ = visible (Text.trimEndOf (· == ';') (Text.trim kept) ++ List.replicate n ';') :=
        congrArg visible hn
    _ = visible (cleanAssertion s) ++ List.replicate n ';' := by
        rw [hclean, visible, List.filter_append]
        exact congrArg _ hsemicolons

end

/-- The literals of a statement, all of them closed, come through cleaning just if they are tidy and
none stands behind a line comment, as long as nothing is glued. Of any statement, cleaning drops
only words `await`, blanks and semicolons at the end. -/
theorem literals_cleanAssertion (s : List Char) :
    ((∀ lit ∈ literals s, Closed lit) → ¬ Glued s →
      (literals (cleanAssertion s) = literals s ↔
        (∀ lit ∈ literals s, Tidy lit) ∧ LineCommentsLast s)) ∧
    ∃ kept n, Rewrites awaitRule none s kept ∧
      visible kept = visible (cleanAssertion s) ++ List.replicate n ';' := by
  refine ⟨fun hclosed hglued => ?_, exists_visible_cleanAssertion s⟩
  have hleading : leadingLiterals s ⊆ literals s := by
    intro lit hlit
    unfold leadingLiterals literals literalTexts at *
    exact ((List.takeWhile_sublist _).filter _).map _ |>.subset hlit
  have hclean (htidy : ∀ lit ∈ literals s, Tidy lit) :
      literals (cleanAssertion s) = leadingLiterals s := by
    rw [← leadingLiterals_cleanAssertion_eq]
    exact leadingLiterals_cleanAssertion (fun lit hlit => hclosed lit (hleading hlit))
      (fun lit hlit => htidy lit (hleading hlit)) hglued
  rw [← leadingLiterals_eq_literals_iff]
  constructor
  · intro heq
    have htidy : ∀ lit ∈ literals s, Tidy lit := heq ▸ tidy_of_mem_literals
    exact ⟨htidy, (hclean htidy).symm.trans heq⟩
  · rintro ⟨htidy, hlast⟩
    exact (hclean htidy).trans hlast

/-- An assertion on two lines. -/
def titleAssertion : List Char :=
  "await expect(page)\n      .toHaveTitle(\"Let's Shop\");".toList

/-- The literal of an assertion on two lines comes through, and so it is tidy. -/
theorem literals_cleanAssertion_titleAssertion :
    (∀ lit ∈ literals titleAssertion, Closed lit) ∧ ¬ Glued titleAssertion ∧
      literals titleAssertion = ["\"Let's Shop\"".toList] ∧
      literals (cleanAssertion titleAssertion) = literals titleAssertion ∧
      (∀ lit ∈ literals titleAssertion, Tidy lit) ∧ LineCommentsLast titleAssertion := by
  have hliterals : literals titleAssertion = ["\"Let's Shop\"".toList] := by decide +kernel
  have hclosed : ∀ lit ∈ literals titleAssertion, Closed lit := by
    rw [hliterals, List.forall_mem_singleton]
    exact ⟨.double, "Let's Shop".toList, body_of_all (by decide), by decide⟩
  have hglued : ¬ Glued titleAssertion := not_glued (by decide) (by decide)
  have heq : literals (cleanAssertion titleAssertion) = literals titleAssertion := by
    decide +kernel
  have hiff := (literals_cleanAssertion titleAssertion).1 hclosed hglued
  exact ⟨hclosed, hglued, hliterals, heq, hiff.1 heq⟩

/-- The literals of a statement are closed, but do not come through cleaning. -/
def ChangesLiterals (s : List Char) : Prop :=
  (∀ lit ∈ literals s, Closed lit) ∧ literals (cleanAssertion s) ≠ literals s

/-- Where the characters of the only literal all stand for themselves it is enough to compare. -/
theorem changesLiterals_of_eq {s : List Char} (q : Quote) (raw : List Char)
    (hraw : raw.all (fun c => c != q.char && c != '\\' && c != '\n') = true)
    (hs : literals s = [q.char :: (raw ++ [q.char])])
    (hne : literals (cleanAssertion s) ≠ literals s) : ChangesLiterals s := by
  refine ⟨?_, hne⟩
  rw [hs, List.forall_mem_singleton]
  exact closed_of_all hraw

/-- A literal with two spaces is changed. One behind a line comment gets lost in the comment, and
one behind two slashes that had `await` between them likewise. -/
theorem changesLiterals :
    ChangesLiterals "expect(x).toBe('a  b')".toList ∧
      ChangesLiterals "expect(x) // y\n  .toBe('a')".toList ∧
      ChangesLiterals "expect(/await /.test('a')).toBe(true)".toList :=
  ⟨changesLiterals_of_eq .single "a  b".toList (by decide) (by decide +kernel) (by decide +kernel),
    changesLiterals_of_eq .single "a".toList (by decide) (by decide +kernel) (by decide +kernel),
    changesLiterals_of_eq .single "a".toList (by decide) (by decide +kernel) (by decide +kernel)⟩

end ManifestSync.Scan
