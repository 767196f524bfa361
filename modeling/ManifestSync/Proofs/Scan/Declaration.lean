import ManifestSync.Proofs.Pattern.Search
import ManifestSync.Scan.Declaration

/-!
# What is declared where

Whatever the declaration pattern matches reads as a declaration that starts at the match and whose
title ends with it (`exists_ofMatch?`). What the scan reports is therefore decided by two things
only, the matches that the search finds and whether they follow a full stop
(`exists_declaration_iff`, `exists_disabledSuite_iff`).
-/

namespace ManifestSync

namespace Scan

open Pattern

/-- The text of a keyword reads as that keyword. -/
theorem Keyword.ofText?_name (k : Keyword) : ofText? k.name.toList = some k := by
  cases k <;> decide

/-- What is matched between two quotes and kept as a group. -/
theorem mem_ends_enclosed {quote : Char} {n : Nat} {a : Pattern} {r t : Reached}
    (ht : t ∈ (char quote ++ .group n a ++ char quote).ends r) :
    ∃ s u : Reached, u ∈ a.ends s ∧ ∀ raw, s.cursor.Moves raw u.cursor →
      r.cursor.Moves (quote :: (raw ++ [quote])) t.cursor ∧
        (t.groups.lookup n).map Span.text = some raw := by
  obtain ⟨v, hv, hclose⟩ := mem_ends_append.1 ht
  obtain ⟨s, hopen, hgroup⟩ := mem_ends_append.1 hv
  obtain ⟨u, hu, rfl⟩ := mem_ends_group.1 hgroup
  refine ⟨s, u, hu, fun raw hraw => ⟨?_, ?_⟩⟩
  · obtain ⟨_, hquote, hfirst, -⟩ := mem_ends_one hopen
    obtain rfl := beq_iff_eq.1 hquote
    obtain ⟨_, hquote', hlast, -⟩ := mem_ends_one hclose
    obtain rfl := beq_iff_eq.1 hquote'
    exact (hfirst.trans hraw).trans hlast
  · rw [lookup_of_mem_ends rfl hclose]
    simp only [List.lookup_cons_self, Option.map_some]
    exact congrArg some hraw.textTo

/-- The declaration pattern up to the title. -/
def declarationHead : Pattern :=
  match declarationPattern with
  | .seq head _ => head
  | p => p

/-- The pattern of a title, kept as group 3. -/
def titlePattern : Pattern :=
  oneOf [quotedTitle '\'' 3, quotedTitle '"' 3, templateTitle 3]

/-- A match of a title keeps a text as the title. -/
theorem exists_title_of_mem_ends {r t : Reached} (ht : t ∈ titlePattern.ends r) :
    ∃ title, (t.groups.lookup 3).map Span.text = some title := by
  obtain ⟨p, hp, ht⟩ := mem_ends_oneOf ht
  have hkept {quote : Char} {a : Pattern}
      (ht : t ∈ (char quote ++ .group 3 a ++ char quote).ends r) :
      ∃ title, (t.groups.lookup 3).map Span.text = some title := by
    obtain ⟨s, u, hu, hmatch⟩ := mem_ends_enclosed ht
    obtain ⟨title, -, hmoves, -⟩ := ends_spec _ s u hu
    exact ⟨title, (hmatch title hmoves).2⟩
  simp only [List.mem_cons, List.not_mem_nil, or_false] at hp
  rcases hp with rfl | rfl | rfl <;> exact hkept ht

/-- What the declaration pattern matches starts with a keyword, which is kept, and ends with a
title. -/
theorem exists_keyword_title_of_mem_ends {r t : Reached} (ht : t ∈ declarationPattern.ends r) :
    ∃ (k : Keyword) (w : List Char) (u : Reached), u ∈ declarationHead.ends r ∧
      r.cursor.Moves (k.name.toList ++ w) u.cursor ∧ t ∈ titlePattern.ends u ∧
      (t.groups.lookup 1).map Span.text = some k.name.toList := by
  obtain ⟨r₆, h₆, htitle⟩ := mem_ends_append.1 ht
  -- One step for each part of the pattern between the keyword and the title.
  obtain ⟨r₅, h₅, hblanks'⟩ := mem_ends_append.1 h₆
  obtain ⟨r₄, h₄, hparen⟩ := mem_ends_append.1 h₅
  obtain ⟨r₃, h₃, hblanks⟩ := mem_ends_append.1 h₄
  obtain ⟨r₂, h₂, hmodifier⟩ := mem_ends_append.1 h₃
  obtain ⟨r₁, hboundary, hkeyword⟩ := mem_ends_append.1 h₂
  obtain rfl := eq_of_mem_ite hboundary
  obtain ⟨s, hs, rfl⟩ := mem_ends_group.1 hkeyword
  obtain ⟨p, hp, hs⟩ := mem_ends_oneOf hs
  obtain ⟨k, -, rfl⟩ := List.mem_map.1 hp
  have hmoves := mem_ends_text hs
  have hextends {p : Pattern} {a b : Reached} (h : b ∈ p.ends a) :
      Extends (fun _ => True) (fun _ => True) a b :=
    (p.ends_spec a b h).mono (fun _ _ => trivial) fun _ _ => trivial
  obtain ⟨w, -, hw, -⟩ :=
    (((hextends hmodifier).trans (hextends hblanks)).trans (hextends hparen)).trans
      (hextends hblanks')
  refine ⟨k, w, r₆, h₆, hmoves.trans hw, htitle, ?_⟩
  rw [lookup_of_mem_ends rfl htitle, lookup_of_mem_ends rfl hblanks',
    lookup_of_mem_ends rfl hparen, lookup_of_mem_ends rfl hblanks,
    lookup_of_mem_ends rfl hmodifier, List.lookup_cons_self, Option.map_some]
  exact congrArg some hmoves.textTo

/-- What the declaration pattern matches reads as a declaration, from the start of the match to its
end. -/
theorem exists_ofMatch? {c : Cursor} {m : Match} (h : declarationPattern.matchAt? c = some m) :
    ∃ d, Declaration.ofMatch? m = some d ∧ d.start = c.offset ∧ d.titleEnd = m.stop.offset := by
  obtain ⟨t, ht, rfl⟩ := exists_mem_ends_of_matchAt? h
  obtain ⟨k, w, u, -, -, htitle, hkeyword⟩ := exists_keyword_title_of_mem_ends ht
  obtain ⟨title, htitle⟩ := exists_title_of_mem_ends htitle
  unfold Declaration.ofMatch? Match.group?
  simp only [hkeyword, htitle, Keyword.ofText?_name, Option.bind_eq_bind, Option.bind_some]
  exact ⟨_, rfl, rfl, rfl⟩

/-- A match that reads as a declaration is one where the declaration starts. -/
theorem start_of_ofMatch? {m : Match} {d : Declaration} (h : Declaration.ofMatch? m = some d) :
    d.start = m.start.offset ∧ d.titleEnd = m.stop.offset := by
  unfold Declaration.ofMatch? at h
  simp only [Option.bind_eq_bind, Option.bind_eq_some_iff] at h
  obtain ⟨_, -, _, -, _, -, h⟩ := h
  obtain rfl := Option.some.inj h
  exact ⟨rfl, rfl⟩

/-- The declarations are what the matches found read as, save those behind a full stop. -/
theorem mem_declarations_iff {source : List Char} {d : Declaration} :
    d ∈ declarations source ↔ ∃ m ∈ declarationPattern.findAll source,
      followsFullStop m = false ∧ Declaration.ofMatch? m = some d := by
  unfold declarations
  rw [List.mem_filterMap]
  refine exists_congr fun m => and_congr_right fun _ => ?_
  cases followsFullStop m <;> simp

/-- The title of a declaration ends behind the start of the declaration. -/
theorem start_lt_titleEnd_of_mem_declarations {source : List Char} {d : Declaration}
    (h : d ∈ declarations source) : d.start < d.titleEnd := by
  obtain ⟨m, hm, -, hread⟩ := mem_declarations_iff.1 h
  obtain ⟨hstart, hstop⟩ := start_of_ofMatch? hread
  rw [hstart, hstop]
  exact offset_lt_of_matchAt? rfl (of_mem_findAll hm).2

/-- The declarations of a text stand in the order of the text, each at an offset of its own. -/
theorem pairwise_declarations (source : List Char) :
    (declarations source).Pairwise (·.start < ·.start) := by
  refine (declarationPattern.pairwise_findFrom [] 0 0 source).filterMap _ ?_
  intro m m' hbefore d hd d' hd'
  have hread : ∀ {m : Match} {d : Declaration},
      (if followsFullStop m then none else Declaration.ofMatch? m) = some d →
        d.start = m.start.offset := by
    intro m d hd
    split at hd
    · exact nomatch hd
    · exact (start_of_ofMatch? hd).1
  rw [hread hd, hread hd']
  exact hbefore.1

/-- A declaration is reported at an offset exactly if a match is found there that does not follow a
full stop. -/
theorem exists_declaration_iff {source : List Char} {offset : Nat} :
    (∃ d ∈ declarations source, d.start = offset) ↔
      ∃ m ∈ declarationPattern.findAll source,
        m.start.offset = offset ∧ followsFullStop m = false := by
  constructor
  · rintro ⟨d, hd, rfl⟩
    obtain ⟨m, hm, hstop, hread⟩ := mem_declarations_iff.1 hd
    exact ⟨m, hm, (start_of_ofMatch? hread).1.symm, hstop⟩
  · rintro ⟨m, hm, rfl, hstop⟩
    obtain ⟨d, hread, hstart, -⟩ := exists_ofMatch? (of_mem_findAll hm).2
    exact ⟨d, mem_declarations_iff.2 ⟨m, hm, hstop, hread⟩, hstart⟩

/-- A disabled suite is reported at an offset exactly if a match is found there that does not follow
a full stop. -/
theorem exists_disabledSuite_iff {source : List Char} {offset : Nat} :
    (∃ suite ∈ disabledSuites source, suite.1 = offset) ↔
      ∃ m ∈ disabledSuitePattern.findAll source,
        m.start.offset = offset ∧ followsFullStop m = false := by
  unfold disabledSuites
  simp only [List.mem_filterMap]
  constructor
  · rintro ⟨suite, ⟨m, hm, hread⟩, rfl⟩
    cases hstop : followsFullStop m with
    | true => simp [hstop] at hread
    | false =>
      simp only [hstop, Bool.false_eq_true, if_false, Option.some.injEq] at hread
      exact ⟨m, hm, congrArg Prod.fst hread, hstop⟩
  · rintro ⟨m, hm, rfl, hstop⟩
    exact ⟨_, ⟨m, hm, by rw [hstop]; rfl⟩, rfl⟩

end Scan

end ManifestSync
