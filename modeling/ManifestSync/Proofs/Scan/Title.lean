import ManifestSync.Proofs.Scan.Declaration
import ManifestSync.Proofs.Source.Literal
import ManifestSync.Proofs.Source.RegionMap
import ManifestSync.Scan.Extraction

/-!
# Titles as literals

The declaration pattern reads a title in quotes up to the quote that closes it, and so does the walk;
the two need not find the same one. `Title` says how the title of a declaration stands in a source,
as the pattern has it, and `exists_title` that every declaration has one.

Between the keyword and the first quote nothing opens a literal or a comment, so that a walk which
has the keyword in code comes to the quote in code (`Title.mode_after_opening`). What stands between
the two quotes is then the body of a literal in quotes, whose escapes the pattern knows. A template
has no escapes for the pattern: it ends at the next backquote even where a backslash comes before it.
`isLiteral_iff_not_endsEscaped` says that this is all: a title is one literal of the walk exactly if
it does not end with an odd number of backslashes, and otherwise the walk is not back in code behind
the title.
-/

namespace ManifestSync.Scan

open Pattern
open Source (Quote Walk Body IsLiteral IsPlainCode Goes)
open Text (utf8 byteLength)

/-! ## Backslashes at the end -/

/-- A text ends with a backslash that no other one escapes: the number of backslashes at its end is
odd. -/
def EndsEscaped (raw : List Char) : Prop :=
  (raw.reverse.takeWhile (· == '\\')).length % 2 = 1

instance (raw : List Char) : Decidable (EndsEscaped raw) :=
  inferInstanceAs (Decidable (_ = _))

/-- One more backslash at the end turns the matter around. -/
theorem endsEscaped_concat (raw : List Char) : EndsEscaped (raw ++ ['\\']) ↔ ¬ EndsEscaped raw := by
  unfold EndsEscaped
  rw [List.reverse_concat, List.takeWhile_cons_of_pos (by decide), List.length_cons]
  omega

/-- In front of a text that has no backslash left over, another one changes nothing. -/
theorem endsEscaped_append {first raw : List Char} (h : ¬ EndsEscaped first) :
    EndsEscaped (first ++ raw) ↔ EndsEscaped raw := by
  unfold EndsEscaped at h ⊢
  rw [List.reverse_append, List.takeWhile_append]
  split_ifs with hall
  · rw [List.length_append, hall]
    omega
  · rfl

/-- A body of a literal has no backslash left over. -/
theorem not_endsEscaped_of_body {q : Quote} {raw : List Char} (h : Body q raw) :
    ¬ EndsEscaped raw := by
  induction h with
  | nil => decide
  | @plain c rest _ hescape _ _ ih =>
    have hfirst : ¬ EndsEscaped [c] := by
      simp [EndsEscaped, hescape]
    exact fun hends => ih ((endsEscaped_append hfirst).1 hends)
  | @escape c rest _ ih =>
    have hfirst : ¬ EndsEscaped ['\\', c] := by
      by_cases hc : c = '\\' <;> simp [EndsEscaped, hc]
    exact fun hends => ih ((endsEscaped_append hfirst).1 hends)

/-- A text without a backquote is a body of a template, save for a backslash that is left over at the
end. -/
theorem body_or_of_forall_ne {q : Quote} (hq : q = .template) :
    ∀ {raw : List Char}, (∀ c ∈ raw, c ≠ q.char) →
      Body q raw ∨ ∃ init, raw = init ++ ['\\'] ∧ Body q init
  | [], _ => .inl .nil
  | [c], h => by
    by_cases hc : c = '\\'
    · exact .inr ⟨[], by rw [hc, List.nil_append], .nil⟩
    · exact .inl (.plain (h c List.mem_cons_self) hc (.inl hq) .nil)
  | c :: c' :: rest, h => by
    obtain ⟨hfirst, hmore⟩ := List.forall_mem_cons.1 h
    by_cases hc : c = '\\'
    · -- The backslash takes the next character with it, so the recursion goes on behind both.
      subst hc
      rcases body_or_of_forall_ne hq (List.forall_mem_cons.1 hmore).2 with hbody | ⟨init, hinit, hbody⟩
      · exact .inl (.escape hbody)
      · exact .inr ⟨'\\' :: c' :: init, by rw [hinit]; rfl, .escape hbody⟩
    · rcases body_or_of_forall_ne hq hmore with hbody | ⟨init, hinit, hbody⟩
      · exact .inl (.plain hfirst hc (.inl hq) hbody)
      · exact .inr ⟨c :: init, by rw [hinit]; rfl, .plain hfirst hc (.inl hq) hbody⟩

/-! ## The title of a declaration -/

/-- How the title of a declaration stands in a source, as the declaration pattern reads it. -/
structure Title (s : SourceText) (d : Declaration) where
  /-- The text before the declaration. -/
  before : List Char
  /-- The declaration up to the quote that opens its title. -/
  head : List Char
  /-- The quotes around the title. -/
  quote : Quote
  /-- The text between the quotes. -/
  raw : List Char
  /-- The text behind the title. -/
  behind : List Char
  chars_eq : s.chars = before ++ (head ++ (quote.char :: (raw ++ quote.char :: behind)))
  start_eq : d.start = byteLength before
  titleEnd_eq : d.titleEnd = byteLength before + byteLength head + 1 + byteLength raw + 1
  /-- The declaration starts with its keyword. -/
  keyword_prefix : d.keyword.name.toList <+: head
  /-- Nothing opens a literal or a comment before the title. -/
  head_plain : ∀ c ∈ head, IsPlainCode c
  /-- In quotes, a title is the body of a literal. -/
  body_of_quotes : quote ≠ .template → Body quote raw
  /-- A template has no backquote in it. -/
  ne_of_template : quote = .template → ∀ c ∈ raw, c ≠ quote.char
  /-- The title of the declaration has its escapes resolved. -/
  title_eq : d.title = unescape raw

namespace Title

variable {s : SourceText} {d : Declaration} (t : Title s d)

/-- The offset of the quote that opens the title. -/
def opening : Nat := byteLength t.before + byteLength t.head

/-- A title is the body of a literal, save for a backslash that is left over in a template. -/
theorem body_or : Body t.quote t.raw ∨
    t.quote = .template ∧ ∃ init, t.raw = init ++ ['\\'] ∧ Body t.quote init := by
  by_cases hq : t.quote = .template
  · exact (body_or_of_forall_ne hq (t.ne_of_template hq)).imp_right fun h => ⟨hq, h⟩
  · exact .inl (t.body_of_quotes hq)

/-- The bytes of the source around the title. -/
theorem bytes_eq : s.bytes = (utf8 t.before ++ utf8 t.head) ++
    (t.quote.byte :: (utf8 t.raw ++ t.quote.byte :: utf8 t.behind)) := by
  rw [s.bytes_eq, t.chars_eq]
  simp only [Text.utf8_append, Text.utf8_cons, Quote.utf8EncodeChar_char, List.append_assoc,
    List.singleton_append]

/-- A declaration starts with a letter of its keyword, which is one byte. -/
theorem exists_head_eq : ∃ c rest, t.head = c :: rest ∧ c.utf8Size = 1 := by
  obtain ⟨tail, htail⟩ := t.keyword_prefix
  have hkeyword : ∀ k : Keyword, ∃ c rest, k.name.toList = c :: rest ∧ c.utf8Size = 1 := by
    rintro (_ | _ | _) <;> exact ⟨_, _, rfl, rfl⟩
  obtain ⟨c, rest, hname, hsize⟩ := hkeyword d.keyword
  exact ⟨c, rest ++ tail, by rw [← htail, hname, List.cons_append], hsize⟩

/-- If the declaration starts in code, the walk comes to the title in code. -/
theorem mode_after_opening (hcode : s.region d.start = .code) :
    (Walk.start.after t.opening s.bytes).mode = .code := by
  obtain ⟨c, rest, hhead, hsize⟩ := t.exists_head_eq
  have hstart : (utf8 t.before ++ String.utf8EncodeChar c).length = d.start + 1 := by
    rw [List.length_append, Text.length_utf8, String.length_utf8EncodeChar, hsize, t.start_eq]
  have hopening : t.opening = d.start + 1 + (utf8 rest).length := by
    rw [opening, hhead, byteLength, hsize, t.start_eq, Text.length_utf8, Nat.add_assoc]
  have hbytes : s.bytes = (utf8 t.before ++ String.utf8EncodeChar c) ++ (utf8 rest ++
      (t.quote.byte :: (utf8 t.raw ++ t.quote.byte :: utf8 t.behind))) := by
    rw [t.bytes_eq, hhead, Text.utf8_cons]
    simp only [List.append_assoc]
  have hdrop : s.bytes.drop (d.start + 1) =
      utf8 rest ++ (t.quote.byte :: (utf8 t.raw ++ t.quote.byte :: utf8 t.behind)) := by
    rw [hbytes, ← hstart, List.drop_left]
  have hlength : d.start < s.bytes.length := by
    rw [hbytes, List.length_append, hstart]
    omega
  -- The first letter is in code, and nothing opens in the rest.
  have hfirst : (Walk.start.after (d.start + 1) s.bytes).mode = .code := by
    refine Source.mode_after_of_regionAt_eq_code hlength ?_
    rw [← s.regions_eq]
    exact hcode
  have hrest : Goes (· = .code) .code .code (utf8 rest) :=
    Source.goes_code fun c hc => t.head_plain c (hhead ▸ List.mem_cons_of_mem _ hc)
  rw [hopening, Walk.after_add, hdrop]
  exact (hrest _ _ hfirst).2

end Title

/-! ## What the pattern reads -/

/-- What is matched between quotes is the body of a literal. -/
theorem body_of_mem_ends {q : Quote} {r t : Reached}
    (ht : t ∈ (Pattern.many (.alt (.one fun c => c != q.char && c != '\\' && c != '\n')
      (char '\\' ++ .one (· != '\n')))).ends r) :
    ∃ raw, r.cursor.Moves raw t.cursor ∧ Body q raw := by
  -- A step reads something that may stand in front of any body; so do several of them.
  let R (r t : Reached) : Prop :=
    ∃ w, r.cursor.Moves w t.cursor ∧ ∀ v, Body q v → Body q (w ++ v)
  have hrefl (r : Reached) : R r r := ⟨[], .refl _, fun _ h => h⟩
  have htrans {r s t : Reached} : R r s → R s t → R r t := by
    rintro ⟨w, hw, hbody⟩ ⟨w', hw', hbody'⟩
    refine ⟨w ++ w', hw.trans hw', fun v hv => ?_⟩
    rw [List.append_assoc]
    exact hbody _ (hbody' v hv)
  have hstep (r t : Reached) (ht : t ∈ (Pattern.alt
      (.one fun c => c != q.char && c != '\\' && c != '\n')
      (char '\\' ++ .one (· != '\n'))).ends r) : R r t := by
    rcases List.mem_append.1 ht with ht | ht
    · obtain ⟨c, hc, hmoves, -⟩ := mem_ends_one ht
      simp only [Bool.and_eq_true, bne_iff_ne] at hc
      exact ⟨[c], hmoves, fun v hv => .plain hc.1.1 hc.1.2 (.inr hc.2) hv⟩
    · obtain ⟨u, hu, ht⟩ := mem_ends_append.1 ht
      obtain ⟨_, hescape, hmoves, -⟩ := mem_ends_one hu
      obtain rfl := beq_iff_eq.1 hescape
      obtain ⟨c, -, hmoves', -⟩ := mem_ends_one ht
      exact ⟨_, hmoves.trans hmoves', fun v hv => .escape hv⟩
  obtain ⟨w, hw, hbody⟩ :=
    (mem_repeated (R := R) hrefl htrans hstep _ r [] t ht).resolve_left List.not_mem_nil
  refine ⟨w, hw, ?_⟩
  have := hbody [] .nil
  rwa [List.append_nil] at this

/-- What the pattern of a title matches: a text between two quotes, kept as the title. -/
theorem mem_ends_title {r t : Reached}
    (ht : t ∈ titlePattern.ends r) :
    ∃ (q : Quote) (raw : List Char), r.cursor.Moves (q.char :: (raw ++ [q.char])) t.cursor ∧
      (t.groups.lookup 3).map Span.text = some raw ∧ (q ≠ .template → Body q raw) ∧
      (q = .template → ∀ c ∈ raw, c ≠ q.char) := by
  obtain ⟨p, hp, ht⟩ := mem_ends_oneOf ht
  simp only [List.mem_cons, List.not_mem_nil, or_false] at hp
  have hquoted (q : Quote) (hq : q ≠ .template) (ht : t ∈ (quotedTitle q.char 3).ends r) :
      ∃ (q : Quote) (raw : List Char), r.cursor.Moves (q.char :: (raw ++ [q.char])) t.cursor ∧
        (t.groups.lookup 3).map Span.text = some raw ∧ (q ≠ .template → Body q raw) ∧
        (q = .template → ∀ c ∈ raw, c ≠ q.char) := by
    obtain ⟨s, u, hu, hmatch⟩ := mem_ends_enclosed ht
    obtain ⟨raw, hraw, hbody⟩ := body_of_mem_ends hu
    obtain ⟨hmoves, hgroup⟩ := hmatch raw hraw
    exact ⟨q, raw, hmoves, hgroup, fun _ => hbody, fun h => absurd h hq⟩
  rcases hp with rfl | rfl | rfl
  · exact hquoted .single (by decide) ht
  · exact hquoted .double (by decide) ht
  · obtain ⟨s, u, hu, hmatch⟩ := mem_ends_enclosed ht
    obtain ⟨raw, -, hraw, hreads, -⟩ := ends_spec _ s u hu
    obtain ⟨hmoves, hgroup⟩ := hmatch raw hraw
    refine ⟨.template, raw, hmoves, hgroup, fun h => absurd rfl h, fun _ c hc => ?_⟩
    exact bne_iff_ne.1 (hreads c hc)

/-- Nothing opens a literal or a comment between the keyword and the title. -/
theorem isPlainCode_of_reads {c : Char} (h : declarationHead.reads c = true) : IsPlainCode c := by
  constructor
  · rintro rfl
    exact absurd h (by decide)
  · rintro q rfl
    revert h
    cases q <;> decide

/-- A declaration is what a match reads as. -/
theorem fields_of_ofMatch? {m : Match} {d : Declaration} (h : Declaration.ofMatch? m = some d)
    {k : Keyword} {raw : List Char} (hkeyword : m.group? 1 = some k.name.toList)
    (htitle : m.group? 3 = some raw) : d.keyword = k ∧ d.title = unescape raw := by
  unfold Declaration.ofMatch? at h
  simp only [hkeyword, htitle, Keyword.ofText?_name, Option.bind_eq_bind, Option.bind_some] at h
  obtain rfl := Option.some.inj h
  exact ⟨rfl, rfl⟩

/-- Every declaration has its title. -/
theorem exists_title {s : SourceText} {d : Declaration} (hd : d ∈ declarations s.chars) :
    Nonempty (Title s d) := by
  obtain ⟨m, hm, -, hread⟩ := mem_declarations_iff.1 hd
  obtain ⟨hin, hat⟩ := of_mem_findAll hm
  obtain ⟨t, ht, hmatch⟩ := exists_mem_ends_of_matchAt? hat
  obtain ⟨k, w, u, hhead, hmoves, htitle, hkeyword⟩ := exists_keyword_title_of_mem_ends ht
  obtain ⟨quote, raw, hmoves', hgroup, hbody, hne⟩ := mem_ends_title htitle
  obtain ⟨head, -, hhead, hreads, -⟩ := ends_spec _ _ _ hhead
  -- The head is what is moved over up to the title.
  obtain rfl : head = k.name.toList ++ w := hhead.textTo.symm.trans hmoves.textTo
  have hgroups : m.groups = t.groups := congrArg Match.groups hmatch
  have hstop : m.stop = t.cursor := congrArg Match.stop hmatch
  obtain ⟨hstart, htitleEnd⟩ := start_of_ofMatch? hread
  obtain ⟨rfl, htext⟩ := fields_of_ofMatch? hread
    (by rw [Match.group?, hgroups, hkeyword]) (by rw [Match.group?, hgroups, hgroup])
  have hmatch : m.start.Moves ((d.keyword.name.toList ++ w) ++ quote.char :: (raw ++ [quote.char]))
      t.cursor := hhead.trans hmoves'
  have hchars : s.chars = m.start.behind.reverse ++ ((d.keyword.name.toList ++ w) ++
      (quote.char :: (raw ++ quote.char :: t.cursor.rest))) := by
    rw [hmatch.text_eq hin]
    simp only [List.append_assoc, List.cons_append, List.nil_append]
  have hoffset : d.titleEnd = byteLength m.start.behind.reverse +
      byteLength (d.keyword.name.toList ++ w) + 1 + byteLength raw + 1 := by
    have hsize : quote.char.utf8Size = 1 := by cases quote <;> decide
    have htitle : byteLength (quote.char :: (raw ++ [quote.char])) = 1 + (byteLength raw + 1) := by
      rw [byteLength, Text.byteLength_append, byteLength, hsize, byteLength]
    rw [htitleEnd, hstop, hmatch.offset_eq hin, Text.byteLength_append, htitle]
    omega
  exact ⟨
    { before := m.start.behind.reverse
      head := d.keyword.name.toList ++ w
      quote := quote
      raw := raw
      behind := t.cursor.rest
      chars_eq := hchars
      start_eq := by rw [hstart, hin.offset_eq, Text.byteLength_reverse]
      titleEnd_eq := hoffset
      keyword_prefix := List.prefix_append _ _
      head_plain := fun c hc => isPlainCode_of_reads (hreads c hc)
      body_of_quotes := hbody
      ne_of_template := hne
      title_eq := htext }⟩

/-! ## The title and the walk -/

namespace Title

variable {s : SourceText} {d : Declaration} (t : Title s d)

/-- A title is one literal of the walk exactly if no backslash is left over at its end, and exactly
then the walk is back in code behind it. -/
theorem isLiteral_and_mode_iff (hcode : s.region d.start = .code) :
    (IsLiteral s.bytes t.quote t.opening d.titleEnd ↔ ¬ EndsEscaped t.raw) ∧
      ((Walk.start.after d.titleEnd s.bytes).mode = .code ↔ ¬ EndsEscaped t.raw) := by
  have hlength : (utf8 t.before ++ utf8 t.head).length = t.opening := by
    rw [List.length_append, Text.length_utf8, Text.length_utf8, opening]
  have hopens : (Walk.start.after (utf8 t.before ++ utf8 t.head).length s.bytes).mode = .code := by
    rw [hlength]
    exact t.mode_after_opening hcode
  have hend : d.titleEnd =
      (utf8 t.before ++ utf8 t.head).length + 1 + byteLength t.raw + 1 := by
    rw [hlength, opening, t.titleEnd_eq]
  -- A body makes a literal; a backslash that is left over escapes the second quote.
  rcases t.body_or with hbody | ⟨-, init, hinit, hbody⟩
  · have hliteral : IsLiteral s.bytes t.quote t.opening d.titleEnd := by
      have h := Source.isLiteral_of_body t.bytes_eq hopens hbody
      rwa [← hend, hlength] at h
    have hnot := not_endsEscaped_of_body hbody
    exact ⟨iff_of_true hliteral hnot, iff_of_true hliteral.closes hnot⟩
  · have hmode := Source.mode_after_of_body_backslash t.bytes_eq hopens hinit hbody
    rw [← hend] at hmode
    have hends : EndsEscaped t.raw := by
      rw [hinit, endsEscaped_concat]
      exact not_endsEscaped_of_body hbody
    have hopen : (Walk.start.after d.titleEnd s.bytes).mode ≠ .code := by
      rw [hmode]
      exact Source.Mode.noConfusion
    exact ⟨iff_of_false (fun h => hopen h.closes) (not_not_intro hends),
      iff_of_false hopen (not_not_intro hends)⟩

/-- Only the title of a template can end with a backslash left over. -/
theorem quote_eq_template_of_endsEscaped (h : EndsEscaped t.raw) : t.quote = .template := by
  rcases t.body_or with hbody | ⟨hquote, -⟩
  · exact absurd h (not_endsEscaped_of_body hbody)
  · exact hquote

end Title

/-- A declaration that starts in code has a title. That title is one literal of the walk, with the
walk back in code behind it, unless it is a template which ends with an odd number of backslashes;
then it is not, and the walk is not. -/
theorem title_isLiteral_iff {s : SourceText} {d : Declaration} (hd : d ∈ declarations s.chars)
    (hcode : s.region d.start = .code) :
    Nonempty (Title s d) ∧ ∀ t : Title s d,
      (IsLiteral s.bytes t.quote t.opening d.titleEnd ↔
        ¬ (t.quote = .template ∧ EndsEscaped t.raw)) ∧
      ((Walk.start.after d.titleEnd s.bytes).mode = .code ↔
        ¬ (t.quote = .template ∧ EndsEscaped t.raw)) := by
  refine ⟨exists_title hd, fun t => ?_⟩
  have hends : t.quote = .template ∧ EndsEscaped t.raw ↔ EndsEscaped t.raw :=
    and_iff_right_of_imp t.quote_eq_template_of_endsEscaped
  rw [hends]
  exact t.isLiteral_and_mode_iff hcode

/-- A title in quotes with an escaped quote in it is one literal. -/
theorem title_isLiteral_iff_quotes :
    ∃ t : Title (.ofChars "test('TC-1: it\\'s', f)".toList)
        ⟨0, 18, .test, none, "TC-1: it's".toList⟩,
      IsLiteral (utf8 "test('TC-1: it\\'s', f)".toList) t.quote t.opening 18 := by
  obtain ⟨⟨t⟩, h⟩ := title_isLiteral_iff (s := .ofChars "test('TC-1: it\\'s', f)".toList)
    (d := ⟨0, 18, .test, none, "TC-1: it's".toList⟩) (by decide +kernel) (by decide +kernel)
  exact ⟨t, (h t).1.2 ((h t).2.1 (by decide +kernel))⟩

/-- The title of a declaration in code is not always a literal: the walk takes the backquote behind
the backslash for escaped. -/
theorem not_forall_title_isLiteral :
    ¬ ∀ (s : SourceText) (d : Declaration), d ∈ declarations s.chars → s.region d.start = .code →
      ∃ t : Title s d, IsLiteral s.bytes t.quote t.opening d.titleEnd := by
  intro h
  obtain ⟨t, ht⟩ := h (.ofChars "test(\x60TC-1: a \\\x60 b\x60, f)".toList)
    ⟨0, 16, .test, none, "TC-1: a ".toList⟩ (by decide +kernel) (by decide +kernel)
  exact absurd ht.closes (by decide +kernel)

end ManifestSync.Scan
