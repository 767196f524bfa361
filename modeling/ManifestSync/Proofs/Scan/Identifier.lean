import ManifestSync.Proofs.Pattern.Preferred
import ManifestSync.Proofs.Pattern.Search
import ManifestSync.Proofs.Text.Blank
import ManifestSync.Scan.Identifier

/-!
# How titles are decoded

A title names its test in front, as in `TC-1: title` and `TC:1 - title`, or at its end, as in
`title @TC-1`. `decodes_conventions` says that the identifier and the title are read off each of
these forms, for every word that begins with a word character and has no at sign.

In front of a title, the match at its start is the preferred one and keeps the number
(`exists_matchAt?_pattern`), and what is taken away is the identifier with all that separates it from
the title (`prefers_leading`). At the end of a title the same match is found at the at sign, unless
there is an earlier one. By `hasIdentifier_of_matchAt?` that would be an identifier (`HasIdentifier`),
and it would lie within the title (`hasIdentifier_of_append`): a blank is not its last character, and
an at sign only its first one. But then the pattern would match in the title alone
(`matchAt?_ne_none_of_hasIdentifier`), which has no identifier. For the same reason the title is not
taken to start with one (`matchAt?_leading_eq_none`), and as its last character is no blank, what is
taken away from its end begins behind it (`matchAt?_trailing_eq_none`).
-/

namespace ManifestSync.Scan

open Pattern

/-- The code points of the digits of ASCII. -/
theorem toNat_of_isAsciiDigit {ch : Char} (h : Text.isAsciiDigit ch = true) :
    48 ≤ ch.toNat ∧ ch.toNat ≤ 57 := by
  simpa [Text.isAsciiDigit, Char.le_def, UInt32.le_iff_toNat_le] using h

/-- A digit of ASCII is a digit. -/
theorem isDigit_of_isAsciiDigit {ch : Char} (h : Text.isAsciiDigit ch = true) :
    Text.isDigit ch = true := by
  have hrange := toNat_of_isAsciiDigit h
  rw [Text.isDigit, if_pos (by omega), h]

/-- A digit of ASCII is a word character. -/
theorem isWord_of_isAsciiDigit {ch : Char} (h : Text.isAsciiDigit ch = true) :
    Text.isWord ch = true := by
  have hrange := toNat_of_isAsciiDigit h
  rw [Text.isWord, if_pos (by omega), Text.isAsciiAlphanumeric, h]
  rfl

/-- What may stand in front of an identifier: an at sign or nothing. -/
def IsSign (sign : List Char) : Prop := sign = ['@'] ∨ sign = []

/-- An at sign that may be there is the only one if none follows. -/
theorem IsSign.eq_nil_of_append {sign v before behind : List Char} (hsign : IsSign sign)
    (hv : '@' ∉ v) (h : sign ++ v = before ++ '@' :: behind) : before = [] := by
  cases before with
  | nil => rfl
  | cons ch before =>
    refine absurd ?_ hv
    rcases hsign with rfl | rfl
    · have htail : v = before ++ '@' :: behind := (List.cons.inj h).2
      rw [htail]
      exact List.mem_append_right _ List.mem_cons_self
    · rw [show v = ch :: before ++ '@' :: behind from h]
      exact List.mem_append_right _ List.mem_cons_self

namespace IdWord

/-- A way to write an identifier: the word, a hyphen or a colon, perhaps a space, and digits. -/
def Spelled (w : IdWord) (x : List Char) : Prop :=
  ∃ separator gap digits, x = w.word ++ separator :: (gap ++ digits) ∧
    (separator = '-' ∨ separator = ':') ∧ (gap = [' '] ∨ gap = []) ∧ digits ≠ [] ∧
    ∀ ch ∈ digits, Text.isDigit ch = true

variable {w : IdWord}

/-! ## What is read as an identifier -/

/-- Word and number are read as they are spelled. -/
theorem mem_language_iff {x : List Char} : x ∈ (w.stem ++ number).language ↔ w.Spelled x := by
  constructor
  · intro hx
    obtain ⟨_, hstem, digits, hdigits, rfl⟩ := Language.mem_mul.1 hx
    obtain ⟨_, hpair, gap, hgap, rfl⟩ := Language.mem_mul.1 hstem
    obtain ⟨_, hword, _, ⟨separator, hseparator, rfl⟩, rfl⟩ := Language.mem_mul.1 hpair
    obtain rfl := mem_language_text.1 hword
    obtain ⟨hne, hdigits⟩ := mem_language_oneOrMore_one.1 hdigits
    refine ⟨separator, gap, digits, ?_, ?_, mem_language_maybe_char.1 hgap, hne, hdigits⟩
    · simp
    · simpa using hseparator
  · rintro ⟨separator, gap, digits, rfl, hseparator, hgap, hne, hdigits⟩
    refine Language.mem_mul.2 ⟨w.word ++ [separator] ++ gap, ?_, digits,
      mem_language_oneOrMore_one.2 ⟨hne, hdigits⟩, ?_⟩
    · refine Language.mem_mul.2 ⟨_, ?_, gap, mem_language_maybe_char.2 hgap, rfl⟩
      refine Language.mem_mul.2 ⟨_, mem_language_text.2 rfl, [separator], ⟨separator, ?_, rfl⟩, rfl⟩
      simpa using hseparator
    · simp

/-- An identifier ends with a digit. -/
theorem Spelled.exists_last {x : List Char} (h : w.Spelled x) :
    ∃ init last, x = init ++ [last] ∧ Text.isDigit last = true := by
  obtain ⟨separator, gap, digits, rfl, -, -, hne, hdigits⟩ := h
  refine ⟨w.word ++ separator :: (gap ++ digits.dropLast), digits.getLast hne, ?_,
    hdigits _ (List.getLast_mem hne)⟩
  simp only [List.append_assoc, List.cons_append, List.dropLast_append_getLast]

/-- An identifier has an at sign only in its word. -/
theorem Spelled.not_mem {x : List Char} (h : w.Spelled x) (hword : '@' ∉ w.word) : '@' ∉ x := by
  obtain ⟨separator, gap, digits, rfl, hseparator, hgap, -, hdigits⟩ := h
  intro hmem
  rcases List.mem_append.1 hmem with hmem | hmem
  · exact hword hmem
  · rcases List.mem_cons.1 hmem with rfl | hmem
    · exact absurd hseparator (by decide)
    · rcases List.mem_append.1 hmem with hmem | hmem
      · rcases hgap with rfl | rfl
        · exact absurd hmem (by decide)
        · exact List.not_mem_nil hmem
      · exact absurd (hdigits _ hmem) (by decide)

/-- At a position there is an identifier that stands between two boundaries; an at sign may stand in
front of it. -/
def HasIdentifier (w : IdWord) (c : Cursor) : Prop :=
  ∃ sign x d e, IsSign sign ∧ w.Spelled x ∧ c.Moves sign d ∧ d.atBoundary = true ∧ d.Moves x e ∧
    e.atBoundary = true

/-- Between two positions stands such an identifier, with the at sign if there is one. -/
def Occurs (w : IdWord) (c e : Cursor) : Prop :=
  ∃ sign x d, IsSign sign ∧ w.Spelled x ∧ c.Moves sign d ∧ d.atBoundary = true ∧ d.Moves x e ∧
    e.atBoundary = true

/-- At a position there is an identifier exactly if one stands between it and another. -/
theorem hasIdentifier_iff {c : Cursor} : w.HasIdentifier c ↔ ∃ e, w.Occurs c e := by
  constructor
  · rintro ⟨sign, x, d, e, h⟩
    exact ⟨e, sign, x, d, h⟩
  · rintro ⟨e, sign, x, d, h⟩
    exact ⟨sign, x, d, e, h⟩

/-- What is read as word and number is an identifier. -/
theorem exists_spelled_of_mem_ends {r s t : Reached} (hs : s ∈ w.stem.ends r)
    (ht : t ∈ number.ends s) : ∃ x, w.Spelled x ∧ r.cursor.Moves x t.cursor := by
  obtain ⟨x, hx, hmoves⟩ := exists_mem_language (mem_ends_append.2 ⟨s, hs, ht⟩)
  exact ⟨x, mem_language_iff.1 hx, hmoves⟩

/-- What is read where an at sign may be is an at sign or nothing. -/
theorem exists_sign_of_mem_ends {r t : Reached} (ht : t ∈ (maybe (char '@')).ends r) :
    ∃ sign, IsSign sign ∧ r.cursor.Moves sign t.cursor := by
  obtain ⟨sign, hsign, hmoves⟩ := exists_mem_language ht
  exact ⟨sign, mem_language_maybe_char.1 hsign, hmoves⟩

/-- What the pattern matches is an identifier, and its number, one digit or more, is kept. -/
theorem occurs_of_matchAt? {c : Cursor} {m : Match} (h : w.pattern.matchAt? c = some m) :
    w.Occurs c m.stop ∧ ∃ digits, m.group? 1 = some digits ∧ digits ≠ [] ∧
      ∀ ch ∈ digits, Text.isDigit ch = true := by
  obtain ⟨t, ht, rfl⟩ := exists_mem_ends_of_matchAt? h
  obtain ⟨r₄, h₄, hboundary'⟩ := mem_ends_append.1 ht
  obtain ⟨r₃, h₃, hgroup⟩ := mem_ends_append.1 h₄
  obtain ⟨r₂, h₂, hstem⟩ := mem_ends_append.1 h₃
  obtain ⟨r₁, hsign, hboundary⟩ := mem_ends_append.1 h₂
  obtain ⟨rfl, hat⟩ := mem_ends_boundary.1 hboundary
  obtain ⟨rfl, hat'⟩ := mem_ends_boundary.1 hboundary'
  obtain ⟨s, hnumber, rfl⟩ := mem_ends_group.1 hgroup
  obtain ⟨sign, hsign, hmoves⟩ := exists_sign_of_mem_ends hsign
  obtain ⟨x, hx, hmoves'⟩ := exists_spelled_of_mem_ends hstem hnumber
  obtain ⟨digits, hdigits, hnumber⟩ := exists_mem_language hnumber
  exact ⟨⟨sign, x, _, hsign, hx, hmoves, hat, hmoves', hat'⟩, digits,
    congrArg some hnumber.textTo, mem_language_oneOrMore_one.1 hdigits⟩

/-- Where the pattern matches there is an identifier. -/
theorem hasIdentifier_of_matchAt? {c : Cursor} {m : Match} (h : w.pattern.matchAt? c = some m) :
    w.HasIdentifier c :=
  hasIdentifier_iff.2 ⟨_, (occurs_of_matchAt? h).1⟩

/-- Where there is an identifier the pattern matches. -/
theorem matchAt?_ne_none_of_hasIdentifier {c : Cursor} (h : w.HasIdentifier c) :
    w.pattern.matchAt? c ≠ none := by
  obtain ⟨sign, x, d, e, hsign, hx, hmoves, hat, hmoves', hat'⟩ := h
  have hplain : (w.stem ++ number).isPlain = true := by
    show (((text w.word).isPlain && true) && true && true) = true
    rw [isPlain_text]
    rfl
  have hsign' : ⟨d, []⟩ ∈ (maybe (char '@')).ends ⟨c, []⟩ :=
    mem_ends_of_mem_language rfl (mem_language_maybe_char.2 hsign) hmoves []
  obtain ⟨s, hstem, hnumber⟩ := mem_ends_append.1
    (mem_ends_of_mem_language hplain (mem_language_iff.2 hx) hmoves' [])
  have hgroup : (⟨e, [(1, ⟨s.cursor, e⟩)]⟩ : Reached) ∈ (group 1 number).ends s :=
    mem_ends_group.2 ⟨_, hnumber, rfl⟩
  have h₁ : (⟨d, []⟩ : Reached) ∈ (maybe (char '@') ++ boundary).ends ⟨c, []⟩ :=
    mem_ends_append.2 ⟨_, hsign', mem_ends_boundary.2 ⟨rfl, hat⟩⟩
  have h₂ := mem_ends_append.2 ⟨_, mem_ends_append.2 ⟨_, h₁, hstem⟩, hgroup⟩
  exact matchAt?_ne_none_of_mem_ends (mem_ends_append.2 ⟨_, h₂, mem_ends_boundary.2 ⟨rfl, hat'⟩⟩)

/-- At the end of a title there is no identifier. -/
theorem HasIdentifier.rest_ne_nil {c : Cursor} (h : w.HasIdentifier c) : c.rest ≠ [] := by
  obtain ⟨sign, x, d, e, -, hx, hmoves, -, hmoves', -⟩ := h
  obtain ⟨init, last, rfl, -⟩ := hx.exists_last
  rw [(hmoves.trans hmoves').rest]
  simp

/-- A title without an identifier has none at any of its positions. -/
theorem not_hasIdentifier_of_identifier?_eq_none {title : List Char}
    (h : w.identifier? title = none) {c : Cursor} (hc : c.IsIn title) : ¬ w.HasIdentifier c := by
  intro hhas
  have hfind : w.pattern.find? title = none := by
    cases hfind : w.pattern.find? title with
    | none => rfl
    | some m =>
      have hm : m ∈ w.pattern.findAll title := List.mem_of_mem_head? hfind
      obtain ⟨digits, hdigits, -⟩ := (occurs_of_matchAt? (of_mem_findAll hm).2).2
      rw [identifier?, hfind, Option.bind_some, hdigits] at h
      exact nomatch h
  exact matchAt?_ne_none_of_hasIdentifier hhas (find?_eq_none_iff.1 hfind c hc hhas.rest_ne_nil)

/-- The identifier of a title is the word, a hyphen and one digit or more. -/
theorem exists_digits_of_identifier? {title id : List Char} (h : w.identifier? title = some id) :
    ∃ digits, digits ≠ [] ∧ (∀ ch ∈ digits, Text.isDigit ch = true) ∧
      id = w.word ++ '-' :: digits := by
  obtain ⟨kept, hkept, rfl⟩ := Option.map_eq_some_iff.1 h
  obtain ⟨m, hfind, hgroup⟩ := Option.bind_eq_some_iff.1 hkept
  have hm : m ∈ w.pattern.findAll title := List.mem_of_mem_head? hfind
  obtain ⟨digits, hdigits, hnumber⟩ := (occurs_of_matchAt? (of_mem_findAll hm).2).2
  obtain rfl : digits = kept := Option.some.inj (hdigits.symm.trans hgroup)
  exact ⟨digits, hnumber.1, hnumber.2, rfl⟩

/-! ## An identifier in front of a blank and an at sign -/

/-- An identifier does not run over a blank with an at sign behind it. -/
theorem exists_of_append_eq {sign x z u y : List Char} (hsign : IsSign sign) (hx : w.Spelled x)
    (hword : '@' ∉ w.word) (h : sign ++ (x ++ z) = u ++ ' ' :: '@' :: y) :
    ∃ v, u = sign ++ (x ++ v) ∧ z = v ++ ' ' :: '@' :: y := by
  -- The blank is not the last character of the identifier.
  have hblank : sign ++ x ≠ u ++ [' '] := by
    obtain ⟨init, last, rfl, hlast⟩ := hx.exists_last
    intro heq
    rw [← List.append_assoc] at heq
    obtain rfl := (List.cons.inj (List.append_inj' heq rfl).2).1
    exact absurd hlast (by decide)
  have hsplit : sign ++ x ++ z = u ++ [' '] ++ '@' :: y := by
    rw [List.append_assoc, List.append_assoc]
    exact h
  rcases List.append_eq_append_iff.1 hsplit with ⟨more, hu, hz⟩ | ⟨more, hx', hz⟩
  · rcases List.eq_nil_or_concat more with rfl | ⟨v, last, rfl⟩
    · rw [List.append_nil] at hu
      exact absurd hu.symm hblank
    · rw [List.concat_eq_append, ← List.append_assoc] at hu
      obtain ⟨hu', hlast⟩ := List.append_inj' hu rfl
      obtain rfl := (List.cons.inj hlast).1
      refine ⟨v, by rw [hu', List.append_assoc], ?_⟩
      rw [hz, List.concat_eq_append, List.append_assoc]
      rfl
  · cases more with
    | nil =>
      rw [List.append_nil] at hx'
      exact absurd hx' hblank
    | cons ch more =>
      -- Nor is the at sign part of it.
      obtain rfl := (List.cons.inj hz).1
      have hnil := hsign.eq_nil_of_append (hx.not_mem hword) hx'
      exact absurd hnil (List.append_ne_nil_of_right_ne_nil _ (List.cons_ne_nil _ _))

/-- A boundary does not depend on more than the next character, and at the end not on a blank. -/
theorem atBoundary_append (offset : Nat) (b v y : List Char) :
    (Cursor.mk offset b (v ++ ' ' :: y)).atBoundary = (Cursor.mk offset b v).atBoundary := by
  cases v with
  | nil => rfl
  | cons ch v => rfl

/-- An identifier in front of a blank with an at sign behind it is one without these. -/
theorem hasIdentifier_of_append {offset : Nat} {b u y : List Char} (hword : '@' ∉ w.word)
    (h : w.HasIdentifier ⟨offset, b, u ++ ' ' :: '@' :: y⟩) : w.HasIdentifier ⟨offset, b, u⟩ := by
  obtain ⟨sign, x, ⟨_, _, _⟩, ⟨_, _, _⟩, hsign, hx, hmoves, hat, hmoves', hat'⟩ := h
  have hrest := (hmoves.trans hmoves').rest
  rw [List.append_assoc] at hrest
  obtain ⟨v, rfl, rfl⟩ := exists_of_append_eq hsign hx hword hrest.symm
  obtain rfl := hmoves'.rest
  refine ⟨sign, x, ⟨_, _, x ++ v⟩, ⟨_, _, v⟩, hsign, hx, ⟨hmoves.behind, rfl, hmoves.offset⟩, ?_,
    ⟨hmoves'.behind, rfl, hmoves'.offset⟩, ?_⟩
  · rwa [← List.append_assoc, atBoundary_append] at hat
  · rwa [atBoundary_append] at hat'

/-- Up to the blank behind a title without an identifier there is none. -/
theorem not_hasIdentifier_of_offset_le {title z : List Char} (hword : '@' ∉ w.word)
    (hno : w.identifier? title = none) {c : Cursor} (hc : c.IsIn (title ++ ' ' :: '@' :: z))
    (hoffset : c.offset ≤ Text.byteLength title) : ¬ w.HasIdentifier c := by
  intro hhas
  obtain ⟨offset, behind, _⟩ := c
  obtain ⟨u, rfl, hu⟩ := hc.exists_of_append hoffset
  exact not_hasIdentifier_of_identifier?_eq_none hno hu (hasIdentifier_of_append hword hhas)

/-! ## What an identifier is preferred to read -/

/-- An at sign that is there is read. -/
theorem prefers_sign {sign b z : List Char} (hsign : IsSign sign) (hz : Stops (· == '@') z) :
    (maybe (char '@')).Prefers b sign z := by
  rcases hsign with rfl | rfl
  · exact prefers_char.maybe
  · exact prefers_maybe_nil hz

/-- What separates an identifier from the rest of a title begins with a space, a colon or a hyphen. -/
theorem stops_separation {p : Char → Bool} {before z : List Char} {mark : Char}
    (hbefore : before = [' '] ∨ before = []) (hmark : mark = ':' ∨ mark = '-')
    (hblank : p ' ' = false) (hcolon : p ':' = false) (hhyphen : p '-' = false) :
    Stops p (before ++ ([mark] ++ z)) := by
  intro ch hch
  rcases hbefore with rfl | rfl
  · obtain rfl := Option.some.inj hch
    exact hblank
  · obtain rfl := Option.some.inj hch
    rcases hmark with rfl | rfl
    · exact hcolon
    · exact hhyphen

section
variable {first separator : Char} {rest digits b z : List Char}
  (hword : w.word = first :: rest) (hfirst : Text.isWord first = true)
  (hseparator : separator = '-' ∨ separator = ':') (hne : digits ≠ [])
  (hdigits : ∀ ch ∈ digits, Text.isAsciiDigit ch = true)

include hseparator hne hdigits in
/-- The word is read with the hyphen or colon behind it, in front of digits. -/
theorem prefers_stem : w.stem.Prefers b (w.word ++ [separator]) (digits ++ z) := by
  obtain ⟨ch, digits, rfl⟩ := List.exists_cons_of_ne_nil hne
  have hblank : Stops (· == ' ') (ch :: digits ++ z) := by
    rintro ch' hch
    obtain rfl := Option.some.inj hch
    refine beq_eq_false_iff_ne.2 ?_
    rintro rfl
    exact absurd (hdigits ' ' List.mem_cons_self) (by decide)
  have hone : (fun c : Char => c == '-' || c == ':') separator = true := by
    rcases hseparator with rfl | rfl <;> rfl
  exact (prefers_text.append (prefers_one hone)).append_nil (prefers_maybe_nil hblank)

include hne hdigits in
/-- The digits are read as far as they go. -/
theorem prefers_number (hz : Stops Text.isDigit z) : number.Prefers b digits z :=
  prefers_oneOrMore (fun ch hch => isDigit_of_isAsciiDigit (hdigits ch hch)) hne hz

include hne hdigits in
/-- There is a boundary behind the digits, unless a word character follows. -/
theorem prefers_boundary_digits (hz : Stops Text.isWord z) :
    boundary.Prefers (digits.reverse ++ b) [] z := by
  have hlast := isWord_of_isAsciiDigit (hdigits _ (List.getLast_mem hne))
  apply prefers_boundary
  rw [hz.any_eq_false, List.head?_append, List.head?_reverse, List.getLast?_eq_getLast_of_ne_nil hne,
    Option.some_or, Option.any_some, hlast]
  rfl

include hword hfirst

/-- There is a boundary in front of the word, unless a word character stands before it. -/
theorem prefers_boundary_word (hb : Stops Text.isWord b) :
    boundary.Prefers b [] (w.word ++ z) := by
  apply prefers_boundary
  rw [hb.any_eq_false, hword, List.cons_append, List.head?_cons, Option.any_some, hfirst]
  rfl

/-- The word does not begin with an at sign. -/
theorem stops_at_word : Stops (· == '@') (w.word ++ z) := by
  intro ch hch
  rw [hword] at hch
  obtain rfl := Option.some.inj hch
  refine beq_eq_false_iff_ne.2 ?_
  rintro rfl
  exact absurd hfirst (by decide)

include hseparator hne hdigits

/-- Where a sign, the word and digits stand, the pattern matches and keeps the digits. -/
theorem exists_matchAt?_pattern {sign : List Char} (hsign : IsSign sign)
    (hb : Stops Text.isWord (sign.reverse ++ b)) (hz : Stops Text.isDigit z)
    (hz' : Stops Text.isWord z) (offset : Nat) :
    ∃ m, w.pattern.matchAt? ⟨offset, b, sign ++ (w.word ++ [separator]) ++ (digits ++ z)⟩ = some m ∧
      m.group? 1 = some digits := by
  have hstem : (maybe (char '@') ++ boundary ++ w.stem).Prefers b (sign ++ (w.word ++ [separator]))
      (digits ++ z) := by
    refine Prefers.append (Prefers.append_nil ?_ ?_) (prefers_stem hseparator hne hdigits)
    · rw [List.append_assoc]
      exact prefers_sign hsign (stops_at_word hword hfirst)
    · rw [List.append_assoc]
      exact prefers_boundary_word hword hfirst hb
  have hnumber := fun offset b =>
    head?_ends_group (n := 1) (prefers_number (b := b) hne hdigits hz offset [])
  have hends := head?_ends_append (head?_ends_append (hstem offset []) (hnumber _ _))
    (prefers_boundary_digits hne hdigits hz' _ _)
  exact ⟨_, congrArg (Option.map _) hends, congrArg some (Cursor.Moves.textTo ⟨rfl, rfl, rfl⟩)⟩

/-- At the start of a title an identifier is read with the mark and the blanks that separate it from
the rest. -/
theorem prefers_leading {before : List Char} {mark : Char} (hvisible : Text.isBlank first = false)
    (hbefore : before = [' '] ∨ before = []) (hmark : mark = ':' ∨ mark = '-')
    (hz : Stops Text.isBlank z) :
    w.leading.Prefers [] (w.word ++ [separator] ++ digits ++ before ++ [mark] ++ [' ']) z := by
  have hstart (z : List Char) : Stops Text.isBlank (w.word ++ z) := by
    intro ch hch
    rw [hword] at hch
    obtain rfl := Option.some.inj hch
    exact hvisible
  have hblanks (ch : Char) (hch : ch ∈ before) : Text.isBlank ch = true := by
    rcases hbefore with rfl | rfl
    · obtain rfl := List.mem_singleton.1 hch
      decide
    · exact absurd hch List.not_mem_nil
  have hmark' : Text.isBlank mark = false ∧ (mark == ':' || mark == '-' || mark == '–') = true := by
    rcases hmark with rfl | rfl <;> decide
  have hhead : (atStart ++ blanks ++ maybe (char '@')).Prefers [] []
      (w.word ++ [separator] ++ (digits ++ (before ++ ([mark] ++ ([' '] ++ z))))) := by
    refine Prefers.append_nil (prefers_atStart.append_nil ?_) ?_
    · rw [List.append_assoc]
      exact prefers_many (List.forall_mem_nil _) (hstart _)
    · rw [List.append_assoc]
      exact prefers_sign (.inr rfl) (stops_at_word hword hfirst)
  have hnumber := (hhead.append (prefers_stem hseparator hne hdigits)).append
    (prefers_number hne hdigits
      (stops_separation hbefore hmark (by decide) (by decide) (by decide)))
  have hboundary := hnumber.append_nil (c := boundary) (by
    rw [List.reverse_append, List.append_assoc]
    exact prefers_boundary_digits hne hdigits
      (stops_separation hbefore hmark (by decide) (by decide) (by decide)))
  have hbefore' := hboundary.append (prefers_many hblanks fun ch hch =>
    Option.some.inj hch ▸ hmark'.1)
  have hmarked := hbefore'.append
    (prefers_one (p := fun c => c == ':' || c == '-' || c == '–') hmark'.2).maybe
  exact hmarked.append (prefers_many (List.forall_mem_singleton.2 (by decide)) hz)

/-- At the end of a title an identifier is read with a blank and an at sign in front of it. -/
theorem prefers_trailing :
    w.trailing.Prefers b ([' '] ++ ['@'] ++ (w.word ++ [separator]) ++ digits) [] := by
  have hblank : blanks.Prefers b [' '] (['@'] ++ (w.word ++ [separator] ++ (digits ++ []))) :=
    prefers_many (List.forall_mem_singleton.2 (by decide)) fun ch hch =>
      Option.some.inj hch ▸ by decide
  have hsign := hblank.append (prefers_sign (.inl rfl) (by
    rw [List.append_assoc]
    exact stops_at_word hword hfirst))
  have hboundary := hsign.append_nil (c := boundary) (by
    rw [List.append_assoc]
    exact prefers_boundary_word hword hfirst fun ch hch => Option.some.inj hch ▸ by decide)
  have hnumber := (hboundary.append (prefers_stem hseparator hne hdigits)).append
    (prefers_number hne hdigits fun _ h => nomatch h)
  exact (hnumber.append_nil (prefers_many (List.forall_mem_nil _) fun _ h => nomatch h)).append_nil
    prefers_atEnd

end

/-! ## What the ends of a title are not taken for -/

/-- What is read as white space is blank. -/
theorem exists_blanks_of_mem_ends {r t : Reached} (ht : t ∈ blanks.ends r) :
    ∃ gap, (∀ ch ∈ gap, Text.isBlank ch = true) ∧ r.cursor.Moves gap t.cursor := by
  obtain ⟨gap, hgap, hmoves⟩ := exists_mem_language ht
  exact ⟨gap, mem_language_many_one.1 hgap, hmoves⟩

/-- Whether a character can separate an identifier at the start of a title from the rest. -/
def separates (ch : Char) : Bool :=
  Text.isBlank ch || ch == ':' || ch == '-' || ch == '–'

/-- What is taken for an identifier at the start of a title: blanks, an identifier up to a boundary,
and what separates it from the rest. -/
theorem exists_moves_of_matchAt?_leading {c : Cursor} {m : Match}
    (h : w.leading.matchAt? c = some m) : c.behind = [] ∧ ∃ gap sign x mark c' d e,
      (∀ ch ∈ gap, Text.isBlank ch = true) ∧ IsSign sign ∧ w.Spelled x ∧
      (∀ ch ∈ mark, separates ch = true) ∧ c.Moves gap c' ∧ c'.Moves sign d ∧ d.Moves x e ∧
      e.atBoundary = true ∧ e.Moves mark m.stop := by
  obtain ⟨t, ht, rfl⟩ := exists_mem_ends_of_matchAt? h
  obtain ⟨_, h, hblanks₂⟩ := mem_ends_append.1 ht
  obtain ⟨_, h, hmark⟩ := mem_ends_append.1 h
  obtain ⟨_, h, hblanks₁⟩ := mem_ends_append.1 h
  obtain ⟨_, h, hboundary⟩ := mem_ends_append.1 h
  obtain ⟨_, h, hnumber⟩ := mem_ends_append.1 h
  obtain ⟨_, h, hstem⟩ := mem_ends_append.1 h
  obtain ⟨_, h, hsign⟩ := mem_ends_append.1 h
  obtain ⟨_, hstart, hblanks⟩ := mem_ends_append.1 h
  obtain ⟨rfl, hbehind⟩ := mem_ends_atStart.1 hstart
  obtain ⟨rfl, hat⟩ := mem_ends_boundary.1 hboundary
  obtain ⟨gap, hgap, hmoves⟩ := exists_blanks_of_mem_ends hblanks
  obtain ⟨sign, hsign, hmoves'⟩ := exists_sign_of_mem_ends hsign
  obtain ⟨x, hx, hmoves''⟩ := exists_spelled_of_mem_ends hstem hnumber
  obtain ⟨gap₁, hgap₁, hmoves₁⟩ := exists_blanks_of_mem_ends hblanks₁
  obtain ⟨mark, -, hmoves₂, hmark, -⟩ := ends_spec _ _ _ hmark
  obtain ⟨gap₂, hgap₂, hmoves₃⟩ := exists_blanks_of_mem_ends hblanks₂
  refine ⟨hbehind, gap, sign, x, gap₁ ++ mark ++ gap₂, _, _, _, hgap, hsign, hx, ?_, hmoves,
    hmoves', hmoves'', hat, (hmoves₁.trans hmoves₂).trans hmoves₃⟩
  intro ch hch
  have hseparates : Text.isBlank ch = true ∨ (ch == ':' || ch == '-' || ch == '–') = true := by
    rcases List.mem_append.1 hch with hch | hch
    · rcases List.mem_append.1 hch with hch | hch
      · exact .inl (hgap₁ ch hch)
      · exact .inr ((Bool.or_false _).symm.trans (hmark ch hch))
    · exact .inl (hgap₂ ch hch)
  simpa only [separates, Bool.or_eq_true, or_assoc] using hseparates

/-- What is taken for an identifier at the end of a title: blanks, an identifier, and blanks up to the
end. -/
theorem exists_moves_of_matchAt?_trailing {c : Cursor} {m : Match}
    (h : w.trailing.matchAt? c = some m) : m.stop.rest = [] ∧ ∃ gap sign x gap' c' d e,
      (∀ ch ∈ gap, Text.isBlank ch = true) ∧ IsSign sign ∧ w.Spelled x ∧
      (∀ ch ∈ gap', Text.isBlank ch = true) ∧ c.Moves gap c' ∧ c'.Moves sign d ∧
      d.atBoundary = true ∧ d.Moves x e ∧ e.Moves gap' m.stop := by
  obtain ⟨t, ht, rfl⟩ := exists_mem_ends_of_matchAt? h
  obtain ⟨_, h, hend⟩ := mem_ends_append.1 ht
  obtain ⟨_, h, hblanks'⟩ := mem_ends_append.1 h
  obtain ⟨_, h, hnumber⟩ := mem_ends_append.1 h
  obtain ⟨_, h, hstem⟩ := mem_ends_append.1 h
  obtain ⟨_, h, hboundary⟩ := mem_ends_append.1 h
  obtain ⟨_, hblanks, hsign⟩ := mem_ends_append.1 h
  obtain ⟨rfl, hat⟩ := mem_ends_boundary.1 hboundary
  obtain ⟨rfl, hrest⟩ := mem_ends_atEnd.1 hend
  obtain ⟨gap, hgap, hmoves⟩ := exists_blanks_of_mem_ends hblanks
  obtain ⟨sign, hsign, hmoves₁⟩ := exists_sign_of_mem_ends hsign
  obtain ⟨x, hx, hmoves₂⟩ := exists_spelled_of_mem_ends hstem hnumber
  obtain ⟨gap', hgap', hmoves₃⟩ := exists_blanks_of_mem_ends hblanks'
  exact ⟨hrest, gap, sign, x, gap', _, _, _, hgap, hsign, hx, hgap', hmoves, hmoves₁, hat, hmoves₂,
    hmoves₃⟩

/-- A title that does not start with a blank is taken to start with an identifier only if it does. -/
theorem matchAt?_leading_eq_none {first : Char} {rest title : List Char}
    (hword : w.word = first :: rest) (hfirst : Text.isWord first = true)
    (htitle : Stops Text.isBlank title) (hno : ¬ w.HasIdentifier (.start title)) {c : Cursor}
    (hc : c.IsIn title) : w.leading.matchAt? c = none := by
  rw [Option.eq_none_iff_forall_ne_some]
  intro m hm
  obtain ⟨hbehind, gap, sign, x, -, c', d, e, hgap, hsign, hx, -, hmoves₀, hmoves, hmoves', hat, -⟩ :=
    exists_moves_of_matchAt?_leading hm
  -- The match starts with the title, and nothing is skipped.
  obtain rfl : c = .start title := by
    refine hc.eq_of_offset_eq (Cursor.isIn_start title) ?_
    rw [hc.offset_eq, hbehind]
    rfl
  obtain rfl : gap = [] := by
    cases gap with
    | nil => rfl
    | cons ch gap =>
      have htitle' : title = ch :: gap ++ _ := hmoves₀.rest
      rw [htitle'] at htitle
      exact nomatch (htitle ch rfl).symm.trans (hgap ch List.mem_cons_self)
  rw [hmoves₀.eq_of_offset_eq hmoves₀.offset] at hmoves
  -- The word begins with a word character, so there is a boundary in front of it.
  refine hno ⟨sign, x, _, _, hsign, hx, hmoves, ?_, hmoves', hat⟩
  obtain ⟨separator, more, digits, rfl, -⟩ := hx
  have hb : (sign.reverse ++ (Cursor.start title).behind).head?.any Text.isWord = false := by
    rcases hsign with rfl | rfl <;> rfl
  rw [Cursor.atBoundary, hmoves.behind, hb, hmoves'.rest, hword]
  show (false != Text.isWord first) = true
  rw [hfirst]
  rfl

/-- A title is taken to end with an identifier only from where there is nothing but blanks in front of
it. -/
theorem matchAt?_trailing_eq_none {offset : Nat} {b u y : List Char} {last : Char}
    (hword : '@' ∉ w.word) (hlast : Text.isBlank last = false) :
    w.trailing.matchAt? ⟨offset, b, u ++ [last] ++ ' ' :: '@' :: y⟩ = none := by
  rw [Option.eq_none_iff_forall_ne_some]
  intro m hm
  obtain ⟨hend, gap, sign, x, gap', c', d, e, hgap, hsign, hx, hgap', hmoves, hmoves₁, -, hmoves₂,
    hmoves₃⟩ := exists_moves_of_matchAt?_trailing hm
  have hrest := (((hmoves.trans hmoves₁).trans hmoves₂).trans hmoves₃).rest
  rw [hend, List.append_nil] at hrest
  -- The at sign is that of the identifier, and all in front of it is blank.
  have hat : '@' ∉ x ++ gap' := by
    intro hmem
    rcases List.mem_append.1 hmem with hmem | hmem
    · exact hx.not_mem hword hmem
    · exact absurd (hgap' _ hmem) (by decide)
  have hsplit : gap ++ (sign ++ (x ++ gap')) = u ++ [last] ++ [' '] ++ '@' :: y := by
    simpa only [List.append_assoc, List.cons_append, List.nil_append] using hrest.symm
  have hmem : last ∈ gap := by
    rcases List.append_eq_append_iff.1 hsplit with ⟨more, hgap, hsign'⟩ | ⟨more, hgap, -⟩
    · obtain rfl := hsign.eq_nil_of_append hat hsign'
      rw [List.append_nil] at hgap
      rw [← hgap]
      simp
    · rw [hgap]
      simp
  exact nomatch hlast.symm.trans (hgap _ hmem)

/-- It is not taken to end with one from within a trimmed title, the last character of which is no
blank. -/
theorem matchAt?_trailing_eq_none_of_offset_lt {title z : List Char} (hword : '@' ∉ w.word)
    (htrim : Text.trim title = title) {c : Cursor} (hc : c.IsIn (title ++ ' ' :: '@' :: z))
    (hoffset : c.offset < Text.byteLength title) : w.trailing.matchAt? c = none := by
  obtain ⟨offset, behind, _⟩ := c
  obtain ⟨u, rfl, hu⟩ := hc.exists_of_append (Nat.le_of_lt hoffset)
  have htext := hu.text_eq
  rcases List.eq_nil_or_concat u with rfl | ⟨init, last, rfl⟩
  · have hend := hu.offset_eq
    rw [List.append_nil] at htext
    rw [← Text.byteLength_reverse, htext] at hend
    exact absurd hend (Nat.ne_of_lt hoffset)
  · rw [List.concat_eq_append, ← List.append_assoc] at htext
    rw [List.concat_eq_append]
    exact matchAt?_trailing_eq_none hword (Text.isBlank_of_trim_eq_concat (htrim.trans htext.symm))

/-! ## The conventions -/

/-- A title is decoded into an identifier and a text to display. -/
def Decodes (w : IdWord) (title id display : List Char) : Prop :=
  w.identifier? title = some id ∧ w.displayTitle title = display

/-- An identifier at the start of a title is taken away. -/
theorem displayTitle_of_leading {title : List Char} {m : Match}
    (h : w.leading.find? title = some m) :
    w.displayTitle title = Text.trim ((Cursor.start title).textTo m.start ++ [] ++ m.stop.rest) := by
  unfold displayTitle replaceFirst
  rw [h]
  rfl

/-- If there is none, an identifier at the end of the title is taken away. -/
theorem displayTitle_of_trailing {title : List Char} {m : Match}
    (h : w.leading.find? title = none) (h' : w.trailing.find? title = some m) :
    w.displayTitle title = Text.trim ((Cursor.start title).textTo m.start ++ [] ++ m.stop.rest) := by
  unfold displayTitle replaceFirst
  rw [h, h']
  rfl

section
variable {first : Char} {rest digits title : List Char} (hword : w.word = first :: rest)
  (hfirst : Text.isWord first = true) (hne : digits ≠ [])
  (hdigits : ∀ ch ∈ digits, Text.isAsciiDigit ch = true) (htrim : Text.trim title = title)

/-- A trimmed title does not start with a blank. -/
theorem stops_isBlank_of_trim_eq (htrim : Text.trim title = title) : Stops Text.isBlank title := by
  cases title with
  | nil => exact fun _ h => nomatch h
  | cons ch title =>
    rintro _ hch
    obtain rfl := Option.some.inj hch
    exact Text.isBlank_of_trim_eq_cons htrim

include hword hfirst hne hdigits

/-- Behind a title that has no identifier of its own, one with an at sign is found. -/
theorem identifier?_of_trailing (hat : '@' ∉ w.word) (hno : w.identifier? title = none) :
    w.identifier? (title ++ ' ' :: '@' :: (w.word ++ '-' :: digits)) =
      some (w.word ++ '-' :: digits) := by
  set id := w.word ++ '-' :: digits with hid
  obtain ⟨m, hm, hgroup⟩ := exists_matchAt?_pattern hword hfirst (.inl rfl) hne hdigits (.inl rfl)
    (b := ' ' :: title.reverse) (z := []) (fun ch hch => Option.some.inj hch ▸ by decide)
    (fun _ h => nomatch h) (fun _ h => nomatch h) (Text.byteLength title + 1)
  have hc : Cursor.IsIn (title ++ ' ' :: '@' :: id) ⟨Text.byteLength title + 1,
      ' ' :: title.reverse, ['@'] ++ (w.word ++ ['-']) ++ (digits ++ [])⟩ := by
    refine ⟨by simp [hid], ?_⟩
    rw [Text.byteLength, Text.byteLength_reverse, Nat.add_comm]
    rfl
  -- An earlier match would be an identifier of the title.
  have hfind : w.pattern.find? (title ++ ' ' :: '@' :: id) = some m := by
    refine find?_eq_some_of_first hc (by simp) hm fun d hd hlt => ?_
    have hearlier := not_hasIdentifier_of_offset_le hat hno hd (Nat.le_of_lt_succ hlt)
    cases hd' : w.pattern.matchAt? d with
    | none => rfl
    | some m' => exact absurd (hasIdentifier_of_matchAt? hd') hearlier
  rw [identifier?, hfind, Option.bind_some, hgroup]
  rfl

include htrim

/-- An identifier in front of a title, with a mark and blanks in between. -/
theorem decodes_of_leading {separator mark : Char} {before : List Char}
    (hvisible : Text.isBlank first = false) (hseparator : separator = '-' ∨ separator = ':')
    (hbefore : before = [' '] ∨ before = []) (hmark : mark = ':' ∨ mark = '-') :
    w.Decodes (w.word ++ [separator] ++ digits ++ before ++ [mark] ++ [' '] ++ title)
      (w.word ++ '-' :: digits) title := by
  set text := w.word ++ [separator] ++ digits ++ before ++ [mark] ++ [' '] ++ title with htext
  have hne' : text ≠ [] := by
    rw [htext, hword]
    exact List.cons_ne_nil _ _
  constructor
  · obtain ⟨m, hm, hgroup⟩ := exists_matchAt?_pattern hword hfirst hseparator hne hdigits (.inr rfl)
      (b := []) (z := before ++ ([mark] ++ ([' '] ++ title))) (fun _ h => nomatch h)
      (stops_separation hbefore hmark (by decide) (by decide) (by decide))
      (stops_separation hbefore hmark (by decide) (by decide) (by decide)) 0
    have htext' : [] ++ (w.word ++ [separator]) ++
        (digits ++ (before ++ ([mark] ++ ([' '] ++ title)))) = text := by
      rw [htext]
      simp only [List.append_assoc, List.nil_append]
    rw [htext'] at hm
    rw [identifier?, find?_eq_some_of_start hne' hm, Option.bind_some, hgroup]
    rfl
  · have hm := (prefers_leading hword hfirst hseparator hne hdigits hvisible hbefore hmark
      (stops_isBlank_of_trim_eq htrim)).matchAt?_eq 0
    rw [displayTitle_of_leading (find?_eq_some_of_start hne' hm)]
    exact (congrArg (fun skipped => Text.trim (skipped ++ [] ++ title))
      (Cursor.Moves.refl (.start text)).textTo).trans htrim

/-- An identifier with an at sign behind a title that has none of its own. -/
theorem decodes_of_trailing (hat : '@' ∉ w.word) (htitle : title ≠ [])
    (hno : w.identifier? title = none) :
    w.Decodes (title ++ ' ' :: '@' :: (w.word ++ '-' :: digits)) (w.word ++ '-' :: digits) title := by
  refine ⟨identifier?_of_trailing hword hfirst hne hdigits hat hno, ?_⟩
  set id := w.word ++ '-' :: digits with hid
  have hstops : Stops Text.isBlank (title ++ ' ' :: '@' :: id) := by
    obtain ⟨ch, more, rfl⟩ := List.exists_cons_of_ne_nil htitle
    exact fun _ hch => stops_isBlank_of_trim_eq htrim _ hch
  have hstart := not_hasIdentifier_of_offset_le hat hno (z := id) (Cursor.isIn_start _)
    (Nat.zero_le _)
  have hleading : w.leading.find? (title ++ ' ' :: '@' :: id) = none :=
    find?_eq_none_iff.2 fun c hc _ => matchAt?_leading_eq_none hword hfirst hstops hstart hc
  have hm := (prefers_trailing (b := title.reverse) hword hfirst (.inl rfl) hne
    hdigits).matchAt?_eq (Text.byteLength title)
  have hc : Cursor.IsIn (title ++ ' ' :: '@' :: id) ⟨Text.byteLength title, title.reverse,
      [' '] ++ ['@'] ++ (w.word ++ ['-']) ++ digits ++ []⟩ :=
    ⟨by simp [hid], (Text.byteLength_reverse title).symm⟩
  have htrailing := find?_eq_some_of_first hc (by simp) hm fun d hd hlt =>
    matchAt?_trailing_eq_none_of_offset_lt hat htrim hd hlt
  rw [displayTitle_of_trailing hleading htrailing, hc.moves_start.textTo, List.reverse_reverse,
    List.append_nil, List.append_nil]
  exact htrim

end

end IdWord

/-- The conventions are decoded exactly. Let a word begin with a word character and have no at sign,
and let a title be trimmed: where the word, a hyphen and digits stand in front of a colon and the
title, or the word, a colon and digits in front of a hyphen and the title, or the first of these behind
an at sign at the end of a title that is not empty and has no identifier of its own, the identifier
is the word, a hyphen and the digits, and the title is displayed. -/
theorem decodes_conventions {text rest digits title : List Char} {first : Char}
    (htext : Text.trim text = first :: rest) (hfirst : Text.isWord first = true)
    (hat : '@' ∉ Text.trim text) (hne : digits ≠ [])
    (hdigits : ∀ ch ∈ digits, Text.isAsciiDigit ch = true) (htrim : Text.trim title = title) :
    let w := IdWord.ofText text
    let id := w.word ++ '-' :: digits
    w.Decodes (id ++ ':' :: ' ' :: title) id title ∧
      w.Decodes (w.word ++ ':' :: digits ++ ' ' :: '-' :: ' ' :: title) id title ∧
      (title ≠ [] → w.identifier? title = none → w.Decodes (title ++ ' ' :: '@' :: id) id title) := by
  intro w id
  have hvisible := Text.isBlank_of_trim_eq_cons htext
  refine ⟨?_, ?_, ?_⟩
  · have h := IdWord.decodes_of_leading (w := w) htext hfirst hne hdigits htrim hvisible (.inl rfl)
      (.inr rfl) (.inl rfl)
    simpa [id] using h
  · have h := IdWord.decodes_of_leading (w := w) htext hfirst hne hdigits htrim hvisible (.inr rfl)
      (.inl rfl) (.inr rfl)
    simpa [id] using h
  · exact fun htitle hno =>
      IdWord.decodes_of_trailing htext hfirst hne hdigits htrim hat htitle hno

/-- A title that has pieces of an identifier, but none of its own, for a word with blanks around it. -/
theorem decodes_conventions_pieces :
    let text := " TC ".toList
    let w := IdWord.ofText text
    let title := "TC- 1a: 7 - TC".toList
    Text.trim text = "TC".toList ∧ Text.isWord 'T' = true ∧ '@' ∉ Text.trim text ∧
      (∀ ch ∈ "12".toList, Text.isAsciiDigit ch = true) ∧ Text.trim title = title ∧
      w.identifier? title = none ∧
      w.Decodes "TC-12: TC- 1a: 7 - TC".toList "TC-12".toList title ∧
      w.Decodes "TC:12 - TC- 1a: 7 - TC".toList "TC-12".toList title ∧
      w.Decodes "TC- 1a: 7 - TC @TC-12".toList "TC-12".toList title := by
  intro text w title
  have htext : Text.trim text = 'T' :: ['C'] := by decide +kernel
  have hfirst : Text.isWord 'T' = true := by decide
  have hat : '@' ∉ Text.trim text := by decide +kernel
  have hdigits : ∀ ch ∈ "12".toList, Text.isAsciiDigit ch = true :=
    List.all_eq_true.1 (by decide +kernel)
  have htrim : Text.trim title = title := by decide +kernel
  have hno : w.identifier? title = none := by decide +kernel
  obtain ⟨h, h', h''⟩ := decodes_conventions htext hfirst hat (by decide +kernel) hdigits htrim
  exact ⟨htext, hfirst, hat, hdigits, htrim, hno, h, h', h'' (by decide +kernel) hno⟩

end ManifestSync.Scan
