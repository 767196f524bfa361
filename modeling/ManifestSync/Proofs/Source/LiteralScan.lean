import Mathlib.Data.List.Find
import Mathlib.Data.List.TakeWhile
import ManifestSync.Proofs.Source.Extent
import ManifestSync.Proofs.Source.Literal
import ManifestSync.Proofs.Text.Decoding

/-!
# The literals of a text

`literals` are the string literals of a text, each with its delimiters: the segments that are
literals. Those in front of the first line comment (`leadingLiterals`) can be read off without
looking ahead. A `Lex` goes over the text once, remembers whether a slash or a star came just before,
and puts together the literal that is open. Since it never looks ahead, going over a text is going
over its parts one after the other (`Lex.literals_append`), whatever stands behind them.

`leadingLiterals_eq` says that what it puts together are the leading literals. The bytes are compared
first, segment by segment (`literals_eq_leading`). A character is then one step of a lexer over
characters and, for a lexer over bytes, as many as it has bytes, of which only the first can mean
anything (`literals_utf8`).
-/

namespace ManifestSync.Source

open Text (utf8)

/-! ## Lexers -/

/-- What a byte or a character is to a lexer. -/
inductive Mark where
  | slash
  | star
  | quote (q : Quote)
  | backslash
  | lineFeed
  | other
  deriving DecidableEq, Repr

namespace Mark

/-- The byte of a delimiter, a backslash or a line feed. -/
def byte? : Mark → Option UInt8
  | slash => some Source.slash
  | star => some Source.star
  | quote q => some q.byte
  | backslash => some Source.backslash
  | lineFeed => some Source.lineFeed
  | other => none

/-- The character of a delimiter, a backslash or a line feed. -/
def char? (m : Mark) : Option Char := m.byte?.map fun b => Char.ofNat b.toNat

/-- All marks with a byte. -/
def all : List Mark :=
  [.slash, .star, .quote .single, .quote .double, .quote .template, .backslash, .lineFeed]

/-- What a byte is to a lexer. -/
def ofByte (b : UInt8) : Mark := (all.find? (·.byte? == some b)).getD .other

/-- What a character is to a lexer. -/
def ofChar (c : Char) : Mark := (all.find? (·.char? == some c)).getD .other

/-- The byte of a mark is one of ASCII. -/
theorem byte?_lt (m : Mark) {b : UInt8} (h : m.byte? = some b) : b.toNat < 128 := by
  cases m with
  | quote q =>
    obtain rfl := Option.some.inj h
    exact q.byte_lt
  | other => exact nomatch h
  | _ =>
    obtain rfl := Option.some.inj h
    decide

/-- Only the byte of a mark has it. -/
theorem ofByte_eq_iff {m : Mark} {b b' : UInt8} (h : m.byte? = some b') :
    ofByte b = m ↔ b = b' := by
  constructor
  · intro hmark
    unfold ofByte at hmark
    cases hfind : all.find? (·.byte? == some b) with
    | none =>
      rw [hfind] at hmark
      exact nomatch (congrArg byte? hmark).trans h
    | some m' =>
      rw [hfind] at hmark
      obtain rfl : m' = m := hmark
      have hbyte := List.find?_some hfind
      exact Option.some.inj ((beq_iff_eq.1 hbyte).symm.trans h)
  · rintro rfl
    cases m with
    | quote q =>
      obtain rfl := Option.some.inj h
      cases q <;> rfl
    | other => exact nomatch h
    | _ =>
      obtain rfl := Option.some.inj h
      rfl

/-- A byte without a mark is that of none. -/
theorem ofByte_eq_other {b : UInt8} (h : ∀ m : Mark, m.byte? ≠ some b) : ofByte b = .other := by
  unfold ofByte
  rw [List.find?_eq_none.2 fun m _ => by simpa using h m]
  rfl

/-- Every byte of a character has the mark of the character. -/
theorem ofByte_of_mem {c : Char} {b : UInt8} (h : b ∈ String.utf8EncodeChar c) :
    ofByte b = ofChar c := by
  unfold ofByte ofChar
  congr 1
  refine List.find?_congr fun m _ => ?_
  unfold char?
  cases hbyte : m.byte? with
  | none => rfl
  | some b' =>
    have hlt := m.byte?_lt hbyte
    rw [Option.map_some, Bool.eq_iff_iff, beq_iff_eq, beq_iff_eq, Option.some_inj, Option.some_inj]
    constructor
    · rintro rfl
      exact (Text.eq_ofNat_of_mem_utf8EncodeChar h hlt).symm
    · rintro rfl
      rw [Text.utf8EncodeChar_ofNat hlt, List.mem_singleton] at h
      exact h.symm

/-- Only the character of a mark has it. -/
theorem ofChar_eq_iff {m : Mark} {c c' : Char} (h : m.char? = some c') : ofChar c = m ↔ c = c' := by
  obtain ⟨b, hb, rfl⟩ := Option.map_eq_some_iff.1 h
  have hlt := m.byte?_lt hb
  constructor
  · intro hmark
    obtain ⟨b', more, hcons⟩ := List.exists_cons_of_ne_nil (String.utf8EncodeChar_ne_nil (c := c))
    have hmem : b' ∈ String.utf8EncodeChar c := hcons ▸ List.mem_cons_self
    obtain rfl := (ofByte_eq_iff hb).1 ((ofByte_of_mem hmem).trans hmark)
    exact Text.eq_ofNat_of_mem_utf8EncodeChar hmem hlt
  · rintro rfl
    have hmem : b ∈ String.utf8EncodeChar (Char.ofNat b.toNat) := by
      rw [Text.utf8EncodeChar_ofNat hlt]
      exact List.mem_singleton_self b
    rw [← ofByte_of_mem hmem]
    exact (ofByte_eq_iff hb).2 rfl

end Mark

/-- Where a lexer stands in a text, up to the first line comment of the text. -/
inductive Lex (α : Type) where
  /-- In code; `slash` tells that a slash came just before which can open a comment. -/
  | code (slash : Bool)
  /-- In a literal of which `opened` has been read; `escaped` tells that a backslash came just
  before. -/
  | literal (quote : Quote) (escaped : Bool) (opened : List α)
  /-- In a block comment; `star` tells that a star came just before which can close it. -/
  | comment (star : Bool)
  /-- Behind the slashes of a line comment, where the lexer stays. -/
  | done
  deriving DecidableEq, Repr

namespace Lex

variable {α : Type}

/-- What one more symbol does: the literal that it completes, if any, and the state behind it. -/
def step (l : Lex α) (m : Mark) (a : α) : List (List α) × Lex α :=
  match l with
  | .code slash =>
    match m with
    | .slash => ([], if slash then .done else .code true)
    | .star => ([], if slash then .comment false else .code false)
    | .quote q => ([], .literal q false [a])
    | _ => ([], .code false)
  | .literal q true opened => ([], .literal q false (opened ++ [a]))
  | .literal q false opened =>
    if m = .backslash then ([], .literal q true (opened ++ [a]))
    else if m = .quote q then ([opened ++ [a]], .code false)
    else if m = .lineFeed ∧ q ≠ .template then ([opened], .code false)
    else ([], .literal q false (opened ++ [a]))
  | .comment star =>
    match m with
    | .slash => ([], if star then .code false else .comment false)
    | .star => ([], .comment true)
    | _ => ([], .comment false)
  | .done => ([], .done)

section
variable (mark : α → Mark)

/-- The state behind a text. -/
def after (l : Lex α) (text : List α) : Lex α :=
  text.foldl (fun l a => (l.step (mark a) a).2) l

/-- The literals that end within a text. -/
def finished (l : Lex α) : List α → List (List α)
  | [] => []
  | a :: rest => (l.step (mark a) a).1 ++ (l.step (mark a) a).2.finished rest

/-- The literal that is open, if any. -/
def pending : Lex α → List (List α)
  | .literal _ _ opened => [opened]
  | _ => []

/-- The literals that end within a text or with it. -/
def literals (l : Lex α) (text : List α) : List (List α) :=
  l.finished mark text ++ (l.after mark text).pending

variable {mark}

@[simp]
theorem after_nil (l : Lex α) : l.after mark [] = l := rfl

@[simp]
theorem after_cons (l : Lex α) (a : α) (rest : List α) :
    l.after mark (a :: rest) = (l.step (mark a) a).2.after mark rest := rfl

@[simp]
theorem finished_nil (l : Lex α) : l.finished mark [] = [] := rfl

@[simp]
theorem finished_cons (l : Lex α) (a : α) (rest : List α) : l.finished mark (a :: rest) =
    (l.step (mark a) a).1 ++ (l.step (mark a) a).2.finished mark rest := rfl

/-- A lexer goes over two texts one after the other. -/
theorem after_append (l : Lex α) (u v : List α) :
    l.after mark (u ++ v) = (l.after mark u).after mark v := List.foldl_append

/-- The literals of two texts, one behind the other. -/
theorem finished_append (l : Lex α) (u v : List α) :
    l.finished mark (u ++ v) = l.finished mark u ++ (l.after mark u).finished mark v := by
  induction u generalizing l with
  | nil => rfl
  | cons a u ih => rw [List.cons_append, finished_cons, finished_cons, ih, after_cons,
      List.append_assoc]

/-- The literals of a text are those that end within its first part and those of the rest. -/
theorem literals_append (l : Lex α) (u v : List α) :
    l.literals mark (u ++ v) = l.finished mark u ++ (l.after mark u).literals mark v := by
  rw [literals, finished_append, after_append, List.append_assoc, literals]

/-- The literals of a text, from its first symbol on. -/
theorem literals_cons (l : Lex α) (a : α) (rest : List α) : l.literals mark (a :: rest) =
    (l.step (mark a) a).1 ++ (l.step (mark a) a).2.literals mark rest := by
  rw [literals, finished_cons, after_cons, List.append_assoc, literals]

/-- Behind a line comment no literal is seen. -/
@[simp]
theorem literals_done (text : List α) : (Lex.done : Lex α).literals mark text = [] := by
  induction text with
  | nil => rfl
  | cons a rest ih => rw [literals_cons]; exact ih

/-! ### What does not matter -/

/-- A lexer is in a literal. -/
def InLiteral : Lex α → Prop
  | .literal .. => True
  | _ => False

/-- A symbol completes the delimiter of a comment of which the first part came just before. -/
def Completes (l : Lex α) (m : Mark) : Prop :=
  (l = .code true ∧ (m = .slash ∨ m = .star)) ∨ (l = .comment true ∧ m = .slash)

/-- The state behind some symbols that are no delimiters. -/
def passed (l : Lex α) (w : List α) : Lex α :=
  match l with
  | .code _ => .code false
  | .literal q _ opened => .literal q false (opened ++ w)
  | .comment _ => .comment false
  | .done => .done

/-- A lexer goes over a symbol without a mark. -/
theorem step_other (l : Lex α) (a : α) : l.step .other a = ([], l.passed [a]) := by
  cases l with
  | literal q escaped opened => cases escaped <;> rfl
  | _ => rfl

/-- A lexer goes over symbols that are no delimiters; a line feed is none outside of literals. -/
theorem after_plain {l : Lex α} {w : List α} (hne : w ≠ [])
    (hw : ∀ a ∈ w, mark a = .other ∨ mark a = .lineFeed ∧ ¬ l.InLiteral) :
    l.finished mark w = [] ∧ l.after mark w = l.passed w := by
  induction w generalizing l with
  | nil => exact absurd rfl hne
  | cons a w ih =>
    obtain ⟨ha, hw⟩ := List.forall_mem_cons.1 hw
    have hstep : l.step (mark a) a = ([], l.passed [a]) := by
      rcases ha with ha | ⟨ha, hl⟩
      · rw [ha, step_other]
      · rw [ha]
        cases l with
        | literal => exact absurd trivial hl
        | _ => rfl
    rw [finished_cons, after_cons, hstep]
    by_cases hnil : w = []
    · subst hnil
      exact ⟨rfl, rfl⟩
    · have hliteral : (l.passed [a]).InLiteral → l.InLiteral := by cases l <;> exact id
      obtain ⟨hfinished, hafter⟩ := ih (l := l.passed [a]) hnil fun b hb =>
        (hw b hb).imp_right (And.imp_right (mt hliteral))
      refine ⟨hfinished, hafter.trans ?_⟩
      cases l with
      | literal q escaped opened => exact congrArg (literal q false) (List.append_assoc ..)
      | _ => rfl

/-- Outside of literals, what is gone over does not matter where nothing completes a delimiter. -/
theorem literals_passed {l : Lex α} (hl : ¬ l.InLiteral) (w : List α) {text : List α}
    (h : ∀ a ∈ text.head?, ¬ l.Completes (mark a)) :
    (l.passed w).literals mark text = l.literals mark text := by
  cases text with
  | nil => cases l <;> first | rfl | exact absurd trivial hl
  | cons a rest =>
    have hnot := h a rfl
    rw [literals_cons, literals_cons]
    cases l with
    | code slash => cases slash <;> cases hm : mark a <;> simp_all [Completes, passed, step]
    | literal => exact absurd trivial hl
    | comment star => cases star <;> cases hm : mark a <;> simp_all [Completes, passed, step]
    | done => rfl

/-- Outside of literals, symbols that are no delimiters can come in the place of others, or none if
nothing completes a delimiter there. -/
theorem literals_replace {l : Lex α} (hl : ¬ l.InLiteral) {a b text : List α} (hne : a ≠ [])
    (ha : ∀ c ∈ a, mark c = .other ∨ mark c = .lineFeed)
    (hb : ∀ c ∈ b, mark c = .other ∨ mark c = .lineFeed)
    (h : b = [] → ∀ c ∈ text.head?, ¬ l.Completes (mark c)) :
    l.literals mark (a ++ text) = l.literals mark (b ++ text) := by
  obtain ⟨hfinished, hafter⟩ := after_plain (l := l) hne fun c hc =>
    (ha c hc).imp_right fun hfeed => ⟨hfeed, hl⟩
  rw [literals_append, hfinished, hafter, List.nil_append]
  by_cases hnil : b = []
  · rw [hnil]
    exact literals_passed hl a (h hnil)
  · obtain ⟨hfinished', hafter'⟩ := after_plain (l := l) hnil fun c hc =>
      (hb c hc).imp_right fun hfeed => ⟨hfeed, hl⟩
    rw [literals_append, hfinished', hafter', List.nil_append]
    cases l with
    | literal => exact absurd trivial hl
    | _ => rfl

end

end Lex

/-! ## Segments -/

/-- The bytes of the literals in front of the first line comment. -/
def leadingBytes (segs : List Segment) : List (List UInt8) :=
  ((segs.takeWhile (·.region ≠ .lineComment)).filter (·.region.isString)).map (·.bytes)

/-- The leading literals, from the first segment on. -/
theorem leadingBytes_cons (s : Segment) (segs : List Segment) : leadingBytes (s :: segs) =
    if s.region = .lineComment then []
    else (if s.region.isString then [s.bytes] else []) ++ leadingBytes segs := by
  unfold leadingBytes
  split_ifs with hline hstring
  · rw [List.takeWhile_cons_of_neg (by simpa using hline)]
    rfl
  · rw [List.takeWhile_cons_of_pos (by simpa using hline), List.filter_cons, if_pos hstring]
    rfl
  · rw [List.takeWhile_cons_of_pos (by simpa using hline), List.filter_cons, if_neg hstring]
    rfl

namespace Lex

/-- A lexer in a block comment goes on in code behind it. -/
theorem literals_comment (bytes : List UInt8) :
    (comment false).literals Mark.ofByte bytes =
      (code false).literals Mark.ofByte (bytes.drop (blockRest bytes).length) := by
  induction bytes with
  | nil => rfl
  | cons b rest ih =>
    rw [blockRest]
    split_ifs with hclose
    · obtain ⟨rfl, hslash⟩ := hclose
      obtain ⟨tail, rfl⟩ := List.head?_eq_some_iff.1 hslash
      rfl
    · rw [List.length_cons, List.drop_succ_cons, ← ih, literals_cons]
      -- Behind a star that no slash follows the lexer is where it would be without the star.
      by_cases hstar : b = star
      · subst hstar
        show (comment true).literals Mark.ofByte rest = _
        refine (literals_passed (l := comment true) id [star] ?_).symm
        rintro a ha (⟨h, -⟩ | ⟨-, h⟩)
        · cases h
        · rw [(Mark.ofByte_eq_iff rfl).1 h] at ha
          exact hclose ⟨rfl, ha⟩
      · have hmark : Mark.ofByte b ≠ .star := fun h => hstar ((Mark.ofByte_eq_iff rfl).1 h)
        cases hb : Mark.ofByte b <;> first | exact absurd hb hmark | rfl

/-- A byte that no backslash stands before, in a literal. -/
theorem step_literal (q : Quote) (opened : List UInt8) (b : UInt8) :
    (literal q false opened).step (Mark.ofByte b) b =
      if b = backslash then ([], literal q true (opened ++ [b]))
      else if b = q.byte then ([opened ++ [b]], code false)
      else if b = lineFeed ∧ q ≠ .template then ([opened], code false)
      else ([], literal q false (opened ++ [b])) := by
  have hbackslash : Mark.ofByte b = .backslash ↔ b = backslash := Mark.ofByte_eq_iff rfl
  have hquote : Mark.ofByte b = .quote q ↔ b = q.byte := Mark.ofByte_eq_iff rfl
  have hline : Mark.ofByte b = .lineFeed ↔ b = lineFeed := Mark.ofByte_eq_iff rfl
  simp only [step, hbackslash, hquote, hline]

/-- A lexer goes over a byte of a literal that is no backslash, and what follows it. -/
theorem literals_literal_cons {q : Quote} {b : UInt8} {rest : List UInt8} (hescape : b ≠ backslash)
    (h : ∀ opened, (literal q false opened).literals Mark.ofByte rest =
      (opened ++ literalRest q rest) ::
        (code false).literals Mark.ofByte (rest.drop (literalRest q rest).length))
    (opened : List UInt8) : (literal q false opened).literals Mark.ofByte (b :: rest) =
      (opened ++ literalRest q (b :: rest)) :: (code false).literals Mark.ofByte
        ((b :: rest).drop (literalRest q (b :: rest)).length) := by
  rw [literals_cons, step_literal, if_neg hescape]
  split_ifs with hdelimiter hline
  · subst hdelimiter
    rw [literalRest_delimiter]
    rfl
  · obtain ⟨rfl, hq⟩ := hline
    rw [literalRest_lineFeed hq, List.append_nil]
    rfl
  · rw [h, literalRest_cons hescape hdelimiter ((not_and_or.1 hline).symm.imp_left not_not.1),
      List.append_assoc]
    rfl

/-- A lexer in a literal puts it together and goes on in code behind it. -/
theorem literals_literal (q : Quote) (opened bytes : List UInt8) :
    (literal q false opened).literals Mark.ofByte bytes = (opened ++ literalRest q bytes) ::
      (code false).literals Mark.ofByte (bytes.drop (literalRest q bytes).length) := by
  have hnil : ∀ opened, (literal q false opened).literals Mark.ofByte [] =
      (opened ++ literalRest q []) :: (code false).literals Mark.ofByte
        (([] : List UInt8).drop (literalRest q []).length) := by
    intro opened
    cases q <;> exact congrArg (· :: []) (List.append_nil opened).symm
  have hstep : ∀ opened : List UInt8, (literal q false opened).step (Mark.ofByte backslash)
      backslash = ([], literal q true (opened ++ [backslash])) := fun _ => rfl
  -- The cases are those of the units: an escape is gone over in two steps, any other byte in one.
  fun_induction units bytes generalizing opened with
  | case1 => exact hnil opened
  | case2 b =>
    by_cases hb : b = backslash
    · subst hb
      rw [literalRest_backslash, literals_cons, hstep]
      rfl
    · exact literals_literal_cons hb hnil opened
  | case3 c rest ih =>
    rw [literalRest_escape, literals_cons, hstep, List.nil_append, literals_cons]
    show (literal q false _).literals Mark.ofByte rest = _
    rw [ih, List.append_assoc, List.append_assoc]
    rfl
  | case4 b c rest hb ih => exact literals_literal_cons hb ih opened

/-- A byte in code that opens nothing does not matter. -/
theorem literals_code {b : UInt8} {rest : List UInt8}
    (hline : ¬ (b = slash ∧ rest.head? = some slash))
    (hblock : ¬ (b = slash ∧ rest.head? = some star)) (hquote : Quote.ofByte? b = none) :
    (code false).literals Mark.ofByte (b :: rest) = (code false).literals Mark.ofByte rest := by
  rw [literals_cons]
  -- Behind a slash that opens nothing the lexer is where it would be without the slash.
  by_cases hslash : b = slash
  · subst hslash
    show (code true).literals Mark.ofByte rest = (code false).literals Mark.ofByte rest
    refine (literals_passed (l := code true) id [slash] ?_).symm
    rintro a ha (⟨-, h | h⟩ | ⟨h, -⟩)
    · rw [(Mark.ofByte_eq_iff rfl).1 h] at ha
      exact hline ⟨rfl, ha⟩
    · rw [(Mark.ofByte_eq_iff rfl).1 h] at ha
      exact hblock ⟨rfl, ha⟩
    · cases h
  · have hnot : Mark.ofByte b ≠ .slash := fun h => hslash ((Mark.ofByte_eq_iff rfl).1 h)
    cases hb : Mark.ofByte b with
    | slash => exact absurd hb hnot
    | quote q =>
      rw [(Mark.ofByte_eq_iff rfl).1 hb] at hquote
      cases q <;> cases hquote
    | _ => rfl

/-- A lexer in code goes over the segment that starts there: it stops at a line comment, puts
together a literal and passes over anything else. -/
theorem literals_opening (b : UInt8) (rest : List UInt8) :
    (code false).literals Mark.ofByte (b :: rest) =
      if (opening b rest).1 = .lineComment then []
      else (if (opening b rest).1.isString then [b :: (opening b rest).2] else []) ++
        (code false).literals Mark.ofByte (rest.drop (opening b rest).2.length) := by
  by_cases hline : b = slash ∧ rest.head? = some slash
  · have hopening : opening b rest = (.lineComment, lineRest rest) := by rw [opening, if_pos hline]
    obtain ⟨rfl, hslash⟩ := hline
    obtain ⟨tail, rfl⟩ := List.head?_eq_some_iff.1 hslash
    rw [hopening]
    exact literals_done tail
  by_cases hblock : b = slash ∧ rest.head? = some star
  · have hopening : opening b rest = (.blockComment, star :: blockRest rest.tail) := by
      rw [opening, if_neg hline, if_pos hblock]
    obtain ⟨rfl, hstar⟩ := hblock
    obtain ⟨tail, rfl⟩ := List.head?_eq_some_iff.1 hstar
    rw [hopening]
    exact literals_comment tail
  cases hquote : Quote.ofByte? b with
  | some q =>
    have hopening : opening b rest = (q.region, literalRest q rest) := by
      simp only [opening, if_neg hline, if_neg hblock, hquote]
    have hb : b = q.byte := by
      unfold Quote.ofByte? at hquote
      split_ifs at hquote with h₁ h₂ h₃ <;> cases hquote <;> assumption
    have hmark : Mark.ofByte b = .quote q := (Mark.ofByte_eq_iff rfl).2 hb
    have hregion : q.region ≠ .lineComment ∧ q.region.isString = true := by cases q <;> decide
    rw [literals_cons, hopening, if_neg hregion.1, if_pos hregion.2, hmark]
    exact literals_literal q [b] rest
  | none =>
    have hopening : opening b rest = (.code, []) := by
      simp only [opening, if_neg hline, if_neg hblock, hquote]
    rw [hopening, literals_code hline hblock hquote]
    rfl

/-- The leading literals of bytes are what a lexer puts together. -/
theorem literals_eq_leading (offset : Nat) (bytes : List UInt8) :
    (code false).literals Mark.ofByte bytes = leadingBytes (segments offset bytes) := by
  fun_induction segments offset bytes with
  | case1 => rfl
  | case2 offset b rest more ih => rw [literals_opening, ih, leadingBytes_cons]

/-! ## Characters -/

/-- A lexer over the bytes of the characters that another one goes over. -/
def toBytes : Lex Char → Lex UInt8
  | code slash => code slash
  | literal q escaped opened => literal q escaped (utf8 opened)
  | comment star => comment star
  | done => done

/-- The bytes of a character are gone over as the character is. -/
theorem toBytes_passed (l : Lex Char) (c : Char) :
    l.toBytes.passed (String.utf8EncodeChar c) = (l.passed [c]).toBytes := by
  cases l with
  | literal q escaped opened =>
    refine congrArg (literal q false) ?_
    rw [Text.utf8_append, Text.utf8_cons]
    exact congrArg _ (List.append_nil _).symm
  | _ => rfl

/-- A character is one step for a lexer over characters. -/
theorem step_toBytes (l : Lex Char) (c : Char) :
    l.toBytes.finished Mark.ofByte (String.utf8EncodeChar c) =
        (l.step (Mark.ofChar c) c).1.map utf8 ∧
      l.toBytes.after Mark.ofByte (String.utf8EncodeChar c) =
        (l.step (Mark.ofChar c) c).2.toBytes := by
  have hmark : ∀ b ∈ String.utf8EncodeChar c, Mark.ofByte b = Mark.ofChar c :=
    fun b => Mark.ofByte_of_mem
  rcases Text.ascii_or_forall_le c with ⟨-, hbytes⟩ | ⟨-, hbytes⟩
  · -- A character of ASCII is one byte.
    have hutf8 : utf8 [c] = [UInt8.ofNat c.toNat] := by
      rw [Text.utf8_cons, hbytes]
      rfl
    rw [hbytes] at hmark ⊢
    rw [finished_cons, after_cons, hmark _ (List.mem_singleton_self _)]
    have hopened (opened : List Char) : utf8 (opened ++ [c]) =
        utf8 opened ++ [UInt8.ofNat c.toNat] := by rw [Text.utf8_append, hutf8]
    cases l with
    | literal q escaped opened =>
      cases escaped with
      | true => exact ⟨rfl, congrArg (literal q false) (hopened opened).symm⟩
      | false =>
        simp only [toBytes, step, finished_nil, List.append_nil, after_nil]
        split_ifs <;> simp only [List.map_cons, List.map_nil, hopened, and_self]
    | code slash =>
      cases Mark.ofChar c with
      | quote q => exact ⟨rfl, congrArg (literal q false) hutf8.symm⟩
      | _ => cases slash <;> exact ⟨rfl, rfl⟩
    | comment star => cases Mark.ofChar c <;> cases star <;> exact ⟨rfl, rfl⟩
    | done => exact ⟨rfl, rfl⟩
  · -- No other character is a delimiter, and neither are its bytes.
    have hother : ∀ b ∈ String.utf8EncodeChar c, Mark.ofByte b = .other := by
      intro b hb
      refine Mark.ofByte_eq_other fun m h => ?_
      have hlow := hbytes b hb
      have hascii := m.byte?_lt h
      omega
    obtain ⟨b, more, hcons⟩ := List.exists_cons_of_ne_nil (String.utf8EncodeChar_ne_nil (c := c))
    have hchar : Mark.ofChar c = .other := by
      have hb : b ∈ String.utf8EncodeChar c := hcons ▸ List.mem_cons_self
      rw [← hmark b hb, hother b hb]
    obtain ⟨hfinished, hafter⟩ := after_plain (l := l.toBytes) String.utf8EncodeChar_ne_nil
      fun b hb => .inl (hother b hb)
    rw [hfinished, hafter, hchar, step_other]
    exact ⟨rfl, l.toBytes_passed c⟩

/-- The literals of the bytes of a text are the bytes of its literals. -/
theorem literals_utf8 (l : Lex Char) (text : List Char) :
    l.toBytes.literals Mark.ofByte (utf8 text) = (l.literals Mark.ofChar text).map utf8 := by
  induction text generalizing l with
  | nil => cases l <;> rfl
  | cons c text ih =>
    obtain ⟨hfinished, hafter⟩ := l.step_toBytes c
    rw [Text.utf8_cons, literals_append, hfinished, hafter, ih, literals_cons, List.map_append]

end Lex

/-! ## The literals of a text -/

/-- The texts of the literals among some segments. -/
def literalTexts (segs : List Segment) : List (List Char) :=
  (segs.filter (·.region.isString)).map fun s => Text.decodeLossy s.bytes

/-- The string literals of a text, each with its delimiters. -/
def literals (text : List Char) : List (List Char) :=
  literalTexts (segments 0 (utf8 text))

/-- The string literals in front of the first line comment of a text. -/
def leadingLiterals (text : List Char) : List (List Char) :=
  literalTexts ((segments 0 (utf8 text)).takeWhile (·.region ≠ .lineComment))

/-- The leading literals of a text are what a lexer over its characters puts together. -/
theorem leadingLiterals_eq (text : List Char) :
    leadingLiterals text = (Lex.code false).literals Mark.ofChar text := by
  have hbytes : leadingBytes (segments 0 (utf8 text)) =
      ((Lex.code false).literals Mark.ofChar text).map utf8 :=
    (Lex.literals_eq_leading 0 (utf8 text)).symm.trans (Lex.literals_utf8 (.code false) text)
  have hdecode (text : List Char) : Text.decodeLossy (utf8 text) = text := by
    rw [Text.decodeLossy, Text.decode_utf8, List.map_map]
    exact List.map_id text
  calc leadingLiterals text
      = (leadingBytes (segments 0 (utf8 text))).map Text.decodeLossy := by
        rw [leadingBytes, List.map_map]
        rfl
    _ = (Lex.code false).literals Mark.ofChar text := by
        rw [hbytes, List.map_map]
        exact (List.map_congr_left fun lit _ => hdecode lit).trans (List.map_id _)

/-- In bytes without a line feed, no literal stands behind a line comment. -/
theorem literalTexts_takeWhile {offset : Nat} {bytes : List UInt8} (h : lineFeed ∉ bytes) :
    literalTexts ((segments offset bytes).takeWhile (·.region ≠ .lineComment)) =
      literalTexts (segments offset bytes) := by
  fun_induction segments offset bytes with
  | case1 => rfl
  | case2 offset b rest more ih =>
    obtain ⟨-, hrest⟩ := not_or.1 fun hmem => h (List.mem_cons.2 hmem)
    by_cases hline : (opening b rest).1 = .lineComment
    · -- The comment runs to the end of the text.
      have hmore : more = rest := by
        show (opening b rest).2 = rest
        rw [opening_of_lineComment hline]
        exact List.takeWhile_eq_self_iff.2 fun b' hb' => decide_eq_true fun heq => hrest (heq ▸ hb')
      rw [List.takeWhile_cons_of_neg (by simpa using hline), hmore, List.drop_length, segments,
        literalTexts, literalTexts, List.filter_cons, hline]
      rfl
    · have ih := ih fun hmem => hrest (List.mem_of_mem_drop hmem)
      unfold literalTexts at ih ⊢
      rw [List.takeWhile_cons_of_pos (by simpa using hline), List.filter_cons, List.filter_cons]
      split_ifs
      · rw [List.map_cons, List.map_cons, ih]
      · exact ih

/-- In a text without a line feed, no literal stands behind a line comment. -/
theorem leadingLiterals_eq_literals {text : List Char} (h : '\n' ∉ text) :
    leadingLiterals text = literals text := by
  refine literalTexts_takeWhile fun hmem => ?_
  obtain ⟨c, hc, hb⟩ := List.mem_flatMap.1 hmem
  exact h (Text.eq_ofNat_of_mem_utf8EncodeChar hb (by decide) ▸ hc)

/-! ## Open literals -/

namespace Lex

variable {l : Lex Char} {q : Quote} {escaped : Bool} {opened u v text lit : List Char}

/-- A lexer is in a literal where it was before, or behind the delimiter that opens it. -/
theorem step_eq_literal {m : Mark} {c : Char} (h : (l.step m c).2 = literal q escaped opened) :
    (m = .quote q ∧ opened = [c] ∧ ∃ slash, l = code slash) ∨
      ∃ escaped' opened', l = literal q escaped' opened' ∧ opened = opened' ++ [c] := by
  cases l with
  | code slash => cases m <;> cases slash <;> cases h <;> exact .inl ⟨rfl, rfl, _, rfl⟩
  | literal q' escaped' opened' =>
    refine .inr ?_
    cases escaped' with
    | true =>
      cases h
      exact ⟨_, _, rfl, rfl⟩
    | false =>
      simp only [step] at h
      split_ifs at h <;> cases h <;> exact ⟨_, _, rfl, rfl⟩
  | comment star => cases m <;> cases star <;> cases h
  | done => cases h

/-- What has been read of an open literal stands at the end of the text, begins with the delimiter
and, read for itself, leads to the same state. -/
theorem exists_of_after_eq_literal
    (h : (code false).after Mark.ofChar u = literal q escaped opened) :
    (∃ u', u = u' ++ opened) ∧ (∃ tail, opened = q.char :: tail) ∧
      (code false).after Mark.ofChar opened = literal q escaped opened := by
  induction u using List.reverseRecOn generalizing q escaped opened with
  | nil => cases h
  | append_singleton u c ih =>
    rw [after_append] at h
    rcases step_eq_literal h with ⟨hmark, rfl, slash, hcode⟩ | ⟨escaped', opened', hliteral, rfl⟩
    · have hc : c = q.char := (Mark.ofChar_eq_iff rfl).1 hmark
      rw [hcode, after_cons, after_nil, hmark] at h
      refine ⟨⟨u, rfl⟩, ⟨[], by rw [hc]⟩, ?_⟩
      rw [after_cons, after_nil, hmark]
      exact h
    · obtain ⟨⟨u', rfl⟩, ⟨tail, htail⟩, hself⟩ := ih hliteral
      rw [hliteral] at h
      refine ⟨⟨u', List.append_assoc ..⟩, ⟨tail ++ [c], by rw [htail]; rfl⟩, ?_⟩
      rw [after_append, hself, h]

/-- The first literal that a lexer in a literal puts together is the one that is open. -/
theorem exists_literals_literal (q : Quote) (escaped : Bool) (opened v : List Char) :
    ∃ y z more, v = y ++ z ∧
      (literal q escaped opened).literals Mark.ofChar v = (opened ++ y) :: more := by
  induction v generalizing escaped opened with
  | nil => exact ⟨[], [], [], rfl, by rw [List.append_nil]; rfl⟩
  | cons c v ih =>
    -- Either the literal goes on behind the character, or it ends with it or in front of it.
    have hon (escaped' : Bool) : ∃ y z more, c :: v = y ++ z ∧
        (literal q escaped' (opened ++ [c])).literals Mark.ofChar v = (opened ++ y) :: more := by
      obtain ⟨y, z, more, rfl, hmore⟩ := ih escaped' (opened ++ [c])
      exact ⟨c :: y, z, more, rfl, by rw [hmore, List.append_assoc]; rfl⟩
    rw [literals_cons]
    cases escaped with
    | true => exact hon false
    | false =>
      simp only [step]
      split_ifs
      · exact hon true
      · exact ⟨[c], v, _, rfl, rfl⟩
      · exact ⟨[], c :: v, _, rfl, by rw [List.append_nil]; rfl⟩
      · exact hon false

/-- The literal that a character ends was open before it. -/
theorem exists_of_mem_step {m : Mark} {c : Char} (h : lit ∈ (l.step m c).1) :
    ∃ q escaped opened, l = literal q escaped opened ∧ (lit = opened ++ [c] ∨ lit = opened) := by
  cases l with
  | code slash => cases m <;> exact absurd h List.not_mem_nil
  | literal q escaped opened =>
    refine ⟨q, escaped, opened, rfl, ?_⟩
    cases escaped with
    | true => exact absurd h List.not_mem_nil
    | false =>
      simp only [step] at h
      split_ifs at h
      · exact absurd h List.not_mem_nil
      · exact .inl (List.mem_singleton.1 h)
      · exact .inr (List.mem_singleton.1 h)
      · exact absurd h List.not_mem_nil
  | comment star => cases m <;> exact absurd h List.not_mem_nil
  | done => exact absurd h List.not_mem_nil

/-- A literal that a lexer puts together is a part of the text that begins with a delimiter, or it is
the one that was open. -/
theorem exists_of_mem_literals (h : lit ∈ l.literals Mark.ofChar text) :
    (∃ w z q tail, text = w ++ (lit ++ z) ∧ lit = Quote.char q :: tail) ∨
      ∃ q escaped opened y z, l = literal q escaped opened ∧ lit = opened ++ y ∧ text = y ++ z := by
  induction text generalizing l with
  | nil =>
    cases l with
    | literal q escaped opened =>
      obtain rfl := List.mem_singleton.1 h
      exact .inr ⟨q, escaped, lit, [], [], rfl, (List.append_nil _).symm, rfl⟩
    | _ => exact absurd h List.not_mem_nil
  | cons c text ih =>
    rw [literals_cons] at h
    rcases List.mem_append.1 h with h | h
    · obtain ⟨q, escaped, opened, rfl, rfl | rfl⟩ := exists_of_mem_step h
      · exact .inr ⟨q, escaped, opened, [c], text, rfl, rfl, rfl⟩
      · exact .inr ⟨q, escaped, lit, [], c :: text, rfl, (List.append_nil _).symm, rfl⟩
    · rcases ih h with ⟨w, z, q, tail, rfl, hlit⟩ | ⟨q, escaped, opened, y, z, hstep, rfl, rfl⟩
      · exact .inl ⟨c :: w, z, q, tail, rfl, hlit⟩
      · rcases step_eq_literal hstep with ⟨hmark, rfl, -⟩ | ⟨escaped', opened', rfl, rfl⟩
        · exact .inl ⟨[], z, q, y, rfl, by rw [(Mark.ofChar_eq_iff rfl).1 hmark]; rfl⟩
        · exact .inr ⟨q, escaped', opened', c :: y, z, rfl, List.append_assoc .., rfl⟩

/-! ## Closed literals -/

end Lex

/-- A literal that ends with its delimiter. -/
def Closed (lit : List Char) : Prop := ∃ q raw, Body q raw ∧ lit = q.char :: (raw ++ [q.char])

/-- Characters that all stand for themselves make a closed literal. -/
theorem closed_of_all {q : Quote} {raw : List Char}
    (h : raw.all (fun c => c != q.char && c != '\\' && c != '\n') = true) :
    Closed (q.char :: (raw ++ [q.char])) :=
  ⟨q, raw, body_of_all h, rfl⟩

namespace Lex

/-- A lexer goes over a body within the literal. -/
theorem after_body {raw : List Char} (h : Body q raw) (opened : List Char) :
    (literal q false opened).after Mark.ofChar raw = literal q false (opened ++ raw) := by
  induction h generalizing opened with
  | nil => rw [List.append_nil]; rfl
  | @plain c rest hquote hescape hline _ ih =>
    have hbackslash : Mark.ofChar c ≠ .backslash := fun h => hescape ((Mark.ofChar_eq_iff rfl).1 h)
    have hdelimiter : Mark.ofChar c ≠ .quote q := fun h => hquote ((Mark.ofChar_eq_iff rfl).1 h)
    have hfeed : ¬ (Mark.ofChar c = .lineFeed ∧ q ≠ .template) := fun h =>
      hline.elim h.2 fun hc => hc ((Mark.ofChar_eq_iff rfl).1 h.1)
    rw [after_cons]
    simp only [step, if_neg hbackslash, if_neg hdelimiter, if_neg hfeed]
    rw [ih, List.append_assoc]
    rfl
  | @escape c rest _ ih =>
    show (literal q false ((opened ++ ['\\']) ++ [c])).after Mark.ofChar rest = _
    rw [ih, List.append_assoc, List.append_assoc]
    rfl

/-- A lexer goes over a closed literal and is back in code. -/
theorem after_of_closed (h : Closed lit) : (code false).after Mark.ofChar lit = code false := by
  obtain ⟨q, raw, hbody, rfl⟩ := h
  have hmark : Mark.ofChar q.char = .quote q := (Mark.ofChar_eq_iff rfl).2 rfl
  rw [after_cons, hmark]
  show (literal q false [q.char]).after Mark.ofChar (raw ++ [q.char]) = _
  rw [after_append, after_body hbody, after_cons, hmark]
  simp [step]

section
variable (hclosed : ∀ lit ∈ (code false).literals Mark.ofChar (u ++ v), Closed lit)
include hclosed

/-- A literal that is open within a text whose literals are closed goes on to a delimiter. -/
theorem exists_rest_of_closed
    (h : (code false).after Mark.ofChar u = literal q escaped opened) :
    ∃ y q' z, v = y ++ Quote.char q' :: z ∧
      opened ++ (y ++ [Quote.char q']) ∈ (code false).literals Mark.ofChar (u ++ v) := by
  obtain ⟨y, z, more, hv, hmore⟩ := exists_literals_literal q escaped opened v
  have hmem : opened ++ y ∈ (code false).literals Mark.ofChar (u ++ v) := by
    rw [literals_append, h, hmore]
    exact List.mem_append_right _ List.mem_cons_self
  have hlit := hclosed _ hmem
  have hne : y ≠ [] := by
    rintro rfl
    -- What has been read so far would be closed.
    obtain ⟨-, -, hself⟩ := exists_of_after_eq_literal h
    rw [List.append_nil] at hlit
    exact nomatch (after_of_closed hlit).symm.trans hself
  obtain ⟨q', raw, -, hend⟩ := hlit
  have hlast : y.getLast? = some q'.char := by
    rw [← List.getLast?_append_of_ne_nil opened hne, hend, ← List.cons_append,
      List.getLast?_append, List.getLast?_singleton, Option.some_or]
  obtain ⟨y, rfl⟩ := List.getLast?_eq_some_iff.1 hlast
  exact ⟨y, q', z, by rw [hv, List.append_assoc]; rfl, hmem⟩

/-- In front of a text without a quote that ends a text whose literals are closed, none is open. -/
theorem not_inLiteral_after (hv : ∀ q : Quote, q.char ∉ v) :
    ¬ ((code false).after Mark.ofChar u).InLiteral := by
  intro hliteral
  cases h : (code false).after Mark.ofChar u with
  | literal q escaped opened =>
    obtain ⟨y, q', z, rfl, -⟩ := exists_rest_of_closed hclosed h
    exact hv q' (List.mem_append_right _ List.mem_cons_self)
  | _ =>
    rw [h] at hliteral
    exact hliteral

/-- What ends a text whose literals are closed and is no delimiter belongs to none of them. -/
theorem literals_append_plain
    (hv : ∀ c ∈ v, Mark.ofChar c = .other ∨ Mark.ofChar c = .lineFeed) :
    (code false).literals Mark.ofChar (u ++ v) = (code false).literals Mark.ofChar u := by
  have hquote : ∀ q : Quote, q.char ∉ v := by
    intro q hmem
    have hmark := (Mark.ofChar_eq_iff (m := .quote q) rfl).2 rfl
    rcases hv _ hmem with h | h <;> exact nomatch hmark.symm.trans h
  have hcode := not_inLiteral_after hclosed hquote
  by_cases hnil : v = []
  · rw [hnil, List.append_nil]
  · obtain ⟨hfinished, hafter⟩ := after_plain (l := (code false).after Mark.ofChar u) hnil
      fun c hc => (hv c hc).imp_right fun h => ⟨h, hcode⟩
    rw [literals_append, literals, literals, hfinished, hafter]
    cases h : (code false).after Mark.ofChar u with
    | literal => exact absurd (h ▸ trivial) hcode
    | _ => rfl

/-- A text without a quote within an open literal is a part of it. -/
theorem exists_literal_around {a z : List Char} (hv : v = a ++ z) (ha : ∀ q : Quote, q.char ∉ a)
    (h : (code false).after Mark.ofChar u = literal q escaped opened) :
    ∃ y, y ≠ [] ∧ y <+: z ∧
      opened ++ (a ++ y) ∈ (code false).literals Mark.ofChar (u ++ v) := by
  obtain ⟨y, q', z', hrest, hmem⟩ := exists_rest_of_closed hclosed h
  rw [hv] at hrest
  rcases List.append_eq_append_iff.1 hrest with ⟨x, rfl, hz⟩ | ⟨x, rfl, hz⟩
  · refine ⟨x ++ [q'.char], by simp, ⟨z', ?_⟩, ?_⟩
    · rw [hz, List.append_assoc]
      rfl
    · rwa [← List.append_assoc a]
  · -- Otherwise the quote would be in the text.
    cases x with
    | nil =>
      refine ⟨[q'.char], by simp, ⟨z', hz⟩, ?_⟩
      rwa [List.append_nil]
    | cons c x =>
      obtain ⟨rfl, -⟩ := List.cons.inj hz
      exact absurd (List.mem_append_right _ List.mem_cons_self) (ha q')

end

end Lex

end ManifestSync.Source
