import Mathlib.Data.List.Basic
import ManifestSync.Proofs.Text.Words

/-!
# The words of a documentation comment

A line of a comment whose first word starts with `@` opens a section. The lines above the first such
line make the summary, and each further line belongs to the section that was opened last. `Divided`
says what this comes to for the words of the lines: the summary and the sections hold all of them, in
their order and once each, and every word is where the nearest opening line at or above its own line
puts it.

White space is taken away several times on the way, at the ends of lines and of values and when lines
are joined. None of it is within a word, so the proof first goes from texts to words
(`words_stripLine`, `words_joinLines`, `sectionWords_readSection`). One line more in front of others
adds its words in front (`words_addLine`) and moves the others, with their opening lines, one line
down (`openingOf?_cons_succ`, `wordsUnder_cons_succ`); both are carried over all lines by induction.
-/

namespace ManifestSync.Scan

open Text (words)

/-! ## Lines by their words -/

/-- A line of a comment by its words. -/
abbrev WordLine := List (List Char)

/-- The words of a line, without the white space around the line and the stars in front of it. -/
def lineWords (line : List Char) : WordLine :=
  words (Text.trimStartOf (· == '*') (Text.trim line))

/-- Whether a line opens a section: its first word starts with `@`. -/
def WordLine.opens (line : WordLine) : Bool :=
  line.head?.bind (·.head?) == some '@'

/-- Whether line `i` is one that opens a section. -/
def opensAt (lines : List WordLine) (i : Nat) : Bool :=
  lines[i]?.any WordLine.opens

/-- The lines that open a section, from the first to the last. -/
def openings (lines : List WordLine) : List Nat :=
  (List.range lines.length).filter (opensAt lines)

/-- The nearest line that opens a section, from line `i` upwards. -/
def openingOf? (lines : List WordLine) (i : Nat) : Option Nat :=
  (List.range (i + 1)).reverse.find? (opensAt lines)

/-- The words of the lines that have a given opening line, or none. -/
def wordsUnder (lines : List WordLine) (opening : Option Nat) : List (List Char) :=
  (lines.zipIdx.filter fun p => openingOf? lines p.2 = opening).flatMap (·.1)

/-- The words of a section: its name behind `@`, and the words of its text. -/
def sectionWords : List Char × List Char → List (List Char)
  | (name, text) => ('@' :: name) :: words text

/-- A summary and sections hold the words of lines, each where it belongs. -/
structure Divided (lines : List WordLine) (summary : Option (List Char))
    (sections : List (List Char × List Char)) : Prop where
  /-- No word is lost, moved or repeated. -/
  words : Text.words (summary.getD []) ++ sections.flatMap sectionWords = lines.flatten
  /-- The summary has the words of the lines in front of the first one that opens a section. -/
  summary : Text.words (summary.getD []) = (lines.takeWhile (!·.opens)).flatten
  /-- There is one section for each line that opens one, in order, with the words of the lines that
  have this line as the nearest one at or above them. -/
  sections : sections.map sectionWords = (openings lines).map fun i => wordsUnder lines (some i)

/-! ## One more line in front -/

section
variable (line : WordLine) (lines : List WordLine)

/-- Whether the first line opens a section. -/
theorem opensAt_cons_zero : opensAt (line :: lines) 0 = line.opens := rfl

/-- The first line is an opening line or not, and the others follow it. -/
theorem openings_cons : openings (line :: lines) =
    (if line.opens then [0] else []) ++ (openings lines).map (· + 1) := by
  unfold openings
  rw [List.length_cons, List.range_succ_eq_map, List.filter_cons, List.filter_map, opensAt_cons_zero]
  split <;> rfl

/-- The first line has no opening line but itself. -/
theorem openingOf?_cons_zero :
    openingOf? (line :: lines) 0 = if line.opens then some 0 else none := by
  show List.find? (opensAt (line :: lines)) [0] = _
  rw [List.find?_singleton, opensAt_cons_zero]

/-- Another line has the opening line that it had, or else that of the first line. -/
theorem openingOf?_cons_succ (i : Nat) : openingOf? (line :: lines) (i + 1) =
    ((openingOf? lines i).map (· + 1)).or (openingOf? (line :: lines) 0) := by
  unfold openingOf?
  rw [List.range_succ_eq_map, List.reverse_cons, List.find?_append, ← List.map_reverse,
    List.find?_map]
  rfl

/-- The words under an opening line: those of the first line, if it is under it, and those of the
others. -/
theorem wordsUnder_cons (opening : Option Nat) :
    wordsUnder (line :: lines) opening =
      (if openingOf? (line :: lines) 0 = opening then line else []) ++
        (lines.zipIdx.filter fun p =>
          openingOf? (line :: lines) (p.2 + 1) = opening).flatMap (·.1) := by
  unfold wordsUnder
  rw [List.zipIdx_cons', List.filter_cons, List.filter_map]
  by_cases h : openingOf? (line :: lines) 0 = opening
  · rw [if_pos h, if_pos (decide_eq_true h), List.flatMap_cons, List.flatMap_map]
    rfl
  · rw [if_neg h, if_neg (by simpa using h), List.nil_append, List.flatMap_map]
    rfl

/-- Under a later line are the words that were under it. -/
theorem wordsUnder_cons_succ (i : Nat) :
    wordsUnder (line :: lines) (some (i + 1)) = wordsUnder lines (some i) := by
  have hfirst : openingOf? (line :: lines) 0 ≠ some (i + 1) := by
    rw [openingOf?_cons_zero]
    split <;> simp
  have hother : ∀ k, openingOf? (line :: lines) (k + 1) = some (i + 1) ↔
      openingOf? lines k = some i := by
    intro k
    rw [openingOf?_cons_succ]
    -- A line without an opening line has at most the first line as one now.
    cases openingOf? lines k with
    | none => simpa using hfirst
    | some j => simp
  rw [wordsUnder_cons, if_neg hfirst, List.nil_append, wordsUnder]
  simp only [hother]

/-- With the first line go the words that were under no line. -/
theorem wordsUnder_cons_first :
    wordsUnder (line :: lines) (openingOf? (line :: lines) 0) = line ++ wordsUnder lines none := by
  have hother : ∀ k, openingOf? (line :: lines) (k + 1) = openingOf? (line :: lines) 0 ↔
      openingOf? lines k = none := by
    intro k
    rw [openingOf?_cons_succ, openingOf?_cons_zero]
    cases openingOf? lines k with
    | none => simp
    | some j => split <;> simp
  rw [wordsUnder_cons, if_pos rfl, wordsUnder]
  simp only [hother]

/-- If the first line opens a section, every line is under one that does. -/
theorem wordsUnder_cons_none (h : line.opens = true) : wordsUnder (line :: lines) none = [] := by
  have hfirst : openingOf? (line :: lines) 0 = some 0 := by rw [openingOf?_cons_zero, if_pos h]
  have hother : ∀ k, openingOf? (line :: lines) (k + 1) ≠ none := by
    intro k
    rw [openingOf?_cons_succ, hfirst]
    cases openingOf? lines k <;> simp
  rw [wordsUnder_cons, if_neg (by rw [hfirst]; simp), List.nil_append]
  simp only [hother, decide_false, List.filter_false, List.flatMap_nil]

end

/-- The words under no line are those in front of the first line that opens a section. -/
theorem wordsUnder_none (lines : List WordLine) :
    wordsUnder lines none = (lines.takeWhile (!·.opens)).flatten := by
  induction lines with
  | nil => rfl
  | cons line lines ih =>
    cases hopens : line.opens with
    | true =>
      rw [wordsUnder_cons_none line lines hopens, List.takeWhile_cons_of_neg (by simp [hopens])]
      rfl
    | false =>
      -- The first line is under none either, and so are the same lines as before.
      have hfirst := wordsUnder_cons_first line lines
      rw [openingOf?_cons_zero, hopens, if_neg Bool.false_ne_true] at hfirst
      rw [hfirst, ih, List.takeWhile_cons_of_pos (by simp [hopens]), List.flatten_cons]

/-! ## From texts to words -/

/-- Stripping a line leaves its words. -/
theorem words_stripLine (line : List Char) : words (stripLine line) = lineWords line :=
  Text.words_trim _

/-- A stripped line starts with `@` exactly if its first word does. -/
theorem opensSection_stripLine (line : List Char) :
    opensSection (stripLine line) = (lineWords line).opens := by
  rw [← words_stripLine]
  cases h : stripLine line with
  | nil => rfl
  | cons c rest =>
    rw [Text.words_cons_splitAtBlank (Text.isBlank_of_trim_eq_cons h)]
    rfl

/-- Lines that are empty have no words. -/
theorem flatMap_words_filter (lines : List (List Char)) :
    (lines.filter (!·.isEmpty)).flatMap words = lines.flatMap words := by
  induction lines with
  | nil => rfl
  | cons line lines ih =>
    cases line with
    | nil => exact ih
    | cons c line => exact congrArg (words (c :: line) ++ ·) ih

/-- Lines that are joined keep their words. -/
theorem words_joinLines (lines : List (List Char)) :
    words (joinLines lines) = lines.flatMap words := by
  rw [joinLines, Text.words_normalizeBlanks, Text.words_joinWith, flatMap_words_filter]

/-- The words of an opening line and of the lines that follow it. -/
def groupWords (group : List Char × List (List Char)) : List (List Char) :=
  words group.1 ++ group.2.flatMap words

/-- A section has the words of the line that opens it and of the lines that follow. -/
theorem sectionWords_readSection {opening : List Char} (h : opensSection opening = true)
    (lines : List (List Char)) :
    sectionWords (readSection opening lines) = groupWords (opening, lines) := by
  obtain ⟨rest, rfl⟩ := List.head?_eq_some_iff.1 (beq_iff_eq.1 h)
  calc sectionWords (readSection ('@' :: rest) lines)
      = ('@' :: (Text.splitAtBlank rest).1) ::
          words (joinLines (Text.trim (Text.splitAtBlank rest).2 :: lines)) := rfl
    _ = (('@' :: (Text.splitAtBlank rest).1) :: words (Text.splitAtBlank rest).2) ++
          lines.flatMap words := by
        rw [words_joinLines, List.flatMap_cons, Text.words_trim, List.cons_append]
    _ = groupWords ('@' :: rest, lines) := by
        rw [← Text.words_cons_splitAtBlank (by decide)]
        rfl

/-! ## Splitting at the lines that open sections -/

/-- A line that is added to split lines adds its words in front. -/
theorem words_addLine (line : List Char)
    (split : List (List Char) × List (List Char × List (List Char))) :
    (addLine line split).1.flatMap words ++ (addLine line split).2.flatMap groupWords =
      words line ++ (split.1.flatMap words ++ split.2.flatMap groupWords) := by
  unfold addLine
  split
  · exact List.append_assoc _ _ _
  · exact List.append_assoc _ _ _

/-- Splitting lines loses, moves and repeats no word. -/
theorem words_splitSections (lines : List (List Char)) :
    (splitSections lines).1.flatMap words ++ (splitSections lines).2.flatMap groupWords =
      lines.flatMap words := by
  induction lines with
  | nil => rfl
  | cons line lines ih =>
    rw [List.flatMap_cons, ← ih]
    exact words_addLine line (splitSections lines)

/-- Every section starts with a line that opens one. -/
theorem opensSection_of_mem_splitSections {lines : List (List Char)} :
    ∀ group ∈ (splitSections lines).2, opensSection group.1 = true := by
  induction lines with
  | nil => exact List.forall_mem_nil _
  | cons line lines ih =>
    show ∀ group ∈ (addLine line (splitSections lines)).2, opensSection group.1 = true
    unfold addLine
    split
    · exact List.forall_mem_cons.2 ⟨‹_›, ih⟩
    · exact ih

/-- The lines that are not empty when they are stripped. -/
def textLines (lines : List (List Char)) : List (List Char) :=
  (lines.map stripLine).filter (!·.isEmpty)

/-- The lines that are left have all the words. -/
theorem words_textLines (lines : List (List Char)) :
    (textLines lines).flatMap words = (lines.map lineWords).flatten := by
  rw [textLines, flatMap_words_filter, List.flatMap_def, List.map_map]
  exact congrArg List.flatten (List.map_congr_left fun line _ => words_stripLine line)

/-- A line that opens no section adds its words to those in front of the sections. -/
theorem splitSections_textLines_cons_of_not_opens {line : List Char}
    (h : (lineWords line).opens = false) (lines : List (List Char)) :
    (splitSections (textLines (line :: lines))).1.flatMap words =
        lineWords line ++ (splitSections (textLines lines)).1.flatMap words ∧
      (splitSections (textLines (line :: lines))).2 = (splitSections (textLines lines)).2 := by
  rw [← opensSection_stripLine] at h
  rw [← words_stripLine, textLines, List.map_cons, List.filter_cons]
  cases hempty : (stripLine line).isEmpty with
  | true =>
    rw [List.isEmpty_iff.1 hempty]
    exact ⟨rfl, rfl⟩
  | false =>
    show (addLine (stripLine line) _).1.flatMap words = _ ∧ (addLine (stripLine line) _).2 = _
    rw [addLine, if_neg (ne_true_of_eq_false h)]
    exact ⟨rfl, rfl⟩

/-- A line that opens a section takes the lines in front of the other sections. -/
theorem splitSections_textLines_cons_of_opens {line : List Char}
    (h : (lineWords line).opens = true) (lines : List (List Char)) :
    splitSections (textLines (line :: lines)) =
      ([], (stripLine line, (splitSections (textLines lines)).1) ::
        (splitSections (textLines lines)).2) := by
  rw [← opensSection_stripLine] at h
  have hne : stripLine line ≠ [] := by
    intro hnil
    rw [hnil] at h
    exact nomatch h
  rw [textLines, List.map_cons, List.filter_cons_of_pos (by simpa using hne)]
  exact if_pos h

/-- The split lines have the words that are under no opening line, and under each one. -/
theorem wordsUnder_splitSections (lines : List (List Char)) :
    (splitSections (textLines lines)).1.flatMap words = wordsUnder (lines.map lineWords) none ∧
      (splitSections (textLines lines)).2.map groupWords =
        (openings (lines.map lineWords)).map fun i =>
          wordsUnder (lines.map lineWords) (some i) := by
  induction lines with
  | nil => exact ⟨rfl, rfl⟩
  | cons line lines ih =>
    obtain ⟨hsummary, hsections⟩ := ih
    have hfirst := wordsUnder_cons_first (lineWords line) (lines.map lineWords)
    rw [openingOf?_cons_zero] at hfirst
    rw [List.map_cons, openings_cons]
    cases hopens : (lineWords line).opens with
    | true =>
      -- The lines that were in front of the sections become the rest of its own section.
      rw [hopens, if_pos rfl] at hfirst
      rw [splitSections_textLines_cons_of_opens hopens, wordsUnder_cons_none _ _ hopens]
      refine ⟨rfl, ?_⟩
      rw [if_pos rfl, List.map_cons, List.map_append, List.map_map, hsections]
      simp only [Function.comp_def, wordsUnder_cons_succ, List.map_cons, List.map_nil, hfirst]
      rw [groupWords, words_stripLine, hsummary]
      rfl
    | false =>
      -- It joins the lines in front of the sections, unless nothing is left of it.
      rw [hopens, if_neg Bool.false_ne_true] at hfirst
      obtain ⟨hwords, hsame⟩ := splitSections_textLines_cons_of_not_opens hopens lines
      rw [hwords, hsame, hfirst, hsummary, if_neg Bool.false_ne_true, List.nil_append, List.map_map,
        hsections]
      simp only [Function.comp_def, wordsUnder_cons_succ, and_self]

/-! ## The body of a comment -/

/-- The summary has the words of the lines in front of the sections. -/
theorem words_summary_readBody (body : List Char) :
    words ((readBody body).1.getD []) =
      (splitSections (textLines (Text.lines body))).1.flatMap words := by
  have hgetD : ∀ text : List Char, (if text.isEmpty then none else some text).getD [] = text := by
    intro text
    cases text <;> rfl
  rw [← words_joinLines]
  exact congrArg words (hgetD _)

/-- Each section has the words of its lines. -/
theorem map_sectionWords_readBody (body : List Char) :
    (readBody body).2.map sectionWords =
      (splitSections (textLines (Text.lines body))).2.map groupWords := by
  show ((splitSections (textLines (Text.lines body))).2.map _).map sectionWords = _
  rw [List.map_map]
  exact List.map_congr_left fun group hgroup =>
    sectionWords_readSection (opensSection_of_mem_splitSections group hgroup) group.2

/-- Summary and sections of a comment hold the words of its lines, all of them and each once: the
summary those of the lines in front of the first one that starts with `@`, and each section those of
the lines that have its line as the nearest such line at or above them. -/
theorem divided_readBody (body : List Char) :
    Divided ((Text.lines body).map lineWords) (readBody body).1 (readBody body).2 where
  words := by
    rw [List.flatMap_def, map_sectionWords_readBody, ← List.flatMap_def, words_summary_readBody,
      words_splitSections, words_textLines]
  summary := by rw [words_summary_readBody, (wordsUnder_splitSections _).1, wordsUnder_none]
  sections := by rw [map_sectionWords_readBody, (wordsUnder_splitSections _).2]

-- Only the first run of stars is stripped, and an empty name is one as well.
example : readBody "* Adds\ta\n ** * @b c\n * @tag\n\n *@\n  d\n".toList =
    (some "Adds a * @b c".toList, [("tag".toList, []), ([], "d".toList)]) := by decide +kernel

end ManifestSync.Scan
