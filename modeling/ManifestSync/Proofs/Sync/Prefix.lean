import ManifestSync.Proofs.Scan.Identifier
import ManifestSync.Sync.Config

/-!
# Which prefixes identify tests

A configuration is refused if the word that starts every identifier is blank, and any other word is
accepted. `identifier?_canonical` says what becomes of it: the canonical identifier of an accepted
word is read back if the word begins with a word character, and is no identifier at all otherwise.

The pattern asks for a boundary in front of the word. At the start of a title there is one if the
first character is a word character, and then the match there is the preferred one. Whatever matches
in a canonical identifier begins at its start, since the digits behind the first separator have no
other one among them (`eq_nil_of_append_eq_canonical`).
-/

namespace ManifestSync

open Scan Pattern

namespace Scan.IdWord

variable {w : IdWord} {digits : List Char}

/-- The identifier of some digits in its canonical form. -/
def canonical (w : IdWord) (digits : List Char) : List Char := w.word ++ '-' :: digits

/-- Where the word and a separator stand in a canonical identifier, nothing stands before them. -/
theorem eq_nil_of_append_eq_canonical {before more : List Char} {separator : Char}
    (hdigits : ∀ ch ∈ digits, Text.isAsciiDigit ch = true)
    (hseparator : separator = '-' ∨ separator = ':')
    (h : before ++ (w.word ++ separator :: more) = w.canonical digits) : before = [] := by
  by_contra hbefore
  have hpos : 0 < before.length := List.length_pos_of_ne_nil hbefore
  -- If something did, the separator would be one of the digits.
  have hplace : (before ++ w.word ++ separator :: more)[before.length + w.word.length]? =
      some separator := by
    rw [← List.length_append, List.getElem?_append_right (Nat.le_refl _), Nat.sub_self]
    rfl
  have hindex : before.length + w.word.length - w.word.length = before.length - 1 + 1 := by omega
  rw [List.append_assoc, h, canonical, List.getElem?_append_right (Nat.le_add_left _ _), hindex,
    List.getElem?_cons_succ] at hplace
  have hdigit := hdigits separator (List.mem_of_getElem? hplace)
  rcases hseparator with rfl | rfl
  · exact absurd hdigit (by decide)
  · exact absurd hdigit (by decide)

/-- An identifier within a canonical one is the whole of it, and its word begins with a word
character. -/
theorem isWord_of_hasIdentifier_canonical {first : Char} {rest : List Char} {c : Cursor}
    (hword : w.word = first :: rest) (hdigits : ∀ ch ∈ digits, Text.isAsciiDigit ch = true)
    (hc : c.IsIn (w.canonical digits)) (h : w.HasIdentifier c) : Text.isWord first = true := by
  obtain ⟨sign, x, d, e, -, hx, hmoves, hat, hmoves', -⟩ := h
  obtain ⟨separator, gap, number, rfl, hseparator, -⟩ := hx
  have htext := (hmoves.trans hmoves').text_eq hc
  have hsplit : c.behind.reverse ++ sign ++ (w.word ++ separator :: (gap ++ number ++ e.rest)) =
      w.canonical digits := by
    rw [htext]
    simp only [List.append_assoc, List.cons_append]
  obtain ⟨hbehind, rfl⟩ := List.append_eq_nil_iff.1
    (eq_nil_of_append_eq_canonical hdigits hseparator hsplit)
  -- At the start of a text there is a boundary only in front of a word character.
  have hstart : d.behind = [] := by
    rw [hmoves.behind, List.reverse_eq_nil_iff.1 hbehind]
    rfl
  rw [Cursor.atBoundary, hstart, hmoves'.rest, hword] at hat
  simpa using hat

/-- The canonical identifier of a word is read back if the word begins with a word character, and is
no identifier otherwise. -/
theorem identifier?_canonical_of_word {first : Char} {rest : List Char}
    (hword : w.word = first :: rest) (hne : digits ≠ [])
    (hdigits : ∀ ch ∈ digits, Text.isAsciiDigit ch = true) :
    w.identifier? (w.canonical digits) =
      if Text.isWord first then some (w.canonical digits) else none := by
  split_ifs with hfirst
  · obtain ⟨m, hm, hgroup⟩ := exists_matchAt?_pattern hword hfirst (.inl rfl) hne hdigits (.inr rfl)
      (b := []) (z := []) (fun _ h => nomatch h) (fun _ h => nomatch h) (fun _ h => nomatch h) 0
    have htext : [] ++ (w.word ++ ['-']) ++ (digits ++ []) = w.canonical digits := by
      simp [canonical]
    rw [htext] at hm
    have hne' : w.canonical digits ≠ [] := List.append_ne_nil_of_right_ne_nil _ (by simp)
    rw [identifier?, find?_eq_some_of_start hne' hm, Option.bind_some, hgroup]
    rfl
  · have hfind : w.pattern.find? (w.canonical digits) = none := by
      refine find?_eq_none_iff.2 fun c hc _ => ?_
      rw [Option.eq_none_iff_forall_ne_some]
      intro m hm
      have hhas := hasIdentifier_of_matchAt? hm
      exact hfirst (isWord_of_hasIdentifier_canonical hword hdigits hc hhas)
    rw [identifier?, hfind]
    rfl

end Scan.IdWord

/-- A configuration is accepted exactly if there is an ending of test sources, the prefix is not blank
and the window is not empty. -/
theorem Config.validate_eq_ok_iff {config : Config} : config.validate = .ok () ↔
    config.fileExtensions ≠ [] ∧ Text.trim config.idPrefix.toList ≠ [] ∧
      config.associationWindow ≠ 0 := by
  unfold validate
  split_ifs with hextensions hblank hwindow
  · exact iff_of_false nofun fun h => h.1 (List.isEmpty_iff.1 hextensions)
  · exact iff_of_false nofun fun h => h.2.1 (List.isEmpty_iff.1 hblank)
  · exact iff_of_false nofun fun h => h.2.2 hwindow
  · exact iff_of_true rfl ⟨fun h => hextensions (List.isEmpty_iff.2 h),
      fun h => hblank (List.isEmpty_iff.2 h), hwindow⟩

/-- The canonical identifiers of an accepted configuration are read back if its word begins with a
word character. Otherwise none of them is an identifier. -/
theorem identifier?_canonical {config : Config} (h : config.validate = .ok ()) {digits : List Char}
    (hne : digits ≠ []) (hdigits : ∀ ch ∈ digits, Text.isAsciiDigit ch = true) :
    ∃ first rest, config.settings.idWord.word = first :: rest ∧
      config.settings.idWord.identifier? (config.settings.idWord.canonical digits) =
        if Text.isWord first then some (config.settings.idWord.canonical digits) else none := by
  obtain ⟨-, hblank, -⟩ := Config.validate_eq_ok_iff.1 h
  obtain ⟨first, rest, hword⟩ := List.exists_cons_of_ne_nil hblank
  exact ⟨first, rest, hword, IdWord.identifier?_canonical_of_word hword hne hdigits⟩

/-- A word with punctuation behind its first letter identifies tests. -/
theorem identifier?_canonical_punctuated :
    let config : Config := { idPrefix := " T.C+ " }
    config.validate = .ok () ∧
      config.settings.idWord.identifier? "T.C+-007".toList = some "T.C+-007".toList := by
  intro config
  have hvalid : config.validate = .ok () := Config.validate_eq_ok_iff.2 (by decide +kernel)
  have hdigits : ∀ ch ∈ "007".toList, Text.isAsciiDigit ch = true :=
    List.all_eq_true.1 (by decide +kernel)
  have hne : "007".toList ≠ [] := by decide +kernel
  obtain ⟨first, rest, hword, hidentifier⟩ := identifier?_canonical hvalid hne hdigits
  have hcanonical : config.settings.idWord.canonical "007".toList = "T.C+-007".toList := by
    decide +kernel
  have hletter : config.settings.idWord.word = 'T' :: ".C+".toList := by decide +kernel
  obtain ⟨rfl, -⟩ := List.cons.inj (hword.symm.trans hletter)
  rw [hcanonical, if_pos (by decide)] at hidentifier
  exact ⟨hvalid, hidentifier⟩

/-- Not every accepted configuration identifies tests: its word can begin with a number sign. -/
theorem not_forall_identifier?_canonical :
    ¬ ∀ (config : Config) (digits : List Char), config.validate = .ok () → digits ≠ [] →
      (∀ ch ∈ digits, Text.isAsciiDigit ch = true) →
      config.settings.idWord.identifier? (config.settings.idWord.canonical digits) =
        some (config.settings.idWord.canonical digits) := by
  intro h
  let config : Config := { idPrefix := "#" }
  have hvalid : config.validate = .ok () := Config.validate_eq_ok_iff.2 (by decide +kernel)
  have hdigits : ∀ ch ∈ ['1'], Text.isAsciiDigit ch = true :=
    List.all_eq_true.1 (by decide +kernel)
  have hidentifier := h config ['1'] hvalid (List.cons_ne_nil _ _) hdigits
  revert hidentifier
  decide +kernel

end ManifestSync
