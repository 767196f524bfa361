import Mathlib.Data.List.Nodup
import ManifestSync.Proofs.Source.Depth
import ManifestSync.Proofs.Source.RegionMap

/-!
# Walks that start in the middle of a text

A walk that starts at an offset takes the text from there on to be in code, with no parenthesis open.
Where the walk over the whole text is in code as well, the two read every byte behind the offset in the
same way (`tokensFrom_resumes`). Their depths differ by the number of parentheses that the whole walk
has open at the offset, until it closes one of these.

From an offset on, the tokens of a walk are those of the walk that goes on from its state there
(`filter_tokens`), and a state in code is the state of a starting walk, deeper; so the depths are those
of `after_deepen`. That lemma asks for the depth at every byte, and the tokens tell it at all bytes but
the star of an opening `/*`, which is as deep as the slash before it (`exists_token_of_depth_after`).

A walk that starts where another one is in code at depth zero is that other one from there on
(`tokensFrom_eq_filter`).
-/

namespace ManifestSync.Source

/-- What the walk that starts at `p` has to do with the walk over the whole text. -/
structure Resumes (bytes : List UInt8) (p : Nat) : Prop where
  /-- Depths aside, its tokens are those of the whole text from `p` on. -/
  spots : (tokensFrom bytes p).map Token.spot =
    ((tokensFrom bytes 0).filter (p ≤ ·.offset)).map Token.spot
  /-- The depth of a token is the one in the whole text less the one at `p`, as long as the former
  has not fallen below the latter. -/
  depth : ∀ t ∈ tokensFrom bytes p, ∀ t' ∈ tokensFrom bytes 0, t.offset = t'.offset →
    (∀ u ∈ tokensFrom bytes 0, p ≤ u.offset → u.offset ≤ t.offset →
      (Walk.start.after p bytes).depth ≤ u.depth) →
    t.depth + (Walk.start.after p bytes).depth = t'.depth

/-! ## Tokens from an offset on -/

/-- From an offset on, the tokens of a walk are those of the walk that goes on from its state there. -/
theorem Walk.filter_tokens (w : Walk) (offset n : Nat) (bytes : List UInt8) :
    (w.tokens offset bytes).filter (offset + n ≤ ·.offset) =
      (w.after n bytes).tokens (offset + n) (bytes.drop n) := by
  induction n generalizing w offset bytes with
  | zero =>
    rw [after_zero, List.drop_zero, Nat.add_zero, List.filter_eq_self]
    intro t ht
    simpa using (getElem?_of_mem_tokens ht).1
  | succ n ih =>
    cases bytes with
    | nil => simp [tokens]
    | cons b rest =>
      -- The token of the first byte, if there is one, stands before the offset.
      have hfirst : (((w.step b rest.head?).1.map fun r => Token.mk offset b r w.depth).toList).filter
          (offset + 1 + n ≤ ·.offset) = [] := by
        rw [List.filter_eq_nil_iff]
        intro t ht
        rw [Option.mem_toList, Option.map_eq_some_iff] at ht
        obtain ⟨region, -, rfl⟩ := ht
        simp
        omega
      have hsum : offset + (n + 1) = offset + 1 + n := by omega
      rw [hsum, tokens_cons, List.filter_append, hfirst, List.nil_append, ih, after_cons,
        List.drop_succ_cons]

variable {bytes : List UInt8} {p q : Nat}

/-- A walk that starts where another one is in code at depth zero is that other one from there on. -/
theorem tokensFrom_eq_filter (hle : p ≤ q)
    (h : Walk.start.after (q - p) (bytes.drop p) = Walk.start) :
    tokensFrom bytes q = (tokensFrom bytes p).filter (q ≤ ·.offset) := by
  have hfilter := Walk.filter_tokens Walk.start p (q - p) (bytes.drop p)
  rw [h, List.drop_drop, Nat.add_sub_cancel' hle] at hfilter
  exact hfilter.symm

/-- The tokens of a walk have increasing offsets. -/
theorem pairwise_tokensFrom (bytes : List UInt8) (p : Nat) :
    (tokensFrom bytes p).Pairwise (·.offset < ·.offset) :=
  Walk.pairwise_tokens _ _ _

/-- A token is the byte of the text at its offset. -/
theorem getElem?_of_mem_tokensFrom {t : Token} (ht : t ∈ tokensFrom bytes p) :
    bytes[t.offset]? = some t.byte := by
  obtain ⟨hle, hbyte⟩ := Walk.getElem?_of_mem_tokens ht
  rwa [List.getElem?_drop, Nat.add_sub_cancel' hle] at hbyte

/-- A walk has one token at most at an offset. -/
theorem eq_of_offset_eq {t t' : Token} (ht : t ∈ tokensFrom bytes p) (ht' : t' ∈ tokensFrom bytes p)
    (h : t.offset = t'.offset) : t = t' := by
  have hnodup : ((tokensFrom bytes p).map Token.offset).Nodup :=
    List.pairwise_map.2 ((pairwise_tokensFrom bytes p).imp Nat.ne_of_lt)
  exact List.inj_on_of_nodup_map hnodup ht ht' h

/-- Behind a byte of code at depth zero, a walk that starts anew goes on as the one that read it. -/
theorem tokensFrom_behind {t : Token} (ht : t ∈ tokensFrom bytes p) (hcode : t.region = .code)
    (hdepth : t.depthBehind = 0) :
    tokensFrom bytes (t.offset + 1) = (tokensFrom bytes p).filter (t.offset + 1 ≤ ·.offset) := by
  obtain ⟨n, hoffset, hbyte, hregion, hbefore⟩ := (Walk.mem_tokens_iff _ _ _ t).1 ht
  have hstate : Walk.start.after (n + 1) (bytes.drop p) = Walk.start := by
    rw [Walk.after_succ _ hbyte]
    ext
    · exact Walk.mode_step_of_region_eq_code (hregion.trans (congrArg some hcode))
    · rw [Walk.depth_step hregion t.offset, ← hbefore]
      exact hdepth
  refine tokensFrom_eq_filter (by omega) ?_
  rwa [hoffset, Nat.add_assoc, Nat.add_sub_cancel_left]

/-! ## The walk over the whole text -/

/-- From an offset in code on, the depth at a byte is that of a token: its own, or the one before it. -/
theorem exists_token_of_depth_after (h : (Walk.start.after p bytes).mode = .code) {i : Nat}
    (hle : p ≤ i) (hlt : i < bytes.length) : ∃ u ∈ tokensFrom bytes 0, p ≤ u.offset ∧
      u.offset ≤ i ∧ u.depth = (Walk.start.after i bytes).depth := by
  have hb : bytes[i]? = some bytes[i] := List.getElem?_eq_getElem hlt
  cases hregion : ((Walk.start.after i bytes).step bytes[i] bytes[i + 1]?).1 with
  | some region =>
    exact ⟨⟨i, bytes[i], region, _⟩, (mem_tokensFrom_zero_iff _ _).2 ⟨hb, hregion, rfl⟩, hle,
      Nat.le_refl i, rfl⟩
  | none =>
    -- The byte is the star of an opening, and the slash before it leaves the depth as it is.
    have hopening := Walk.step_fst_eq_none_iff.1 hregion
    obtain ⟨j, rfl, hslash, -, hblock⟩ := Walk.exists_of_mode_after_eq_blockOpening hlt hopening
    have hne : p ≠ j + 1 := by
      rintro rfl
      rw [h] at hopening
      exact nomatch hopening
    have hdepth : (Walk.start.after (j + 1) bytes).depth = (Walk.start.after j bytes).depth := by
      rw [Walk.after_succ _ hslash, Walk.depth_step hblock j]
      rfl
    have hmem : ⟨j, slash, .blockComment, (Walk.start.after j bytes).depth⟩ ∈ tokensFrom bytes 0 :=
      (mem_tokensFrom_zero_iff _ _).2 ⟨hslash, hblock, rfl⟩
    exact ⟨_, hmem, Nat.le_of_lt_succ (Nat.lt_of_le_of_ne hle hne), Nat.le_succ j, hdepth.symm⟩

/-- The walk that starts where the walk over the whole text is in code goes on as that one does. -/
theorem tokensFrom_resumes (h : (Walk.start.after p bytes).mode = .code) : Resumes bytes p := by
  have hstate : Walk.start.after p bytes =
      Walk.start.deepen (Walk.start.after p bytes).depth := by
    ext
    · exact h
    · exact (Nat.zero_add _).symm
  refine ⟨?_, fun t ht t' ht' hoffset hdeep => ?_⟩
  · have hwhole := Walk.filter_tokens Walk.start 0 p bytes
    rw [Nat.zero_add] at hwhole
    have hspots : ((Walk.start.after p bytes).tokens p (bytes.drop p)).map Token.spot =
        (segments p (bytes.drop p)).flatMap Segment.spots := by
      rw [hstate]
      exact spots_eq_flatMap_segments _ p (bytes.drop p)
    calc (tokensFrom bytes p).map Token.spot
        = (segments p (bytes.drop p)).flatMap Segment.spots :=
          spots_eq_flatMap_segments 0 p (bytes.drop p)
      _ = ((tokensFrom bytes 0).filter (p ≤ ·.offset)).map Token.spot := by
          rw [← hspots, ← hwhole]
          rfl
  · -- Both depths are those of a state `n` bytes behind `p`, and the tokens in between bound them all.
    obtain ⟨n, htoken, -, -, hdepth⟩ := (Walk.mem_tokens_iff _ _ _ t).1 ht
    obtain ⟨hbyte', -, hdepth'⟩ := (mem_tokensFrom_zero_iff bytes t').1 ht'
    have hlt : t'.offset < bytes.length := (List.getElem?_eq_some_iff.1 hbyte').1
    have hfloor : ∀ m ≤ n, (Walk.start.after p bytes).depth ≤
        ((Walk.start.deepen (Walk.start.after p bytes).depth).after m (bytes.drop p)).depth := by
      intro m hm
      obtain ⟨u, hu, hle, hge, hsame⟩ :=
        exists_token_of_depth_after h (i := p + m) (by omega) (by omega)
      rw [← hstate, ← Walk.after_add, ← hsame]
      exact hdeep u hu hle (by omega)
    have hrun := Walk.after_deepen _ _ n _ hfloor
    rw [← hstate, ← Walk.after_add, ← htoken, hoffset] at hrun
    rw [hdepth', hrun, hdepth]
    rfl

/-- Within the call of `f(a, ')') /* ( */ g(b)` the walk goes on, one parenthesis less deep. -/
theorem tokensFrom_resumes_call :
    (Walk.start.after 2 (Text.utf8 "f(a, ')') /* ( */ g(b)".toList)).mode = .code ∧
      Resumes (Text.utf8 "f(a, ')') /* ( */ g(b)".toList) 2 :=
  ⟨by decide +kernel, tokensFrom_resumes (by decide +kernel)⟩

end ManifestSync.Source
