import ManifestSync.Proofs.Source.State
import ManifestSync.Proofs.Text.Bytes

/-!
# Literals under a walk

Which bytes a walk takes for one string literal (`IsLiteral`), and which texts between two quotes make
one. `Body` is the grammar of those texts: characters that stand for themselves, and a backslash with
the character that it escapes. A walk goes over a body within the literal and is ready for the quote
that closes it (`goes_body`), by induction over the body; the case of one character is the case of
each of its bytes, none of which is a delimiter unless the character is one.

`isLiteral_of_body` puts the quotes around a body. If a backslash is left over at the end, the second
quote is escaped and the literal goes on behind it (`mode_after_of_body_backslash`).
-/

namespace ManifestSync.Source

open Text (utf8 byteLength)

/-- The character of a delimiter. -/
def Quote.char (q : Quote) : Char := Char.ofNat q.byte.toNat

/-- A delimiter is one byte. -/
theorem Quote.utf8EncodeChar_char (q : Quote) : String.utf8EncodeChar q.char = [q.byte] := by
  cases q <;> decide

/-- A delimiter is a byte of ASCII. -/
theorem Quote.byte_lt (q : Quote) : q.byte.toNat < 128 := by cases q <;> decide

/-- A walk is in a literal. -/
def Mode.InLiteral (q : Quote) (m : Mode) : Prop := ∃ escaped, m = .literal q escaped

/-- The bytes between two offsets of a text are one string literal of the walk over it. -/
structure IsLiteral (bytes : List UInt8) (q : Quote) (start stop : Nat) : Prop where
  /-- The walk comes to the literal in code. -/
  opens : (Walk.start.after start bytes).mode = .code
  /-- The first byte is the delimiter. -/
  first : bytes[start]? = some q.byte
  /-- Before every other byte the walk is in the literal. -/
  inside : ∀ n, start < n → n < stop → (Walk.start.after n bytes).mode.InLiteral q
  /-- The last byte is the delimiter once more, and not the first byte. -/
  last : ∃ n, start < n ∧ n + 1 = stop ∧ bytes[n]? = some q.byte
  /-- Behind the literal the walk is back in code. -/
  closes : (Walk.start.after stop bytes).mode = .code

/-! ## Going over a part of a text -/

/-- From the mode `m` a walk goes over a part of any text to the mode `m'`, by modes that satisfy
`P`. -/
def Goes (P : Mode → Prop) (m m' : Mode) (part : List UInt8) : Prop :=
  ∀ (w : Walk) (rest : List UInt8), w.mode = m →
    (∀ n ≤ part.length, P (w.after n (part ++ rest)).mode) ∧
      (w.after part.length (part ++ rest)).mode = m'

section
variable {P : Mode → Prop} {m m₁ m' : Mode}

/-- A walk stays where it is over nothing. -/
theorem goes_nil (hm : P m) : Goes P m m [] := by
  rintro w rest rfl
  refine ⟨fun n hn => ?_, by simp⟩
  obtain rfl : n = 0 := by simpa using hn
  simpa using hm

/-- A walk goes over one part and then over the next. -/
theorem Goes.append {a b : List UInt8} (ha : Goes P m m₁ a) (hb : Goes P m₁ m' b) :
    Goes P m m' (a ++ b) := by
  intro w rest hw
  obtain ⟨hinside, hmid⟩ := ha w (b ++ rest) hw
  obtain ⟨hinside', hstop⟩ := hb (w.after a.length (a ++ (b ++ rest))) rest hmid
  rw [List.append_assoc, List.length_append]
  have hadd (n : Nat) : w.after (a.length + n) (a ++ (b ++ rest)) =
      (w.after a.length (a ++ (b ++ rest))).after n (b ++ rest) := by
    rw [Walk.after_add, List.drop_left]
  refine ⟨fun n hn => ?_, by rw [hadd, hstop]⟩
  by_cases hle : n ≤ a.length
  · exact hinside n hle
  · obtain ⟨k, rfl⟩ := Nat.exists_eq_add_of_le (Nat.le_of_not_le hle)
    rw [hadd]
    exact hinside' k (by omega)

/-- A walk goes over a byte by a step. -/
theorem goes_singleton {b : UInt8} (hm : P m) (hm' : P m')
    (h : ∀ depth next, ((Walk.mk m depth).step b next).2.mode = m') : Goes P m m' [b] := by
  rintro ⟨mode, depth⟩ rest rfl
  have hstop : ((Walk.mk mode depth).after 1 ([b] ++ rest)).mode = m' := by
    rw [List.singleton_append, Walk.after_cons, Walk.after_zero]
    exact h depth _
  refine ⟨fun n hn => ?_, hstop⟩
  rcases Nat.le_one_iff_eq_zero_or_eq_one.1 hn with rfl | rfl
  · simpa using hm
  · rw [hstop]
    exact hm'

/-- A walk goes over bytes that do not change its mode. -/
theorem goes_of_forall {part : List UInt8} (hm : P m)
    (h : ∀ b ∈ part, ∀ depth next, ((Walk.mk m depth).step b next).2.mode = m) :
    Goes P m m part := by
  induction part with
  | nil => exact goes_nil hm
  | cons b part ih =>
    obtain ⟨hb, hpart⟩ := List.forall_mem_cons.1 h
    exact (goes_singleton hm hm hb).append (ih hpart)

end

/-! ## In code -/

/-- A character at which neither a literal nor a comment opens. -/
def IsPlainCode (c : Char) : Prop := c ≠ '/' ∧ ∀ q : Quote, c ≠ q.char

/-- A byte that is none of an opening leaves a walk in code. -/
theorem mode_step_code {b : UInt8} (hslash : b ≠ slash) (hquote : ∀ q : Quote, b ≠ q.byte)
    (depth : Nat) (next : Option UInt8) : ((Walk.mk .code depth).step b next).2.mode = .code := by
  have hnone : Quote.ofByte? b = none := by
    simp [Quote.ofByte?, hquote]
  simp only [Walk.step, hslash, false_and, if_false, hnone]
  split_ifs <;> rfl

/-- A walk in code stays there over characters at which nothing opens. -/
theorem goes_code {a : List Char} (h : ∀ c ∈ a, IsPlainCode c) :
    Goes (· = .code) .code .code (utf8 a) := by
  refine goes_of_forall rfl fun b hb => ?_
  obtain ⟨c, hc, hb⟩ := List.mem_flatMap.1 hb
  obtain ⟨hslash, hquote⟩ := h c hc
  exact mode_step_code (Text.ne_of_mem_utf8EncodeChar hb (by decide) hslash) fun q =>
    Text.ne_of_mem_utf8EncodeChar hb q.byte_lt (hquote q)

/-! ## In a literal -/

/-- What can stand between the delimiters of a literal. -/
inductive Body (q : Quote) : List Char → Prop where
  /-- Nothing. -/
  | nil : Body q []
  /-- A character that stands for itself; in quotes, no line feed. -/
  | plain {c : Char} {rest : List Char} (hquote : c ≠ q.char) (hescape : c ≠ '\\')
    (hline : q = .template ∨ c ≠ '\n') (h : Body q rest) : Body q (c :: rest)
  /-- A backslash and the character that it escapes. -/
  | escape {c : Char} {rest : List Char} (h : Body q rest) : Body q ('\\' :: c :: rest)

variable {q : Quote}

/-- Characters that all stand for themselves make a body. -/
theorem body_of_all {raw : List Char}
    (h : raw.all (fun c => c != q.char && c != '\\' && c != '\n') = true) : Body q raw := by
  induction raw with
  | nil => exact .nil
  | cons c raw ih =>
    rw [List.all_cons, Bool.and_eq_true, Bool.and_eq_true, Bool.and_eq_true] at h
    obtain ⟨⟨⟨hquote, hescape⟩, hline⟩, hraw⟩ := h
    exact .plain (bne_iff_ne.1 hquote) (bne_iff_ne.1 hescape) (.inr (bne_iff_ne.1 hline)) (ih hraw)

/-- A byte that stands for itself leaves a walk in the literal. -/
theorem mode_step_literal {b : UInt8} (hescape : b ≠ backslash) (hquote : b ≠ q.byte)
    (hline : q = .template ∨ b ≠ lineFeed) (depth : Nat) (next : Option UInt8) :
    ((Walk.mk (.literal q false) depth).step b next).2.mode = .literal q false := by
  have hnot : ¬ (b = lineFeed ∧ q ≠ .template) := fun h => hline.elim h.2 (absurd h.1)
  simp only [Walk.step, if_neg hescape, if_neg hquote, if_neg hnot]

/-- A walk goes over a character that stands for itself within the literal. -/
theorem goes_plain {c : Char} (hquote : c ≠ q.char) (hescape : c ≠ '\\')
    (hline : q = .template ∨ c ≠ '\n') :
    Goes (Mode.InLiteral q) (.literal q false) (.literal q false) (String.utf8EncodeChar c) := by
  -- No byte of the character is a delimiter, a backslash or a line feed, since it is none of these.
  refine goes_of_forall ⟨false, rfl⟩ fun b hb => ?_
  have hbackslash : b ≠ backslash := Text.ne_of_mem_utf8EncodeChar hb (by decide) hescape
  have hdelimiter : b ≠ q.byte := Text.ne_of_mem_utf8EncodeChar hb q.byte_lt hquote
  exact mode_step_literal hbackslash hdelimiter
    (hline.imp_right (Text.ne_of_mem_utf8EncodeChar hb (by decide)))

/-- A walk goes over a backslash within the literal, and the next character is escaped. -/
theorem goes_backslash :
    Goes (Mode.InLiteral q) (.literal q false) (.literal q true) [backslash] :=
  goes_singleton ⟨false, rfl⟩ ⟨true, rfl⟩ fun depth next => by simp [Walk.step]

/-- A walk goes over an escaped character within the literal. It is the first byte that the
backslash escapes; those behind it are no delimiters. -/
theorem goes_escaped (c : Char) :
    Goes (Mode.InLiteral q) (.literal q true) (.literal q false) (String.utf8EncodeChar c) := by
  obtain ⟨b, more, hbytes, hmore⟩ := Text.exists_utf8EncodeChar_eq c
  have hfirst : Goes (Mode.InLiteral q) (.literal q true) (.literal q false) [b] :=
    goes_singleton ⟨true, rfl⟩ ⟨false, rfl⟩ fun _ _ => rfl
  rw [hbytes]
  refine hfirst.append (goes_of_forall ⟨false, rfl⟩ fun b' hb' => ?_)
  have hne {a : UInt8} (ha : a.toNat < 128) : b' ≠ a := by
    rintro rfl
    exact absurd (hmore b' hb') (Nat.not_le.2 ha)
  exact mode_step_literal (hne (by decide)) (hne q.byte_lt) (.inr (hne (by decide)))

/-- A walk goes over a body within the literal. -/
theorem goes_body {raw : List Char} (h : Body q raw) :
    Goes (Mode.InLiteral q) (.literal q false) (.literal q false) (utf8 raw) := by
  induction h with
  | nil => exact goes_nil ⟨false, rfl⟩
  | plain hquote hescape hline _ ih =>
    rw [Text.utf8_cons]
    exact (goes_plain hquote hescape hline).append ih
  | escape _ ih =>
    rw [Text.utf8_cons, Text.utf8_cons]
    exact goes_backslash.append ((goes_escaped _).append ih)

/-! ## Between two quotes -/

/-- A delimiter opens its literal. -/
theorem mode_step_opening (q : Quote) {w : Walk} (h : w.mode = .code) (next : Option UInt8) :
    (w.step q.byte next).2.mode = .literal q false := by
  obtain ⟨_, depth⟩ := w
  obtain rfl := h
  have hslash : q.byte ≠ slash := by cases q <;> decide
  have hquote : Quote.ofByte? q.byte = some q := by cases q <;> decide
  simp only [Walk.step, hslash, false_and, if_false, hquote]

/-- A delimiter closes its literal. -/
theorem mode_step_closing {w : Walk} (h : w.mode = .literal q false) (next : Option UInt8) :
    (w.step q.byte next).2.mode = .code := by
  obtain ⟨_, depth⟩ := w
  obtain rfl := h
  have hescape : q.byte ≠ backslash := by cases q <;> decide
  simp [Walk.step, hescape]

section
variable {bytes before behind : List UInt8} {raw : List Char}
  (hbytes : bytes = before ++ (q.byte :: (utf8 raw ++ q.byte :: behind)))
  (hopens : (Walk.start.after before.length bytes).mode = .code)
include hbytes

/-- The quotes of the text are where they should be. -/
theorem getElem?_quotes : bytes[before.length]? = some q.byte ∧
    bytes[before.length + 1 + byteLength raw]? = some q.byte := by
  subst hbytes
  constructor
  · rw [List.getElem?_append_right (Nat.le_refl _), Nat.sub_self]
    rfl
  · have hindex : before.length + 1 + byteLength raw - before.length = (utf8 raw).length + 1 := by
      rw [Text.length_utf8]
      omega
    rw [List.getElem?_append_right (by omega), hindex, List.getElem?_cons_succ,
      List.getElem?_append_right (Nat.le_refl _), Nat.sub_self]
    rfl

include hopens

/-- Behind the first quote a walk is in the literal, and goes on over what stands between the
quotes. -/
theorem exists_after_opening : ∃ w : Walk, w.mode = .literal q false ∧
    ∀ n, Walk.start.after (before.length + 1 + n) bytes =
      w.after n (utf8 raw ++ q.byte :: behind) := by
  have hdrop : bytes.drop before.length = q.byte :: (utf8 raw ++ q.byte :: behind) := by
    rw [hbytes, List.drop_left]
  refine ⟨_, mode_step_opening q hopens (utf8 raw ++ q.byte :: behind).head?, fun n => ?_⟩
  rw [Nat.add_assoc, Walk.after_add, hdrop, Nat.add_comm 1 n, Walk.after_cons]

/-- Behind the second quote a walk is where the step over it leads from the end of what stands
between the quotes. -/
theorem mode_after_closing {m : Mode}
    (hgoes : Goes (Mode.InLiteral q) (.literal q false) m (utf8 raw)) :
    (Walk.start.after (before.length + 1 + byteLength raw) bytes).mode = m ∧
      Walk.start.after (before.length + 1 + byteLength raw + 1) bytes =
        ((Walk.start.after (before.length + 1 + byteLength raw) bytes).step q.byte
          bytes[before.length + 1 + byteLength raw + 1]?).2 := by
  obtain ⟨w, hw, hafter⟩ := exists_after_opening hbytes hopens
  obtain ⟨-, hstop⟩ := hgoes w (q.byte :: behind) hw
  refine ⟨?_, Walk.after_succ _ (getElem?_quotes hbytes).2⟩
  rw [hafter, ← Text.length_utf8, hstop]

/-- A body between two quotes is a literal. -/
theorem isLiteral_of_body (h : Body q raw) :
    IsLiteral bytes q before.length (before.length + 1 + byteLength raw + 1) := by
  obtain ⟨w, hw, hafter⟩ := exists_after_opening hbytes hopens
  obtain ⟨hinside, -⟩ := goes_body h w (q.byte :: behind) hw
  obtain ⟨hmode, hclose⟩ := mode_after_closing hbytes hopens (goes_body h)
  obtain ⟨hfirst, hlast⟩ := getElem?_quotes hbytes
  refine
    { opens := hopens
      first := hfirst
      inside := fun n hlow hhigh => ?_
      last := ⟨_, by omega, rfl, hlast⟩
      closes := ?_ }
  · obtain ⟨k, rfl⟩ := Nat.exists_eq_add_of_le (Nat.succ_le_of_lt hlow)
    rw [hafter]
    exact hinside k (by rw [Text.length_utf8]; omega)
  · rw [hclose]
    exact mode_step_closing hmode _

/-- If a backslash is left over before the second quote, the walk is still in the literal behind
it. -/
theorem mode_after_of_body_backslash {init : List Char} (hraw : raw = init ++ ['\\'])
    (h : Body q init) :
    (Walk.start.after (before.length + 1 + byteLength raw + 1) bytes).mode = .literal q false := by
  have hgoes : Goes (Mode.InLiteral q) (.literal q false) (.literal q true) (utf8 raw) := by
    rw [hraw, Text.utf8_append]
    exact (goes_body h).append goes_backslash
  obtain ⟨hmode, hclose⟩ := mode_after_closing hbytes hopens hgoes
  rw [hclose]
  simp only [Walk.step, hmode]

end

end ManifestSync.Source
