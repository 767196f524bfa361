import Mathlib.Data.List.Basic
import ManifestSync.Proofs.Pattern.Search
import ManifestSync.Proofs.Scan.Extraction

/-!
# Where tags come from

The tags of a test that its documentation does not list are those of an option `tag` between its
title and its body, or the end of the call. `TagsFromCode` is what one expects of them: the option
stands in code, and an option in a comment or a literal neither adds a tag nor keeps an option in
code from being read.

The search for the option looks at the text alone. It finds the first option there is, whatever its
place (`readOption?_eq_some_iff`), and takes every quoted text of its value. `tags_fromCode_iff` says
when that is what one expects: if the first option stands in code, and none of the quoted texts that
are read stands in an option outside of it; or else if the first option has no quoted text at all and
no option is in code. The texts that are read stand within the option
(`TagIn.within`), so an option outside code that is read adds its tags.
-/

namespace ManifestSync.Scan

open Pattern

/-! ## Options of a declaration -/

section
variable (settings : Settings) (s : SourceText) (l : Located)

/-- The text between the title of a declaration and the end of its options. -/
def optionsText : List Char :=
  s.slice l.declaration.titleEnd (optionsEnd settings s l)

/-- The tags that the documentation of a declaration lists. -/
def documentedTags : List (List Char) :=
  (((docOf s (docComments s.regions s.chars) l.declaration).bind (·.section? "tags")).map
    listedTags).getD []

/-- An option `tag` of a declaration: the match of the pattern at a position of its options. -/
structure IsTagOption (o : Match) : Prop where
  isIn : o.start.IsIn (optionsText settings s l)
  matched : tagOptionPattern.matchAt? o.start = some o

/-- An option starts in code. -/
def OptionInCode (o : Match) : Prop :=
  s.region (l.declaration.titleEnd + o.start.offset) = .code

/-- The option whose tags a declaration gets, if it has any. -/
def readOption? : Option Match :=
  tagOptionPattern.find? (optionsText settings s l)

/-- An option is the first one of a declaration. -/
structure FirstOption (o : Match) : Prop where
  isOption : IsTagOption settings s l o
  first : ∀ o', IsTagOption settings s l o' → o.start.offset ≤ o'.start.offset

end

/-- The tags of an option: the quoted texts of its value. -/
def tagsOfOption (o : Match) : List (List Char) :=
  ((o.group? 1).map quotedTexts).getD []

/-- A tag of an option is a quoted text of its value, between two offsets of the text in which the
option stands. -/
structure TagIn (o : Match) (tag : List Char) (start stop : Nat) : Prop where
  nonempty : tag ≠ []
  quoted : ∃ value q raw, o.groups.lookup 1 = some value ∧ q ∈ quotedPattern.findAll value.text ∧
    q.group? 1 = some raw ∧ Text.trim raw = tag ∧
    value.start.offset + q.start.offset = start ∧ value.start.offset + q.stop.offset = stop

/-- A part of a text stands within an option. -/
def Within (start stop : Nat) (o : Match) : Prop :=
  o.start.offset ≤ start ∧ stop ≤ o.stop.offset

/-- The tags of an option are the quoted texts of its value. -/
theorem mem_tagsOfOption {o : Match} {tag : List Char} :
    tag ∈ tagsOfOption o ↔ ∃ start stop, TagIn o tag start stop := by
  unfold tagsOfOption Match.group?
  cases hvalue : o.groups.lookup 1 with
  | none =>
    refine iff_of_false List.not_mem_nil ?_
    rintro ⟨_, _, _, value, _, _, h, -⟩
    exact nomatch hvalue.symm.trans h
  | some value =>
    simp only [Option.map_some, Option.getD_some, quotedTexts, List.mem_filter, List.mem_filterMap,
      Option.map_eq_some_iff, Bool.not_eq_true', List.isEmpty_eq_false_iff]
    constructor
    · rintro ⟨⟨q, hq, raw, hraw, rfl⟩, hne⟩
      exact ⟨_, _, hne, value, q, raw, hvalue, hq, hraw, rfl, rfl, rfl⟩
    · rintro ⟨_, _, hne, value', q, raw, hvalue', hq, hraw, rfl, -⟩
      obtain rfl := Option.some.inj (hvalue.symm.trans hvalue')
      exact ⟨⟨q, hq, raw, hraw, rfl⟩, hne⟩

/-- The value of an option stands at its end. -/
theorem exists_value_of_matchAt? {c : Cursor} {o : Match}
    (h : tagOptionPattern.matchAt? c = some o) :
    ∃ value w, o.groups.lookup 1 = some value ∧ c.offset ≤ value.start.offset ∧
      value.start.Moves w value.stop ∧ value.stop = o.stop := by
  obtain ⟨t, ht, rfl⟩ := exists_mem_ends_of_matchAt? h
  obtain ⟨r, hr, hgroup⟩ := mem_ends_append.1 ht
  obtain ⟨u, hu, rfl⟩ := mem_ends_group.1 hgroup
  obtain ⟨v, -, hmoves, -⟩ := ends_spec _ _ r hr
  obtain ⟨w, -, hmoves', -⟩ := ends_spec _ r u hu
  refine ⟨⟨r.cursor, u.cursor⟩, w, List.lookup_cons_self, ?_, hmoves', rfl⟩
  rw [hmoves.offset]
  exact Nat.le_add_right _ _

/-- The tags of an option stand within it. -/
theorem TagIn.within {o : Match} {tag : List Char} {start stop : Nat} (h : TagIn o tag start stop)
    (ho : tagOptionPattern.matchAt? o.start = some o) : Within start stop o := by
  obtain ⟨-, value, q, raw, hlookup, hq, -, -, rfl, rfl⟩ := h
  obtain ⟨value', w, hlookup', hstart, hmoves, hstop⟩ := exists_value_of_matchAt? ho
  obtain rfl := Option.some.inj (hlookup.symm.trans hlookup')
  obtain ⟨hin, hat⟩ := of_mem_findAll hq
  obtain ⟨-, v, hv, -⟩ := moves_of_matchAt? hat
  -- The quoted text ends within the value, which ends with the option.
  have htext : value.text = w := hmoves.textTo
  have hend := (hv.isIn hin).offset_le
  have hoffset := hmoves.offset
  rw [htext] at hend
  rw [hstop] at hoffset
  exact ⟨Nat.le_add_right_of_le hstart, by omega⟩

/-- A tag does not end before it starts. -/
theorem TagIn.start_le_stop {o : Match} {tag : List Char} {start stop : Nat}
    (h : TagIn o tag start stop) : start ≤ stop := by
  obtain ⟨-, value, q, raw, -, hq, -, -, rfl, rfl⟩ := h
  obtain ⟨-, v, hv, -⟩ := moves_of_matchAt? (of_mem_findAll hq).2
  rw [hv.offset]
  omega

/-! ## The option that is read -/

section
variable {settings : Settings} {s : SourceText} {l : Located} {o : Match}

/-- The option that is read is the first one, whatever region it stands in. -/
theorem readOption?_eq_some_iff :
    readOption? settings s l = some o ↔ FirstOption settings s l o := by
  unfold readOption?
  constructor
  · intro h
    obtain ⟨hin, hat⟩ := of_mem_findAll (List.mem_of_mem_head? h)
    refine ⟨⟨hin, hat⟩, fun o' ho' => Nat.le_of_not_lt fun hlt => ?_⟩
    have hrest := rest_ne_nil_of_matchAt? rfl ho'.matched
    exact nomatch (matchAt?_eq_none_of_find? h ho'.isIn hrest hlt).symm.trans ho'.matched
  · rintro ⟨ho, hfirst⟩
    refine find?_eq_some_of_first ho.isIn (rest_ne_nil_of_matchAt? rfl ho.matched) ho.matched
      fun d hd hlt => Option.eq_none_iff_forall_ne_some.2 fun o' ho' => ?_
    obtain rfl := (moves_of_matchAt? ho').1
    exact Nat.not_lt.2 (hfirst o' ⟨hd, ho'⟩) hlt

/-- The tags that are read from the options of a declaration are those of its first option. -/
theorem mem_optionTags {tag : List Char} :
    tag ∈ optionTags s.chars l.declaration.titleEnd (optionsEnd settings s l) ↔
      ∃ o, FirstOption settings s l o ∧ tag ∈ tagsOfOption o := by
  have hread : optionTags s.chars l.declaration.titleEnd (optionsEnd settings s l) =
      ((readOption? settings s l).map tagsOfOption).getD [] := by
    unfold optionTags readOption? optionsText SourceText.slice
    cases Text.slice? s.chars l.declaration.titleEnd (optionsEnd settings s l) with
    | none => rfl
    | some text =>
      rw [Option.getD_some]
      show tagsOfHead text = _
      unfold tagsOfHead
      cases tagOptionPattern.find? text with
      | none => rfl
      | some o =>
        show _ = tagsOfOption o
        unfold tagsOfOption
        rw [Option.bind_some]
        cases o.group? 1 <;> rfl
  rw [hread]
  simp only [← readOption?_eq_some_iff]
  cases readOption? settings s l with
  | none => simp
  | some o => simp

/-- Adding tags leaves those that are there and adds the others. -/
theorem mem_addTags {tags more : List (List Char)} {tag : List Char} :
    tag ∈ addTags tags more ↔ tag ∈ tags ∨ tag ∈ more := by
  unfold addTags
  induction more generalizing tags with
  | nil => simp
  | cons t more ih =>
    rw [List.foldl_cons, ih, List.mem_cons, ← or_assoc]
    refine or_congr_left ?_
    split_ifs with hcontains
    · rw [List.contains_iff_mem] at hcontains
      exact ⟨.inl, fun h => h.elim id (· ▸ hcontains)⟩
    · rw [List.mem_append, List.mem_singleton]

variable {file : String} {index : Nat} {m : Metadata}

/-- The tags of a test are those of its first option and those that its documentation lists. -/
theorem mem_tags_iff (hm : metadataAt? settings file s (l, index) = some m) {tag : List Char} :
    String.ofList tag ∈ m.tags.getD [] ↔
      (∃ o, FirstOption settings s l o ∧ tag ∈ tagsOfOption o) ∨ tag ∈ documentedTags s l := by
  have htags : m.tags.getD [] = (tagsOf settings s l
      (docOf s (docComments s.regions s.chars) l.declaration)).map String.ofList := by
    obtain ⟨id, -, rfl⟩ := Option.map_eq_some_iff.1 hm
    simp only [metadataOf]
    cases tagsOf settings s l (docOf s (docComments s.regions s.chars) l.declaration) <;> rfl
  rw [htags, List.mem_map_of_injective fun _ _ => String.ofList_injective, ← mem_optionTags, tagsOf,
    documentedTags]
  cases (docOf s (docComments s.regions s.chars) l.declaration).bind (·.section? "tags") with
  | none => simp
  | some listed => exact mem_addTags

end

/-! ## Tags from code only -/

section
variable (settings : Settings) (s : SourceText) (l : Located)

/-- Between two offsets there is nothing of an option outside code. -/
def InCodeOnly (start stop : Nat) : Prop :=
  ∀ o, IsTagOption settings s l o → ¬ OptionInCode s l o → ¬ Within start stop o

/-- The tags `m` of a declaration come from options in code, but for those that its documentation
lists. -/
structure TagsFromCode (m : Metadata) : Prop where
  /-- A tag that the documentation does not list is one of an option in code. -/
  origin : ∀ tag, String.ofList tag ∈ m.tags.getD [] → tag ∉ documentedTags s l →
    ∃ o, IsTagOption settings s l o ∧ OptionInCode s l o ∧ tag ∈ tagsOfOption o
  /-- An option outside code adds nothing: no tag that is read stands within one. -/
  silent : ∀ o tag start stop, FirstOption settings s l o → TagIn o tag start stop →
    InCodeOnly settings s l start stop
  /-- An option outside code keeps none in code from being read. -/
  unhidden : ∀ o o', FirstOption settings s l o → IsTagOption settings s l o' →
    OptionInCode s l o' → OptionInCode s l o

end

section
variable {settings : Settings} {s : SourceText} {l : Located}

/-- The options of a declaration lie between the end of its title and the end of its options. -/
theorem optionsText_isPart {o : Match} (ho : IsTagOption settings s l o) :
    ∃ u v, s.chars = u ++ (optionsText settings s l ++ v) ∧
      Text.byteLength u = l.declaration.titleEnd ∧
      l.declaration.titleEnd + Text.byteLength (optionsText settings s l) =
        optionsEnd settings s l := by
  have hne : optionsText settings s l ≠ [] := by
    intro hnil
    have hrest := rest_ne_nil_of_matchAt? rfl ho.matched
    have htext := ho.isIn.text_eq
    rw [hnil] at htext
    exact hrest (List.append_eq_nil_iff.1 htext).2
  unfold optionsText SourceText.slice at hne ⊢
  cases hslice : Text.slice? s.chars l.declaration.titleEnd (optionsEnd settings s l) with
  | none => exact absurd (by rw [hslice]; rfl) hne
  | some text => exact Text.exists_of_slice? hslice

/-- The tags of a test are those of its first option and those that its documentation lists. They come
from code only exactly if the first option stands in code, and none of its tags within an option
outside code, or it has no tags at all and no option is in code. -/
theorem tags_fromCode_iff {file : String} {index : Nat} {m : Metadata}
    (hm : metadataAt? settings file s (l, index) = some m) :
    (∀ tag, String.ofList tag ∈ m.tags.getD [] ↔
      (∃ o, FirstOption settings s l o ∧ tag ∈ tagsOfOption o) ∨ tag ∈ documentedTags s l) ∧
    (∀ o, IsTagOption settings s l o → ∃ u v,
      s.chars = u ++ (optionsText settings s l ++ v) ∧
        Text.byteLength u = l.declaration.titleEnd ∧
        l.declaration.titleEnd + Text.byteLength (optionsText settings s l) =
          optionsEnd settings s l) ∧
    (TagsFromCode settings s l m ↔ ∀ o, FirstOption settings s l o →
      (OptionInCode s l o ∧
        ∀ tag start stop, TagIn o tag start stop → InCodeOnly settings s l start stop) ∨
      (tagsOfOption o = [] ∧ ∀ o', IsTagOption settings s l o' → ¬ OptionInCode s l o')) := by
  refine ⟨fun tag => mem_tags_iff hm, fun o ho => optionsText_isPart ho, ?_⟩
  constructor
  · intro h o ho
    by_cases hcode : OptionInCode s l o
    · exact .inl ⟨hcode, fun tag start stop => h.silent o tag start stop ho⟩
    · refine .inr ⟨List.eq_nil_iff_forall_not_mem.2 fun tag htag => ?_, fun o' ho' hcode' =>
        hcode (h.unhidden o o' ho ho' hcode')⟩
      -- A tag of the option stands within the option itself.
      obtain ⟨start, stop, hin⟩ := mem_tagsOfOption.1 htag
      exact h.silent o tag start stop ho hin o ho.isOption hcode (hin.within ho.isOption.matched)
  · intro h
    refine ⟨fun tag htag hlisted => ?_, fun o tag start stop ho hin => ?_,
      fun o o' ho ho' hcode' => ?_⟩
    · obtain ⟨o, ho, htag⟩ := ((mem_tags_iff hm).1 htag).resolve_right hlisted
      rcases h o ho with ⟨hcode, -⟩ | ⟨hnone, -⟩
      · exact ⟨o, ho.isOption, hcode, htag⟩
      · exact absurd htag (hnone ▸ List.not_mem_nil)
    · rcases h o ho with ⟨-, hinside⟩ | ⟨hnone, -⟩
      · exact hinside tag start stop hin
      · exact absurd (mem_tagsOfOption.2 ⟨start, stop, hin⟩) (hnone ▸ List.not_mem_nil)
    · rcases h o ho with ⟨hcode, -⟩ | ⟨-, hnone⟩
      · exact hcode
      · exact absurd hcode' (hnone o' ho')

end

/-- A comment behind the option of a test does no harm. -/
theorem tags_fromCode_iff_behind :
    let settings : Settings := ⟨⟨"TC".toList⟩, 500⟩
    let s : SourceText := .ofChars "it('TC-1', \x7b tag: '@a' /* tag: '@b' */ \x7d)".toList
    let l : Located := ⟨⟨0, 9, .it, none, "TC-1".toList⟩, some "TC-1".toList, none, none⟩
    (located settings s)[0]? = some l ∧
      ∃ m, metadataAt? settings "a.spec.ts" s (l, 0) = some m ∧ m.tags = some ["@a"] ∧
        TagsFromCode settings s l m := by
  intro settings s l
  have hl : (located settings s)[0]? = some l := by decide +kernel
  have hmeta : (metadataAt? settings "a.spec.ts" s (l, 0)).map (·.tags) = some (some ["@a"]) := by
    decide +kernel
  obtain ⟨m, hm, htags⟩ := Option.map_eq_some_iff.1 hmeta
  have hread : (readOption? settings s l).all fun o =>
      s.region (l.declaration.titleEnd + o.start.offset) == .code && o.stop.offset ≤ 13 := by
    decide +kernel
  have hothers : ∀ c ∈ Cursor.positions (optionsText settings s l),
      (tagOptionPattern.matchAt? c).isSome →
        s.region (l.declaration.titleEnd + c.offset) = .code ∨ 13 < c.offset := by
    decide +kernel
  refine ⟨hl, m, hm, htags, (tags_fromCode_iff hm).2.2.2 fun o ho => .inl ?_⟩
  rw [readOption?_eq_some_iff.2 ho, Option.all_some, Bool.and_eq_true, beq_iff_eq,
    decide_eq_true_eq] at hread
  refine ⟨hread.1, fun tag start stop hin o' ho' hcode hwithin => ?_⟩
  -- The option in the comment starts behind the one that is read.
  have hbehind := (hothers _ ho'.isIn.mem_positions (by rw [ho'.matched]; rfl)).resolve_left hcode
  have hle := hin.start_le_stop
  obtain ⟨-, hstop⟩ := hin.within ho.isOption.matched
  obtain ⟨hstart, -⟩ := hwithin
  omega

/-- Tags do not always come from code only: an option in a comment is read in place of the one in code
behind it. -/
theorem not_forall_tagsFromCode :
    ¬ ∀ (settings : Settings) (file : String) (s : SourceText) (l : Located) (index : Nat)
      (m : Metadata), (located settings s)[index]? = some l →
      metadataAt? settings file s (l, index) = some m → TagsFromCode settings s l m := by
  intro h
  let settings : Settings := ⟨⟨"TC".toList⟩, 500⟩
  let s : SourceText := .ofChars "it('TC-1', \x7b /* tag: '@b' */ tag: '@a' \x7d)".toList
  let l : Located := ⟨⟨0, 9, .it, none, "TC-1".toList⟩, some "TC-1".toList, none, none⟩
  have hl : (located settings s)[0]? = some l := by decide +kernel
  have hmeta : (metadataAt? settings "a.spec.ts" s (l, 0)).map (·.tags) = some (some ["@b"]) := by
    decide +kernel
  obtain ⟨m, hm, htags⟩ := Option.map_eq_some_iff.1 hmeta
  have hcode : ∀ c ∈ Cursor.positions (optionsText settings s l),
      ∀ o ∈ tagOptionPattern.matchAt? c,
        s.region (l.declaration.titleEnd + o.start.offset) = .code →
          "@b".toList ∉ tagsOfOption o := by
    decide +kernel
  obtain ⟨o, ho, hin, htag⟩ := (h settings "a.spec.ts" s l 0 m hl hm).origin "@b".toList
    (by rw [htags]; decide) (by decide +kernel)
  exact hcode _ ho.isIn.mem_positions o ho.matched hin htag

end ManifestSync.Scan
