import LineDiagram.Border
import LineDiagram.Proofs.ColourForms

/-!
# Reading borders

A border in full and a part of a border are read by different rules.  Widths and
line styles are words, and a line style is found at the start of a text only
where a blank follows it.

* `ofParts_cons`, `ofParts_append` — several parts, of which the first decides;
* `ofPart_of_full` — a border in full is the same wherever it stands;
* `of_width?`, `of_lineStyle` — the characters of a width and of a line style;
* `styleAndRest?_of_lineStyle`, `words_of_styleAndRest?` — a line style before
  another text;
* `full_iff`, `isPart_iff` — which texts are a border in full, and which are
  part of one.
-/

namespace LineDiagram.Border

theorem eq_of_isEmpty {b : Border} (h : b.isEmpty = true) : b = {} := by
  obtain ⟨width, style, colour⟩ := b
  simp only [isEmpty, Bool.and_eq_true, Option.isNone_iff_eq_none] at h
  obtain ⟨⟨rfl, rfl⟩, rfl⟩ := h
  rfl

/-- What is no part of a border sets nothing, so such parts can be left out. -/
theorem ofPart_eq_empty {part : Text} (h : isPart part = false) : ofPart part = {} := by
  apply eq_of_isEmpty
  simpa [isPart] using h

/-! ## Several parts -/

theorem orElse_assoc (a b c : Border) : (a.orElse b).orElse c = a.orElse (b.orElse c) := by
  simp [orElse, Option.or_assoc]

@[simp] theorem empty_orElse (b : Border) : orElse {} b = b := rfl

@[simp] theorem orElse_empty (b : Border) : b.orElse {} = b := by
  simp [orElse]

/-- The first part goes first: what it sets is not changed by the others. -/
theorem ofParts_cons (part : Text) (parts : List Text) :
    ofParts (part :: parts) = (ofPart part).orElse (ofParts parts) := by
  have hfold : ∀ (parts : List Text) (found : Border),
      parts.foldl (fun found part => found.orElse (ofPart part)) found =
        found.orElse (ofParts parts) := by
    intro parts
    induction parts with
    | nil => exact fun found => (orElse_empty found).symm
    | cons part parts ih =>
        intro found
        have hparts : ofParts (part :: parts) = (ofPart part).orElse (ofParts parts) := by
          unfold ofParts
          rw [List.foldl_cons, ih, empty_orElse]
          rfl
        rw [List.foldl_cons, ih, hparts, orElse_assoc]
  unfold ofParts
  rw [List.foldl_cons, hfold, empty_orElse]
  rfl

theorem ofParts_singleton (part : Text) : ofParts [part] = ofPart part := by
  rw [ofParts_cons]
  exact orElse_empty _

theorem ofParts_append (parts others : List Text) :
    ofParts (parts ++ others) = (ofParts parts).orElse (ofParts others) := by
  induction parts with
  | nil => rfl
  | cons part parts ih => rw [List.cons_append, ofParts_cons, ih, ofParts_cons, orElse_assoc]

/-- Parts set nothing exactly if none of them is part of a border. -/
theorem ofParts_eq_empty_iff {parts : List Text} :
    ofParts parts = {} ↔ ∀ part ∈ parts, isPart part = false := by
  induction parts with
  | nil => simp [ofParts]
  | cons part parts ih =>
      have hpart : ofPart part = {} ↔ isPart part = false := by
        refine ⟨fun h => ?_, ofPart_eq_empty⟩
        unfold isPart
        rw [h]
        rfl
      have helse : ∀ a b : Border, a.orElse b = {} ↔ a = {} ∧ b = {} := by
        rintro ⟨_ | w, _ | s, _ | c⟩ ⟨_ | w', _ | s', _ | c'⟩ <;> simp [orElse]
      rw [ofParts_cons, helse, hpart, ih, List.forall_mem_cons]

/-! ## Borders in full -/

/-- Blanks around a border in full do not matter. -/
theorem ofText_trim (t : Text) : ofText (Text.trim t) = ofText t := by
  unfold ofText
  rw [Text.words_trim]

/-- A border in full is the same wherever it stands: as a setting, behind a key
or as a part. -/
theorem ofPart_of_full {t : Text} (h : (ofText t).isEmpty = false) : ofPart t = ofText t := by
  unfold ofPart
  dsimp only
  rw [ofText_trim, h]
  rfl

/-- A border in full has a width and a line style; the colour may be missing. -/
theorem exists_of_full {t : Text} (h : (ofText t).isEmpty = false) :
    ∃ width style, (ofText t).width = some width ∧ (ofText t).style = some style ∧
      style ∈ lineStyles := by
  unfold ofText at h ⊢
  split
  · split
    · dsimp only
      split
      · rename_i hstyle
        exact ⟨_, _, rfl, rfl, List.contains_iff_mem.mp hstyle⟩
      · simp_all [isEmpty]
    · simp_all [isEmpty]
  · simp_all [isEmpty]

/-- The line style of a border in full is one of the four. -/
theorem style_ofText {t style : Text} (h : (ofText t).style = some style) : style ∈ lineStyles := by
  cases hempty : (ofText t).isEmpty with
  | true =>
      rw [eq_of_isEmpty hempty] at h
      cases h
  | false =>
      obtain ⟨-, found, -, hfound, hline⟩ := exists_of_full hempty
      rw [hfound, Option.some.injEq] at h
      exact h ▸ hline

/-- The colour of a border in full is not empty. -/
theorem colour_ofText {t colour : Text} (h : (ofText t).colour = some colour) : colour ≠ [] := by
  unfold ofText at h
  split at h
  · split at h
    · dsimp only at h
      split at h
      · dsimp only at h
        split at h
        · cases h
        · rename_i hfilled
          cases h
          apply Colour.normalize_ne_nil
          rw [Text.trim_trim]
          simpa using hfilled
      · cases h
    · cases h
  · cases h

/-- A line style is a word. -/
theorem word_of_mem : ∀ {style : Text}, style ∈ lineStyles →
    Text.trim style = style ∧ style ≠ [] := by
  decide

/-! ## Words of a border -/

open Colour (isWordChar)

/-- A digit can stand in a word. -/
private theorem isWordChar_of_isDigit {c : Char} (h : Text.isDigit c = true) :
    isWordChar c = true := by
  have hblanks : (Text.blanks.all fun x => !Text.isDigit x) = true := by decide +kernel
  by_contra hno
  simp only [isWordChar, Bool.and_eq_true, Bool.not_eq_true', bne_iff_ne, not_and_or, not_not,
    Bool.not_eq_false] at hno
  have hdigit : Text.isDigit c = false := by
    rcases hno with (hblank | rfl) | rfl
    · simpa using List.all_eq_true.mp hblanks c (Text.mem_blanks hblank)
    · decide
    · decide
  rw [hdigit] at h
  cases h

private theorem isWordChar_of_letter : ∀ c ∈ Text.anyCaseLetters, isWordChar c = true :=
  List.all_eq_true.mp (by decide)

theorem letter_not_blank {c : Char} (h : c ∈ Text.anyCaseLetters) : Text.isBlank c = false :=
  Colour.not_blank_of_isWordChar (isWordChar_of_letter c h)

/-- A width is a word that starts with a digit.  Therefore it is no line style
and no name of a colour. -/
theorem of_width? {t : Text} (h : (width? t).isSome) :
    (∃ c ∈ t, Text.isDigit c = true) ∧ ∀ c ∈ t, isWordChar c = true := by
  have hunit : t.dropWhile Text.isDigit ⊆ Text.anyCaseLetters ∧ t.takeWhile Text.isDigit ≠ [] := by
    unfold width? at h
    dsimp only at h
    split at h
    · cases h
    · rename_i hdigits
      refine ⟨?_, by simpa using hdigits⟩
      split at h
      · rename_i written rest hsplit
        obtain ⟨hunit, -, hletters, -⟩ := Text.of_splitWordAnyCase? (by decide) hsplit
        cases rest with
        | nil => rwa [hunit, List.append_nil]
        | cons c rest => cases h
      · split at h
        · rename_i hnil
          rw [List.isEmpty_iff.mp hnil]
          exact List.nil_subset _
        · cases h
  have hsplit := List.takeWhile_append_dropWhile (p := Text.isDigit) (l := t)
  constructor
  · obtain ⟨c, hc⟩ := List.exists_mem_of_ne_nil _ hunit.2
    exact ⟨c, hsplit ▸ List.mem_append_left _ hc, List.mem_takeWhile_imp hc⟩
  · intro c hc
    rw [← hsplit] at hc
    rcases List.mem_append.mp hc with hdigit | hletter
    · exact isWordChar_of_isDigit (List.mem_takeWhile_imp hdigit)
    · exact isWordChar_of_letter c (hunit.1 hletter)

/-- Line styles are words of small letters without a k, whose capital has a
second form beyond ASCII. -/
theorem lineStyles_spec : ∀ style ∈ lineStyles,
    style ≠ [] ∧ style ⊆ Text.smallLetters ∧ ∀ c ∈ style, c.toNat < 0x80 ∧ c ≠ 'k' := by
  have hall : (lineStyles.all fun style => !style.isEmpty && style.all fun c =>
      Text.smallLetters.contains c && decide (c.toNat < 0x80) && c != 'k') = true := by decide
  intro style hstyle
  have hletters := List.all_eq_true.mp hall style hstyle
  simp only [Bool.and_eq_true, Bool.not_eq_true', List.isEmpty_eq_false_iff, List.all_eq_true,
    List.contains_iff_mem, decide_eq_true_eq, bne_iff_ne] at hletters
  exact ⟨hletters.1, fun c hc => (hletters.2 c hc).1.1,
    fun c hc => ⟨(hletters.2 c hc).1.2, (hletters.2 c hc).2⟩⟩

/-- A line style is made of letters. -/
theorem of_lineStyle {t : Text} (h : Text.lower t ∈ lineStyles) :
    t ≠ [] ∧ t ⊆ Text.anyCaseLetters ∧ ∀ c ∈ t, isWordChar c = true := by
  obtain ⟨hne, hletters, hascii⟩ := lineStyles_spec _ h
  have hword := Text.splitWordAnyCase?_of_lower rfl hascii []
  obtain ⟨-, hlength, hsubset, -⟩ := Text.of_splitWordAnyCase? hletters hword
  refine ⟨?_, hsubset, fun c hc => isWordChar_of_letter c (hsubset hc)⟩
  rintro rfl
  exact hne rfl

/-- A width is not made of letters. -/
theorem not_letters_of_width? {t : Text} (h : (width? t).isSome) : ¬ t ⊆ Text.anyCaseLetters := by
  have hletters : (Text.anyCaseLetters.all fun c => !Text.isDigit c) = true := by decide +kernel
  intro hsubset
  obtain ⟨⟨c, hc, hdigit⟩, -⟩ := of_width? h
  have hno := List.all_eq_true.mp hletters c (hsubset hc)
  rw [hdigit] at hno
  cases hno

/-! ## A style before something else -/

/-- What may follow a line style: a blank and, on its line, something else. -/
structure Follows (after : Text) : Prop where
  /-- It starts with a blank. -/
  blank : ∃ c more, after = c :: more ∧ Text.isBlank c = true
  /-- It does not consist of blanks. -/
  filled : ¬ Text.AllBlank after
  /-- What follows the blanks is on one line. -/
  one_line : '\n' ∉ Text.trimStart after

/-- The test of what follows a line style says what `Follows` says: a blank at
least, then something, and no line feed. -/
private theorem follows_iff {after : Text} :
    (after.length != (Text.trimStart after).length && !(Text.trimStart after).isEmpty &&
      !(Text.trimStart after).contains '\n') = true ↔ Follows after := by
  have hblank : after.length ≠ (Text.trimStart after).length ↔
      ∃ c more, after = c :: more ∧ Text.isBlank c = true := by
    cases after with
    | nil => simp [Text.trimStart]
    | cons c more =>
        cases hc : Text.isBlank c with
        | true =>
            have hshort : (Text.trimStart more).length ≤ more.length :=
              (List.dropWhile_sublist _).length_le
            have hdrop : Text.trimStart (c :: more) = Text.trimStart more :=
              List.dropWhile_cons_of_pos hc
            rw [hdrop, List.length_cons]
            exact ⟨fun _ => ⟨c, more, rfl, hc⟩, fun _ => by omega⟩
        | false =>
            rw [Text.trimStart_of_head hc]
            refine ⟨fun hne => absurd rfl hne, ?_⟩
            rintro ⟨c', more', heq, hc'⟩
            cases heq
            rw [hc] at hc'
            cases hc'
  simp only [Bool.and_eq_true, bne_iff_ne, ne_eq, Bool.not_eq_true', List.isEmpty_eq_false_iff,
    List.contains_eq_mem, decide_eq_false_iff_not]
  constructor
  · rintro ⟨⟨hlength, hne⟩, hline⟩
    exact ⟨hblank.mp hlength, fun hall => hne (Text.trimStart_eq_nil.mpr hall), hline⟩
  · rintro ⟨hstart, hfilled, hline⟩
    exact ⟨⟨hblank.mpr hstart, fun hnil => hfilled (Text.trimStart_eq_nil.mp hnil)⟩, hline⟩

/-- What it means that a part is cut into a line style and the rest: one of the
four names stands in front, in any case of letters, and something follows it. -/
theorem styleAndRest?_eq_some {t style rest : Text} (h : styleAndRest? t = some (style, rest)) :
    ∃ name ∈ lineStyles, ∃ written after, Text.splitWordAnyCase? name t = some (written, after) ∧
      Follows after ∧ style = Text.lower written ∧ rest = Text.trim after := by
  unfold styleAndRest? at h
  obtain ⟨name, hname, hfound⟩ := List.exists_of_findSome?_eq_some h
  split at hfound
  · rename_i written after hsplit
    dsimp only at hfound
    split at hfound
    · rename_i hfollows
      simp only [Option.some.injEq, Prod.mk.injEq] at hfound
      refine ⟨name, hname, written, after, hsplit, follows_iff.mp hfollows, hfound.1.symm, ?_⟩
      rw [← hfound.2]
      unfold Text.trim Text.trimStart
      rw [List.dropWhile_idempotent]
    · cases hfound
  · cases hfound

/-- Where a name stands in front and something follows, the part is cut in this
way. -/
theorem isSome_styleAndRest? {t name written after : Text} (hname : name ∈ lineStyles)
    (hsplit : Text.splitWordAnyCase? name t = some (written, after)) (hfollows : Follows after) :
    (styleAndRest? t).isSome := by
  unfold styleAndRest?
  rw [List.findSome?_isSome_iff]
  refine ⟨name, hname, ?_⟩
  rw [hsplit]
  dsimp only
  rw [if_pos (follows_iff.mpr hfollows)]
  rfl

/-- The word in front of the first blank is the line style, whatever name it was
found by. -/
theorem styleAndRest?_eq {t name written after : Text} (hname : name ∈ lineStyles)
    (hsplit : Text.splitWordAnyCase? name t = some (written, after)) (hfollows : Follows after) :
    styleAndRest? t = some (Text.lower written, Text.trim after) := by
  obtain ⟨⟨style, rest⟩, hfound⟩ :=
    Option.isSome_iff_exists.mp (isSome_styleAndRest? hname hsplit hfollows)
  obtain ⟨name', hname', written', after', hsplit', hfollows', rfl, rfl⟩ :=
    styleAndRest?_eq_some hfound
  obtain ⟨hcut, -, hletters, -⟩ := Text.of_splitWordAnyCase? (lineStyles_spec name hname).2.1 hsplit
  obtain ⟨hcut', -, hletters', -⟩ :=
    Text.of_splitWordAnyCase? (lineStyles_spec name' hname').2.1 hsplit'
  obtain ⟨c, more, rfl, hc⟩ := hfollows.blank
  obtain ⟨c', more', rfl, hc'⟩ := hfollows'.blank
  obtain ⟨rfl, hafter⟩ := Text.cut_unique (fun x hx => letter_not_blank (hletters hx))
    (fun x hx => letter_not_blank (hletters' hx)) hc hc' (hcut.symm.trans hcut')
  rw [hfound, hafter]

/-- A line style at the start of a text is its first word, and the words of the
rest follow it. -/
theorem words_of_styleAndRest? {t style rest : Text} (h : styleAndRest? t = some (style, rest)) :
    ∃ word, Text.words t = word :: Text.words rest ∧ Text.words rest ≠ [] ∧ word ≠ [] ∧
      word ⊆ Text.anyCaseLetters ∧ style = Text.lower word := by
  obtain ⟨name, hname, written, after, hsplit, hfollows, hstyle, rfl⟩ := styleAndRest?_eq_some h
  obtain ⟨rfl, hlength, hletters, -⟩ :=
    Text.of_splitWordAnyCase? (lineStyles_spec name hname).2.1 hsplit
  have hne : written ≠ [] := by
    rintro rfl
    exact (lineStyles_spec name hname).1 (List.length_eq_zero_iff.mp hlength.symm)
  have hsolid : ∀ x ∈ written, Text.isBlank x = false := fun x hx => letter_not_blank (hletters hx)
  refine ⟨written, ?_, ?_, hne, hletters, hstyle⟩
  · obtain ⟨c, more, rfl, hc⟩ := hfollows.blank
    rw [Text.words_append_cons hc, Text.words_of_solid hne hsolid, Text.words_trim,
      ← List.singleton_append (l := more), Text.words_blank_append (Text.allBlank_singleton hc)]
    rfl
  · rw [Text.words_trim]
    exact Text.words_ne_nil hfollows.filled

/-- A line style before another text on its line is cut off at the blank between
them. -/
theorem styleAndRest?_of_lineStyle {t rest : Text} (ht : Text.lower t ∈ lineStyles)
    (htight : Text.Tight rest) (hne : rest ≠ []) (hline : '\n' ∉ rest) :
    styleAndRest? (t ++ ' ' :: rest) = some (Text.lower t, rest) := by
  have hspace : Text.isBlank ' ' = true := by decide
  have hdrop : Text.trimStart (' ' :: rest) = rest :=
    (Text.trimStart_of_blank_append (Text.allBlank_singleton hspace) rest).trans
      (Text.trimStart_eq_self htight.start)
  have hfollows : Follows (' ' :: rest) := by
    refine ⟨⟨' ', rest, rfl, hspace⟩, ?_, by rwa [hdrop]⟩
    rw [← Text.trimStart_eq_nil, hdrop]
    exact hne
  obtain ⟨-, -, hascii⟩ := lineStyles_spec _ ht
  have htrim : Text.trim (' ' :: rest) = rest := by
    unfold Text.trim
    rw [hdrop, Text.trimEnd_eq_self htight.stop]
  have hsplit := Text.splitWordAnyCase?_of_lower rfl hascii (' ' :: rest)
  rw [styleAndRest?_eq ht hsplit hfollows, htrim]

/-! ## What is a part of a border -/

/-- **When a text is a border in full**: its first two words are a width and a
line style. -/
theorem full_iff {t : Text} :
    (ofText t).isEmpty = false ↔
      ∃ width style rest, Text.words t = width :: style :: rest ∧ (width? width).isSome ∧
        Text.lower style ∈ lineStyles := by
  unfold ofText
  constructor
  · intro h
    split at h
    · rename_i width style colour hwords
      split at h
      · rename_i w hwidth
        dsimp only at h
        split at h
        · rename_i hstyle
          exact ⟨width, style, colour, hwords, by rw [hwidth]; rfl, List.contains_iff_mem.mp hstyle⟩
        · cases h
      · cases h
    · cases h
  · rintro ⟨width, style, rest, hwords, hwidth, hstyle⟩
    obtain ⟨w, hw⟩ := Option.isSome_iff_exists.mp hwidth
    rw [hwords]
    dsimp only
    rw [hw]
    dsimp only
    rw [if_pos (List.contains_iff_mem.mpr hstyle)]
    rfl

/-- **When a text is part of a border.**  It is a border in full, or a width, or
a line style, or a line style with something behind it, or a colour; each of
these is one branch of the reader. -/
theorem isPart_iff {t : Text} :
    isPart t = true ↔
      (ofText (Text.trim t)).isEmpty = false ∨ (width? (Text.trim t)).isSome ∨
        Text.lower (Text.trim t) ∈ lineStyles ∨ (styleAndRest? (Text.trim t)).isSome ∨
        (Colour.resolve? (Text.trim t)).isSome := by
  unfold isPart ofPart
  dsimp only
  cases hfull : (ofText (Text.trim t)).isEmpty with
  | false => simp [hfull]
  | true =>
      cases hwidth : width? (Text.trim t) with
      | some w => simp [isEmpty]
      | none =>
          by_cases hstyle : Text.lower (Text.trim t) ∈ lineStyles
          · simp [hstyle, isEmpty]
          · cases hrest : styleAndRest? (Text.trim t) with
            | some found => simp [hstyle, isEmpty]
            | none => simp [hstyle, isEmpty, colour?]

/-- The line style of a part is a word. -/
theorem style_ofPart {t style : Text} (h : (ofPart t).style = some style) :
    Text.trim style = style ∧ style ≠ [] := by
  unfold ofPart at h
  dsimp only at h
  split at h
  · exact word_of_mem (style_ofText h)
  · split at h
    · cases h
    · split at h
      · rename_i hstyle
        cases h
        exact word_of_mem (List.contains_iff_mem.mp hstyle)
      · split at h
        · rename_i found rest hfound
          cases h
          obtain ⟨word, -, -, hne, hletters, rfl⟩ := words_of_styleAndRest? hfound
          obtain ⟨hfilled, hsolid⟩ := Text.solid_lower hne hletters
          exact ⟨Text.trim_of_tight (Text.tight_of_solid hsolid), hfilled⟩
        · cases h

/-- A line style that is read from parts is a word: it is not empty and has no
blanks around it. -/
theorem style_ofParts {parts : List Text} {style : Text} (h : (ofParts parts).style = some style) :
    Text.trim style = style ∧ style ≠ [] := by
  induction parts with
  | nil => cases h
  | cons part parts ih =>
      rw [ofParts_cons] at h
      cases hstyle : (ofPart part).style with
      | some found =>
          have heq : found = style := by simpa [orElse, hstyle] using h
          exact style_ofPart (heq ▸ hstyle)
      | none => exact ih (by simpa [orElse, hstyle] using h)

/-- An empty part says nothing. -/
theorem ofPart_nil : ofPart [] = {} := by
  apply ofPart_eq_empty
  have hempty : (ofText []).isEmpty = true := rfl
  have hwidth : width? [] = none := rfl
  have hstyle : Text.lower [] ∉ lineStyles := by decide
  have hrest : styleAndRest? [] = none := rfl
  rw [← Bool.not_eq_true, isPart_iff, Text.trim_nil, hempty, hwidth, hrest, Colour.resolve?_nil]
  simp [hstyle]

end LineDiagram.Border
