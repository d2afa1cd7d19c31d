import Mathlib.Data.List.Sections
import LineDiagram.Proofs.DefaultStyles
import LineDiagram.Proofs.EdgeView

/-!
# Spellings of line styles

A line style in front of a colour is found whatever its case, and then kept in
lower case.  These are two notions of case.  For the first one a long s is an s
and both Turkish letters are an i; the second one leaves the long s and the
dotless i as they are, and makes two characters of the dotted I.  So there are
spellings that are found as a line style and kept as a word that is none.  A
line style that stands alone or behind a width is put into lower case first, and
has no such spellings.

* `Text.mem_spellings` — all ways to write a word when case is ignored;
* `Border.lower_mem_iff` — they become the word in lower case exactly if they
  are in ASCII;
* `Border.style_ofPart_iff`, `Border.style_ofParts_iff` — when the style that is
  read is one of the four;
* `Border.mem_of_style_ofParts` — which other words can be read;
* `styles_known_iff` — the style words of a graph.
-/

namespace LineDiagram

/-! ## Words in any case -/

namespace Text

/-- What a small letter may be written as when case is ignored. -/
def anyCase (letter : Char) : List Char := anyCaseLetters.filter (isLetterAnyCase letter)

/-- All ways to write a word when case is ignored. -/
def spellings (word : Text) : List Text := (word.map anyCase).sections

/-- A word is found at the start of a text letter by letter. -/
theorem letters_of_splitWordAnyCase? {word t written rest : Text}
    (h : splitWordAnyCase? word t = some (written, rest)) :
    List.Forall₂ (fun letter c => isLetterAnyCase letter c = true) word written := by
  unfold splitWordAnyCase? at h
  dsimp only at h
  split at h
  · rename_i hmatch
    simp only [Option.some.injEq, Prod.mk.injEq] at h
    rw [h.1, Bool.and_eq_true, beq_iff_eq] at hmatch
    rw [List.forall₂_iff_zip]
    exact ⟨hmatch.1.symm, fun hpair => List.all_eq_true.mp hmatch.2 _ hpair⟩
  · cases h

/-- **A word at the start of a text** is one of its spellings.  There are
finitely many of these, so what is said of all of them can be decided. -/
theorem mem_spellings {word t written rest : Text} (hword : word ⊆ smallLetters)
    (h : splitWordAnyCase? word t = some (written, rest)) : written ∈ spellings word := by
  have hletters := letters_of_splitWordAnyCase? h
  unfold spellings
  rw [List.mem_sections, List.forall₂_map_right_iff]
  clear h
  induction hletters with
  | nil => exact .nil
  | cons hletter _ ih =>
      rw [List.cons_subset] at hword
      refine .cons ?_ (ih hword.2)
      exact List.mem_filter.mpr ⟨mem_anyCaseLetters hword.1 hletter, hletter⟩

/-- In ASCII a letter in any case is the letter in lower case; beyond it there
are letters that fold to one of ASCII. -/
theorem lowerChar_of_isLetterAnyCase {letter c : Char} (hletter : letter ∈ smallLetters)
    (hc : c.toNat < 0x80) (h : isLetterAnyCase letter c = true) : lowerChar c = letter := by
  have hsmall : (smallLetters.all fun x => lowerChar x == x) = true := by decide
  simp only [isLetterAnyCase, Bool.or_eq_true, Bool.and_eq_true, beq_iff_eq, decide_eq_true_eq] at h
  rcases h with (((rfl | ⟨-, hlower⟩) | ⟨-, hs⟩) | ⟨-, hk⟩) | ⟨-, hi | hi⟩
  · simpa using List.all_eq_true.mp hsmall c hletter
  · exact hlower
  all_goals omega

/-- **A spelling becomes its word in lower case** exactly if it is in ASCII.
The letters beyond ASCII that match have lower-case forms of their own, the
Kelvin sign apart. -/
theorem lower_spelling_iff {word t written rest : Text} (hword : word ⊆ smallLetters)
    (hascii : ∀ x ∈ word, x.toNat < 0x80 ∧ x ≠ 'k')
    (h : splitWordAnyCase? word t = some (written, rest)) :
    lower written = word ↔ ∀ c ∈ written, c.toNat < 0x80 := by
  constructor
  · intro hlower
    exact ascii_of_lower (hlower ▸ hascii)
  · intro hlow
    rw [lower_of_ascii hlow]
    have hletters := letters_of_splitWordAnyCase? h
    clear h
    induction hletters with
    | nil => rfl
    | cons hletter _ ih =>
        rw [List.cons_subset] at hword
        rw [List.forall_mem_cons] at hascii hlow
        rw [List.map_cons, lowerChar_of_isLetterAnyCase hword.1 hlow.1 hletter,
          ih hword.2 hascii.2 hlow.2]

end Text

namespace Border

/-! ## One part of a border -/

/-- A line style in any case becomes a line style in lower case exactly if it is
in ASCII. -/
theorem lower_mem_iff {name t written after : Text} (hname : name ∈ lineStyles)
    (hsplit : Text.splitWordAnyCase? name t = some (written, after)) :
    Text.lower written ∈ lineStyles ↔ ∀ c ∈ written, c.toNat < 0x80 := by
  obtain ⟨-, hletters, hascii⟩ := lineStyles_spec name hname
  constructor
  · intro hmem
    exact Text.ascii_of_lower (lineStyles_spec _ hmem).2.2
  · intro hlow
    rwa [(Text.lower_spelling_iff hletters hascii hsplit).mpr hlow]

/-- A text that starts with a line style in any case, in which a letter is
beyond ASCII, and goes on behind a blank. -/
def StartsMisspelt (t : Text) : Prop :=
  ∃ name ∈ lineStyles, ∃ written after, Text.splitWordAnyCase? name (Text.trim t) =
    some (written, after) ∧
    Follows after ∧ ∃ c ∈ written, 0x80 ≤ c.toNat

/-- A text with a line style in front has this line style, because it is no
other part of a border. -/
theorem style_of_styleAndRest? {t style rest : Text}
    (h : styleAndRest? (Text.trim t) = some (style, rest)) : (ofPart t).style = some style := by
  obtain ⟨word, hwords, hrest, -, hletters, -⟩ := words_of_styleAndRest? h
  have hfull : (ofText (Text.trim t)).isEmpty = true := by
    by_contra hfull
    obtain ⟨width, _, _, hwords', hwidth, -⟩ := full_iff.mp (Bool.eq_false_iff.mpr hfull)
    rw [hwords, List.cons.injEq] at hwords'
    exact not_letters_of_width? hwidth (hwords'.1 ▸ hletters)
  have hsolid : ¬ ∀ c ∈ Text.trim t, Colour.isWordChar c = true := by
    intro hall
    have hsingle :=
      Text.words_of_solid (t := Text.trim t) ?_ fun c hc =>
        Colour.not_blank_of_isWordChar (hall c hc)
    · rw [hwords, List.cons.injEq] at hsingle
      exact hrest hsingle.2
    · intro hnil
      rw [hnil] at hwords
      cases hwords
  have hwidth : width? (Text.trim t) = none := by
    rw [← Option.not_isSome_iff_eq_none]
    exact fun hsome => hsolid (of_width? hsome).2
  have hstyle : Text.lower (Text.trim t) ∉ lineStyles := fun hmem => hsolid (of_lineStyle hmem).2.2
  unfold ofPart
  simp [hfull, hwidth, hstyle, h]

/-- The line style of a part is one of the four, unless it was found in front of
something else. -/
theorem mem_or_of_style_ofPart {t style : Text} (h : (ofPart t).style = some style) :
    style ∈ lineStyles ∨ ∃ rest, styleAndRest? (Text.trim t) = some (style, rest) := by
  unfold ofPart at h
  dsimp only at h
  split at h
  · exact Or.inl (style_ofText h)
  · split at h
    · cases h
    · split at h
      · rename_i hstyle
        cases h
        exact Or.inl (List.contains_iff_mem.mp hstyle)
      · split at h
        · rename_i found rest hfound
          cases h
          exact Or.inr ⟨rest, hfound⟩
        · cases h

/-- **When a part has one of the four line styles**, or none: exactly if it does
not start with a misspelt one that has something behind it. -/
theorem style_ofPart_iff (t : Text) :
    (∀ style ∈ (ofPart t).style, style ∈ lineStyles) ↔ ¬ StartsMisspelt t := by
  constructor
  · rintro hall ⟨name, hname, written, after, hsplit, hfollows, c, hc, hhigh⟩
    have hstyle := style_of_styleAndRest? (styleAndRest?_eq hname hsplit hfollows)
    have hlow := (lower_mem_iff hname hsplit).mp (hall _ hstyle) c hc
    omega
  · intro hspelt style hstyle
    rcases mem_or_of_style_ofPart hstyle with hmem | ⟨rest, hfound⟩
    · exact hmem
    · obtain ⟨name, hname, written, after, hsplit, hfollows, rfl, -⟩ := styleAndRest?_eq_some hfound
      rw [lower_mem_iff hname hsplit]
      intro c hc
      by_contra hhigh
      exact hspelt ⟨name, hname, written, after, hsplit, hfollows, c, hc, Nat.le_of_not_lt hhigh⟩

/-- What is kept of line styles in which a letter is beyond ASCII: a long s for
the s, a dotless i for the i, or the two characters of a dotted I. -/
def misspelt : List Text := ["ſolid", "solıd", "ſolıd", "soli\u0307d", "ſoli\u0307d", "daſhed"]

/-- However a line style is written when case is ignored, its lower-case form is
a line style or one of the misspelt ones.  There are finitely many ways, and all
are tried. -/
private theorem lower_spellings : (lineStyles.all fun name =>
    (Text.spellings name).all fun written => (lineStyles ++ misspelt).contains
    (Text.lower written)) = true := by
  decide +kernel

/-- **What can be read as a line style**: the four, and six more words, which
come from letters beyond ASCII. -/
theorem mem_of_style_ofPart {t style : Text} (h : (ofPart t).style = some style) :
    style ∈ lineStyles ++ misspelt := by
  rcases mem_or_of_style_ofPart h with hmem | ⟨rest, hfound⟩
  · exact List.mem_append_left _ hmem
  · obtain ⟨name, hname, written, after, hsplit, -, rfl, -⟩ := styleAndRest?_eq_some hfound
    have hspelling := Text.mem_spellings (lineStyles_spec name hname).2.1 hsplit
    exact List.contains_iff_mem.mp
      (List.all_eq_true.mp (List.all_eq_true.mp lower_spellings name hname) written hspelling)

/-! ## Several parts -/

/-- The part that decides the line style: the first one that has a line
style. -/
def stylePart? (parts : List Text) : Option Text :=
  parts.find? fun part => (ofPart part).style.isSome

/-- The line style of several parts is that of the first part that has one. -/
theorem style_ofParts_eq (parts : List Text) :
    (ofParts parts).style = (stylePart? parts).bind fun part => (ofPart part).style := by
  induction parts with
  | nil => rfl
  | cons part parts ih =>
      rw [ofParts_cons]
      unfold stylePart? at ih ⊢
      cases hstyle : (ofPart part).style with
      | some style => simp [orElse, hstyle]
      | none => simp [orElse, hstyle, ih]

/-- **The line style of several parts** is one of the four exactly if the part
that decides it does not start with a misspelt one. -/
theorem style_ofParts_iff (parts : List Text) :
    (∀ style ∈ (ofParts parts).style, style ∈ lineStyles) ↔
      ∀ part ∈ stylePart? parts, ¬ StartsMisspelt part := by
  rw [style_ofParts_eq]
  cases hpart : stylePart? parts with
  | none => simp
  | some part => simpa using style_ofPart_iff part

/-- In any case it is one of the four, or one of the misspelt ones with a letter
that only folds to the right one. -/
theorem mem_of_style_ofParts {parts : List Text} {style : Text}
    (h : (ofParts parts).style = some style) :
    style ∈ lineStyles ++ misspelt := by
  rw [style_ofParts_eq] at h
  obtain ⟨part, -, hpart⟩ := Option.bind_eq_some_iff.mp h
  exact mem_of_style_ofPart hpart

end Border

/-! ## Style words of a graph -/

/-- The words that a style is meant to hold. -/
def knownStyles : List Text := Border.lineStyles ++ ["filled".toList, "rounded".toList]

/-- Style words stay among those that a style is meant to hold when one of these
is added. -/
theorem known_addStyle {styles : List Text} {word : Option Text}
    (hstyles : ∀ w ∈ styles, w ∈ knownStyles)
    (hword : ∀ w ∈ word, w ∈ knownStyles) : ∀ w ∈ addStyle styles word, w ∈ knownStyles := by
  have htrim : (knownStyles.all fun w => Text.trim w == w) = true := by decide
  intro w hw
  rcases mem_addStyle.mp hw with hold | ⟨hne, rfl⟩
  · exact hstyles w hold
  · cases word with
    | none => exact absurd rfl hne
    | some word =>
        have hmem := hword word rfl
        have htight : Text.trim word = word := by simpa using List.all_eq_true.mp htrim word hmem
        rwa [Option.getD_some, htight]

/-- The words that are given to a node at one place are among them. -/
theorem StyleWords.Has.known {given : StyleWords} {word : Text} (h : given.Has word) :
    word ∈ knownStyles := by
  rcases h with ⟨rfl, -⟩ | ⟨rfl, -⟩ | hline
  · decide
  · decide
  · exact List.mem_append_left _ (given.line_mem word hline)

/-- So are the words of all its definitions, laid over each other. -/
theorem NodeStyle.known_lay (defined : List Definition) :
    ∀ word ∈ (NodeStyle.lay {} defined).styles, word ∈ knownStyles := by
  intro word hword
  obtain ⟨d, -, hgives⟩ := (mem_styles_lay defined word).mp hword
  rcases hgives with hsettings | hbracket
  · exact hsettings.known
  · exact hbracket.known

/-- So are the words of a box, whatever its bracket holds. -/
theorem BoxStyle.known_ofInner (inner : Text) :
    ∀ word ∈ (BoxStyle.ofInner inner).styles, word ∈ knownStyles := by
  rw [styles_ofInner]
  apply known_addStyle
  · apply known_addStyle
    · simp [knownStyles]
    · split
      · simp
      · simp [knownStyles]
  · exact fun word hword => List.mem_append_left _ (Border.style_ofText hword)

/-- The texts of a bracket that are read as the border of an edge. -/
def Bracket.borderTexts (bracket : Bracket) : List Text :=
  if (bracket.get "border").isEmpty then bracket.loose else [bracket.get "border"]

namespace EdgeStyle

/-- The border of an edge is the only source of its style words, so it has at
most one of them. -/
theorem styles_ofInner? (font : Text) (inner : Option Text) :
    (ofInner? font inner).styles =
      (Border.ofParts (Bracket.ofInner? inner).borderTexts).style.toList := by
  cases inner with
  | none => rfl
  | some inner =>
      obtain ⟨parts, hparts⟩ := Bracket.exists_ofParts (some inner)
      have hborder : borderOf parts = Border.ofParts (Bracket.ofParts parts).borderTexts := by
        unfold borderOf Bracket.borderTexts
        rw [Bracket.get_ofParts, Bracket.loose_ofParts]
        split
        · rfl
        · rw [Border.ofParts_singleton]
      have hline := (sameLine_ofParts font parts).2.2
      rw [hborder, styles_ofBorder fun _ => Border.style_ofParts] at hline
      rw [hparts, ← hline, ← hparts]
      rfl

/-- The style words of an edge are known exactly if its line style is one of the
four. -/
theorem known_ofInner?_iff (font : Text) (inner : Option Text) :
    (∀ word ∈ (ofInner? font inner).styles, word ∈ knownStyles) ↔
      ∀ part ∈
        Border.stylePart? (Bracket.ofInner? inner).borderTexts, ¬ Border.StartsMisspelt part := by
  have hapart : (Border.misspelt.all fun word => !knownStyles.contains word) = true := by decide
  rw [styles_ofInner?, ← Border.style_ofParts_iff]
  constructor
  · intro hknown style hstyle
    rcases List.mem_append.mp (Border.mem_of_style_ofParts hstyle) with hline | hmisspelt
    · exact hline
    · have hnot := List.all_eq_true.mp hapart style hmisspelt
      have hmem := hknown style (Option.mem_toList.mpr hstyle)
      simp [hmem] at hnot
  · intro hlines word hword
    exact List.mem_append_left _ (hlines word (Option.mem_toList.mp hword))

end EdgeStyle

/-- **The line styles that are read.**  A border in full has one of the four
line styles or none.  A part of a border does exactly if it does not start with
a line style that is written with a letter beyond ASCII, and several parts do
exactly if this holds of the part that decides; otherwise one of six more words
is read.  In the graph of any document the style words of nodes and boxes are
the four line styles, `filled` and `rounded`; those of an edge are exactly if
the border of its bracket is not misspelt. -/
theorem styles_known_iff (t : Text) (parts : List Text) (font : Option Text) :
    (∀ style ∈ (Border.ofText t).style, style ∈ Border.lineStyles) ∧
    ((∀ style ∈ (Border.ofPart t).style, style ∈ Border.lineStyles) ↔ ¬ Border.StartsMisspelt t) ∧
    (∀ style ∈ (Border.ofParts parts).style, style ∈ Border.lineStyles ++ Border.misspelt) ∧
    ((∀ style ∈ (Border.ofParts parts).style, style ∈ Border.lineStyles) ↔
      ∀ part ∈ Border.stylePart? parts, ¬ Border.StartsMisspelt part) ∧
    ∃ g, (compile t font).graph = some g ∧
      (∀ n ∈ g.nodes, ∀ word ∈ n.style.styles, word ∈ knownStyles) ∧
      (∀ b ∈ g.boxes, ∀ word ∈ b.style.styles, word ∈ knownStyles) ∧
      ∀ e ∈ g.edges, ∃ raw sources targets bracket, (Document.split t)[e.line - 1]? = some raw ∧
        Line.contentOfRaw raw = .edge sources targets bracket ∧
        ((∀ word ∈ e.style.styles, word ∈ knownStyles) ↔
          ∀ part ∈
            Border.stylePart? (Bracket.ofInner? bracket).borderTexts,
            ¬ Border.StartsMisspelt part) := by
  refine ⟨fun style => Border.style_ofText, Border.style_ofPart_iff t,
    fun style => Border.mem_of_style_ofParts,
    Border.style_ofParts_iff parts, _, graph_compile t font, ?_, ?_, ?_⟩
  · intro n hn
    rw [Draft.style_ofLines _ _ hn]
    exact NodeStyle.known_lay _
  · intro b hb
    rw [Draft.boxStyles_ofLines _ _ b hb]
    exact BoxStyle.known_ofInner b.inner
  · intro e he
    obtain ⟨index, raw, sources, targets, bracket, hraw, hcontent, source, -, target, -, rfl⟩ :=
      Draft.exists_edgeLine _ he
    exact ⟨raw, sources, targets, bracket, hraw, hcontent, EdgeStyle.known_ofInner?_iff _ bracket⟩

/-- A long s stays in the line style of a part and of an edge. -/
theorem long_s_kept :
    (¬ ∀ t, ∀ style ∈ (Border.ofPart t).style, style ∈ Border.lineStyles) ∧
    ¬ ∀ (t : Text) (font : Option Text) (g : Graph), (compile t font).graph = some g →
      ∀ e ∈ g.edges, ∀ word ∈ e.style.styles, word ∈ knownStyles := by
  have hpart : (Border.ofPart "ſolid red").style = some "ſolid".toList := by decide +kernel
  have hedge :
      ((compile "A -> B [ſolid red]" none).graph.map fun g => g.edges.map fun e => e.style.styles) =
      some [["ſolid".toList]] := by decide +kernel
  refine ⟨fun hall => absurd (hall _ _ hpart) (by decide), fun hall => ?_⟩
  obtain ⟨g, hg, hstyles⟩ := Option.map_eq_some_iff.mp hedge
  obtain ⟨e, he, hword⟩ := List.mem_map.mp (hstyles ▸ List.mem_singleton_self _)
  exact absurd (hall _ _ g hg e he "ſolid" (hword ▸ List.mem_singleton_self _)) (by decide)

end LineDiagram
