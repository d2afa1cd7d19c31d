import LineDiagram.Proofs.BorderText

/-!
# Borders that are put together

The parts of a border may stand apart, where the first that sets something
decides it, or in one text, where they are read from left to right: a width
counts only before a line style, and what follows a line style is one colour.
So texts that are joined are not read as they are read apart.

A piece is a width, a line style or a colour, and a row is several pieces with
blanks between them.

* `Piece.ofPart_text` — a piece by itself;
* `ofPart_width_style`, `ofPart_width_other`, `ofPart_style`, `ofPart_colour` —
  a row of two pieces or more, by the pieces it starts with;
* `ofPart_row_iff` — a row is read as its pieces are exactly if they stand in
  order;
* `ofPart_rows_iff` — the same for rows that are joined.
-/

namespace LineDiagram.Border

open Colour (isWordChar)

/-! ## Pieces -/

/-- What a piece of a border sets. -/
inductive Kind where
  | width
  | style
  | colour
deriving DecidableEq, Repr

/-- What a text sets that is one piece of a border.  The words of a colour have
one blank between them. -/
def kind? (t : Text) : Option Kind :=
  if (width? t).isSome then some .width
  else if lineStyles.contains (Text.lower t) then some .style
  else if (Colour.resolve? t).isSome && Text.join " " (Text.words t) == t then some .colour
  else none

/-- A text that is one piece of a border. -/
structure Piece where
  /-- Text. -/
  text : Text
  /-- What it sets. -/
  kind : Kind
  /-- The text sets it. -/
  spelled : kind? text = some kind

namespace Piece

/-- What a piece sets, as a border. -/
def border (p : Piece) : Border :=
  match p.kind with
  | .width => { width := width? p.text }
  | .style => { style := some (Text.lower p.text) }
  | .colour => { colour := some (Colour.normalize p.text) }

/-- A piece that is a width is read as one. -/
theorem isSome_width? {p : Piece} (h : p.kind = .width) : (width? p.text).isSome := by
  have hkind := p.spelled
  unfold kind? at hkind
  rw [h] at hkind
  split at hkind
  · assumption
  · split at hkind
    · cases hkind
    · split at hkind <;> cases hkind

/-- A piece that is a line style is not read as a width, and it is one of the
four styles in any case of letters. -/
theorem lineStyle {p : Piece} (h : p.kind = .style) :
    width? p.text = none ∧ Text.lower p.text ∈ lineStyles := by
  have hkind := p.spelled
  unfold kind? at hkind
  rw [h] at hkind
  split at hkind
  · cases hkind
  · rename_i hwidth
    split at hkind
    · rename_i hstyle
      exact ⟨by simpa using hwidth, List.contains_iff_mem.mp hstyle⟩
    · split at hkind <;> cases hkind

/-- A piece that is a colour is read neither as a width nor as a line style.  It
may be several words, with one blank between any two of them. -/
theorem colour {p : Piece} (h : p.kind = .colour) :
    width? p.text = none ∧ Text.lower p.text ∉ lineStyles ∧ (Colour.resolve? p.text).isSome ∧
      Text.join " " (Text.words p.text) = p.text := by
  have hkind := p.spelled
  unfold kind? at hkind
  rw [h] at hkind
  split at hkind
  · cases hkind
  · rename_i hwidth
    split at hkind
    · cases hkind
    · rename_i hstyle
      split at hkind
      · rename_i hcolour
        rw [Bool.and_eq_true, beq_iff_eq] at hcolour
        exact ⟨by simpa using hwidth, by simpa using hstyle, hcolour⟩
      · cases hkind

/-- A width or a line style is a word. -/
theorem wordChars {p : Piece} (h : p.kind ≠ .colour) : ∀ c ∈ p.text, isWordChar c = true := by
  cases hkind : p.kind with
  | width => exact (of_width? (isSome_width? hkind)).2
  | style => exact (of_lineStyle (lineStyle hkind).2).2.2
  | colour => exact absurd hkind h

/-- No piece is empty, since it says something. -/
theorem text_ne_nil (p : Piece) : p.text ≠ [] := by
  cases hkind : p.kind with
  | width =>
      obtain ⟨⟨c, hc, -⟩, -⟩ := of_width? (isSome_width? hkind)
      exact List.ne_nil_of_mem hc
  | style => exact (of_lineStyle (lineStyle hkind).2).1
  | colour =>
      intro hnil
      have hcolour := (colour hkind).2.2.1
      rw [hnil, Colour.resolve?_nil] at hcolour
      cases hcolour

theorem words_of_ne {p : Piece} (h : p.kind ≠ .colour) : Text.words p.text = [p.text] :=
  Text.words_of_solid p.text_ne_nil fun c hc => Colour.not_blank_of_isWordChar (wordChars h c hc)

/-- The words of a piece have one blank between them.  So a piece can be put
together again from its words. -/
theorem join_words (p : Piece) : Text.join " " (Text.words p.text) = p.text := by
  by_cases h : p.kind = .colour
  · exact (colour h).2.2.2
  · rw [words_of_ne h]
    simp [Text.join]

theorem words_ne_nil (p : Piece) : Text.words p.text ≠ [] := by
  intro hnil
  have hjoin := p.join_words
  rw [hnil] at hjoin
  exact p.text_ne_nil hjoin.symm

/-- A piece starts and ends with no blank, so blanks around it are those of the
row. -/
theorem tight (p : Piece) : Text.Tight p.text := by
  rw [← p.join_words]
  apply Text.tight_join
  intro word hword
  refine ⟨Text.tight_of_solid fun c hc => (Text.mem_of_mem_words hword hc).1, ?_⟩
  unfold Text.words at hword
  simpa using (List.mem_filter.mp hword).2

theorem one_line (p : Piece) : '\n' ∉ p.text := by
  rw [← p.join_words]
  apply Text.not_mem_join (by decide)
  intro word hword hmem
  exact absurd (Text.mem_of_mem_words hword hmem).1 (by decide)

/-- A colour is one word, or a bracket opens in its first word.  This is how a
row tells a function with blanks in it from two pieces. -/
theorem first_word_of_colour {p : Piece} (h : p.kind = .colour) :
    Text.words p.text = [p.text] ∨ ∃ word others, Text.words p.text =
      word :: others ∧ '(' ∈ word := by
  rcases Colour.spelled_of_resolve? p.tight (colour h).2.2.1
    with ⟨head, inner, heq, hhead, -⟩ | hword
  · right
    have hsolid : ∀ c ∈ head ++ ['('], Text.isBlank c = false := by
      intro c hc
      rcases List.mem_append.mp hc with hc | hc
      · exact letter_not_blank (hhead hc)
      · rw [List.mem_singleton.mp hc]
        decide
    obtain ⟨more, others, hwords⟩ := Text.exists_word (by simp) hsolid (inner ++ [')'])
    refine ⟨head ++ ['('] ++ more, others, ?_, by simp⟩
    rw [heq, ← hwords]
    simp
  · exact Or.inl (Text.words_of_solid p.text_ne_nil fun c hc =>
      Colour.not_blank_of_isWordChar (hword c hc))

/-- **The first word of a piece** is a width only in a width, and a line style
only in a line style. -/
theorem first_word {p : Piece} {word : Text} {others : List Text}
    (h : Text.words p.text = word :: others) :
    ((width? word).isSome ↔ p.kind = .width) ∧
    (Text.lower word ∈ lineStyles ↔ p.kind = .style) := by
  have hsame : Text.words p.text = [p.text] → word = p.text := by
    intro hone
    rw [hone] at h
    cases h
    rfl
  cases hkind : p.kind with
  | width =>
      have hwidth := isSome_width? hkind
      rw [hsame (words_of_ne (by simp [hkind]))]
      have hstyle : Text.lower p.text ∉ lineStyles :=
        fun hin => not_letters_of_width? hwidth (of_lineStyle hin).2.1
      simp [hwidth, hstyle]
  | style =>
      obtain ⟨hwidth, hstyle⟩ := lineStyle hkind
      rw [hsame (words_of_ne (by simp [hkind]))]
      simp [hwidth, hstyle]
  | colour =>
      obtain ⟨hwidth, hstyle, -⟩ := colour hkind
      rcases first_word_of_colour hkind with hone | ⟨word', others', hwords, hparen⟩
      · rw [hsame hone]
        simp [hwidth, hstyle]
      · rw [hwords] at h
        cases h
        simp only [reduceCtorEq, iff_false]
        constructor
        · exact fun hsome => absurd ((of_width? hsome).2 '(' hparen) (by decide)
        · exact fun hin => absurd ((of_lineStyle hin).2.2 '(' hparen) (by decide)

end Piece

/-! ## Rows -/

/-- Pieces with blanks between them. -/
def rowText (pieces : List Piece) : Text := Text.join " " (pieces.map Piece.text)

theorem rowText_singleton (p : Piece) : rowText [p] = p.text := by
  simp [rowText, Text.join]

theorem rowText_cons_cons (p q : Piece) (rest : List Piece) :
    rowText (p :: q :: rest) = p.text ++ ' ' :: rowText (q :: rest) :=
  Text.join_space_cons _ _ _

theorem tight_rowText (pieces : List Piece) : Text.Tight (rowText pieces) := by
  apply Text.tight_join
  intro t ht
  obtain ⟨p, -, rfl⟩ := List.mem_map.mp ht
  exact ⟨p.tight, p.text_ne_nil⟩

theorem rowText_ne_nil {pieces : List Piece} (h : pieces ≠ []) : rowText pieces ≠ [] := by
  apply Text.join_ne_nil (by simpa using h)
  intro t ht
  obtain ⟨p, -, rfl⟩ := List.mem_map.mp ht
  exact p.text_ne_nil

theorem one_line_rowText (pieces : List Piece) : '\n' ∉ rowText pieces := by
  apply Text.not_mem_join (by decide)
  intro t ht
  obtain ⟨p, -, rfl⟩ := List.mem_map.mp ht
  exact p.one_line

/-- The words of a row are the words of its pieces, one after the other: no word
runs over the blank between two pieces. -/
theorem words_rowText (pieces : List Piece) :
    Text.words (rowText pieces) = (pieces.map fun p => Text.words p.text).flatten := by
  rw [rowText, Text.words_join, List.flatMap_def, List.map_map]
  rfl

/-- The first word of a row is that of its first piece, since pieces are divided
by blanks. -/
theorem exists_words_of_rowText {p : Piece} {rest : List Piece} {word : Text} {others : List Text}
    (h : Text.words (rowText (p :: rest)) = word :: others) :
    ∃ more, Text.words p.text = word :: more := by
  obtain ⟨first, more, hfirst⟩ := List.exists_cons_of_ne_nil p.words_ne_nil
  rw [words_rowText, List.map_cons, List.flatten_cons, hfirst] at h
  exact ⟨more, by rw [hfirst, (List.cons.inj h).1]⟩

/-- The words of a row have one blank between them. -/
theorem join_words_rowText (pieces : List Piece) :
    Text.join " " (Text.words (rowText pieces)) = rowText pieces := by
  rw [words_rowText, ← Text.join_flatten, List.map_map]
  · exact congrArg _ (List.map_congr_left fun p _ => p.join_words)
  · intro words hwords
    obtain ⟨p, -, rfl⟩ := List.mem_map.mp hwords
    exact p.words_ne_nil

section Long

variable {p q : Piece} {rest : List Piece}

/-- **A row of two pieces is no colour**: a bracket would have to open in one
piece and close in another. -/
theorem resolve?_rowText : Colour.resolve? (rowText (p :: q :: rest)) = none := by
  rw [← Option.not_isSome_iff_eq_none]
  intro hsome
  have hrow := rowText_cons_cons p q rest
  have hspace : ' ' ∈ rowText (p :: q :: rest) := by
    rw [hrow]
    simp
  rcases Colour.spelled_of_resolve? (tight_rowText _) hsome
    with ⟨head, inner, heq, hhead, hclose⟩ | hword
  · -- the first blank stands after the bracket that opens, so the first piece holds that
    obtain ⟨inside, hfirst⟩ : ∃ inside, p.text = head ++ '(' :: inside := by
      rw [hrow] at heq
      rcases List.append_eq_append_iff.mp heq with ⟨more, hhead', hmore⟩ | ⟨more, hfirst, hmore⟩
      · cases more with
        | nil => cases hmore
        | cons c more =>
            obtain ⟨rfl, -⟩ := List.cons.inj hmore
            exact absurd (hhead (show ' ' ∈ head by rw [hhead']; simp)) (by decide)
      · cases more with
        | nil => cases hmore
        | cons c more =>
            obtain ⟨rfl, -⟩ := List.cons.inj hmore
            exact ⟨more, hfirst⟩
    have hopen : '(' ∈ p.text := by
      rw [hfirst]
      simp
    have hnot : ')' ∉ p.text := by
      rw [hfirst, List.mem_append, List.mem_cons]
      rintro (hmem | hmem | hmem)
      · exact absurd (hhead hmem) (by decide)
      · exact absurd hmem (by decide)
      · apply hclose
        have hinner : inner ++ [')'] = inside ++ ' ' :: rowText (q :: rest) := by
          rw [hrow, hfirst, List.append_assoc, List.cons_append] at heq
          exact ((List.cons.inj (List.append_cancel_left heq)).2).symm
        have hdrop := congrArg List.dropLast hinner
        rw [List.dropLast_concat, List.dropLast_append_of_ne_nil (by simp)] at hdrop
        rw [hdrop]
        exact List.mem_append_left _ hmem
    by_cases hcolour : p.kind = .colour
    · rcases Colour.spelled_of_resolve? p.tight (Piece.colour hcolour).2.2.1 with
        ⟨head', inner', heq', -, -⟩ | hword
      · exact hnot (by rw [heq']; simp)
      · exact absurd (hword '(' hopen) (by decide)
    · exact absurd (Piece.wordChars hcolour '(' hopen) (by decide)
  · exact absurd (hword ' ' hspace) (by decide)

theorem width?_rowText : width? (rowText (p :: q :: rest)) = none := by
  rw [← Option.not_isSome_iff_eq_none]
  intro hsome
  exact absurd ((of_width? hsome).2 ' ' (by rw [rowText_cons_cons]; simp)) (by decide)

theorem not_lineStyle_rowText : Text.lower (rowText (p :: q :: rest)) ∉ lineStyles := by
  intro hstyle
  exact absurd ((of_lineStyle hstyle).2.2 ' ' (by rw [rowText_cons_cons]; simp)) (by decide)

/-- A row is a border in full exactly if it starts with a width and a line
style. -/
theorem full_rowText_iff :
    (ofText (rowText (p :: q :: rest))).isEmpty = false ↔ p.kind = .width ∧ q.kind = .style := by
  obtain ⟨word, others, hp⟩ := List.exists_cons_of_ne_nil p.words_ne_nil
  obtain ⟨word', others', hq⟩ := List.exists_cons_of_ne_nil q.words_ne_nil
  rw [full_iff, words_rowText, List.map_cons, List.map_cons, List.flatten_cons,
    List.flatten_cons, hp, hq]
  constructor
  · rintro ⟨width, style, more, hwords, hwidth, hstyle⟩
    simp only [List.cons_append, List.cons.injEq] at hwords
    obtain ⟨rfl, hwords⟩ := hwords
    have hkind := (Piece.first_word hp).1.mp hwidth
    rw [Piece.words_of_ne (by simp [hkind])] at hp
    cases hp
    cases hwords
    exact ⟨hkind, (Piece.first_word hq).2.mp hstyle⟩
  · rintro ⟨hwidth, hstyle⟩
    rw [Piece.words_of_ne (by simp [hwidth])] at hp
    cases hp
    exact ⟨p.text, word', _, rfl, Piece.isSome_width? hwidth, (Piece.first_word hq).2.mpr hstyle⟩

/-- A row that is no border in full draws nothing unless a line style is found
at its start. -/
theorem ofPart_rowText (h : ¬ (p.kind = .width ∧ q.kind = .style)) :
    (styleAndRest? (rowText (p :: q :: rest)) = none → ofPart (rowText (p :: q :: rest)) = {}) ∧
      ∀ style after, styleAndRest? (rowText (p :: q :: rest)) = some (style, after) →
        ofPart (rowText (p :: q :: rest)) = { style := some style, colour := colour? after } := by
  have hempty : (ofText (rowText (p :: q :: rest))).isEmpty = true := by
    rw [← Bool.not_eq_false]
    exact fun hfull => h (full_rowText_iff.mp hfull)
  have hstyle : lineStyles.contains (Text.lower (rowText (p :: q :: rest))) = false := by
    rw [← Bool.not_eq_true, List.contains_iff_mem]
    exact not_lineStyle_rowText
  unfold ofPart
  rw [Text.trim_of_tight (tight_rowText _)]
  dsimp only
  rw [hempty, width?_rowText, hstyle]
  constructor
  · intro hnone
    rw [hnone]
    simp [colour?, resolve?_rowText]
  · intro style after hsome
    rw [hsome]
    simp

end Long

/-! ## What a row draws -/

/-- A piece by itself is read as what it is: as a width, as a line style or as a
colour. -/
theorem Piece.ofPart_text (p : Piece) : ofPart p.text = p.border := by
  have hempty : (ofText p.text).isEmpty = true := by
    rw [← Bool.not_eq_false, full_iff]
    rintro ⟨width, style, rest, hwords, hwidth, -⟩
    have hkind := (Piece.first_word hwords).1.mp hwidth
    rw [Piece.words_of_ne (by simp [hkind])] at hwords
    cases hwords
  unfold ofPart Piece.border
  rw [Text.trim_of_tight p.tight]
  dsimp only
  rw [hempty]
  cases hkind : p.kind with
  | width =>
      obtain ⟨w, hw⟩ := Option.isSome_iff_exists.mp (Piece.isSome_width? hkind)
      simp [hw]
  | style =>
      obtain ⟨hwidth, hstyle⟩ := Piece.lineStyle hkind
      simp [hwidth, hstyle]
  | colour =>
      obtain ⟨hwidth, hstyle, hcolour, -⟩ := Piece.colour hkind
      have hnone : styleAndRest? p.text = none := by
        rw [← Option.not_isSome_iff_eq_none]
        intro hsome
        obtain ⟨⟨style, rest⟩, hfound⟩ := Option.isSome_iff_exists.mp hsome
        obtain ⟨word, hwords, hrest, -, hletters, -⟩ := words_of_styleAndRest? hfound
        rcases Piece.first_word_of_colour hkind with hone | ⟨word', others, hwords', hparen⟩
        · rw [hone] at hwords
          exact hrest (List.cons.inj hwords).2.symm
        · rw [hwords'] at hwords
          rw [(List.cons.inj hwords).1] at hparen
          exact absurd (hletters hparen) (by decide)
      simp [hwidth, hstyle, hnone, colour?, hcolour]

section Start

variable {p q : Piece}

/-- A width before a line style is a border in full, and all else is its
colour. -/
theorem ofPart_width_style (hp : p.kind = .width) (hq : q.kind = .style) (rest : List Piece) :
    ofPart (rowText (p :: q :: rest)) =
      { width := width? p.text, style := some (Text.lower q.text),
        colour := if rest = [] then none else some (Colour.normalize (rowText rest)) } := by
  obtain ⟨w, hw⟩ := Option.isSome_iff_exists.mp (Piece.isSome_width? hp)
  have hwords :
      Text.words (rowText (p :: q :: rest)) = p.text :: q.text :: Text.words (rowText rest) := by
    rw [words_rowText, words_rowText, List.map_cons, List.map_cons,
      List.flatten_cons, List.flatten_cons,
      Piece.words_of_ne (by simp [hp]), Piece.words_of_ne (by simp [hq])]
    rfl
  have hrest : (rowText rest).isEmpty = decide (rest = []) := by
    cases rest with
    | nil => rfl
    | cons r rest => simpa using rowText_ne_nil (List.cons_ne_nil r rest)
  rw [ofPart_of_full (full_rowText_iff.mpr ⟨hp, hq⟩)]
  unfold ofText
  rw [hwords]
  dsimp only
  rw [hw, join_words_rowText, Text.trim_of_tight (tight_rowText _), hrest]
  simp [(Piece.lineStyle hq).2]

/-- A width before anything else than a line style is not read, nor is what
follows it: together they are no border in full, no width, no line style and no
colour. -/
theorem ofPart_width_other (hp : p.kind = .width) (hq : q.kind ≠ .style) (rest : List Piece) :
    ofPart (rowText (p :: q :: rest)) = {} := by
  apply (ofPart_rowText fun h => hq h.2).1
  rw [← Option.not_isSome_iff_eq_none]
  intro hsome
  obtain ⟨⟨style, after⟩, hfound⟩ := Option.isSome_iff_exists.mp hsome
  obtain ⟨word, hwords, -, -, hletters, -⟩ := words_of_styleAndRest? hfound
  obtain ⟨others, hfirst⟩ := exists_words_of_rowText hwords
  exact not_letters_of_width? ((Piece.first_word hfirst).1.mpr hp) hletters

/-- All that follows a line style is its colour.  If it is none, the line style
is still read. -/
theorem ofPart_style (hp : p.kind = .style) (q : Piece) (rest : List Piece) :
    ofPart (rowText (p :: q :: rest)) =
      { style := some (Text.lower p.text), colour := colour? (rowText (q :: rest)) } := by
  apply (ofPart_rowText (by simp [hp])).2
  rw [rowText_cons_cons]
  exact styleAndRest?_of_lineStyle (Piece.lineStyle hp).2 (tight_rowText _)
    (rowText_ne_nil (List.cons_ne_nil q rest)) (one_line_rowText _)

/-- A row that starts with a colour has no colour, unless its first word is
taken for a line style that is none. -/
theorem ofPart_colour (hp : p.kind = .colour) (q : Piece) (rest : List Piece) :
    ofPart (rowText (p :: q :: rest)) = {} ∨
      ∃ style, (ofPart (rowText (p :: q :: rest))).style = some style ∧ style ∉ lineStyles := by
  have hfacts := @ofPart_rowText p q rest (by simp [hp])
  cases hfound : styleAndRest? (rowText (p :: q :: rest)) with
  | none => exact Or.inl (hfacts.1 hfound)
  | some found =>
      obtain ⟨style, after⟩ := found
      rw [hfacts.2 style after hfound]
      refine Or.inr ⟨style, rfl, ?_⟩
      obtain ⟨word, hwords, -, -, hletters, rfl⟩ := words_of_styleAndRest? hfound
      obtain ⟨others, hfirst⟩ := exists_words_of_rowText hwords
      rw [(Piece.first_word hfirst).2, hp]
      simp

end Start

/-! ## Pieces apart -/

/-- Pieces that are parts of their own are read one by one, and the first that
says something wins. -/
theorem ofParts_pieces (p : Piece) (rest : List Piece) :
    ofParts ((p :: rest).map Piece.text) = p.border.orElse (ofParts (rest.map Piece.text)) := by
  rw [List.map_cons, ofParts_cons, p.ofPart_text]

/-- Whether a border sets what a piece of a kind sets. -/
def sets (b : Border) : Kind → Bool
  | .width => b.width.isSome
  | .style => b.style.isSome
  | .colour => b.colour.isSome

theorem sets_orElse (a b : Border) (kind : Kind) :
    (a.orElse b).sets kind = (a.sets kind || b.sets kind) := by
  cases kind <;> simp [sets, orElse]

/-- A piece sets what it is, and nothing else. -/
theorem Piece.sets_border (p : Piece) (kind : Kind) : p.border.sets kind = (p.kind == kind) := by
  unfold Piece.border
  cases hkind : p.kind with
  | width =>
      obtain ⟨w, hw⟩ := Option.isSome_iff_exists.mp (Piece.isSome_width? hkind)
      cases kind <;> simp [sets, hw]
  | style => cases kind <;> simp [sets]
  | colour => cases kind <;> simp [sets]

/-- Pieces apart set what one of them sets, whatever their order is. -/
theorem sets_ofParts (pieces : List Piece) (kind : Kind) :
    (ofParts (pieces.map Piece.text)).sets kind = pieces.any fun p => p.kind == kind := by
  induction pieces with
  | nil => cases kind <;> rfl
  | cons p rest ih => rw [ofParts_pieces, sets_orElse, p.sets_border, ih, List.any_cons]

/-- A line style that is read from pieces is one of the four. -/
theorem lineStyle_ofParts {pieces : List Piece} {style : Text}
    (h : (ofParts (pieces.map Piece.text)).style = some style) : style ∈ lineStyles := by
  induction pieces with
  | nil => cases h
  | cons p rest ih =>
      rw [ofParts_pieces] at h
      unfold Piece.border at h
      cases hkind : p.kind with
      | width => exact ih (by simpa [orElse, hkind] using h)
      | style =>
          have hstyle : Text.lower p.text = style := by simpa [orElse, hkind] using h
          exact hstyle ▸ (Piece.lineStyle hkind).2
      | colour => exact ih (by simpa [orElse, hkind] using h)

/-- The colour of pieces apart is one. -/
theorem colour_ofParts {pieces : List Piece} {colour : Text}
    (h : (ofParts (pieces.map Piece.text)).colour = some colour) :
    (Colour.resolve? colour).isSome := by
  induction pieces with
  | nil => cases h
  | cons p rest ih =>
      rw [ofParts_pieces] at h
      unfold Piece.border at h
      cases hkind : p.kind with
      | width => exact ih (by simpa [orElse, hkind] using h)
      | style => exact ih (by simpa [orElse, hkind] using h)
      | colour =>
          have hcolour : Colour.normalize p.text = colour := by simpa [orElse, hkind] using h
          rw [← hcolour, Colour.resolve?_normalize]
          exact (Piece.colour hkind).2.2.1

/-! ## Order -/

/-- Whether pieces of these kinds are read in a row as they are read apart: a
width before a line style and perhaps a colour, a line style before a colour, a
single piece, or line styles only. -/
def inOrder : List Kind → Bool
  | [] => true
  | [_] => true
  | .width :: .style :: rest => rest == [] || rest == [.colour]
  | .style :: rest => rest == [.colour] || rest.all (· == .style)
  | _ => false

/-- A line style is no colour. -/
private theorem resolve?_of_lineStyle {t : Text} (h : Text.lower t ∈ lineStyles) :
    Colour.resolve? t = none := by
  have hnames : (Colour.named.all fun entry => !lineStyles.contains entry.1.toList) = true := by
    decide +kernel
  have hname : Colour.ofName? (Text.lower t) = none := by
    unfold Colour.ofName?
    rw [Option.map_eq_none_iff, List.find?_eq_none]
    intro entry hentry heq
    have hfree := List.all_eq_true.mp hnames entry hentry
    rw [eq_of_beq heq, List.contains_iff_mem.mpr h] at hfree
    cases hfree
  obtain ⟨-, hletters, hword⟩ := of_lineStyle h
  have htight : Text.Tight t := Text.tight_of_solid fun c hc => letter_not_blank (hletters hc)
  have hfunction : ¬ Colour.IsFunction t := by
    rintro ⟨head, inner, rfl, -⟩
    exact absurd (hword '(' (by simp)) (by decide)
  apply Colour.resolve?_eq_none
  · rw [Text.trim_of_tight htight]
    exact Option.not_isSome_iff_eq_none.mp fun hsome => hfunction (Colour.isFunction_of_rgb hsome)
  · rw [Text.trim_of_tight htight]
    rintro rest rfl
    exact absurd (hletters List.mem_cons_self) (by decide)
  · rw [Text.trim_of_tight htight]
    exact hname
  · rw [Text.trim_of_tight htight]
    exact Option.not_isSome_iff_eq_none.mp fun hsome => hfunction (Colour.isFunction_of_hsl hsome)

/-- After a width and a line style, only a colour is read as it is apart.  The
reader takes all the rest for the colour, and apart from each other several
pieces would be read one by one. -/
private theorem colour_row_iff (rest : List Piece) :
    (if rest = [] then none else some (Colour.normalize (rowText rest))) =
        (ofParts (rest.map Piece.text)).colour ↔
      rest.map Piece.kind = [] ∨ rest.map Piece.kind = [.colour] := by
  cases rest with
  | nil => simp [ofParts]
  | cons p rest =>
      rw [if_neg (List.cons_ne_nil p rest)]
      cases rest with
      | nil =>
          rw [rowText_singleton, ofParts_pieces]
          unfold Piece.border
          cases hkind : p.kind with
          | width => simp [orElse, ofParts, hkind]
          | style => simp [orElse, ofParts, hkind]
          | colour => simp [orElse, hkind]
      | cons q rest =>
          simp only [List.map_cons, List.cons_ne_nil, List.cons.injEq, and_false,
            or_self, iff_false]
          intro heq
          have hcolour := @colour_ofParts (p :: q :: rest) _ heq.symm
          rw [Colour.resolve?_normalize, resolve?_rowText] at hcolour
          cases hcolour

/-- After a line style, a colour or other line styles are read as they are
apart. -/
private theorem style_row_iff (q : Piece) (rest : List Piece) :
    ((ofParts ((q :: rest).map Piece.text)).width = none ∧
        (ofParts ((q :: rest).map Piece.text)).colour = colour? (rowText (q :: rest))) ↔
      (q :: rest).map Piece.kind = [.colour] ∨ ∀ p ∈ q :: rest, p.kind = .style := by
  cases rest with
  | nil =>
      rw [rowText_singleton, ofParts_pieces]
      unfold Piece.border
      cases hkind : q.kind with
      | width =>
          obtain ⟨w, hw⟩ := Option.isSome_iff_exists.mp (Piece.isSome_width? hkind)
          simp [orElse, hkind, hw]
      | style =>
          have hnone := resolve?_of_lineStyle (Piece.lineStyle hkind).2
          simp [orElse, ofParts, hkind, colour?, hnone]
      | colour => simp [orElse, ofParts, hkind, colour?, (Piece.colour hkind).2.2.1]
  | cons r rest =>
      have hnone : colour? (rowText (q :: r :: rest)) = none := by
        simp [colour?, resolve?_rowText]
      have hsets : ∀ kind, (ofParts ((q :: r :: rest).map Piece.text)).sets kind = false ↔
          ∀ p ∈ q :: r :: rest, p.kind ≠ kind := by
        intro kind
        rw [sets_ofParts, List.any_eq_false]
        simp only [beq_iff_eq]
      have hwidth := hsets .width
      have hcolour := hsets .colour
      simp only [sets, Option.isSome_eq_false_iff, Option.isNone_iff_eq_none] at hwidth hcolour
      rw [hnone, hwidth, hcolour]
      simp only [List.map_cons, List.cons.injEq, List.cons_ne_nil, and_false, false_or]
      constructor
      · rintro ⟨hwidth, hcolour⟩ p hp
        cases hkind : p.kind with
        | width => exact absurd hkind (hwidth p hp)
        | style => rfl
        | colour => exact absurd hkind (hcolour p hp)
      · intro hstyle
        constructor
        · intro p hp
          rw [hstyle p hp]
          decide
        · intro p hp
          rw [hstyle p hp]
          decide

section Apart

variable {p : Piece}

/-- **A row that starts with a width** is read like its pieces exactly if they
are in order. -/
private theorem row_width_iff (hp : p.kind = .width) (q : Piece) (rest : List Piece) :
    ofPart (rowText (p :: q :: rest)) = ofParts ((p :: q :: rest).map Piece.text) ↔
      inOrder ((p :: q :: rest).map Piece.kind) = true := by
  obtain ⟨w, hw⟩ := Option.isSome_iff_exists.mp (Piece.isSome_width? hp)
  rw [ofParts_pieces, Piece.border, hp]
  by_cases hq : q.kind = .style
  · rw [ofPart_width_style hp hq, ofParts_pieces, Piece.border, hq]
    simp only [List.map_cons, hp, hq, inOrder, Bool.or_eq_true, beq_iff_eq]
    rw [← colour_row_iff]
    simp [orElse, hw]
  · rw [ofPart_width_other hp hq]
    simp only [List.map_cons, hp]
    cases hkind : q.kind with
    | style => exact absurd hkind hq
    | width => simp [inOrder, orElse, hw]
    | colour => simp [inOrder, orElse, hw]

/-- **A row that starts with a line style** is read like its pieces exactly if
they are in order. -/
private theorem row_style_iff (hp : p.kind = .style) (q : Piece) (rest : List Piece) :
    ofPart (rowText (p :: q :: rest)) = ofParts ((p :: q :: rest).map Piece.text) ↔
      inOrder ((p :: q :: rest).map Piece.kind) = true := by
  have horder : inOrder ((p :: q :: rest).map Piece.kind) = true ↔
      (q :: rest).map Piece.kind = [.colour] ∨ ∀ r ∈ q :: rest, r.kind = .style := by
    simp only [List.map_cons, hp, inOrder, Bool.or_eq_true, beq_iff_eq,
      List.all_cons, Bool.and_eq_true,
      List.all_map, List.all_eq_true, Function.comp_apply, List.forall_mem_cons]
  rw [ofPart_style hp, ofParts_pieces, Piece.border, hp, horder, ← style_row_iff]
  simp [orElse, eq_comm]

/-- **A row that starts with a colour** and goes on is never read like its
pieces: all of it is taken for a colour, or for nothing. -/
private theorem row_colour_ne (hp : p.kind = .colour) (q : Piece) (rest : List Piece) :
    ofPart (rowText (p :: q :: rest)) ≠ ofParts ((p :: q :: rest).map Piece.text) := by
  rw [ofParts_pieces, Piece.border, hp]
  intro heq
  rcases ofPart_colour hp q rest with hempty | ⟨style, hstyle, hnot⟩
  · rw [hempty] at heq
    exact absurd (congrArg Border.colour heq) (by simp [orElse])
  · rw [heq] at hstyle
    exact hnot (@lineStyle_ofParts (q :: rest) style (by simpa [orElse] using hstyle))

end Apart

/-- **A row is read as its pieces are exactly if they stand in order.**  What
decides is the kind of the first piece: behind a width or a line style the rest
may still go wrong, and a colour in front spoils every row of two pieces or
more. -/
theorem ofPart_row_iff (pieces : List Piece) :
    ofPart (rowText pieces) = ofParts (pieces.map Piece.text) ↔
      inOrder (pieces.map Piece.kind) = true := by
  cases pieces with
  | nil => exact ⟨fun _ => rfl, fun _ => ofPart_nil⟩
  | cons p rest =>
      cases rest with
      | nil =>
          rw [rowText_singleton, List.map_singleton, ofParts_singleton]
          exact ⟨fun _ => rfl, fun _ => rfl⟩
      | cons q rest =>
          cases hp : p.kind with
          | width => exact row_width_iff hp q rest
          | style => exact row_style_iff hp q rest
          | colour =>
              refine ⟨fun heq => absurd heq (row_colour_ne hp q rest), fun horder => ?_⟩
              simp only [List.map_cons, hp, inOrder] at horder
              cases horder

/-- **Rows that are joined are read as they are apart exactly if all their
pieces stand in order.** -/
theorem ofPart_rows_iff {rows : List (List Piece)}
    (h : ∀ row ∈ rows, row ≠ [] ∧ inOrder (row.map Piece.kind) = true) :
    ofPart (Text.join " " (rows.map rowText)) = ofParts (rows.map rowText) ↔
      inOrder (rows.flatten.map Piece.kind) = true := by
  have htext : Text.join " " (rows.map rowText) = rowText rows.flatten := by
    have hgroups : ∀ texts ∈ rows.map (List.map Piece.text), texts ≠ [] := by
      intro texts htexts
      obtain ⟨row, hrow, rfl⟩ := List.mem_map.mp htexts
      simpa using (h row hrow).1
    rw [rowText, List.map_flatten, ← Text.join_flatten hgroups, List.map_map]
    rfl
  have hparts : ofParts (rows.map rowText) = ofParts (rows.flatten.map Piece.text) := by
    clear htext
    induction rows with
    | nil => rfl
    | cons row rows ih =>
        obtain ⟨hrow, hrows⟩ := List.forall_mem_cons.mp h
        rw [List.map_cons, ofParts_cons, ih hrows,
          (ofPart_row_iff row).mpr hrow.2, List.flatten_cons, List.map_append, ofParts_append]
  rw [htext, hparts, ofPart_row_iff]

end LineDiagram.Border
