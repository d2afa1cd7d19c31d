import LineDiagram.Graph.Style
import LineDiagram.Proofs.ColourForms
import LineDiagram.Proofs.Comment
import LineDiagram.Proofs.Graph
import LineDiagram.Proofs.NumberText
import LineDiagram.Proofs.Reading

/-!
# Texts on one line

What is cut from a line of the source, made of digits or taken from a fixed list
holds no line feed.  This goes for everything that a line says and for the
styles that are read from its bracket.

* `Line.oneLine_contentOf` — the texts that a line says;
* `NodeStyle.OneLine`, `EdgeStyle.OneLine`, `BoxStyle.OneLine` — the texts of a
  style, kept by every step in which a style is put together.
-/

namespace LineDiagram

namespace Text

/-- A text on one line. -/
def OneLine (t : Text) : Prop := '\n' ∉ t

instance (t : Text) : Decidable (OneLine t) := inferInstanceAs (Decidable ('\n' ∉ t))

@[simp] theorem oneLine_nil : OneLine [] := List.not_mem_nil

/-- A text is on one line exactly if neither its first character nor the rest
breaks it. -/
@[simp] theorem oneLine_cons {c : Char} {t : Text} : OneLine (c :: t) ↔ '\n' ≠ c ∧ OneLine t := by
  simp [OneLine]

@[simp] theorem oneLine_append {a b : Text} : OneLine (a ++ b) ↔ OneLine a ∧ OneLine b := by
  simp [OneLine]

theorem OneLine.sublist {s t : Text} (h : OneLine t) (hs : s.Sublist t) : OneLine s :=
  fun hmem => h (hs.subset hmem)

theorem OneLine.trim {t : Text} (h : OneLine t) : OneLine (trim t) :=
  fun hmem => h (mem_of_mem_trim hmem)

/-- Texts on one line make one when a separator on one line is between them. -/
theorem oneLine_join {separator : Text} (hsep : OneLine separator) {texts : List Text}
    (h : ∀ t ∈ texts, OneLine t) : OneLine (join separator texts) := not_mem_join hsep h

theorem oneLine_parts {c : Char} {t : Text} (h : OneLine t) : ∀ p ∈ parts c t, OneLine p :=
  fun _ hp hmem => h (subset_of_mem_parts hp hmem)

/-- A line feed is a blank, so there is none in a word. -/
theorem oneLine_words (t : Text) : ∀ w ∈ words t, OneLine w := by
  intro w hw hmem
  exact absurd (mem_of_mem_words hw hmem).1 (by decide)

/-- A number text has no line feed, so every number is written on one line. -/
theorem OneLine.of_numberText {t : Text} (h : NumberText t) : OneLine t := h.not_mem (by decide)

@[simp] theorem oneLine_ofNat (n : Nat) : OneLine (ofNat n) := .of_numberText (numberText_ofNat n)

@[simp] theorem oneLine_ofInt (n : Int) : OneLine (ofInt n) := .of_numberText (numberText_ofInt n)

theorem OneLine.lower {t : Text} (h : OneLine t) : OneLine (lower t) :=
  fun hmem => h (mem_of_mem_lower (by decide) (by decide) hmem)

/-- Line feeds become underscores along with all other characters that are not
kept. -/
theorem oneLine_underscoreRuns {keep : Char → Bool} (hkeep : keep '\n' = false) (t : Text) :
    OneLine (underscoreRuns keep t) := by
  intro hmem
  rcases mem_underscoreRuns hmem with hkept | hunderscore
  · rw [hkeep] at hkept
    exact Bool.noConfusion hkept
  · exact absurd hunderscore (by decide)

end Text

open Text

/-! ## Numbers, colours and borders -/

@[simp] theorem Binary64.oneLine_fixed (places : Nat) (x : Binary64) : OneLine (x.fixed places) :=
  .of_numberText (numberText_fixed places x)

@[simp] theorem Binary64.oneLine_compactText (x : Binary64) : OneLine x.compactText :=
  .of_numberText (numberText_compactText x)

namespace Colour

/-- A byte in two hexadecimal digits is written on one line. -/
private theorem oneLine_hexDigits : ∀ n < 256, OneLine (hexDigits 2 n) := by decide +kernel

/-- So is a colour in six digits. -/
theorem oneLine_hexText {c : Rgb} (hred : c.red ≤ 255) (hgreen : c.green ≤ 255)
    (hblue : c.blue ≤ 255) : OneLine (hexText c) := by
  unfold hexText
  simp only [oneLine_append]
  exact ⟨⟨⟨by decide, oneLine_hexDigits _ (by omega)⟩, oneLine_hexDigits _ (by omega)⟩,
    oneLine_hexDigits _ (by omega)⟩

/-- The six digits of a hexadecimal colour on one line are on one line. -/
theorem oneLine_sixDigits? {digits six : Text} (h : OneLine digits)
    (hsix : sixDigits? digits = some six) : OneLine six := by
  unfold sixDigits? at hsix
  split at hsix
  · cases hsix
    intro hmem
    obtain ⟨c, hc, hin⟩ := List.mem_flatMap.mp hmem
    simp only [List.mem_cons, List.not_mem_nil, or_false, or_self] at hin
    exact h ((List.take_sublist 3 digits).subset (hin ▸ hc))
  · split at hsix
    · cases hsix
      exact h
    · split at hsix
      · cases hsix
        exact h.sublist (List.take_sublist _ _)
      · cases hsix

/-- A colour on one line is on one line in the form for drawing. -/
theorem oneLine_normalize {t : Text} (h : OneLine t) : OneLine (normalize t) := by
  have htrim := h.trim
  unfold normalize
  dsimp only
  split
  · cases hhex : expandHex? (trim t) with
    | none => exact htrim
    | some six =>
        unfold expandHex? at hhex
        dsimp only at hhex
        split at hhex
        · obtain ⟨digits, hdigits, rfl⟩ := Option.map_eq_some_iff.mp hhex
          have hlower := (htrim.trim.sublist (List.dropWhile_sublist (· == '#'))).lower
          exact oneLine_append.mpr ⟨by decide, oneLine_sixDigits? hlower hdigits⟩
        · cases hhex
  · split
    · rename_i c hc
      obtain ⟨hred, hgreen, hblue⟩ := bytes_ofRgbFunction? hc
      exact oneLine_hexText hred hgreen hblue
    · exact htrim

end Colour

/-- A text that counts only if it is not empty is on one line if it was. -/
theorem oneLine_filled? {o : Option Text} (h : ∀ t ∈ o, OneLine t) :
    ∀ t ∈ filled? o, OneLine t := by
  intro t ht
  unfold filled? at ht
  rw [Option.mem_def, Option.filter_eq_some_iff] at ht
  exact h t ht.1

theorem oneLine_orElse {a b : Option Text} (ha : ∀ t ∈ a, OneLine t) (hb : ∀ t ∈ b, OneLine t) :
    ∀ t ∈ a.orElse fun _ => b, OneLine t := by
  cases a with
  | none => exact hb
  | some _ => exact ha

/-- Style words are on one line when one on one line is added. -/
theorem oneLine_addStyle {styles : List Text} {word : Option Text} (h : ∀ w ∈ styles, OneLine w)
    (hword : ∀ t ∈ word, OneLine t) : ∀ w ∈ addStyle styles word, OneLine w := by
  intro w hw
  unfold addStyle at hw
  dsimp only at hw
  split at hw
  · exact h w hw
  · rcases List.mem_append.mp hw with hw | hw
    · exact h w hw
    · rw [List.mem_singleton.mp hw]
      cases word with
      | none => decide
      | some t => exact (hword t rfl).trim

/-- A font size is written on one line, whatever scale is asked for. -/
theorem oneLine_scaledFontSize? (scale : Text) : ∀ t ∈ scaledFontSize? scale, OneLine t := by
  intro t ht
  unfold scaledFontSize? at ht
  split at ht
  · split at ht
    · cases ht
    · cases ht
      exact Binary64.oneLine_fixed 1 _
  · cases ht

namespace Border

/-- The texts of a border are on one line. -/
structure OneLine (b : Border) : Prop where
  style : ∀ t ∈ b.style, Text.OneLine t
  colour : ∀ t ∈ b.colour, Text.OneLine t

theorem oneLine_empty : OneLine {} := ⟨by simp, by simp⟩

/-- The texts of a border in full are on one line, even if a line feed is in
what it is read from: words hold no blanks. -/
theorem oneLine_ofText {t : Text} : OneLine (ofText t) := by
  unfold ofText
  split
  · rename_i width style colour hwords
    have hwords : ∀ w ∈ width :: style :: colour, Text.OneLine w := by
      rw [← hwords]
      exact oneLine_words t
    split
    · dsimp only
      split
      · refine ⟨?_, ?_⟩
        · rintro s hs
          cases hs
          exact (hwords style (by simp)).lower
        · intro s hs
          dsimp only at hs
          split at hs
          · cases hs
          · cases hs
            apply Colour.oneLine_normalize
            apply Text.OneLine.trim
            exact oneLine_join (by decide) (fun w hw => hwords w (by simp [hw]))
      · exact oneLine_empty
    · exact oneLine_empty
  · exact oneLine_empty

/-- The colour in a word on one line is on one line. -/
theorem oneLine_colour? {word : Text} (h : Text.OneLine word) :
    ∀ t ∈ colour? word, Text.OneLine t := by
  intro t ht
  unfold colour? at ht
  split at ht
  · cases ht
    exact Colour.oneLine_normalize h
  · cases ht

/-- The line style and the rest of a part on one line are on one line. -/
theorem oneLine_styleAndRest? {t style rest : Text} (h : Text.OneLine t)
    (hfound : styleAndRest? t = some (style, rest)) : Text.OneLine style ∧ Text.OneLine rest := by
  unfold styleAndRest? at hfound
  obtain ⟨word, -, hword⟩ := List.exists_of_findSome?_eq_some hfound
  split at hword
  · rename_i written after hsplit
    unfold splitWordAnyCase? at hsplit
    dsimp only at hsplit
    split at hsplit
    · cases hsplit
      dsimp only at hword
      split at hword
      · cases hword
        refine ⟨(h.sublist (List.take_sublist _ _)).lower, ?_⟩
        apply Text.OneLine.trim
        exact (h.sublist (List.drop_sublist _ _)).sublist (List.dropWhile_sublist _)
      · cases hword
    · cases hsplit
  · cases hword

/-- The border of a part on one line is on one line. -/
theorem oneLine_ofPart {t : Text} (h : Text.OneLine t) : OneLine (ofPart t) := by
  have htrim := h.trim
  unfold ofPart
  dsimp only
  split
  · exact oneLine_ofText
  · split
    · exact ⟨by simp, by simp⟩
    · split
      · refine ⟨?_, by simp⟩
        rintro s hs
        cases hs
        exact htrim.lower
      · split
        · rename_i style rest hfound
          obtain ⟨hstyle, hrest⟩ := oneLine_styleAndRest? htrim hfound
          refine ⟨?_, oneLine_colour? hrest⟩
          rintro s hs
          cases hs
          exact hstyle
        · exact ⟨by simp, oneLine_colour? htrim⟩

/-- So is the border of several of them. -/
theorem oneLine_ofParts {parts : List Text} (h : ∀ p ∈ parts, Text.OneLine p) :
    OneLine (ofParts parts) := by
  have hall : ∀ found : Border, OneLine found →
      OneLine (parts.foldl (fun found part => found.orElse (ofPart part)) found) := by
    induction parts with
    | nil => exact fun found hfound => hfound
    | cons part parts ih =>
        intro found hfound
        have hpart := oneLine_ofPart (h part List.mem_cons_self)
        exact ih (fun p hp => h p (List.mem_cons_of_mem _ hp)) _
          ⟨oneLine_orElse hfound.style hpart.style, oneLine_orElse hfound.colour hpart.colour⟩
  exact hall {} oneLine_empty

end Border

/-! ## Brackets -/

namespace Bracket

/-- The values of a bracket are on one line. -/
structure OneLine (b : Bracket) : Prop where
  keyed : ∀ e ∈ b.keyed, Text.OneLine e.2
  loose : ∀ p ∈ b.loose, Text.OneLine p

/-- An entry of a table in which a name is set was there before, or is the new
one. -/
theorem mem_set {table : Table} {name value : Text} {e : Text × Text}
    (h : e ∈ table.set name value) : e ∈ table ∨ e = (name, value) := by
  unfold Table.set at h
  split at h
  · obtain ⟨old, hold, rfl⟩ := List.mem_map.mp h
    split
    · exact Or.inr rfl
    · exact Or.inl hold
  · rcases List.mem_append.mp h with hold | hnew
    · exact Or.inl hold
    · exact Or.inr (List.mem_singleton.mp hnew)

/-- The value of a part on one line is on one line. -/
theorem oneLine_value {part : Text} (h : Text.OneLine part) : Text.OneLine (value part) := by
  unfold value
  split
  · rename_i hdrop
    apply Text.OneLine.trim
    have hrest := h.sublist (List.dropWhile_sublist (· != '='))
    rw [hdrop, oneLine_cons] at hrest
    exact hrest.2
  · exact h.trim

/-- A bracket on one line stays so when a part on one line is added. -/
theorem OneLine.addPart {b : Bracket} (hb : OneLine b) {part : Text} (h : Text.OneLine part) :
    OneLine (b.addPart part) := by
  unfold Bracket.addPart
  split
  · refine ⟨?_, hb.loose⟩
    intro e he
    rcases mem_set he with hold | rfl
    · exact hb.keyed e hold
    · exact oneLine_value h
  · refine ⟨hb.keyed, ?_⟩
    intro p hp
    rcases List.mem_append.mp hp with hold | hnew
    · exact hb.loose p hold
    · rwa [List.mem_singleton.mp hnew]

/-- The bracket of an inside on one line is on one line. -/
theorem oneLine_ofText {inner : Text} (h : Text.OneLine inner) : OneLine (ofText inner) := by
  have hfold : ∀ (parts : List Text) (b : Bracket), (∀ p ∈ parts, Text.OneLine p) → OneLine b →
      OneLine (parts.foldl Bracket.addPart b) := by
    intro parts
    induction parts with
    | nil => exact fun b _ hb => hb
    | cons part parts ih =>
        intro b hparts hb
        exact ih _ (fun p hp => hparts p (List.mem_cons_of_mem _ hp))
          (hb.addPart (hparts part List.mem_cons_self))
  unfold ofText
  dsimp only
  refine hfold _ _ (oneLine_parts ?_) ⟨by simp, by simp⟩
  split
  · rename_i rest hcons
    have hrest := h.trim
    rw [hcons, oneLine_cons] at hrest
    split
    · exact hrest.2.sublist (List.dropLast_sublist _)
    · rw [hcons]
      exact oneLine_cons.mpr hrest
  · exact h.trim

/-- The value of a key is on one line if the bracket is, and it is empty where
there is none. -/
theorem OneLine.lookup {b : Bracket} (hb : OneLine b) (key : Text) :
    Text.OneLine (Table.get b.keyed key) := by
  unfold Table.get
  cases hfound : List.lookup key b.keyed with
  | none => simp
  | some v =>
      obtain ⟨l₁, l₂, heq, -⟩ := List.lookup_eq_some_iff.mp hfound
      exact hb.keyed (key, v) (by rw [heq]; simp)

/-- So is the first value that is not empty among those of some keys. -/
theorem OneLine.first {b : Bracket} (hb : OneLine b) (keys : List Text) :
    Text.OneLine (b.first keys) := by
  unfold Bracket.first
  cases hfound : (keys.map (Table.get b.keyed)).find? fun v => !v.isEmpty with
  | none => simp
  | some v =>
      obtain ⟨key, -, rfl⟩ := List.mem_map.mp (List.mem_of_find?_eq_some hfound)
      exact hb.lookup key

/-- A text on one line is cut before its bracket into two that are on one
line. -/
theorem oneLine_splitTrailing {t : Text} (h : Text.OneLine t) :
    Text.OneLine (splitTrailing t).1 ∧ ∀ inner ∈ (splitTrailing t).2, Text.OneLine inner := by
  have hend : ∀ s : Text, Text.OneLine s → Text.OneLine (trimEnd s) :=
    fun s hs hmem => hs (mem_of_mem_trimEnd hmem)
  unfold splitTrailing
  split
  · rename_i before inside hcut
    obtain ⟨rfl, -⟩ := cutLast?_eq_some_iff.mp hcut
    obtain ⟨hbefore, hinside⟩ := oneLine_append.mp h
    split
    · rename_i inner hrev
      refine ⟨hend before hbefore, ?_⟩
      rintro s hs
      cases hs
      apply Text.OneLine.trim
      have hreverse : trimEnd inside = inner.reverse ++ [']'] := by
        rw [← List.reverse_reverse (trimEnd inside), hrev, List.reverse_cons]
      have := hend inside (oneLine_cons.mp hinside).2
      rw [hreverse, oneLine_append] at this
      exact this.1
    · exact ⟨hend _ h, by simp⟩
  · exact ⟨hend _ h, by simp⟩

end Bracket

/-! ## Styles -/

namespace NodeStyle

/-- The texts of a node style that are drawn are on one line. -/
structure OneLine (s : NodeStyle) : Prop where
  styles : ∀ w ∈ s.styles, Text.OneLine w
  fill : ∀ t ∈ s.fill, Text.OneLine t
  borderColour : ∀ t ∈ s.borderColour, Text.OneLine t
  fontSize : ∀ t ∈ s.fontSize, Text.OneLine t

theorem oneLine_empty : OneLine {} := ⟨by simp, by simp, by simp, by simp⟩

/-- The style of a node stays on one line when a style word on one line is
added. -/
theorem OneLine.addStyle {s : NodeStyle} (h : OneLine s) {word : Option Text}
    (hword : ∀ t ∈ word, Text.OneLine t) : OneLine (s.addStyle word) :=
  ⟨oneLine_addStyle h.styles hword, h.fill, h.borderColour, h.fontSize⟩

/-- So it does when another style on one line is laid over it. -/
theorem OneLine.merge {s other : NodeStyle} (h : OneLine s) (hother : OneLine other) :
    OneLine (s.merge other) := by
  refine ⟨?_, oneLine_orElse hother.fill h.fill, oneLine_orElse hother.borderColour h.borderColour,
    oneLine_orElse hother.fontSize h.fontSize⟩
  intro w hw
  unfold NodeStyle.merge at hw
  dsimp only at hw
  split at hw
  · exact h.styles w hw
  · exact hother.styles w hw

/-- So it does when it is filled with a colour on one line. -/
theorem OneLine.setFill {s : NodeStyle} (h : OneLine s) {colour : Text}
    (hcolour : Text.OneLine colour) : OneLine (s.setFill colour) := by
  unfold NodeStyle.setFill
  apply OneLine.addStyle
  · refine ⟨h.styles, ?_, h.borderColour, h.fontSize⟩
    rintro t ht
    cases ht
    exact Colour.oneLine_normalize hcolour
  · decide

/-- So it does when a border on one line is drawn. -/
theorem OneLine.setBorder {s : NodeStyle} (h : OneLine s) {border : Border}
    (hborder : border.OneLine) : OneLine (s.setBorder border) := by
  unfold NodeStyle.setBorder
  apply OneLine.addStyle
  · exact ⟨h.styles, h.fill, oneLine_orElse (oneLine_filled? hborder.colour) h.borderColour,
      h.fontSize⟩
  · exact hborder.style

/-- So it does when such a border is a default. -/
theorem OneLine.addDefaultBorder {s : NodeStyle} (h : OneLine s) {border : Border}
    (hborder : border.OneLine) : OneLine (s.addDefaultBorder border) := by
  unfold NodeStyle.addDefaultBorder
  apply OneLine.addStyle
  · refine ⟨h.styles, h.fill, ?_, h.fontSize⟩
    dsimp only
    split
    · exact oneLine_orElse (oneLine_filled? hborder.colour) h.borderColour
    · exact h.borderColour
  · exact hborder.style

/-- So it does when the default is read from a text, or when there is none. -/
theorem OneLine.addBorderText {s : NodeStyle} (h : OneLine s) (border : Option Text) :
    OneLine (match border with
      | some border => s.addDefaultBorder (.ofText border)
      | none => s) := by
  cases border with
  | some border => exact h.addDefaultBorder Border.oneLine_ofText
  | none => exact h

/-- The default styles of a diagram keep the style of a node on one line, if the
settings are. -/
theorem OneLine.applyDefaults {settings : Settings} {s : NodeStyle} (h : OneLine s)
    (hsettings : ∀ setting, ∀ t ∈ settings.text setting, Text.OneLine t) :
    OneLine (s.applyDefaults settings) := by
  have hshape : ∀ first : NodeStyle, OneLine first →
      OneLine (if settings.text .nodeShape == some ("rounded" : Text) then
        first.addStyle (some "rounded") else first) := by
    intro first hfirst
    split
    · exact hfirst.addStyle (by decide)
    · exact hfirst
  unfold NodeStyle.applyDefaults
  refine OneLine.addBorderText (hshape _ ?_) _
  split
  · rename_i colour hcolour
    apply OneLine.addStyle
    · refine ⟨h.styles, ?_, h.borderColour, h.fontSize⟩
      dsimp only
      split
      · rintro t ht
        cases ht
        exact oneLine_filled? (hsettings .nodeColour) _ hcolour
      · exact h.fill
    · decide
  · exact h

/-- So does the bracket of its line, if it is on one line. -/
theorem OneLine.applyBracket {s : NodeStyle} (h : OneLine s) {bracket : Bracket}
    (hbracket : bracket.OneLine) : OneLine (s.applyBracket bracket) := by
  have hfill : ∀ (first : NodeStyle) (colour : Text), OneLine first → Text.OneLine colour →
      OneLine (if colour.isEmpty then first else first.setFill colour) := by
    intro first colour hfirst hcolour
    split
    · exact hfirst
    · exact hfirst.setFill hcolour
  have hshape : ∀ first : NodeStyle, OneLine first →
      OneLine (if Text.lower (Text.trim (bracket.get "shape")) == ("rounded" : Text) then
        first.addStyle (some "rounded") else first) := by
    intro first hfirst
    split
    · exact hfirst.addStyle (by decide)
    · exact hfirst
  have hborder : ∀ first : NodeStyle, OneLine first →
      OneLine (if (bracket.get "border").isEmpty then first
        else first.setBorder (.ofText (bracket.get "border"))) := by
    intro first hfirst
    split
    · exact hfirst
    · exact hfirst.setBorder Border.oneLine_ofText
  unfold NodeStyle.applyBracket
  dsimp only
  have hcolour := hfill s _ h (hbracket.first ["colour".toList, "color".toList])
  have hall := hborder _ (hshape _ (hfill _ _ hcolour (hbracket.lookup "background")))
  exact ⟨hall.styles, hall.fill, hall.borderColour,
    oneLine_orElse (oneLine_scaledFontSize? _) hall.fontSize⟩

end NodeStyle

/-- A font in a style is on one line if the font is: the style adds one of a few
words. -/
theorem Label.oneLine_styledFont {font style : Text} (hfont : OneLine font) :
    OneLine (Label.styledFont font style) := by
  have hbase : OneLine (if (trim font).isEmpty then Label.defaultFont else trim font) := by
    split
    · decide
    · exact hfont.trim
  unfold Label.styledFont
  dsimp only
  split
  · exact hbase
  · simp only [oneLine_append]
    refine ⟨⟨hbase, ?_⟩, ?_⟩
    · split <;> decide
    · split <;> decide

namespace EdgeStyle

/-- The texts of an edge style that are drawn are on one line. -/
structure OneLine (s : EdgeStyle) : Prop where
  styles : ∀ w ∈ s.styles, Text.OneLine w
  label : ∀ t ∈ s.label, Text.OneLine t
  colour : ∀ t ∈ s.colour, Text.OneLine t
  font : ∀ t ∈ s.font, Text.OneLine t

theorem oneLine_empty : OneLine {} := ⟨by simp, by simp, by simp, by simp⟩

theorem OneLine.setBorder {s : EdgeStyle} (h : OneLine s) {border : Border}
    (hborder : border.OneLine) : OneLine (s.setBorder border) :=
  ⟨oneLine_addStyle h.styles hborder.style, h.label, oneLine_orElse hborder.colour h.colour, h.font⟩

/-- The label among loose parts on one line, and the other parts, are on one
line. -/
theorem oneLine_splitLooseLabel {parts : List Text} (h : ∀ p ∈ parts, Text.OneLine p) :
    (∀ t ∈ (splitLooseLabel parts).1, Text.OneLine t) ∧
      ∀ p ∈ (splitLooseLabel parts).2, Text.OneLine p := by
  unfold splitLooseLabel
  split
  · exact ⟨by simp, by simp⟩
  · split
    · exact ⟨by simp, h⟩
    · refine ⟨?_, fun p hp => h p (List.mem_cons_of_mem _ hp)⟩
      rintro t ht
      cases ht
      exact h _ List.mem_cons_self

/-- The style of an edge is on one line if its bracket and the font are. -/
theorem oneLine_ofBracket {font : Text} (hfont : Text.OneLine font) {bracket : Bracket}
    (hbracket : bracket.OneLine) : OneLine (ofBracket font bracket) := by
  have hloose : (∀ t ∈ (if (bracket.get "label").isEmpty then splitLooseLabel bracket.loose
        else (some (bracket.get "label"), bracket.loose)).1, Text.OneLine t) ∧
      ∀ p ∈ (if (bracket.get "label").isEmpty then splitLooseLabel bracket.loose
        else (some (bracket.get "label"), bracket.loose)).2, Text.OneLine p := by
    split
    · exact oneLine_splitLooseLabel hbracket.loose
    · refine ⟨?_, hbracket.loose⟩
      rintro t ht
      cases ht
      exact hbracket.lookup _
  unfold ofBracket
  dsimp only
  generalize (if (bracket.get "label").isEmpty then splitLooseLabel bracket.loose
    else (some (bracket.get "label"), bracket.loose)) = pair at hloose
  have hlabel : OneLine { label := pair.1 } := ⟨by simp, hloose.1, by simp, by simp⟩
  have hborder : OneLine (if (bracket.get "border").isEmpty then
      EdgeStyle.setBorder { label := pair.1 } (.ofParts pair.2)
      else EdgeStyle.setBorder { label := pair.1 } (.ofPart (bracket.get "border"))) := by
    split
    · exact hlabel.setBorder (Border.oneLine_ofParts hloose.2)
    · exact hlabel.setBorder (Border.oneLine_ofPart (hbracket.lookup _))
  refine ⟨hborder.styles, hborder.label, hborder.colour, ?_⟩
  intro t ht
  dsimp only at ht
  split at ht
  · cases ht
  · cases ht
    exact Label.oneLine_styledFont hfont

end EdgeStyle

namespace BoxStyle

/-- The texts of a box style that are drawn are on one line. -/
structure OneLine (s : BoxStyle) : Prop where
  styles : ∀ w ∈ s.styles, Text.OneLine w
  fill : ∀ t ∈ s.fill, Text.OneLine t
  borderColour : ∀ t ∈ s.borderColour, Text.OneLine t
  fontColour : ∀ t ∈ s.fontColour, Text.OneLine t
  fontSize : ∀ t ∈ s.fontSize, Text.OneLine t

/-- The style of a box stays on one line when a style word on one line is
added. -/
theorem OneLine.addStyle {s : BoxStyle} (h : OneLine s) {word : Option Text}
    (hword : ∀ t ∈ word, Text.OneLine t) : OneLine (s.addStyle word) :=
  ⟨oneLine_addStyle h.styles hword, h.fill, h.borderColour, h.fontColour, h.fontSize⟩

theorem OneLine.setBorder {s : BoxStyle} (h : OneLine s) {border : Border}
    (hborder : border.OneLine) : OneLine (s.setBorder border) := by
  unfold BoxStyle.setBorder
  apply OneLine.addStyle
  · exact ⟨h.styles, h.fill, oneLine_orElse (oneLine_filled? hborder.colour) h.borderColour,
      h.fontColour, h.fontSize⟩
  · exact hborder.style

/-- The style of a box is on one line if the inside of its bracket is. -/
theorem oneLine_ofInner {inner : Text} (h : Text.OneLine inner) : OneLine (ofInner inner) := by
  have hbracket := Bracket.oneLine_ofText h
  unfold ofInner
  dsimp only
  generalize Bracket.ofText inner = bracket at hbracket
  have hrounded : OneLine (BoxStyle.addStyle {} (some "rounded")) :=
    OneLine.addStyle ⟨by simp, by simp, by simp, by simp, by simp⟩ (by decide)
  have hfill : ∀ first : BoxStyle, OneLine first →
      OneLine (if (bracket.first Bracket.fillKeys).isEmpty then first
        else { first
          with fill := some (Colour.normalize (bracket.first Bracket.fillKeys)) }.addStyle
          (some "filled")) := by
    intro first hfirst
    split
    · exact hfirst
    · apply OneLine.addStyle
      · refine ⟨hfirst.styles, ?_, hfirst.borderColour, hfirst.fontColour, hfirst.fontSize⟩
        rintro t ht
        cases ht
        exact Colour.oneLine_normalize (hbracket.first _)
      · decide
  have hborder : ∀ first : BoxStyle, OneLine first →
      OneLine (if (bracket.get "border").isEmpty then first
        else first.setBorder (.ofText (bracket.get "border"))) := by
    intro first hfirst
    split
    · exact hfirst
    · exact hfirst.setBorder Border.oneLine_ofText
  have hall := hborder _ (hfill _ hrounded)
  refine ⟨hall.styles, hall.fill, hall.borderColour, ?_, oneLine_scaledFontSize? _⟩
  intro t ht
  dsimp only at ht
  split at ht
  · cases ht
  · cases ht
    exact Colour.oneLine_normalize (hbracket.first _)

end BoxStyle

/-! ## What a line says -/

/-- What a word stands for is on one line, if everything in the table of words
is. -/
theorem oneLine_meaning? {words : List (String × String)}
    (hwords : ∀ entry ∈ words, OneLine entry.2.toList) (t : Text) :
    ∀ s ∈ meaning? words t, OneLine s := by
  intro s hs
  obtain ⟨entry, hentry, rfl⟩ := Option.map_eq_some_iff.mp hs
  exact hwords entry (List.mem_of_find?_eq_some hentry)

/-- A value on one line is read as a text on one line. -/
theorem TextSetting.oneLine_read (s : TextSetting) {value : Text} (h : OneLine value) :
    ∀ t ∈ s.read value, OneLine t := by
  intro t ht
  have hdirections : ∀ entry ∈ directionWords, OneLine entry.2.toList := by decide
  have hpositions : ∀ entry ∈ titlePositionWords, OneLine entry.2.toList := by decide
  cases s with
  | titlePosition => exact oneLine_meaning? hpositions value t ht
  | direction => exact oneLine_meaning? hdirections value t ht
  | title | description | nodeBorder | nodeShadow => cases ht; exact h.trim
  | nodeShape | linkStyle => cases ht; exact h.trim.lower
  | background | textColour | nodeTextColour | boxTextColour | nodeColour | linkColour =>
      cases ht; exact Colour.oneLine_normalize h

@[simp] theorem Identifier.oneLine_ofToken (token : Text) : OneLine (Identifier.ofToken token) := by
  intro hmem
  exact absurd (isWordChar_of_mem hmem) (by decide)

/-- The texts of what a line says are on one line. -/
def Content.OneLine : Content → Prop
  | .marker _ label bracket => Text.OneLine label ∧ ∀ inner ∈ bracket, Text.OneLine inner
  | .setting _ _ value => Text.OneLine value
  | .node token label bracket =>
    Text.OneLine token ∧ Text.OneLine label ∧ ∀ inner ∈ bracket, Text.OneLine inner
  | .edge sources targets bracket =>
    Text.OneLine sources ∧ Text.OneLine targets ∧ ∀ inner ∈ bracket, Text.OneLine inner
  | _ => True

namespace Line

/-- The code of a line is on one line. -/
theorem oneLine_strip {raw : Text} (h : OneLine raw) : OneLine (Comment.strip raw) :=
  fun hmem => h (Comment.mem_of_mem_strip (by decide) hmem)

/-- So are all texts of what it says: each is cut out of the code, and nothing
is added to it. -/
theorem oneLine_contentOf {code : Text} (h : OneLine code) : (contentOf code).OneLine := by
  have hpieces : ∀ value : Text, OneLine value →
      OneLine (trim (Bracket.splitTrailing (trim value)).1) ∧
        ∀ inner ∈ (Bracket.splitTrailing (trim value)).2, OneLine inner := by
    intro value hvalue
    obtain ⟨hlabel, hinner⟩ := Bracket.oneLine_splitTrailing hvalue.trim
    exact ⟨hlabel.trim, hinner⟩
  cases hcontent : contentOf code with
  | blank => trivial
  | unrecognised => trivial
  | marker depth label bracket =>
      obtain ⟨-, -, -, rfl, rfl⟩ := contentOf_eq_marker_iff.mp hcontent
      exact hpieces _ (h.sublist (List.dropWhile_sublist _))
  | setting phrase known value =>
      obtain ⟨-, rest, hparts, rfl⟩ := contentOf_eq_setting_iff.mp hcontent
      obtain ⟨written, rfl, -⟩ := settingParts?_eq_some_iff.mp hparts
      simp only [oneLine_append, oneLine_cons] at h
      exact h.2.2.trim
  | node token label bracket =>
      obtain ⟨-, -, word, value, hparts, rfl, rfl, rfl⟩ := contentOf_eq_node_iff.mp hcontent
      obtain ⟨gap, blanks, rfl, -, -⟩ := (definitionParts?_defines hparts).code_eq
      simp only [oneLine_append, oneLine_cons] at h
      exact ⟨h.1.1.trim, hpieces value h.2.2.2.2⟩
  | edge sources targets bracket =>
      obtain ⟨-, -, -, side, value, hparts, rfl, rfl, rfl⟩ := contentOf_eq_edge_iff.mp hcontent
      obtain ⟨pre, more, rfl, -, -, rfl, rfl⟩ := arrowParts?_cut oneLine_nil h hparts
      simp only [oneLine_append, oneLine_cons] at h
      refine ⟨Text.OneLine.trim ?_, hpieces _ (h.2.2.2.sublist (List.dropWhile_sublist _))⟩
      exact fun hmem => h.1 (mem_of_mem_trimEnd hmem)

end Line

end LineDiagram
