import LineDiagram.Inspect
import LineDiagram.Proofs.StyleWords

/-!
# The style of a node, shown and drawn

An editor looks at a bracket by itself and shows a fill, a border and whether
the node is rounded; the drawing lays the same bracket over the style of the
node.  They read the keys of a fill in a different order and take borders of
different forms, so that they agree on some brackets only.

* `Bracket.fill_iff`, `Bracket.rounded_mem_iff`, `Bracket.borderShown_iff` —
  when a fill, a shape or a border that is shown is drawn as well;
* `nodeStyleView_reports_iff` — an editor shows what is drawn exactly when no
  fill hides another one and the border is one in full.
-/

namespace LineDiagram

/-! ## What an editor shows -/

/-- What an editor shows of a border is what is drawn. -/
structure BorderShown (view : Option BorderView) (style : NodeStyle) : Prop where
  /-- There is a border exactly when any part of one is drawn. -/
  isSome_iff : view.isSome = true ↔ style.borderWidth.isSome = true ∨
    style.borderColour.isSome = true ∨ ∃ line ∈ Border.lineStyles, line ∈ style.styles
  /-- The border has the width that is drawn. -/
  width : ∀ w, style.borderWidth = some w → view.map (·.width) = some w
  /-- The border has the line style that is drawn. -/
  line : ∀ line ∈ Border.lineStyles, line ∈ style.styles → view.map (·.style) = some line

/-- What an editor shows of a node is what is drawn. -/
structure NodeStyleView.Reports (view : NodeStyleView) (style : NodeStyle) : Prop where
  /-- The fill, if it is a colour, in hexadecimal digits. -/
  fill : view.fill = style.fill.bind Colour.resolveHex?
  /-- Whether the node is rounded. -/
  rounded : view.rounded = true ↔ "rounded".toList ∈ style.styles
  /-- The border. -/
  border : BorderShown view.border style

/-- A border in full is shown as it is read. -/
theorem BorderView.ofText_of_full {t : Text} (h : (Border.ofText t).isEmpty = false) :
    (ofText t).width = (Border.ofText t).width.getD 1 ∧
      (ofText t).style = (Border.ofText t).style.getD "solid" := by
  have htrim := Border.ofText_trim t
  have hpart : Border.ofPart (Text.trim t) = Border.ofText t := by
    rw [Border.ofPart_of_full (by rw [htrim]; exact h), htrim]
  unfold ofText
  cases htext : Text.trim t with
  | nil =>
      rw [← htrim, htext] at h
      cases h
  | cons c rest =>
      rw [htext] at hpart
      simp [hpart]

namespace Bracket

/-- No fill of a bracket hides another one: a background does not stand next to
another colour. -/
def OneFill (b : Bracket) : Prop :=
  b.first ["colour", "color"] = [] ∨ b.get "background" = [] ∨
    Colour.resolveHex? (b.first ["colour", "color"]) = Colour.resolveHex? (b.get "background")

/-- The border of a bracket, if there is one, is a border in full. -/
def FullBorder (b : Bracket) : Prop :=
  b.get "border" = [] ∨ (Border.ofText (b.get "border")).isEmpty = false

instance (b : Bracket) : Decidable b.OneFill := inferInstanceAs (Decidable (_ ∨ _ ∨ _))

instance (b : Bracket) : Decidable b.FullBorder := inferInstanceAs (Decidable (_ ∨ _))

/-- When the fill that is shown is the one that is drawn: exactly if the bracket
gives one fill only, or the same one twice. -/
theorem fill_iff (b : Bracket) :
    Colour.resolveHex? (b.first fillKeys) =
        (NodeStyle.applyBracket {} b).fill.bind Colour.resolveHex? ↔ b.OneFill := by
  have hnormal := Colour.resolveHex?_normalize
  have hnone := Colour.resolveHex?_nil
  unfold OneFill
  rw [first_fillKeys, NodeStyle.fill_applyBracket]
  generalize b.first ["colour", "color"] = colour
  generalize b.get "background" = background
  by_cases hcolour : colour = []
  · by_cases hback : background = [] <;> simp [hcolour, hback, hnone, hnormal]
  · by_cases hback : background = [] <;> simp [hcolour, hback, hnormal]

/-- The line styles among the style words of a node are those of its border. -/
theorem line_mem_iff (b : Bracket) {line : Text} (h : line ∈ Border.lineStyles) :
    line ∈ (NodeStyle.applyBracket {} b).styles ↔
      (Border.ofText (b.get "border")).style = some line := by
  rw [NodeStyle.mem_styles_applyBracket, StyleWords.has_line _ h]
  exact or_iff_right List.not_mem_nil

/-- Whether the node is rounded is read off the shape only, in any case and with
any blanks around it. -/
theorem rounded_mem_iff (b : Bracket) :
    "rounded".toList ∈ (NodeStyle.applyBracket {} b).styles ↔
      Text.lower (Text.trim (b.get "shape")) = "rounded".toList := by
  rw [NodeStyle.mem_styles_applyBracket, StyleWords.has_rounded]
  exact (or_iff_right List.not_mem_nil).trans beq_iff_eq

/-- A border that is not in full draws nothing. -/
theorem draws_nothing {b : Bracket} (h : Border.ofText (b.get "border") = {}) :
    (NodeStyle.applyBracket {} b).borderWidth = none ∧
      (NodeStyle.applyBracket {} b).borderColour = none ∧
      ∀ line ∈ Border.lineStyles, line ∉ (NodeStyle.applyBracket {} b).styles := by
  obtain ⟨hwidth, hcolour⟩ := NodeStyle.border_applyBracket {} b
  rw [h] at hwidth hcolour
  refine ⟨hwidth, hcolour, fun line hmem hdrawn => ?_⟩
  have hstyle := (line_mem_iff b hmem).mp hdrawn
  rw [h] at hstyle
  cases hstyle

/-- When the border that is shown is the one that is drawn: exactly if the
bracket gives it in full. -/
theorem borderShown_iff (b : Bracket) :
    BorderShown b.borderView? (NodeStyle.applyBracket {} b) ↔ b.FullBorder := by
  unfold borderView? FullBorder
  dsimp only
  cases hempty : (Border.ofText (b.get "border")).isEmpty with
  | true =>
      obtain ⟨hwidth, hcolour, hlines⟩ := draws_nothing (Border.eq_of_isEmpty hempty)
      constructor
      · -- something is shown for a text that is not empty
        intro hshown
        have hnone := mt hshown.isSome_iff.mp (by simpa [hwidth, hcolour] using hlines)
        cases htext : b.get "border" with
        | nil => exact Or.inl rfl
        | cons c rest =>
            rw [htext] at hnone
            exact absurd rfl hnone
      · intro hfull
        have htext : b.get "border" = [] := hfull.resolve_right (by simp)
        rw [htext]
        refine ⟨by simpa [hwidth, hcolour] using hlines, fun w hw => ?_, fun line hmem hdrawn => ?_⟩
        · cases hwidth.symm.trans hw
        · exact absurd hdrawn (hlines line hmem)
  | false =>
      obtain ⟨width, style, hwidth, hstyle, -⟩ := Border.exists_of_full hempty
      obtain ⟨hviewWidth, hviewStyle⟩ := BorderView.ofText_of_full hempty
      obtain ⟨hdrawn, -⟩ := NodeStyle.border_applyBracket {} b
      have htext : (b.get "border").isEmpty = false := by
        cases hnil : b.get "border" with
        | nil =>
            rw [hnil] at hempty
            cases hempty
        | cons c rest => rfl
      rw [htext]
      refine ⟨fun _ => Or.inr rfl, fun _ => ⟨?_, ?_, ?_⟩⟩
      · simp [hdrawn, hwidth]
      · intro w hw
        rw [hdrawn, hwidth] at hw
        simp [hviewWidth, hwidth, Option.some.inj hw]
      · intro line hmem hin
        simp [hviewStyle, (line_mem_iff b hmem).mp hin]

end Bracket

/-- **When an editor shows what is drawn.**  A bracket that is not blank is
shown, and what is shown is what is drawn exactly when no fill hides another one
and the border is one in full. -/
theorem nodeStyleView_reports_iff {inner : Text} (hinner : Text.trim inner ≠ []) :
    ∃ view, NodeStyleView.ofInner inner = some view ∧
      (view.Reports (NodeStyle.applyBracket {} (.ofText inner)) ↔
        (Bracket.ofText inner).OneFill ∧ (Bracket.ofText inner).FullBorder) := by
  refine ⟨_, if_neg (by simpa using hinner), ?_⟩
  generalize Bracket.ofText inner = bracket
  have hrounded := bracket.rounded_mem_iff
  constructor
  · intro hreports
    exact ⟨bracket.fill_iff.mp hreports.fill, bracket.borderShown_iff.mp hreports.border⟩
  · intro hagree
    refine ⟨bracket.fill_iff.mpr hagree.1, ?_, bracket.borderShown_iff.mpr hagree.2⟩
    rw [hrounded, beq_iff_eq]

/-- Three keys of a fill, of which the empty ones do not count, next to a border
and a shape. -/
theorem nodeStyleView_reports_of_empty_keys :
    Text.trim " colour= | color=red |background=| border = 2px Dashed navy | shape=ROUNDED" ≠ [] ∧
      ∃ view, NodeStyleView.ofInner
          " colour= | color=red |background=| border = 2px Dashed navy | shape=ROUNDED" =
            some view ∧
        view.Reports (NodeStyle.applyBracket {} (.ofText
          " colour= | color=red |background=| border = 2px Dashed navy | shape=ROUNDED")) := by
  have hblank : Text.trim
      " colour= | color=red |background=| border = 2px Dashed navy | shape=ROUNDED" ≠
        [] := by decide
  obtain ⟨view, hview, hreports⟩ := nodeStyleView_reports_iff hblank
  exact ⟨hblank, view, hview, hreports.mpr ⟨by decide, by decide⟩⟩

/-- A background hides another colour when it is drawn, and is hidden by it when
it is shown. -/
theorem nodeStyleView_hides_background :
    ¬ ∀ inner view, '[' ∉ inner → NodeStyleView.ofInner inner = some view →
      view.Reports (NodeStyle.applyBracket {} (.ofText inner)) := by
  intro hall
  have hreports := hall "colour=red | background=blue" _ (by decide) rfl
  exact absurd hreports.fill (by decide +kernel)

end LineDiagram
