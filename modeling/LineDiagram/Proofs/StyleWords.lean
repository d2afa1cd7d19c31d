import LineDiagram.Graph.Style
import LineDiagram.Proofs.BorderText
import LineDiagram.Proofs.ColourForms

/-!
# What settings and brackets give to the style of a node

A bracket is laid over the style of a node, and so are the defaults of the
settings, only that what the style has of its own stays.  Style words are an
exception: both add theirs to the words that are there, and none is ever taken
away.

* `StyleWords` — the words that settings or a bracket give;
* `NodeStyle.mem_styles_applyBracket`, `NodeStyle.mem_styles_applyDefaults` —
  they are added;
* `NodeStyle.fill_applyBracket`, `NodeStyle.border_applyBracket`,
  `NodeStyle.isSome_fill_applyDefaults`, `NodeStyle.border_applyDefaults` —
  fills and borders.
-/

namespace LineDiagram

/-! ## Style words -/

/-- A word is among the style words after one is added if it was among them, or
is the new one without the blanks around it. -/
theorem mem_addStyle {styles : List Text} {word : Option Text} {w : Text} :
    w ∈ addStyle styles word ↔
      w ∈ styles ∨ (Text.trim (word.getD []) ≠ [] ∧ w = Text.trim (word.getD [])) := by
  unfold addStyle
  dsimp only
  split
  · rename_i h
    simp only [Bool.or_eq_true, List.isEmpty_iff, List.contains_iff_mem] at h
    constructor
    · exact Or.inl
    · rintro (hin | ⟨hne, rfl⟩)
      · exact hin
      · exact h.resolve_left hne
  · rename_i h
    simp only [Bool.or_eq_true, List.isEmpty_iff, not_or] at h
    simp [h.1]

/-- Adding a word that is neither empty nor has blanks around it. -/
theorem mem_addStyle_word {styles : List Text} {word w : Text}
    (h : Text.trim word = word ∧ word ≠ []) :
    w ∈ addStyle styles (some word) ↔ w ∈ styles ∨ w = word := by
  rw [mem_addStyle, Option.getD_some, h.1]
  simp [h.2]

/-- Adding the line style of a border. -/
theorem mem_addStyle_line {styles : List Text} {line : Option Text}
    (h : ∀ word ∈ line, word ∈ Border.lineStyles) {w : Text} :
    w ∈ addStyle styles line ↔ w ∈ styles ∨ line = some w := by
  cases line with
  | none => simp [mem_addStyle]
  | some word =>
    rw [mem_addStyle_word (Border.word_of_mem (h word rfl)), Option.some.injEq, eq_comm]

/-- The style words that are given to a node at one place. -/
structure StyleWords where
  /-- Whether the node is filled. -/
  filled : Bool
  /-- Whether it is rounded. -/
  rounded : Bool
  /-- The line style of its border. -/
  line : Option Text
  line_mem : ∀ word ∈ line, word ∈ Border.lineStyles

namespace StyleWords

variable (given : StyleWords)

/-- Whether a word is given. -/
def Has (word : Text) : Prop :=
  (word = "filled".toList ∧ given.filled = true) ∨
    (word = "rounded".toList ∧ given.rounded = true) ∨
    given.line = some word

instance (word : Text) : Decidable (given.Has word) := inferInstanceAs (Decidable (_ ∨ _ ∨ _))

/-- Whether any word is given. -/
def isGiven : Bool := given.filled || given.rounded || given.line.isSome

/-- Words are given exactly if there is one. -/
theorem isGiven_iff : given.isGiven = true ↔ ∃ word, given.Has word := by
  unfold isGiven Has
  rw [Bool.or_eq_true, Bool.or_eq_true, Option.isSome_iff_exists]
  constructor
  · rintro ((hfilled | hrounded) | ⟨word, hline⟩)
    · exact ⟨_, Or.inl ⟨rfl, hfilled⟩⟩
    · exact ⟨_, Or.inr (Or.inl ⟨rfl, hrounded⟩)⟩
    · exact ⟨word, Or.inr (Or.inr hline)⟩
  · rintro ⟨word, ⟨-, hfilled⟩ | ⟨-, hrounded⟩ | hline⟩
    · exact Or.inl (Or.inl hfilled)
    · exact Or.inl (Or.inr hrounded)
    · exact Or.inr ⟨word, hline⟩

theorem has_filled : given.Has "filled" ↔ given.filled = true := by
  have hrounded : "filled".toList ≠ "rounded".toList := by decide
  have hline : given.line ≠ some "filled".toList :=
    fun heq => absurd (given.line_mem _ heq) (by decide)
  simp only [Has, hrounded, hline, true_and, false_and, or_false]

theorem has_rounded : given.Has "rounded" ↔ given.rounded = true := by
  have hfilled : "rounded".toList ≠ "filled".toList := by decide
  have hline : given.line ≠ some "rounded".toList :=
    fun heq => absurd (given.line_mem _ heq) (by decide)
  simp only [Has, hfilled, hline, true_and, false_and, false_or, or_false]

theorem has_line {line : Text} (h : line ∈ Border.lineStyles) :
    given.Has line ↔ given.line = some line := by
  have hfilled : line ≠ "filled".toList := fun heq => absurd (heq ▸ h) (by decide)
  have hrounded : line ≠ "rounded".toList := fun heq => absurd (heq ▸ h) (by decide)
  simp only [Has, hfilled, hrounded, false_and, false_or]

end StyleWords

/-- The default border of nodes; without one it is empty. -/
def Settings.defaultBorder (settings : Settings) : Border :=
  .ofText ((settings.text .nodeBorder).getD [])

/-- The style words that settings give to every node. -/
def Settings.nodeWords (settings : Settings) : StyleWords where
  filled := (filled? (settings.text .nodeColour)).isSome
  rounded := settings.text .nodeShape == some ("rounded" : Text)
  line := settings.defaultBorder.style
  line_mem _ h := Border.style_ofText h

/-- The style words that a bracket gives to its node. -/
def Bracket.nodeWords (bracket : Bracket) : StyleWords where
  filled := !(bracket.first Bracket.fillKeys).isEmpty
  rounded := Text.lower (Text.trim (bracket.get "shape")) == ("rounded" : Text)
  line := (Border.ofText (bracket.get "border")).style
  line_mem _ h := Border.style_ofText h

/-- Which value is shown as the fill: that of a colour, and only without one
that of the background. -/
theorem Bracket.first_fillKeys (b : Bracket) :
    b.first Bracket.fillKeys =
      if b.first ["colour", "color"] = [] then b.get "background"
      else b.first ["colour", "color"] := by
  have hkeys : Bracket.fillKeys = ["colour".toList, "color".toList] ++ ["background".toList] := rfl
  unfold Bracket.first
  rw [hkeys, List.map_append, List.find?_append]
  cases hfound : List.find? (fun v => !v.isEmpty) (List.map b.keyed.get ["colour", "color"]) with
  | some value =>
      have hvalue : value ≠ [] := by simpa using List.find?_some hfound
      simp [hvalue]
  | none =>
      generalize hback : b.get "background" = value
      have hlast : (List.find? (fun v => !v.isEmpty) [value]).getD [] = value := by
        cases value with
        | nil => rfl
        | cons c rest => rfl
      rw [List.map_singleton, Option.none_or, Option.getD_none, if_pos rfl]
      unfold Bracket.get at hback
      rw [hback, hlast]

/-- A bracket fills its node by any of the keys. -/
theorem Bracket.filled_nodeWords (b : Bracket) :
    b.nodeWords.filled = true ↔ b.first ["colour", "color"] ≠ [] ∨ b.get "background" ≠ [] := by
  unfold Bracket.nodeWords
  rw [first_fillKeys]
  generalize b.first ["colour", "color"] = colour
  generalize b.get "background" = background
  by_cases hcolour : colour = []
  · simp [hcolour]
  · simp [hcolour]

namespace NodeStyle

variable (style : NodeStyle) (bracket : Bracket) (settings : Settings)

/-! ## Words that are added under a condition -/

/-- The words of a style after one is added under a condition. -/
theorem mem_styles_addStyle_if {name : Text} (hname : Text.trim name = name ∧ name ≠ [])
    (condition : Bool) (word : Text) :
    word ∈ (if condition then style.addStyle (some name) else style).styles ↔
      word ∈ style.styles ∨ (word = name ∧ condition = true) := by
  cases condition with
  | false => simp
  | true =>
      rw [if_pos rfl]
      exact (mem_addStyle_word hname).trans (by simp)

/-- The words of a style after it is filled, unless the colour is empty. -/
theorem mem_styles_setFill_unless (colour word : Text) :
    word ∈ (if colour.isEmpty then style else style.setFill colour).styles ↔
      word ∈ style.styles ∨ (word = "filled".toList ∧ colour ≠ []) := by
  cases colour with
  | nil => simp
  | cons c rest => exact (mem_addStyle_word (by decide)).trans (by simp)

/-! ## Brackets -/

/-- A bracket without a border draws the empty one. -/
private theorem setBorder_ofText (style : NodeStyle) (border : Text) :
    (if border.isEmpty then style else style.setBorder (.ofText border)) =
      style.setBorder (.ofText border) := by
  cases border with
  | nil => rfl
  | cons c rest => rfl

/-- The fill of a node after a bracket: the background, then the colour, and
else the fill that it had. -/
theorem fill_applyBracket : (style.applyBracket bracket).fill =
    if bracket.get "background" = [] then
      if bracket.first ["colour", "color"] = [] then style.fill
      else some (Colour.normalize (bracket.first ["colour", "color"]))
    else some (Colour.normalize (bracket.get "background")) := by
  unfold applyBracket
  dsimp only
  rw [setBorder_ofText]
  simp only [List.isEmpty_iff, setBorder, setFill, NodeStyle.addStyle]
  split_ifs <;> rfl

/-- A node has a fill after its bracket exactly if it had one, or the bracket
fills it. -/
theorem isSome_fill_applyBracket :
    (style.applyBracket bracket).fill.isSome = true ↔
      style.fill.isSome = true ∨ bracket.nodeWords.filled = true := by
  rw [fill_applyBracket, bracket.filled_nodeWords]
  generalize bracket.first ["colour", "color"] = colour
  generalize bracket.get "background" = background
  split_ifs with hback hcolour
  · simp [hback, hcolour]
  · simp [hcolour]
  · simp [hback]

/-- The border of a node after a bracket: what the bracket gives of it, and else
what the node had. -/
theorem border_applyBracket :
    (style.applyBracket bracket).borderWidth =
        (Border.ofText (bracket.get "border")).width.orElse (fun _ => style.borderWidth) ∧
      (style.applyBracket bracket).borderColour =
        (filled? (Border.ofText (bracket.get "border")).colour).orElse fun _ =>
          style.borderColour := by
  unfold applyBracket
  dsimp only
  rw [setBorder_ofText]
  simp only [setBorder, setFill, NodeStyle.addStyle]
  split_ifs <;> exact ⟨rfl, rfl⟩

/-- **A bracket adds its style words** to those that are there: for the fill,
for the shape and for the line of the border. -/
theorem mem_styles_applyBracket (word : Text) :
    word ∈ (style.applyBracket bracket).styles ↔ word ∈ style.styles ∨
    bracket.nodeWords.Has word := by
  have hborder : ∀ style : NodeStyle,
      word ∈ (style.setBorder (.ofText (bracket.get "border"))).styles ↔
        word ∈ style.styles ∨ bracket.nodeWords.line = some word :=
    fun _ => mem_addStyle_line bracket.nodeWords.line_mem
  unfold applyBracket StyleWords.Has
  dsimp only
  rw [setBorder_ofText, hborder, mem_styles_addStyle_if _ (by decide), mem_styles_setFill_unless,
    mem_styles_setFill_unless, bracket.filled_nodeWords, and_or_left]
  simp only [or_assoc]
  rfl

/-- A bracket that says nothing leaves the style as it is, where no other
attributes are set. -/
theorem applyBracket_empty {style : NodeStyle} (h : style.extras = []) :
    style.applyBracket {} = style := by
  cases style with
  | mk styles extras fill colour width size =>
      subst h
      rfl

/-! ## Defaults -/

/-- The default fill. -/
def addDefaultFill : NodeStyle :=
  match filled? (settings.text .nodeColour) with
  | some colour =>
    { style with fill := if (filled? style.fill).isNone then some colour else style.fill }.addStyle
      (some "filled")
  | none => style

/-- The default shape. -/
def addDefaultShape : NodeStyle :=
  if settings.nodeWords.rounded then style.addStyle (some "rounded") else style

/-- The defaults are added one after the other; settings without a border add
the empty one. -/
theorem applyDefaults_eq : style.applyDefaults settings =
    ((style.addDefaultFill settings).addDefaultShape settings).addDefaultBorder
      settings.defaultBorder := by
  have hempty : ∀ style : NodeStyle, style.addDefaultBorder {} = style := by
    rintro ⟨styles, extras, fill, colour, width, size⟩
    have hcolour : (if (filled? colour).isNone then colour else colour) = colour := ite_self colour
    have hwidth : (width.orElse fun _ => none) = width := by cases width <;> rfl
    unfold addDefaultBorder
    dsimp only
    rw [hwidth]
    exact congrArg (NodeStyle.mk styles extras fill · width size) hcolour
  unfold applyDefaults Settings.defaultBorder
  cases hborder : settings.text .nodeBorder with
  | none => exact (hempty _).symm
  | some border =>
      cases border with
      | nil => exact (hempty _).symm
      | cons c rest => rfl

theorem extras_applyDefaults : (style.applyDefaults settings).extras = style.extras := by
  rw [applyDefaults_eq]
  unfold addDefaultShape addDefaultFill
  cases filled? (settings.text .nodeColour) <;> split <;> rfl

/-- The words of a style after the default fill. -/
theorem mem_styles_addDefaultFill (word : Text) :
    word ∈ (style.addDefaultFill settings).styles ↔
      word ∈ style.styles ∨ (word = "filled".toList ∧ settings.nodeWords.filled = true) := by
  unfold addDefaultFill Settings.nodeWords
  cases filled? (settings.text .nodeColour) with
  | none => simp
  | some colour => exact (mem_addStyle_word (by decide)).trans (by simp)

/-- **The defaults add their style words** to those that are there, even where
the style has a fill or a border of its own. -/
theorem mem_styles_applyDefaults (word : Text) :
    word ∈ (style.applyDefaults settings).styles ↔ word ∈ style.styles ∨
    settings.nodeWords.Has word := by
  have hborder : ∀ style : NodeStyle,
      word ∈ (style.addDefaultBorder settings.defaultBorder).styles ↔
        word ∈ style.styles ∨ settings.nodeWords.line = some word :=
    fun _ => mem_addStyle_line settings.nodeWords.line_mem
  unfold StyleWords.Has
  rw [applyDefaults_eq, hborder, addDefaultShape, mem_styles_addStyle_if _ (by decide),
    mem_styles_addDefaultFill, or_assoc, or_assoc]

/-- A node has a fill after the defaults if it had one or there is a default
colour. -/
theorem isSome_fill_applyDefaults :
    (style.applyDefaults settings).fill.isSome = true ↔
      style.fill.isSome = true ∨ settings.nodeWords.filled = true := by
  have hlater : (style.applyDefaults settings).fill = (style.addDefaultFill settings).fill := by
    rw [applyDefaults_eq]
    unfold addDefaultShape
    split <;> rfl
  rw [hlater]
  unfold addDefaultFill Settings.nodeWords
  cases filled? (settings.text .nodeColour) with
  | none => simp
  | some colour =>
      cases style.fill with
      | none => simp [NodeStyle.addStyle, filled?]
      | some own =>
          simp only [NodeStyle.addStyle]
          split <;> simp

/-- A border that the node has of its own stays. -/
theorem border_applyDefaults :
    (∀ width, style.borderWidth = some width →
      (style.applyDefaults settings).borderWidth = some width) ∧
    ∀ colour, style.borderColour = some colour → colour ≠ [] →
      (style.applyDefaults settings).borderColour = some colour := by
  have hbefore : ((style.addDefaultFill settings).addDefaultShape settings).borderWidth =
      style.borderWidth ∧
      ((style.addDefaultFill settings).addDefaultShape settings).borderColour =
        style.borderColour := by
    unfold addDefaultShape addDefaultFill
    cases filled? (settings.text .nodeColour) <;> split <;> exact ⟨rfl, rfl⟩
  rw [applyDefaults_eq]
  unfold addDefaultBorder NodeStyle.addStyle
  dsimp only
  rw [hbefore.1, hbefore.2]
  constructor
  · intro width hwidth
    rw [hwidth]
    rfl
  · intro colour hcolour hne
    simp [hcolour, filled?, hne]

end NodeStyle

end LineDiagram
