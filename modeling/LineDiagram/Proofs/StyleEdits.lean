import LineDiagram.Proofs.KeyedChanges

/-!
# Editing the bracket of a node or a box

An edit of a style sets some attributes, removes others and leaves the rest
alone.  Its parts are then written out with bars between them and read again, so
that a value must not hold a bar; everything else may stand in a bracket, also
parts that are keyed twice, loose parts and keys that mean nothing here.

* `splitParts_runAll` — what is written between bars is read as it was;
* `Shows` — what becomes of one attribute;
* `styleEdits_lossless` — an edit does what it should to each attribute, keeps
  all other parts in their order, and does nothing when it is made again.
-/

namespace LineDiagram

open LineDiagram.Bracket

namespace Bracket

/-! ## Parts that are written and read again -/

/-- A change of an attribute writes one part, if the value may be written behind
a key. -/
theorem Attribute.writes_change (a : Attribute) {value : Option Text}
    (hvalue : ∀ v ∈ value, Writable [] v) : (a.change value).Writes (OnePart []) := by
  refine a.writes_of_keyed (P := OnePart []) fun v hv written htight hsource => ?_
  have hbar : '|' ∉ written := by
    rcases hsource with rfl | ⟨q, hq, hsub⟩
    · exact a.no_bar
    · exact fun hmem => hq.no_bar (hsub hmem)
  simpa using onePart_keyed (by simp) (writable_of_no_bar htight hbar) (hvalue v hv)

/-- So does a change of the rounded shape. -/
theorem writes_roundedChange (rounded : Field) : (roundedChange rounded).Writes (OnePart []) := by
  have hword : Writable [] "rounded".toList :=
    writable_of_no_bar (Text.tight_of_all (by decide)) (by decide)
  unfold roundedChange
  split
  · exact Attribute.shape.writes_change nofun
  · split
    · exact Attribute.shape.writes_change fun v hv => Option.some.inj hv ▸ hword
    · exact writes_unround (OnePart [])

section Changes

variable {changes : List KeyedChange} (hapart : Apart changes)
  (hwrites : ∀ c ∈ changes, c.Writes (OnePart []))

include hapart hwrites

/-- **What the changes make of the parts is read again**: each part that is kept
was one, and so is each that is written. -/
theorem splitParts_runAll (inner : Text) :
    splitParts (joinParts (runAll changes (splitParts inner))) = runAll changes
    (splitParts inner) := by
  have hold : ∀ p ∈ splitParts inner, OnePart [] p := fun p hp => onePart_of_mem nofun hp
  exact splitParts_of_onePart (forall_mem_runAll hapart hwrites hold)

/-- So the changes are made once and for all: when they are made again, nothing
changes. -/
theorem joinParts_runAll_again (inner : Text) :
    joinParts (runAll changes (splitParts (joinParts (runAll changes (splitParts inner))))) =
      joinParts (runAll changes (splitParts inner)) := by
  rw [splitParts_runAll hapart hwrites, runAll_runAll hapart]

end Changes

/-! ## What becomes of an attribute -/

/-- What becomes of the parts of an attribute: they stay when there is no new
value, there is none when it is empty, and otherwise there is one part with the
value. -/
def Shows (keys : List Text) (value : Option Text) (old new : List Text) : Prop :=
  match value with
  | none => new.filter (usesKey keys) = old.filter (usesKey keys)
  | some [] => new.filter (usesKey keys) = []
  | some value => ∃ part, new.filter (usesKey keys) = [part] ∧ Bracket.value part = value

theorem Attribute.active_change (a : Attribute) (field : Field) (convert : Value → Text) :
    (a.change (field.toText? convert)).active = field.isSome := by
  cases field <;> rfl

/-- What becomes of the shape of a node: it is rounded, or it is another one
that was there before. -/
def ShowsRounded (rounded : Field) (old new : List Text) : Prop :=
  match rounded with
  | none => Shows shapeKeys none old new
  | some v =>
    if v.isFilled then Shows shapeKeys (some "rounded".toList) old new
    else new.filter (usesKey shapeKeys) =
      (old.filter (usesKey shapeKeys)).filter fun p => !isRounded p

/-- Whether a part is none of those that some fields are about: it uses no key
of a field that is set or cleared. -/
def leaves (fields : List (Field × List Text)) (part : Text) : Bool :=
  fields.all fun field => !(field.1.isSome && usesKey field.2 part)

/-- Changes of some fields leave the parts of no field, in their order and as
they are written. -/
theorem filter_leaves_runAll {changes : List KeyedChange} {fields : List (Field × List Text)}
    (h : (changes.map fun c => (c.active, c.keys)) = fields.map fun f => (f.1.isSome, f.2))
    (parts : List Text) :
    (runAll changes parts).filter (leaves fields) = parts.filter (leaves fields) := by
  apply filter_runAll_kept
  intro c hc hactive p hp
  have hmem : (c.active, c.keys) ∈ fields.map fun f => (f.1.isSome, f.2) :=
    h ▸ List.mem_map_of_mem hc
  obtain ⟨field, hfield, heq⟩ := List.mem_map.mp hmem
  obtain ⟨hsome, hkeys⟩ := Prod.mk.inj heq
  unfold leaves
  rw [List.all_eq_false]
  exact ⟨field, hfield, by simp [hsome, hkeys, hactive, hp]⟩

/-- What a change writes shows the new value: the part that is left under the
keys has it. -/
theorem Attribute.shows_change (a : Attribute) {value : Option Text}
    (htight : ∀ v ∈ value, Text.Tight v) {old new : List Text}
    (h : new.filter (usesKey a.keys) = (a.change value).own (old.filter (usesKey a.keys))) :
    Shows a.keys value old new := by
  have huses : ∀ p ∈ old.filter (usesKey a.keys), usesKey a.keys p = true :=
    fun p hp => (List.mem_filter.mp hp).2
  cases value with
  | none => exact h
  | some v =>
      cases v with
      | nil => exact h
      | cons c rest =>
          have hown : (a.change (some (c :: rest))).own (old.filter (usesKey a.keys)) =
              writtenParts a.key (c :: rest) (old.filter (usesKey a.keys)) := rfl
          rw [hown] at h
          obtain ⟨part, hpart⟩ : ∃ part,
              writtenParts a.key (c :: rest) (old.filter (usesKey a.keys)) = [part] := ⟨_, rfl⟩
          have hmem : part ∈ writtenParts a.key (c :: rest) (old.filter (usesKey a.keys)) := by
            rw [hpart]
            exact List.mem_singleton_self part
          obtain ⟨written, rfl, -, -, hfree, -, -⟩ := mem_writtenParts a huses hmem
          refine ⟨_, h.trans hpart, ?_⟩
          rw [show written ++ "=" ++ c :: rest = written ++ '=' :: c :: rest by simp,
            value_cut hfree, Text.trim_of_tight (htight _ rfl)]

/-- The change of the rounded shape shows it in the same way. -/
theorem showsRounded_change (rounded : Field) {old new : List Text}
    (h :
    new.filter (usesKey shapeKeys) = (roundedChange rounded).own (old.filter (usesKey shapeKeys))) :
    ShowsRounded rounded old new := by
  have hword : Text.Tight "rounded".toList := Text.tight_of_all (by decide)
  cases rounded with
  | none => exact h
  | some v =>
      cases hfilled : v.isFilled with
      | true =>
          have hchange : roundedChange (some v) = Attribute.shape.change (some "rounded".toList) :=
            if_pos hfilled
          rw [hchange] at h
          have hset := Attribute.shape.shows_change (fun v hv => Option.some.inj hv ▸ hword) h
          exact (if_pos hfilled).mpr hset
      | false =>
          have hno : ¬ v.isFilled = true := by simp [hfilled]
          have hchange : roundedChange (some v) = unround := if_neg hno
          rw [hchange] at h
          exact (if_neg hno).mpr h

/-! ## Values that are written -/

/-- The fill. -/
def Attribute.fill : Attribute where
  keys := fillKeys
  key := "colour"
  tight := Text.tight_of_all (by decide)

/-- The border. -/
def Attribute.border : Attribute where
  keys := borderKeys
  key := "border"
  tight := Text.tight_of_all (by decide)

/-- The colour of the label. -/
def Attribute.textColour : Attribute where
  keys := textColourKeys
  key := "text colour"
  tight := Text.tight_of_ends (by decide) (by decide)

/-- The size of the label. -/
def Attribute.textSize : Attribute where
  keys := textSizeKeys
  key := "text size"
  tight := Text.tight_of_ends (by decide) (by decide)

end Bracket

/-- No bar is in the value of a field. -/
def Field.NoBar (field : Field) : Prop := ∀ v ∈ field, '|' ∉ v.spell

/-- A number starts and ends with no blank. -/
theorem NumberText.tight {t : Text} (h : NumberText t) : Text.Tight t := by
  have hblanks : Text.blanks.all (fun c => !isNumberChar c) = true := by decide
  apply Text.tight_of_solid
  intro c hc
  rw [← Bool.not_eq_true]
  intro hblank
  have hno := List.all_eq_true.mp hblanks c (Text.mem_blanks hblank)
  rw [h c hc] at hno
  cases hno

/-- A colour without a bar is written without one. -/
theorem Colour.no_bar_sourceToken {t : Text} (h : '|' ∉ t) : '|' ∉ sourceToken t := by
  have hnumber : ∀ n, '|' ∉ Text.ofNat n := fun n => (numberText_ofNat n).not_mem (by decide)
  rcases sourceToken_cases t with ⟨c, -, htoken, -⟩ | htoken
  · rw [htoken]
    unfold rgbText
    simp [hnumber]
  · rw [htoken]
    exact fun hmem => h (Text.mem_of_mem_trim hmem)

/-- A colour without a bar may be written behind a key. -/
theorem writable_colour {field : Field} (h : field.NoBar) :
    ∀ t ∈ field.toText? writtenColour, Writable [] t := by
  refine Field.forall_toText? writable_nil fun v hv => ?_
  refine writable_of_no_bar (Colour.tight_sourceToken _) (Colour.no_bar_sourceToken ?_)
  unfold Value.textUnlessNull
  split
  · exact nofun
  · exact h v hv

/-- So may a border without a bar. -/
theorem writable_border {field : Field} (h : field.NoBar) :
    ∀ t ∈ field.toText? writtenBorder, Writable [] t := by
  refine Field.forall_toText? writable_nil fun v hv => ?_
  refine writable_of_no_bar (tight_writtenBorder v) ?_
  unfold writtenBorder
  rw [Comment.mem_escape (by decide)]
  apply Text.not_mem_join (by decide)
  intro token htoken
  obtain ⟨word, hword, rfl⟩ := List.mem_map.mp htoken
  apply Colour.no_bar_sourceToken
  intro hmem
  have hin := (Text.mem_of_mem_words hword hmem).2
  unfold Value.textIfFilled at hin
  split at hin
  · exact h v hv hin
  · cases hin

theorem writable_textSize (field : Field) : ∀ t ∈ field.toText? writtenTextSize, Writable [] t := by
  refine Field.forall_toText? writable_nil fun v _ => ?_
  have hnumber := numberText_writtenTextSize v
  exact writable_of_no_bar hnumber.tight (hnumber.not_mem (by decide))

/-! ## The edits -/

namespace NodeStyleEdit

variable (edit : NodeStyleEdit)

/-- The changes of an edit, in order. -/
def changes : List KeyedChange := [
  Attribute.fill.change (edit.fill.toText? writtenColour),
  Attribute.border.change (edit.border.toText? writtenBorder),
  roundedChange edit.rounded,
  Attribute.textSize.change (edit.textSize.toText? writtenTextSize)]

/-- The fields of an edit with their keys. -/
def fields : List (Field × List Text) := [
  (edit.fill, fillKeys), (edit.border, borderKeys), (edit.rounded, shapeKeys),
  (edit.textSize, textSizeKeys)]

/-- What an edit makes of the parts of a bracket. -/
structure Kept (old new : List Text) : Prop where
  /-- The other parts stay, in their order. -/
  others : new.filter (leaves edit.fields) = old.filter (leaves edit.fields)
  fill : Shows fillKeys (edit.fill.toText? writtenColour) old new
  border : Shows borderKeys (edit.border.toText? writtenBorder) old new
  rounded : ShowsRounded edit.rounded old new
  textSize : Shows textSizeKeys (edit.textSize.toText? writtenTextSize) old new

theorem apply_eq_runAll (inner : Text) :
    edit.apply inner = joinParts (runAll edit.changes (splitParts inner)) := by
  unfold changes runAll
  simp only [List.foldl_cons, List.foldl_nil, run_roundedChange]
  rfl

/-- The changes are of the fill, the border, the shape and the text size. -/
theorem keys_changes :
    edit.changes.map (·.keys) = [fillKeys, borderKeys, shapeKeys, textSizeKeys] := by
  unfold changes
  simp only [List.map_cons, List.map_nil, keys_roundedChange]
  rfl

/-- No two of these share a key, so the changes may be looked at one by one. -/
theorem apart_changes : Apart edit.changes := by
  unfold Apart
  rw [keys_changes]
  decide

section NoBars

variable (hfill : edit.fill.NoBar) (hborder : edit.border.NoBar)

include hfill hborder

theorem writes_changes : ∀ c ∈ edit.changes, c.Writes (OnePart []) := by
  simp only [changes, List.forall_mem_cons]
  exact ⟨Attribute.fill.writes_change (writable_colour hfill),
    Attribute.border.writes_change (writable_border hborder), writes_roundedChange edit.rounded,
    Attribute.textSize.writes_change (writable_textSize edit.textSize), List.forall_mem_nil _⟩

/-- What the changes make of the parts: each field that is given is shown, and
all other parts stay in their order. -/
theorem kept_runAll (parts : List Text) : edit.Kept parts (runAll edit.changes parts) := by
  have hown : ∀ c ∈ edit.changes, (runAll edit.changes parts).filter (usesKey c.keys) =
      c.own (parts.filter (usesKey c.keys)) := fun c hc => filter_runAll edit.apart_changes hc parts
  simp only [changes, List.forall_mem_cons] at hown
  obtain ⟨hownFill, hownBorder, hownShape, hownSize, -⟩ := hown
  rw [keys_roundedChange] at hownShape
  refine ⟨?_, ?_, ?_, showsRounded_change edit.rounded hownShape, ?_⟩
  · apply filter_leaves_runAll
    simp only [changes, fields, List.map_cons, List.map_nil, keys_roundedChange,
      active_roundedChange, Attribute.active_change]
    rfl
  · exact Attribute.fill.shows_change (fun t ht => (writable_colour hfill t ht).tight) hownFill
  · exact Attribute.border.shows_change
      (fun t ht => (writable_border hborder t ht).tight) hownBorder
  · exact Attribute.textSize.shows_change (fun t ht => (writable_textSize _ t ht).tight) hownSize

/-- What an edit makes of the bracket of a node, when its parts are read
again. -/
theorem kept_apply (inner : Text) :
    edit.Kept (splitParts inner) (splitParts (edit.apply inner)) := by
  rw [edit.apply_eq_runAll,
    splitParts_runAll edit.apart_changes (edit.writes_changes hfill hborder)]
  exact edit.kept_runAll hfill hborder _

end NoBars

end NodeStyleEdit

namespace BoxStyleEdit

variable (edit : BoxStyleEdit)

/-- The changes of an edit, in order. -/
def changes : List KeyedChange := [
  Attribute.fill.change (edit.fill.toText? writtenColour),
  Attribute.border.change (edit.border.toText? writtenBorder),
  Attribute.textColour.change (edit.textColour.toText? writtenColour),
  Attribute.textSize.change (edit.textSize.toText? writtenTextSize)]

/-- The fields of an edit with their keys. -/
def fields : List (Field × List Text) := [
  (edit.fill, fillKeys), (edit.border, borderKeys), (edit.textColour, textColourKeys),
  (edit.textSize, textSizeKeys)]

/-- What an edit makes of the parts of a bracket. -/
structure Kept (old new : List Text) : Prop where
  /-- The other parts stay, in their order. -/
  others : new.filter (leaves edit.fields) = old.filter (leaves edit.fields)
  fill : Shows fillKeys (edit.fill.toText? writtenColour) old new
  border : Shows borderKeys (edit.border.toText? writtenBorder) old new
  textColour : Shows textColourKeys (edit.textColour.toText? writtenColour) old new
  textSize : Shows textSizeKeys (edit.textSize.toText? writtenTextSize) old new

theorem apply_eq_runAll (inner : Text) :
    edit.apply inner = joinParts (runAll edit.changes (splitParts inner)) := rfl

/-- No two of them share a key. -/
theorem apart_changes : Apart edit.changes := by
  have hkeys :
      edit.changes.map (·.keys) = [fillKeys, borderKeys, textColourKeys, textSizeKeys] := rfl
  unfold Apart
  rw [hkeys]
  decide

section NoBars

variable (hfill : edit.fill.NoBar) (hborder : edit.border.NoBar) (hcolour : edit.textColour.NoBar)

include hfill hborder hcolour

theorem writes_changes : ∀ c ∈ edit.changes, c.Writes (OnePart []) := by
  simp only [changes, List.forall_mem_cons]
  exact ⟨Attribute.fill.writes_change (writable_colour hfill),
    Attribute.border.writes_change (writable_border hborder),
    Attribute.textColour.writes_change (writable_colour hcolour),
    Attribute.textSize.writes_change (writable_textSize edit.textSize), List.forall_mem_nil _⟩

/-- What the changes make of the parts: each field is shown, and the other parts
stay. -/
theorem kept_runAll (parts : List Text) : edit.Kept parts (runAll edit.changes parts) := by
  have hown : ∀ c ∈ edit.changes, (runAll edit.changes parts).filter (usesKey c.keys) =
      c.own (parts.filter (usesKey c.keys)) := fun c hc => filter_runAll edit.apart_changes hc parts
  simp only [changes, List.forall_mem_cons] at hown
  obtain ⟨hownFill, hownBorder, hownColour, hownSize, -⟩ := hown
  refine ⟨?_, ?_, ?_, ?_, ?_⟩
  · apply filter_leaves_runAll
    simp only [changes, fields, List.map_cons, List.map_nil, Attribute.active_change]
    rfl
  · exact Attribute.fill.shows_change (fun t ht => (writable_colour hfill t ht).tight) hownFill
  · exact Attribute.border.shows_change
      (fun t ht => (writable_border hborder t ht).tight) hownBorder
  · exact Attribute.textColour.shows_change
      (fun t ht => (writable_colour hcolour t ht).tight) hownColour
  · exact Attribute.textSize.shows_change (fun t ht => (writable_textSize _ t ht).tight) hownSize

/-- What an edit makes of the bracket of a box, when its parts are read
again. -/
theorem kept_apply (inner : Text) :
    edit.Kept (splitParts inner) (splitParts (edit.apply inner)) := by
  rw [edit.apply_eq_runAll,
    splitParts_runAll edit.apart_changes (edit.writes_changes hfill hborder hcolour)]
  exact edit.kept_runAll hfill hborder hcolour _

end NoBars

end BoxStyleEdit

/-- **Brackets are edited without loss.**  As long as no bar is in a value, an
edit that is made again changes nothing.  Parts that use no key of a field that
is set or cleared stay in their order.  Of an attribute that is set there is one
part with its value, of one that is cleared there is none, and one that is left
alone keeps its parts. -/
theorem styleEdits_lossless :
    (∀ (edit : NodeStyleEdit) (inner : Text), edit.fill.NoBar → edit.border.NoBar →
      edit.apply (edit.apply inner) = edit.apply inner ∧
        edit.Kept (splitParts inner) (splitParts (edit.apply inner))) ∧
    ∀ (edit : BoxStyleEdit) (inner : Text), edit.fill.NoBar → edit.border.NoBar →
      edit.textColour.NoBar → edit.apply (edit.apply inner) = edit.apply inner ∧
        edit.Kept (splitParts inner) (splitParts (edit.apply inner)) := by
  constructor
  · intro edit inner hfill hborder
    refine ⟨?_, edit.kept_apply hfill hborder inner⟩
    simp only [edit.apply_eq_runAll]
    exact joinParts_runAll_again edit.apart_changes (edit.writes_changes hfill hborder) inner
  · intro edit inner hfill hborder hcolour
    refine ⟨?_, edit.kept_apply hfill hborder hcolour inner⟩
    simp only [edit.apply_eq_runAll]
    exact joinParts_runAll_again edit.apart_changes
      (edit.writes_changes hfill hborder hcolour) inner

/-- A fill that has two keys, one of them in capitals, is set under the first;
an empty border goes, a size is set at the end, and a loose part, a key that
means nothing and the shape stay. -/
theorem styleEdits_lossless_of_two_keys :
    Field.NoBar (some (.text "#0080ff")) ∧ Field.NoBar (some .null) ∧ Field.NoBar none ∧
      NodeStyleEdit.apply
          { fill := some (.text "#0080ff"), border := some .null, textSize := some (.text "120%") }
          " Color = red|n=3| note |BACKGROUND=x|border=|shape=oval" =
        "Color=rgb(0,128,255) | n=3 | note | shape=oval | text size=1.2".toList ∧
      NodeStyleEdit.apply
          { fill := some (.text "#0080ff"), border := some .null, textSize := some (.text "120%") }
          "Color=rgb(0,128,255) | n=3 | note | shape=oval | text size=1.2" =
        "Color=rgb(0,128,255) | n=3 | note | shape=oval | text size=1.2".toList ∧
      NodeStyleEdit.Kept
          { fill := some (.text "#0080ff"), border := some .null, textSize := some (.text "120%") }
          ["Color = red", "n=3", "note", "BACKGROUND=x", "border=", "shape=oval"]
          ["Color=rgb(0,128,255)", "n=3", "note", "shape=oval", "text size=1.2"] ∧
      BoxStyleEdit.apply { textColour := some (.text "#0080ff") } "TextColor=x | border=1px" =
        "TextColor=rgb(0,128,255) | border=1px".toList ∧
      BoxStyleEdit.Kept { textColour := some (.text "#0080ff") } ["TextColor=x", "border=1px"]
        ["TextColor=rgb(0,128,255)", "border=1px"] := by
  have hcolour : Field.NoBar (some (.text "#0080ff")) := by
    intro v hv
    cases hv
    decide
  have hnull : Field.NoBar (some .null) := by
    intro v hv
    cases hv
    decide
  have hnone : Field.NoBar none := nofun
  obtain ⟨hnode, hbox⟩ := styleEdits_lossless
  have hedited : NodeStyleEdit.apply
      { fill := some (.text "#0080ff"), border := some .null, textSize := some (.text "120%") }
      " Color = red|n=3| note |BACKGROUND=x|border=|shape=oval" =
      "Color=rgb(0,128,255) | n=3 | note | shape=oval | text size=1.2".toList := by decide +kernel
  have hboxed :
      BoxStyleEdit.apply { textColour := some (.text "#0080ff") } "TextColor=x | border=1px" =
      "TextColor=rgb(0,128,255) | border=1px".toList := by decide +kernel
  have hnodeKept := hnode
    { fill := some (.text "#0080ff"), border := some .null, textSize := some (.text "120%") }
    " Color = red|n=3| note |BACKGROUND=x|border=|shape=oval" hcolour hnull
  have hboxKept := hbox
    { textColour := some (.text "#0080ff") } "TextColor=x | border=1px" hnone hnone hcolour
  rw [hedited] at hnodeKept
  rw [hboxed] at hboxKept
  exact ⟨hcolour, hnull, hnone, hedited, hnodeKept.1, hnodeKept.2, hboxed, hboxKept.2⟩

end LineDiagram
