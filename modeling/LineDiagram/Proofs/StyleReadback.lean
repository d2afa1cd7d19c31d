import LineDiagram.Inspect
import LineDiagram.Proofs.StyleEdits

/-!
# Written styles, shown again

An editor that sets a colour or a shape shows it the next time, whatever else is
in the bracket: other keys for the same attribute, the same key twice, keys
without a value.  A bracket is read as a table in which the last part of a key
counts, and a colour is looked up under several keys; as only one part is left
of an attribute that was set, no other one can come before it.

* `Bracket.first_of_single` — looking up an attribute of which there is one
  part;
* `Bracket.found_colour`, `Bracket.rounded_of_shows` — a colour and a shape that
  were set are found;
* `styleEdits_shown` — what was set is shown.
-/

namespace LineDiagram

open LineDiagram.Bracket

namespace Bracket

/-! ## Looking up an attribute -/

/-- A part with a key uses one of any keys among which this one is. -/
theorem usesKey_of_hasKey {keys : List Text} {key : String} (hkey : key.toList ∈ keys) {p : Text}
    (h : hasKey key p = true) : usesKey keys p = true := by
  have hfound : key? p = some key.toList := by simpa [hasKey] using h
  unfold usesKey
  rw [hfound]
  simpa using hkey

/-- The value of a key depends on the parts of its attribute only, and there on
the last one with this key. -/
theorem lastValue_filter {keys : List Text} {key : String} (hkey : key.toList ∈ keys)
    (parts : List Text) :
    lastValue key (parts.filter (usesKey keys)) = lastValue key parts := by
  have hsame : (parts.filter (usesKey keys)).filter (hasKey key) = parts.filter (hasKey key) := by
    rw [List.filter_filter]
    apply List.filter_congr
    intro p _
    cases hp : hasKey key p with
    | false => rfl
    | true => rw [usesKey_of_hasKey hkey hp]; rfl
  unfold lastValue
  rw [hsame]

/-- **An attribute of which there is one part** has its value, under whichever
key it is looked up. -/
theorem first_of_single {keys parts : List Text} {part : Text}
    (h : parts.filter (usesKey keys) = [part]) : (ofParts parts).first keys = value part := by
  have hget : ∀ key ∈ keys, (ofParts parts).keyed.get key =
      if key? part = some key then value part else [] := by
    intro key hkey
    have hvalue := get_ofParts parts (String.ofList key)
    have hmem : (String.ofList key).toList ∈ keys := by rwa [String.toList_ofList]
    rw [← lastValue_filter hmem, h] at hvalue
    unfold Bracket.get lastValue hasKey at hvalue
    rw [String.toList_ofList] at hvalue
    rw [hvalue]
    by_cases hpart : key? part = some key
    · simp [hpart]
    · simp [hpart]
  have huses : usesKey keys part = true :=
    (List.mem_filter.mp (h ▸ List.mem_singleton_self part : part ∈ parts.filter (usesKey keys))).2
  obtain ⟨key, hkey, hmem⟩ : ∃ key, key? part = some key ∧ key ∈ keys := by
    unfold usesKey at huses
    simpa [Option.any_eq_true] using huses
  -- under each key there is the value of the part or none, and under the key of the part its value
  unfold first
  cases hfound : (keys.map (ofParts parts).keyed.get).find? fun v => !v.isEmpty with
  | none =>
      have hempty := List.find?_eq_none.mp hfound _ (List.mem_map_of_mem hmem)
      rw [hget key hmem, if_pos hkey] at hempty
      have hnil : value part = [] := by simpa using hempty
      rw [hnil]
      rfl
  | some found =>
      obtain ⟨other, hother, heq⟩ := List.mem_map.mp (List.mem_of_find?_eq_some hfound)
      have hne : found ≠ [] := by simpa using List.find?_some hfound
      rw [hget other hother] at heq
      split at heq
      · exact heq.symm
      · exact absurd heq.symm hne

theorem first_singleton (b : Bracket) (key : String) : b.first [key.toList] = b.get key := by
  unfold first Bracket.get
  cases hvalue : b.keyed.get key.toList with
  | nil => simp [hvalue]
  | cons c rest => simp [hvalue]

theorem trim_value (part : Text) : Text.trim (value part) = value part := by
  unfold value
  split
  · exact Text.trim_trim _
  · exact Text.trim_trim _

/-! ## Brackets that are read as they were written -/

section Changes

variable {c : Char}

/-- A change of an attribute writes no part with a character that is in no part,
neither in the key nor in the value, and is no equals sign. -/
theorem Attribute.writes_not_mem (hc : c ≠ '=') (a : Attribute) (hkey : c ∉ a.key.toList)
    {value : Option Text} (hvalue : ∀ v ∈ value, c ∉ v) : (a.change value).Writes (c ∉ ·) := by
  refine a.writes_of_keyed (P := (c ∉ ·)) fun v hv written _ hsource => ?_
  have hwritten : c ∉ written := by
    rcases hsource with rfl | ⟨q, hq, hsub⟩
    · exact hkey
    · exact fun hmem => hq (hsub hmem)
  simp [hwritten, hc, hvalue v hv]

/-- Nor does a change of the rounded shape write one, if the character is in
neither of its two words. -/
theorem writes_not_mem_roundedChange (hc : c ≠ '=') (hkey : c ∉ "shape".toList)
    (hword : c ∉ "rounded".toList) (rounded : Field) : (roundedChange rounded).Writes (c ∉ ·) := by
  unfold roundedChange
  split
  · exact Attribute.shape.writes_not_mem hc hkey nofun
  · split
    · exact Attribute.shape.writes_not_mem hc hkey fun v hv => Option.some.inj hv ▸ hword
    · exact writes_unround _

/-- What no part and no value has is not in the bracket. -/
theorem not_mem_joinParts_runAll (hbar : c ∉ " | ".toList) {changes : List KeyedChange}
    (hapart : Apart changes) (hwrites : ∀ change ∈ changes, change.Writes (c ∉ ·)) {inner : Text}
    (hinner : c ∉ inner) : c ∉ joinParts (runAll changes (splitParts inner)) := by
  apply Text.not_mem_join hbar
  exact forall_mem_runAll hapart hwrites fun p hp hmem => hinner (Text.subset_of_mem_parts hp hmem)

end Changes

end Bracket

theorem Field.noBar_of_not_broken {field : Field} (h : field.isBroken = false) : field.NoBar :=
  fun _ hv => not_mem_spell (hv ▸ h) (by decide)

theorem Colour.sourceToken_ne_nil {t : Text} (h : (resolveHex? t).isSome = true) :
    sourceToken t ≠ [] := by
  intro hnil
  rw [← resolveHex?_sourceToken, hnil, resolveHex?_nil] at h
  cases h

/-! ## What is shown -/

namespace Bracket

/-- Of an attribute that was set there is one part, with its value.  Any others
that there were are gone. -/
theorem shows_some {keys old new : List Text} {value : Text} (hvalue : value ≠ [])
    (hshows : Shows keys (some value) old new) :
    ∃ part, new.filter (usesKey keys) = [part] ∧ Bracket.value part = value := by
  cases value with
  | nil => exact absurd rfl hvalue
  | cons c rest => exact hshows

/-- A colour that was set is found, and it is the same colour, although it may
be spelt in another way. -/
theorem resolveHex?_first {keys old new : List Text} {v : Text}
    (hv : (Colour.resolveHex? v).isSome = true)
    (hshows : Shows keys (some (Colour.sourceToken v)) old new) :
    Colour.resolveHex? ((ofParts new).first keys) = Colour.resolveHex? v := by
  obtain ⟨part, hsingle, hvalue⟩ := shows_some (Colour.sourceToken_ne_nil hv) hshows
  rw [first_of_single hsingle, hvalue, Colour.resolveHex?_sourceToken]

/-- A node is rounded, or it is not, as it was set. -/
theorem rounded_of_shows {old new : List Text} {r : Bool}
    (hshows : ShowsRounded (some (.flag r)) old new) :
    (Text.lower (Text.trim ((ofParts new).get "shape")) == "rounded".toList) = r := by
  cases r with
  | true =>
      have hset : Shows shapeKeys (some "rounded".toList) old new := hshows
      obtain ⟨part, hsingle, hvalue⟩ := shows_some (by decide) hset
      have hget : (ofParts new).get "shape" = "rounded".toList := by
        rw [← first_singleton, ← hvalue]
        exact first_of_single hsingle
      rw [hget]
      decide
  | false =>
      have hkept : new.filter (usesKey shapeKeys) =
          (old.filter (usesKey shapeKeys)).filter fun p => !isRounded p := hshows
      rw [get_ofParts]
      unfold lastValue
      cases hlast : (new.filter (hasKey "shape")).getLast? with
      | none => decide
      | some p =>
          obtain ⟨hp, hkey⟩ := List.mem_filter.mp (List.mem_of_getLast? hlast)
          have huses : usesKey shapeKeys p = true := usesKey_of_hasKey (by decide) hkey
          have hmem : p ∈ new.filter (usesKey shapeKeys) := List.mem_filter.mpr ⟨hp, huses⟩
          rw [hkept] at hmem
          have hround : isRounded p = false := by simpa using (List.mem_filter.mp hmem).2
          unfold isRounded at hround
          rw [huses, Bool.true_and] at hround
          rw [Option.map_some, Option.getD_some, trim_value]
          exact hround

/-- A bracket in which something was set is not empty. -/
theorem trim_ne_nil_of_shows {keys old : List Text} {inner value : Text} (hvalue : value ≠ [])
    (hshows : Shows keys (some value) old (splitParts inner)) : Text.trim inner ≠ [] := by
  obtain ⟨part, hsingle, -⟩ := shows_some hvalue hshows
  intro hnil
  unfold splitParts at hsingle
  rw [← Text.parts_trim (by decide), hnil] at hsingle
  cases hsingle

/-- What is written for a colour. -/
theorem toText?_colour {v : Text} (h : (Colour.resolveHex? v).isSome = true) :
    Field.toText? writtenColour (some (.text v)) = some (Colour.sourceToken v) := by
  cases v with
  | nil =>
      rw [Colour.resolveHex?_nil] at h
      cases h
  | cons c rest => rfl

/-- **A colour that was set is found**, whatever its keys are: the bracket is
not blank, and the first of the keys that has a value gives the colour. -/
theorem found_colour {keys old : List Text} {inner v : Text} {field : Field} (hopen : '[' ∉ inner)
    (hset : field = some (.text v)) (hv : (Colour.resolveHex? v).isSome = true)
    (hshows : Shows keys (field.toText? writtenColour) old (splitParts inner)) :
    ¬ (Text.trim inner).isEmpty = true ∧
      Colour.resolveHex? ((Bracket.ofText inner).first keys) = Colour.resolveHex? v := by
  rw [hset, toText?_colour hv] at hshows
  refine ⟨?_, ?_⟩
  · simpa using trim_ne_nil_of_shows (Colour.sourceToken_ne_nil hv) hshows
  · rw [ofText_eq hopen, resolveHex?_first hv hshows]

/-- No value that is written opens a bracket. -/
theorem no_open_toText? {field : Field} {convert : Value → Text}
    (h : ∀ v ∈ field, Fit (convert v)) :
    ∀ t ∈ field.toText? convert, '[' ∉ t :=
  Field.forall_toText? (P := ('[' ∉ ·)) nofun fun v hv => (fit_iff.mp (h v hv)).1

/-- A colour that breaks no bracket is written without an opening bracket. -/
theorem no_open_colour {field : Field} (h : field.isBroken = false) :
    ∀ t ∈ field.toText? writtenColour, '[' ∉ t :=
  no_open_toText? fun _ hv => fit_writtenColour (hv ▸ h)

theorem no_open_border {field : Field} (h : field.isBroken = false) :
    ∀ t ∈ field.toText? writtenBorder, '[' ∉ t :=
  no_open_toText? fun _ hv => fit_writtenBorder (hv ▸ h)

theorem no_open_textSize (field : Field) : ∀ t ∈ field.toText? writtenTextSize, '[' ∉ t :=
  no_open_toText? fun v _ => fit_of_numberText (numberText_writtenTextSize v)

end Bracket

/-- Whether a node is shown as rounded; an empty bracket makes it not, and there
is then no style to show. -/
theorem NodeStyleView.rounded_ofInner {inner : Text} (hopen : '[' ∉ inner) :
    ((ofInner inner).map (·.rounded)).getD false =
      (Text.lower (Text.trim ((Bracket.ofText inner).get "shape")) == "rounded".toList) := by
  unfold ofInner
  split
  · rename_i hblank
    have hparts : splitParts inner = [] := by
      unfold splitParts
      rw [← Text.parts_trim (by decide), List.isEmpty_iff.mp hblank]
      rfl
    rw [ofText_eq hopen, hparts]
    decide
  · rfl

/-! ## Edits that are shown -/

/-- After an edit of a node no other bracket opens in its bracket, if none did
before and the new values break none. -/
theorem NodeStyleEdit.no_open_apply (edit : NodeStyleEdit) {inner : Text} (hopen : '[' ∉ inner)
    (hfill : edit.fill.isBroken = false) (hborder : edit.border.isBroken = false) :
    '[' ∉ edit.apply inner := by
  rw [edit.apply_eq_runAll]
  refine not_mem_joinParts_runAll (by decide) edit.apart_changes ?_ hopen
  simp only [changes, List.forall_mem_cons]
  refine ⟨?_, ?_, ?_, ?_, List.forall_mem_nil _⟩
  · exact Attribute.fill.writes_not_mem (by decide) (by decide) (no_open_colour hfill)
  · exact Attribute.border.writes_not_mem (by decide) (by decide) (no_open_border hborder)
  · exact writes_not_mem_roundedChange (by decide) (by decide) (by decide) edit.rounded
  · exact Attribute.textSize.writes_not_mem (by decide) (by decide) (no_open_textSize edit.textSize)

/-- The same of an edit of a box. -/
theorem BoxStyleEdit.no_open_apply (edit : BoxStyleEdit) {inner : Text} (hopen : '[' ∉ inner)
    (hfill : edit.fill.isBroken = false) (hborder : edit.border.isBroken = false)
    (hcolour : edit.textColour.isBroken = false) : '[' ∉ edit.apply inner := by
  rw [edit.apply_eq_runAll]
  refine not_mem_joinParts_runAll (by decide) edit.apart_changes ?_ hopen
  simp only [changes, List.forall_mem_cons]
  refine ⟨?_, ?_, ?_, ?_, List.forall_mem_nil _⟩
  · exact Attribute.fill.writes_not_mem (by decide) (by decide) (no_open_colour hfill)
  · exact Attribute.border.writes_not_mem (by decide) (by decide) (no_open_border hborder)
  · exact Attribute.textColour.writes_not_mem (by decide) (by decide) (no_open_colour hcolour)
  · exact Attribute.textSize.writes_not_mem (by decide) (by decide) (no_open_textSize edit.textSize)

/-- **What was set is shown.**  Let no value of an edit be one that editors
refuse.  A colour that is set as the fill of a node, or as the fill or the
colour of the label of a box, is then shown in its hexadecimal digits, and a
node is shown as rounded exactly when it was set to be, whatever other parts
were in the bracket and whatever else the edit sets. -/
theorem styleEdits_shown {inner : Text} (hopen : '[' ∉ inner) :
    (∀ edit : NodeStyleEdit, edit.fill.isBroken = false → edit.border.isBroken = false →
      (∀ v, edit.fill = some (.text v) → (Colour.resolveHex? v).isSome = true →
        (NodeStyleView.ofInner (edit.apply inner)).map (·.fill) = some (Colour.resolveHex? v)) ∧
      ∀ r, edit.rounded = some (.flag r) →
        ((NodeStyleView.ofInner (edit.apply inner)).map (·.rounded)).getD false = r) ∧
    ∀ edit : BoxStyleEdit, edit.fill.isBroken = false → edit.border.isBroken = false →
      edit.textColour.isBroken = false →
      (∀ v, edit.fill = some (.text v) → (Colour.resolveHex? v).isSome = true →
        (BoxStyleView.ofInner (edit.apply inner)).map (·.fill) = some (Colour.resolveHex? v)) ∧
      ∀ v, edit.textColour = some (.text v) → (Colour.resolveHex? v).isSome = true →
        (BoxStyleView.ofInner (edit.apply inner)).map (·.textColour) =
          some (Colour.resolveHex? v) := by
  constructor
  · intro edit hfill hborder
    have hfree := edit.no_open_apply hopen hfill hborder
    have hkept :=
      edit.kept_apply (Field.noBar_of_not_broken hfill) (Field.noBar_of_not_broken hborder) inner
    constructor
    · intro v hset hv
      obtain ⟨hfilled, hcolour⟩ := found_colour hfree hset hv hkept.fill
      rw [NodeStyleView.ofInner, if_neg hfilled, Option.map_some, hcolour]
    · intro r hset
      have hshows := hkept.rounded
      rw [hset] at hshows
      rw [NodeStyleView.rounded_ofInner hfree, ofText_eq hfree, rounded_of_shows hshows]
  · intro edit hfill hborder hcolour
    have hfree := edit.no_open_apply hopen hfill hborder hcolour
    have hkept :=
      edit.kept_apply (Field.noBar_of_not_broken hfill) (Field.noBar_of_not_broken hborder)
      (Field.noBar_of_not_broken hcolour) inner
    constructor
    · intro v hset hv
      obtain ⟨hfilled, hcolour⟩ := found_colour hfree hset hv hkept.fill
      rw [BoxStyleView.ofInner, if_neg hfilled, Option.map_some, hcolour]
    · intro v hset hv
      obtain ⟨hfilled, hcolour⟩ := found_colour hfree hset hv hkept.textColour
      rw [BoxStyleView.ofInner, if_neg hfilled, Option.map_some, hcolour]

/-- A key without a value, a second fill and a second shape do not hide what was
set. -/
theorem styleEdits_shown_of_second_keys :
    '[' ∉ "colour=|BACKGROUND=blue|shape=oval|shape=Rounded|TextColor=red".toList ∧
      Field.isBroken (some (.text "#08F")) = false ∧ Field.isBroken none = false ∧
      Colour.resolveHex? "#08F" = some "#0088ff".toList ∧
      (NodeStyleView.ofInner
        (NodeStyleEdit.apply { fill := some (.text "#08F"), rounded := some (.flag false) }
          "colour=|BACKGROUND=blue|shape=oval|shape=Rounded|TextColor=red")).map (·.fill) =
        some (some "#0088ff".toList) ∧
      ((NodeStyleView.ofInner
        (NodeStyleEdit.apply { fill := some (.text "#08F"), rounded := some (.flag false) }
          "colour=|BACKGROUND=blue|shape=oval|shape=Rounded|TextColor=red")).map
            (·.rounded)).getD false =
        false ∧
      (BoxStyleView.ofInner
        (BoxStyleEdit.apply { textColour := some (.text "#08F") }
          "colour=|BACKGROUND=blue|shape=oval|shape=Rounded|TextColor=red")).map (·.textColour) =
        some (some "#0088ff".toList) := by
  have hopen :
      '[' ∉ "colour=|BACKGROUND=blue|shape=oval|shape=Rounded|TextColor=red".toList := by decide
  have hfit : Field.isBroken (some (.text "#08F")) = false := by decide
  have hhex : Colour.resolveHex? "#08F" = some "#0088ff".toList := by decide +kernel
  have hsome : (Colour.resolveHex? "#08F").isSome = true := by rw [hhex]; rfl
  obtain ⟨hnode, hbox⟩ := styleEdits_shown hopen
  obtain ⟨hfill, hrounded⟩ :=
    hnode { fill := some (.text "#08F"), rounded := some (.flag false) } hfit rfl
  obtain ⟨-, hcolour⟩ := hbox { textColour := some (.text "#08F") } rfl rfl hfit
  refine ⟨hopen, hfit, rfl, hhex, ?_, hrounded false rfl, ?_⟩
  · rw [← hhex]
    exact hfill _ rfl hsome
  · rw [← hhex]
    exact hcolour _ rfl hsome

end LineDiagram
