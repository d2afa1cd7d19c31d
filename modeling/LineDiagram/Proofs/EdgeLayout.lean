import LineDiagram.Edit.EdgeBracket
import LineDiagram.Graph.Style
import LineDiagram.Proofs.BorderText
import LineDiagram.Proofs.Bracket
import Mathlib.Data.List.InsertIdx

/-!
# The label in the bracket of an edge

The graph reads label and line of an edge off the parts of its bracket.  A keyed
label that is not empty wins; otherwise the first loose part is the label,
unless it is part of a border.  The label itself draws nothing, so the line is
drawn from all loose parts, or from a keyed border.

An editor finds the part that is the label by the same rules, but it looks at
the parts as they are written, backslashes included.

* `label_ofParts`, `sameLine_ofParts` — what the graph reads;
* `labelAt_ofInner` — the part that an editor takes for the label;
* `update_label` — the parts after the label was changed;
* `style_relabelled` — when the graph reads the new label, and the old line, off
  them.
-/

namespace LineDiagram

open LineDiagram.Bracket

namespace EdgeStyle

/-- Two edges are drawn with the same line: colour, width and style words. -/
def SameLine (a b : EdgeStyle) : Prop :=
  a.colour = b.colour ∧ a.width = b.width ∧ a.styles = b.styles

instance (a b : EdgeStyle) : Decidable (SameLine a b) :=
  inferInstanceAs (Decidable (a.colour = b.colour ∧ a.width = b.width ∧ a.styles = b.styles))

theorem SameLine.symm {a b : EdgeStyle} (h : SameLine a b) : SameLine b a :=
  ⟨h.1.symm, h.2.1.symm, h.2.2.symm⟩

theorem SameLine.trans {a b c : EdgeStyle} (h : SameLine a b) (h' : SameLine b c) : SameLine a c :=
  ⟨h.1.trans h'.1, h.2.1.trans h'.2.1, h.2.2.trans h'.2.2⟩

/-- The label that the parts of a bracket give. -/
def labelOf (parts : List Text) : Option Text :=
  if (lastValue "label" parts).isEmpty then (splitLooseLabel (looseParts parts)).1
  else some (lastValue "label" parts)

/-- The border that the parts of a bracket give. -/
def borderOf (parts : List Text) : Border :=
  if (lastValue "border" parts).isEmpty then Border.ofParts (looseParts parts)
  else Border.ofPart (lastValue "border" parts)

/-- A line that is drawn as a border says. -/
def ofBorder (border : Border) : EdgeStyle := setBorder {} border

/-- The line style of a border is the only style word of its line, and without
one there is none. -/
theorem styles_ofBorder {border : Border}
    (h : ∀ word, border.style = some word → Text.trim word = word ∧ word ≠ []) :
    (ofBorder border).styles = border.style.toList := by
  unfold ofBorder setBorder
  cases hstyle : border.style with
  | none => rfl
  | some word =>
      obtain ⟨htrim, hne⟩ := h word hstyle
      simp [addStyle, htrim, hne]

/-- A line is drawn as a border says: in its colour, its width and its line
style only. -/
def Draws (style : EdgeStyle) (border : Border) : Prop :=
  style.colour = border.colour ∧ style.width = border.width ∧ style.styles = border.style.toList

instance (style : EdgeStyle) (border : Border) : Decidable (style.Draws border) :=
  inferInstanceAs (Decidable (style.colour = border.colour ∧ style.width = border.width ∧
    style.styles = border.style.toList))

/-- A line that is drawn like that of a border is drawn as that border says, and
as no other says. -/
theorem draws_iff {style : EdgeStyle} {a b : Border} (h : style.SameLine (ofBorder a))
    (hstyle : ∀ word, a.style = some word → Text.trim word = word ∧ word ≠ []) :
    style.Draws b ↔ a = b := by
  obtain ⟨hcolour, hwidth, hstyles⟩ := h
  have hcolour' : style.colour = a.colour := by
    rw [hcolour]
    simp [ofBorder, setBorder]
  have hwidth' : style.width = a.width := by
    rw [hwidth]
    simp [ofBorder, setBorder]
  have hstyles' : style.styles = a.style.toList := hstyles.trans (styles_ofBorder hstyle)
  unfold Draws
  rw [hcolour', hwidth', hstyles']
  constructor
  · rintro ⟨hc, hw, hs⟩
    have hword : a.style = b.style := by
      have hfirst := congrArg List.head? hs
      rwa [Option.head?_toList, Option.head?_toList] at hfirst
    obtain ⟨width, word, colour⟩ := a
    cases hc
    cases hw
    cases hword
    rfl
  · rintro rfl
    exact ⟨rfl, rfl, rfl⟩

/-- A part that is no part of a border draws nothing, wherever it stands
first. -/
theorem ofParts_cons {part : Text} (h : Border.isPart part = false) (rest : List Text) :
    Border.ofParts (part :: rest) = Border.ofParts rest := by
  rw [Border.ofParts_cons, Border.ofPart_eq_empty h, Border.empty_orElse]

/-- The parts that are left when the label is taken out draw the same, since a
label draws nothing. -/
theorem ofParts_splitLooseLabel (loose : List Text) :
    Border.ofParts (splitLooseLabel loose).2 = Border.ofParts loose := by
  cases loose with
  | nil => rfl
  | cons part rest =>
      rw [splitLooseLabel]
      split
      · rfl
      · rename_i hpart
        exact (ofParts_cons (by simpa using hpart) rest).symm

/-- The label of an edge is that of the parts of its bracket. -/
theorem label_ofParts (font : Text) (parts : List Text) :
    (ofBracket font (Bracket.ofParts parts)).label = labelOf parts := by
  unfold ofBracket labelOf setBorder
  rw [get_ofParts, get_ofParts, loose_ofParts]
  dsimp only
  split <;> split <;> rfl

/-- The line of an edge is drawn as the border in the parts of its bracket says,
whatever else they hold. -/
theorem sameLine_ofParts (font : Text) (parts : List Text) :
    SameLine (ofBracket font (Bracket.ofParts parts)) (ofBorder (borderOf parts)) := by
  have hloose : Border.ofParts (if (lastValue "label" parts).isEmpty
      then splitLooseLabel (looseParts parts)
      else (some (lastValue "label" parts), looseParts parts)).2 =
        Border.ofParts (looseParts parts) := by
    split
    · exact ofParts_splitLooseLabel _
    · rfl
  unfold ofBracket borderOf
  rw [get_ofParts, get_ofParts, loose_ofParts]
  dsimp only
  split
  · rw [hloose]
    exact ⟨rfl, rfl, rfl⟩
  · exact ⟨rfl, rfl, rfl⟩

end EdgeStyle

namespace EdgeLayout

/-! ## The part that is the label -/

/-- The positions of the parts with a key, in order. -/
def keyedAt (key : String) (parts : List Text) : List Nat :=
  (List.range parts.length).filter fun i => hasKey key (parts.getD i [])

/-- The parts with a property, by their positions. -/
theorem filter_eq_positions (p : Text → Bool) (parts : List Text) :
    parts.filter p = ((List.range parts.length).filter fun i => p (parts.getD i [])).map
      fun i => parts.getD i [] := by
  induction parts with
  | nil => rfl
  | cons part parts ih =>
      rw [List.length_cons, List.range_succ_eq_map, List.filter_cons, List.filter_cons, ih]
      split <;> simp_all [List.filter_map, Function.comp_def]

section Keyed

variable {key : String} {parts : List Text}

/-- A position is among those of a key exactly if the part there has the key. -/
private theorem mem_keyedAt (key : String) {i : Nat} {p : Text} (hp : parts[i]? = some p) :
    i ∈ keyedAt key parts ↔ hasKey key p = true := by
  have hlt := (List.getElem?_eq_some_iff.mp hp).1
  unfold keyedAt
  rw [List.mem_filter, Text.getD_of_getElem? hp]
  simp [hlt]

/-- The value of a key is that of the part at the last of its positions. -/
private theorem lastValue_eq : lastValue key parts =
    ((keyedAt key parts).getLast?.map fun i => value (parts.getD i [])).getD [] := by
  unfold lastValue
  rw [filter_eq_positions (hasKey key) parts, List.getLast?_map, Option.map_map]
  rfl

private theorem lastKeyed_nil (h : keyedAt key parts = []) : lastKeyed parts key = (none, []) := by
  unfold keyedAt hasKey at h
  unfold lastKeyed
  rw [h]
  rfl

/-- An editor takes the last part under a key, unless its value is empty: then
it takes none, and all parts under the key are left over. -/
private theorem lastKeyed_concat {init : List Nat} {k : Nat} (h : keyedAt key parts = init ++ [k]) :
    lastKeyed parts key =
      if (value (parts.getD k [])).isEmpty then (none, init ++ [k]) else (some k, init) := by
  unfold keyedAt hasKey at h
  unfold lastKeyed
  rw [h]
  dsimp only
  rw [List.getLast?_concat, List.dropLast_concat]

/-- The last position is larger than all others, and no part behind it has the
key. -/
private theorem keyedAt_concat {init : List Nat} {k : Nat} (h : keyedAt key parts = init ++ [k]) :
    (∃ p, parts[k]? = some p ∧ hasKey key p = true) ∧ (∀ i ∈ init, i < k) ∧
      ∀ q ∈ parts.drop (k + 1), hasKey key q = false := by
  have hsorted : (keyedAt key parts).Pairwise (· < ·) := List.pairwise_lt_range.filter _
  rw [h, List.pairwise_append] at hsorted
  have hinit : ∀ i ∈ init, i < k := fun i hi => hsorted.2.2 i hi k (by simp)
  have hk : k ∈ keyedAt key parts := by
    simp [h]
  have hlt : k < parts.length := List.mem_range.mp (List.mem_filter.mp hk).1
  have hget := List.getElem?_eq_getElem hlt
  refine ⟨⟨_, hget, (mem_keyedAt key hget).mp hk⟩, hinit, ?_⟩
  intro q hq
  obtain ⟨j, hj⟩ := List.mem_iff_getElem?.mp hq
  rw [List.getElem?_drop] at hj
  have hnot : k + 1 + j ∉ keyedAt key parts := by
    rw [h, List.mem_append, List.mem_singleton]
    rintro (hin | hk)
    · have := hinit _ hin
      omega
    · omega
  rw [mem_keyedAt key hj] at hnot
  simpa using hnot

end Keyed

/-- What an editor finds for a key: no part that counts, and then all parts with
the key are hidden; or the last of them, and then the others are. -/
theorem lastKeyed_spec (parts : List Text) (key : String) :
    (lastValue key parts = [] ∧ (lastKeyed parts key).1 = none ∧
      ∀ i p, parts[i]? = some p → (lastKeyed parts key).2.contains i = hasKey key p) ∨
    ∃ k p, parts[k]? = some p ∧ (lastKeyed parts key).1 = some k ∧ hasKey key p = true ∧
      value p ≠ [] ∧ (∀ q ∈ parts.drop (k + 1), hasKey key q = false) ∧
      ∀ i q, parts[i]? = some q →
        (lastKeyed parts key).2.contains i = (hasKey key q && decide (i ≠ k)) := by
  rw [lastValue_eq]
  rcases List.eq_nil_or_concat (keyedAt key parts) with hnil | ⟨init, k, hconcat⟩
  · left
    rw [lastKeyed_nil hnil, hnil]
    refine ⟨rfl, rfl, ?_⟩
    intro i p hp
    have hno := mem_keyedAt key hp
    simp only [hnil, List.not_mem_nil, false_iff, Bool.not_eq_true] at hno
    simp [hno]
  · rw [List.concat_eq_append] at hconcat
    obtain ⟨⟨p, hget, hkey⟩, hinit, hlast⟩ := keyedAt_concat hconcat
    rw [lastKeyed_concat hconcat, hconcat, List.getLast?_concat, Option.map_some, Option.getD_some,
      Text.getD_of_getElem? hget]
    by_cases hvalue : value p = []
    · left
      rw [if_pos (List.isEmpty_iff.mpr hvalue)]
      refine ⟨hvalue, rfl, ?_⟩
      intro i q hq
      rw [Bool.eq_iff_iff, List.contains_iff_mem, ← mem_keyedAt key hq, hconcat]
    · right
      rw [if_neg (by simpa using hvalue)]
      refine ⟨k, p, hget, rfl, hkey, hvalue, hlast, ?_⟩
      intro i q hq
      rw [Bool.eq_iff_iff, List.contains_iff_mem, Bool.and_eq_true, decide_eq_true_eq,
        ← mem_keyedAt key hq, hconcat, List.mem_append, List.mem_singleton]
      constructor
      · intro hin
        exact ⟨Or.inl hin, Nat.ne_of_lt (hinit i hin)⟩
      · rintro ⟨hin | rfl, hne⟩
        · exact hin
        · exact absurd rfl hne

/-- The part that an editor takes for the label. -/
inductive LabelAt (parts : List Text) : Option Nat → Prop
  | keyed (i : Nat) (p : Text) (hp : parts[i]? = some p) (hkey : hasKey "label" p = true)
      (hvalue : value p ≠ []) (hlast : ∀ q ∈ parts.drop (i + 1), hasKey "label" q = false) :
      LabelAt parts (some i)
  | loose (i : Nat) (p : Text) (hp : parts[i]? = some p) (hnone : lastValue "label" parts = [])
      (hloose : key? p = none) (hborder : Border.isPart p = false)
      (hfirst : ∀ q ∈ parts.take i, key? q ≠ none) : LabelAt parts (some i)
  | missing (hnone : lastValue "label" parts = [])
      (hborder : ∀ p, (looseParts parts).head? = some p → Border.isPart p = true) :
      LabelAt parts none

/-- The first loose part, by its position. -/
private theorem head_loose (parts : List Text) :
    (looseParts parts).head? =
      ((List.range parts.length).find? fun i => (key? (parts.getD i [])).isNone).map
        fun i => parts.getD i [] := by
  unfold looseParts
  rw [filter_eq_positions, List.head?_map, List.head?_filter]

private theorem label_of_keyed {inner : Text} {k : Nat}
    (h : (lastKeyed (splitParts inner) "label").1 = some k) : (ofInner inner).label = some k := by
  unfold ofInner
  dsimp only
  rw [h]

/-- Without a keyed label it is the first loose part, unless that one draws. -/
private theorem label_of_loose {inner : Text}
    (h : (lastKeyed (splitParts inner) "label").1 = none) :
    (ofInner inner).label =
      ((List.range (splitParts inner).length).find? fun i =>
        (key? ((splitParts inner).getD i [])).isNone).filter fun i =>
          !Border.isPart ((splitParts inner).getD i []) := by
  unfold ofInner
  dsimp only
  rw [h, ← List.head?_filter]
  cases (List.range (splitParts inner).length).filter fun i =>
      (key? ((splitParts inner).getD i [])).isNone with
  | nil => rfl
  | cons first rest =>
      rw [List.head?_cons]
      dsimp only
      by_cases hborder : Border.isPart ((splitParts inner).getD first []) = true
      · rw [if_pos hborder]
        simp only [Option.filter, hborder]
        rfl
      · rw [if_neg hborder]
        rw [Bool.not_eq_true] at hborder
        simp only [Option.filter, hborder]
        rfl

/-- Without a keyed label it is the first loose part, unless that is part of a
border. -/
private theorem labelAt_loose {parts : List Text} (hnone : lastValue "label" parts = []) :
    LabelAt parts (((List.range parts.length).find? fun i =>
      (key? (parts.getD i [])).isNone).filter fun i => !Border.isPart (parts.getD i [])) := by
  have hhead := head_loose parts
  cases hfind : (List.range parts.length).find? fun i => (key? (parts.getD i [])).isNone with
  | none =>
      rw [hfind] at hhead
      refine .missing hnone ?_
      intro p hp
      rw [hhead] at hp
      cases hp
  | some first =>
      rw [hfind] at hhead
      obtain ⟨hloose, hlt, hbefore⟩ := List.find?_range_eq_some.mp hfind
      rw [List.mem_range] at hlt
      rw [Option.isNone_iff_eq_none] at hloose
      have hget : parts[first]? = some (parts.getD first []) := by
        rw [List.getD_eq_getElem?_getD, List.getElem?_eq_getElem hlt, Option.getD_some]
      cases hborder : Border.isPart (parts.getD first []) with
      | true =>
          simp only [Option.filter, hborder, Bool.not_true, Bool.false_eq_true, if_false]
          refine .missing hnone ?_
          intro p hp
          rw [hhead, Option.map_some, Option.some_inj] at hp
          rw [← hp]
          exact hborder
      | false =>
          simp only [Option.filter, hborder, Bool.not_false, if_true]
          refine .loose first _ hget hnone hloose hborder ?_
          intro q hq
          obtain ⟨j, hj⟩ := List.mem_iff_getElem?.mp hq
          rw [List.getElem?_take] at hj
          split at hj
          · rename_i hjlt
            have hkeyed := hbefore j hjlt
            rw [Text.getD_of_getElem? hj] at hkeyed
            intro hq
            simp [hq] at hkeyed
          · cases hj

/-- **The part that an editor takes for the label**, and the parts with that key
which it takes for hidden. -/
theorem labelAt_ofInner (inner : Text) :
    LabelAt (splitParts inner) (ofInner inner).label ∧
      ∀ i p, (splitParts inner)[i]? = some p → (ofInner inner).hiddenLabels.contains i =
        (hasKey "label" p && decide ((ofInner inner).label ≠ some i)) := by
  have hhidden : (ofInner inner).hiddenLabels = (lastKeyed (splitParts inner) "label").2 := rfl
  rw [hhidden]
  rcases lastKeyed_spec (splitParts inner) "label" with ⟨hnone, hkeyed, hall⟩ |
    ⟨k, p, hp, hkeyed, hkey, hvalue, hlast, hothers⟩
  · have hat := labelAt_loose hnone
    rw [← label_of_loose hkeyed] at hat
    refine ⟨hat, ?_⟩
    intro i p hp
    rw [hall i p hp]
    cases hkey : hasKey "label" p with
    | false => rfl
    | true =>
        -- A part with the key of a label is not the label here.
        rw [Bool.true_and, eq_comm, decide_eq_true_eq]
        intro hi
        rw [hi] at hat
        cases hat with
        | keyed _ q hq hkey' hvalue hlast =>
            exact hvalue ((lastValue_of_last hq hkey' hlast).symm.trans hnone)
        | loose _ q hq hnone' hloose hborder hfirst =>
            obtain rfl : p = q := Option.some.inj (hp.symm.trans hq)
            unfold hasKey at hkey
            rw [hloose] at hkey
            cases hkey
  · rw [label_of_keyed hkeyed]
    refine ⟨.keyed k p hp hkey hvalue hlast, ?_⟩
    intro i q hq
    rw [hothers i q hq]
    congr 1
    simp [eq_comm]

/-! ## The parts after the label was changed -/

/-- Whether a part has another key than that of a label, or none. -/
def isOther (part : Text) : Bool := !hasKey "label" part

/-- The parts with another label: it takes the place of the old one, or comes
first, and no other part is keyed as a label. -/
def relabelledParts (parts : List Text) (label : Text) : Option Nat → List Text
  | none => labelPart label none :: parts.filter isOther
  | some i =>
    (parts.take i).filter isOther ++
      labelPart label (writtenKey? (parts.getD i [])) :: (parts.drop (i + 1)).filter isOther

theorem relabelledParts_ne_nil (parts : List Text) (label : Text) (at? : Option Nat) :
    relabelledParts parts label at? ≠ [] := by
  cases at? <;> simp [relabelledParts]

/-- A label that has a key is written behind the key and an equals sign. -/
theorem labelPart_key (label key : Text) : labelPart label (some key) = key ++ '=' :: label := by
  simp [labelPart]

/-- A label that is not empty is written as something, with a key or without. -/
theorem labelPart_ne_nil {label : Text} (h : label ≠ []) (key : Option Text) :
    labelPart label key ≠ [] := by
  unfold labelPart
  split
  · simp
  · split
    · simp
    · exact h

/-- A part with a key holds an equals sign. -/
private theorem equals_mem_of_hasKey {key : String} {part : Text} (h : hasKey key part = true) :
    '=' ∈ part := by
  by_contra hnone
  unfold hasKey at h
  rw [key?_of_not_mem hnone] at h
  cases h

section Emptied

variable {f : Nat → Text → Text} {keep : Text → Bool} {parts : List Text}

/-- Parts that are kept or emptied by what they are, with the empty ones taken
out. -/
theorem filter_mapIdx (hne : ∀ p ∈ parts, p ≠ [])
    (h : ∀ i p, parts[i]? = some p → f i p = if keep p then p else []) :
    ((parts.mapIdx f).filter fun p => !p.isEmpty) = parts.filter keep := by
  induction parts generalizing f with
  | nil => rfl
  | cons p parts ih =>
      have hrest := ih (f := fun i => f (i + 1)) (fun q hq => hne q (List.mem_cons_of_mem p hq))
        (fun i q hq => h (i + 1) q hq)
      have hp : p ≠ [] := hne p List.mem_cons_self
      rw [List.mapIdx_cons, List.filter_cons, List.filter_cons, hrest, h 0 p rfl]
      by_cases hkeep : keep p = true
      · simp [hkeep, hp]
      · simp [hkeep]

/-- The same when the part at one position becomes another one. -/
theorem filter_mapIdx_at {k : Nat} {p : Text} (hp : parts[k]? = some p) (hne : ∀ q ∈ parts, q ≠ [])
    (h : ∀ i q, parts[i]? = some q → i ≠ k → f i q = if keep q then q else []) :
    ((parts.mapIdx f).filter fun q => !q.isEmpty) =
      (parts.take k).filter keep ++
        ([f k p].filter (fun q => !q.isEmpty) ++ (parts.drop (k + 1)).filter keep) := by
  induction k generalizing parts f with
  | zero =>
      cases parts with
      | nil => cases hp
      | cons q parts =>
          cases hp
          have hrest := filter_mapIdx (f := fun i => f (i + 1))
            (fun q hq => hne q (List.mem_cons_of_mem p hq))
              (fun i q hq => h (i + 1) q hq (by omega))
          rw [List.mapIdx_cons, List.filter_cons, hrest]
          cases hempty : (f 0 p).isEmpty with
          | true => simp [hempty]
          | false => simp [hempty]
  | succ k ih =>
      cases parts with
      | nil => cases hp
      | cons q parts =>
          have hrest := ih (f := fun i => f (i + 1)) hp
            (fun q' hq => hne q' (List.mem_cons_of_mem q hq))
            (fun i q' hq hi => h (i + 1) q' hq (by omega))
          have hq : q ≠ [] := hne q List.mem_cons_self
          rw [List.mapIdx_cons, List.filter_cons, hrest, h 0 q rfl (by omega), List.take_succ_cons,
            List.filter_cons, List.drop_succ_cons]
          by_cases hkeep : keep q = true
          · simp [hkeep, hq]
          · simp [hkeep]

end Emptied

/-- What becomes of a part: the label is replaced or goes, and other parts that
are keyed as a label go. -/
theorem withLabel_eq {inner : Text} (label : Text) {i : Nat} {p : Text}
    (hp : (splitParts inner)[i]? = some p) :
    (ofInner inner).withLabel label i p =
      if (ofInner inner).label = some i then
        if label.isEmpty then [] else labelPart label (writtenKey? p)
      else if isOther p then p else [] := by
  obtain ⟨-, hhidden⟩ := labelAt_ofInner inner
  unfold withLabel
  rw [hhidden i p hp]
  by_cases hi : (ofInner inner).label = some i
  · simp [hi]
  · cases hkey : hasKey "label" p with
    | true => simp [hi, isOther, hkey]
    | false => simp [hi, isOther, hkey]

/-- **The parts after the label was changed.**  The editor works with positions
and a list of parts to drop; this says the same with the parts before and after
the old label. -/
theorem update_label {inner label : Text} (hlabel : label ≠ []) :
    (ofInner inner).update (some label) none =
      joinParts (relabelledParts (splitParts inner) label (ofInner inner).label) := by
  obtain ⟨hat, -⟩ := labelAt_ofInner inner
  have hparts : (ofInner inner).parts = splitParts inner := rfl
  have hne : ∀ p ∈ splitParts inner, p ≠ [] := fun p hp => (Text.mem_parts hp).2.1
  have hfilled : label.isEmpty = false := by
    simpa using hlabel
  unfold update
  dsimp only
  rw [hparts, hfilled]
  congr 1
  cases hlabelAt : (ofInner inner).label with
  | none =>
      have hmap : ((splitParts inner).mapIdx ((ofInner inner).withLabel label)).filter
          (fun p => !p.isEmpty) = (splitParts inner).filter isOther := by
        apply filter_mapIdx hne
        intro i p hp
        rw [withLabel_eq label hp, hlabelAt]
        simp
      simp only [Option.isNone_none, Bool.not_false, Bool.and_true, if_true, List.append_nil, hmap]
      rfl
  | some k =>
      rw [hlabelAt] at hat
      obtain ⟨p, hp⟩ : ∃ p, (splitParts inner)[k]? = some p := by
        cases hat with
        | keyed _ p hp => exact ⟨p, hp⟩
        | loose _ p hp => exact ⟨p, hp⟩
      have hhere : (ofInner inner).withLabel label k p = labelPart label (writtenKey? p) := by
        rw [withLabel_eq label hp, if_pos hlabelAt, if_neg (by simpa using hlabel)]
      have hmap := filter_mapIdx_at (f := (ofInner inner).withLabel label) hp hne
        (fun i q hq hi => by
          rw [withLabel_eq label hq, hlabelAt, if_neg]
          exact fun heq => hi (Option.some.inj heq).symm)
      have hwritten : [labelPart label (writtenKey? p)].filter (fun q => !q.isEmpty) =
          [labelPart label (writtenKey? p)] := by
        simp [labelPart_ne_nil hlabel]
      have hgetD : (splitParts inner).getD k [] = p := Text.getD_of_getElem? hp
      simp only [Option.isNone_some, Bool.false_and, Bool.false_eq_true, if_false, List.nil_append,
        List.append_nil, relabelledParts, hgetD]
      rw [hmap, hhere, hwritten, List.singleton_append]

/-- A key, an equals sign and a value may stand in a bracket. -/
theorem enclosed_keyed {key text : Text} (hkey : Enclosed key) (hkeyNe : key ≠ [])
    (htext : Enclosed text) (htextNe : text ≠ []) : Enclosed (key ++ '=' :: text) := by
  have hequals : Comment.Plain ['='] := Comment.plain_of_not_mem (by decide)
  refine ⟨hkey.tight.append hkeyNe ?_, hkey.plain.append (hequals.append htext.plain), ?_, ?_⟩
  · intro c hc
    rw [← List.singleton_append, List.getLast?_append_of_ne_nil _ htextNe] at hc
    exact htext.tight.stop c hc
  · simp [hkey.no_open, htext.no_open]
  · simp [hkey.one_line, htext.one_line]

/-- They are one part. -/
private theorem sound_keyed {key label : Text} (hkey : Sound key) (hlabel : Sound label) :
    Sound (key ++ '=' :: label) :=
  ⟨enclosed_keyed hkey.toEnclosed hkey.ne_nil hlabel.toEnclosed hlabel.ne_nil, by simp,
    by simp [hkey.no_bar, hlabel.no_bar]⟩

/-- A sound label that is written without an old key is a sound part. -/
theorem sound_labelPart {label : Text} (hlabel : Sound label) :
    Sound (labelPart label none) := by
  have hkey : Sound "label".toList :=
    ⟨⟨Text.tight_of_all (by decide), Comment.plain_of_not_mem (by decide), by decide, by decide⟩,
      by decide, by decide⟩
  unfold labelPart
  dsimp only
  split
  · simpa using sound_keyed hkey hlabel
  · exact hlabel

/-- So is one that is written behind the key of a sound part. -/
private theorem sound_labelPart_key {part label : Text} (hpart : Sound part)
    (hkey : hasKey "label" part = true) (hlabel : Sound label) :
    Sound (labelPart label (writtenKey? part)) := by
  obtain ⟨a, b, rfl, ha⟩ := List.eq_append_cons_of_mem (equals_mem_of_hasKey hkey)
  have hlower : Text.lower (Text.trim a) = "label".toList := by
    have hsome : key? (a ++ '=' :: b) = some "label".toList := beq_iff_eq.mp hkey
    unfold key? at hsome
    rw [writtenKey?_cut ha] at hsome
    exact Option.some.inj hsome
  have hne : Text.trim a ≠ [] := by
    intro hnil
    rw [hnil] at hlower
    exact absurd hlower (by decide)
  have hin : ∀ {c}, c ∈ Text.trim a → c ∈ a ++ '=' :: b := fun hc =>
    List.mem_append_left _ (Text.mem_of_mem_trim hc)
  have hsound : Sound (Text.trim a) :=
    ⟨⟨Text.tight_trim a, hpart.plain.left.trim, fun hc => hpart.no_open (hin hc),
      fun hc => hpart.one_line (hin hc)⟩, hne, fun hc => hpart.no_bar (hin hc)⟩
  rw [writtenKey?_cut ha, labelPart_key]
  exact sound_keyed hsound hlabel

/-- The new parts are old ones and the label, which is written anew or with an
old key. -/
theorem forall_mem_relabelledParts {P : Text → Prop} {parts : List Text} {label : Text}
    {at? : Option Nat} (hat : LabelAt parts at?) (hparts : ∀ p ∈ parts, P p)
    (hnew : P (labelPart label none))
    (hold : ∀ p ∈ parts, hasKey "label" p = true → P (labelPart label (writtenKey? p))) :
    ∀ q ∈ relabelledParts parts label at?, P q := by
  -- The parts around the label are old ones, so that only the label itself is in question.
  have haround : ∀ i part, P part → ∀ q ∈ (parts.take i).filter isOther ++
      part :: (parts.drop (i + 1)).filter isOther, P q := by
    intro i part hpart q hq
    rcases List.mem_append.mp hq with hbefore | hrest
    · exact hparts q (List.mem_of_mem_take (List.mem_of_mem_filter hbefore))
    · rcases List.mem_cons.mp hrest with rfl | hafter
      · exact hpart
      · exact hparts q (List.mem_of_mem_drop (List.mem_of_mem_filter hafter))
  cases hat with
  | keyed i p hp hkey hvalue hlast =>
      apply haround i
      rw [Text.getD_of_getElem? hp]
      exact hold p (List.mem_of_getElem? hp) hkey
  | loose i p hp hnone hloose hborder hfirst =>
      apply haround i
      have hkey : writtenKey? p = none := by
        simpa [key?] using hloose
      rw [Text.getD_of_getElem? hp, hkey]
      exact hnew
  | missing hnone hborder =>
      intro q hq
      rcases List.mem_cons.mp hq with rfl | hrest
      · exact hnew
      · exact hparts q (List.mem_of_mem_filter hrest)

/-- **The new parts are parts of a bracket.**  The old ones are, and the one
that is written is the label, perhaps behind the key of an old part. -/
theorem sound_relabelledParts {parts : List Text} {label : Text} {at? : Option Nat}
    (hat : LabelAt parts at?) (hparts : ∀ p ∈ parts, Sound p) (hlabel : Sound label) :
    ∀ q ∈ relabelledParts parts label at?, Sound q :=
  forall_mem_relabelledParts hat hparts (sound_labelPart hlabel) fun p hp hkey =>
    sound_labelPart_key (hparts p hp) hkey hlabel

/-! ## What the graph reads from them -/

/-- A label as a part of a bracket: keyed, or loose and no part of a border. -/
inductive WrittenLabel (label : Text) : Text → Prop
  | keyed (part : Text) (hkey : key? part = some "label".toList) (hvalue : value part = label) :
      WrittenLabel label part
  | loose (hloose : '=' ∉ label) (hborder : Border.isPart label = false) : WrittenLabel label label

/-- A key and a value are read off the part that is made of them. -/
private theorem keyed_part (key : Text) {name text : Text} (hkey : Text.lower key = name)
    (hequals : '=' ∉ key) (htrim : Text.trim key = key) (htext : Text.Tight text) :
    key? (key ++ '=' :: text) = some name ∧ value (key ++ '=' :: text) = text := by
  rw [value_cut hequals, Text.trim_of_tight htext]
  refine ⟨?_, rfl⟩
  unfold key?
  rw [writtenKey?_cut hequals, htrim, Option.map_some, hkey]

/-- A part may be written again with another value and the same key, as it is
spelled. -/
theorem exists_writtenKey {name : String} {part text : Text} (hpart : hasKey name part = true)
    (htext : Text.Tight text) :
    ∃ key, writtenKey? part = some key ∧ key? (key ++ '=' :: text) = some name.toList ∧
      value (key ++ '=' :: text) = text := by
  obtain ⟨a, b, rfl, ha⟩ := List.eq_append_cons_of_mem (equals_mem_of_hasKey hpart)
  have hkey : key? (a ++ '=' :: b) = some name.toList := beq_iff_eq.mp hpart
  unfold key? at hkey
  rw [writtenKey?_cut ha] at hkey
  have ha' : '=' ∉ Text.trim a := fun hmem => ha (Text.mem_of_mem_trim hmem)
  exact ⟨Text.trim a, writtenKey?_cut ha b,
    keyed_part (Text.trim a) (Option.some.inj hkey) ha' (Text.trim_trim a) htext⟩

/-- A label that is written without a key gets one when it would not be read as
a label: if it holds an equals sign or draws. -/
theorem writtenLabel_new {label : Text} (hlabel : Text.Tight label) :
    WrittenLabel label (labelPart label none) ∧
      (key? (labelPart label none) = some "label".toList ↔
        '=' ∈ label ∨ Border.isPart label = true) := by
  unfold labelPart
  dsimp only
  by_cases hkeyed : '=' ∈ label ∨ Border.isPart label = true
  · have hlower : Text.lower "label".toList = "label".toList := by decide
    obtain ⟨hkey, hvalue⟩ := keyed_part "label" hlower (by decide) (by decide) hlabel
    rw [if_pos (by simpa using hkeyed)]
    exact ⟨.keyed _ hkey hvalue, fun _ => hkeyed, fun _ => hkey⟩
  · rw [if_neg (by simpa using hkeyed)]
    rw [not_or, Bool.not_eq_true] at hkeyed
    refine ⟨.loose hkeyed.1 hkeyed.2, ?_⟩
    rw [key?_of_not_mem hkeyed.1]
    simp [hkeyed.1, hkeyed.2]

/-- A label that is written with the key of an old one is read under this key,
whatever case its letters are in. -/
theorem writtenLabel_old {part label : Text} (hpart : hasKey "label" part = true)
    (hlabel : Text.Tight label) :
    WrittenLabel label (labelPart label (writtenKey? part)) ∧
      key? (labelPart label (writtenKey? part)) = some "label".toList := by
  obtain ⟨key, hkey, hnew, hvalue⟩ := exists_writtenKey hpart hlabel
  rw [hkey, labelPart_key]
  exact ⟨.keyed _ hnew hvalue, hnew⟩

section Relabelled

variable {before after : List Text} {part written label : Text}

/-- Dropping the parts that are keyed as a label makes no difference to a
selection without them. -/
private theorem filter_isOther {p : Text → Bool} (h : ∀ part, p part = true → isOther part = true)
    (parts : List Text) : (parts.filter isOther).filter p = parts.filter p := by
  rw [List.filter_filter]
  apply List.filter_congr
  intro part _
  cases hp : p part with
  | false => rfl
  | true => simp [h part hp]

/-- The value of the keyed border is the same after the label was changed, if
the part that is written is not keyed as a border. -/
private theorem lastValue_border (hpart : hasKey "border" part = false) :
    lastValue "border" (before.filter isOther ++ part :: after.filter isOther) =
      lastValue "border" (before ++ after) := by
  have hother : ∀ part, hasKey "border" part = true → isOther part = true := by
    intro part hborder
    unfold isOther hasKey at *
    rw [beq_iff_eq.mp hborder]
    decide
  unfold lastValue
  rw [List.filter_append, List.filter_cons, hpart, filter_isOther hother, filter_isOther hother,
    List.filter_append]
  simp

/-- The loose parts after a change of the label are those before its place, the
part that is written if it is loose, and those after its place. -/
private theorem looseParts_relabelled :
    looseParts (before.filter isOther ++ part :: after.filter isOther) =
      looseParts before ++ looseParts [part] ++ looseParts after := by
  have hother : ∀ part, (key? part).isNone = true → isOther part = true := by
    intro part hloose
    unfold isOther hasKey
    rw [Option.isNone_iff_eq_none.mp hloose]
    rfl
  rw [looseParts_append, ← List.singleton_append, looseParts_append, ← List.append_assoc]
  unfold looseParts
  rw [filter_isOther hother, filter_isOther hother]

/-- The value of the keyed label after a change is that of the part that is
written, if it is keyed as a label at all: no other such part is left. -/
private theorem lastValue_label :
    lastValue "label" (before.filter isOther ++ part :: after.filter isOther) =
      if hasKey "label" part then value part else [] := by
  have hnone : ∀ parts : List Text, (parts.filter isOther).filter (hasKey "label") = [] := by
    intro parts
    rw [List.filter_filter, List.filter_eq_nil_iff]
    intro part _
    simp [isOther]
  unfold lastValue
  rw [List.filter_append, List.filter_cons, hnone, hnone]
  split <;> simp

/-- The label that is read: the new one, unless it is written loose and is part
of a border once the backslashes are gone. -/
theorem labelOf_relabelled (hpart : WrittenLabel written part)
    (hwritten : Comment.unescape written = label) (hlabel : label ≠ [])
    (hfirst : looseParts before = [] ∨ key? part = some "label".toList) :
    EdgeStyle.labelOf
        ((before.filter isOther ++ part :: after.filter isOther).map Comment.unescape) =
          some label ↔
      key? part = some "label".toList ∨ Border.isPart label = false := by
  unfold EdgeStyle.labelOf
  rw [lastValue_unescape (by decide), lastValue_label, looseParts_unescape, looseParts_relabelled]
  cases hpart with
  | keyed part hkey hvalue =>
      have hhas : hasKey "label" part = true := by
        unfold hasKey
        rw [hkey]
        exact beq_self_eq_true _
      rw [if_pos hhas, hvalue, hwritten]
      simp [hlabel, hkey]
  | loose hloose hborder =>
      have hnokey := key?_of_not_mem hloose
      have hhas : hasKey "label" part = false := by
        unfold hasKey
        rw [hnokey]
        rfl
      have hempty : looseParts before = [] := by
        rcases hfirst with hempty | hkey
        · exact hempty
        · rw [hnokey] at hkey
          cases hkey
      have hsingle : looseParts [part] = [part] := by
        simp [looseParts, hnokey]
      rw [hempty, hsingle, hnokey, hhas]
      simp only [Bool.false_eq_true, if_false, List.nil_append, List.singleton_append,
        List.map_cons, hwritten, Comment.unescape_nil, List.isEmpty_nil, if_true,
        EdgeStyle.splitLooseLabel]
      cases Border.isPart label <;> simp

/-- The line that is drawn is that of the other parts: the part that is written
is no border, neither before nor after its backslashes are gone. -/
theorem borderOf_relabelled (hpart : WrittenLabel written part)
    (hwritten : Comment.unescape written = label)
    (hfirst : looseParts before = [] ∨ key? part = some "label".toList)
    (hread : key? part = some "label".toList ∨ Border.isPart label = false) :
    EdgeStyle.borderOf
        ((before.filter isOther ++ part :: after.filter isOther).map Comment.unescape) =
      EdgeStyle.borderOf ((before ++ after).map Comment.unescape) := by
  have hborder : hasKey "border" part = false := by
    unfold hasKey
    cases hpart with
    | keyed part hkey hvalue =>
        rw [hkey]
        decide
    | loose hloose hborder =>
        rw [key?_of_not_mem hloose]
        rfl
  have hloose : Border.ofParts ((looseParts before ++ looseParts [part] ++ looseParts after).map
      Comment.unescape) = Border.ofParts ((looseParts (before ++ after)).map Comment.unescape) := by
    rw [looseParts_append]
    cases hpart with
    | keyed part hkey hvalue => simp [looseParts, hkey]
    | loose hnoequals hborder =>
        have hnokey := key?_of_not_mem hnoequals
        rw [hnokey] at hfirst hread
        have hempty : looseParts before = [] := hfirst.resolve_right (by simp)
        have hnone : Border.isPart label = false := hread.resolve_left (by simp)
        have hsingle : looseParts [part] = [part] := by
          simp [looseParts, hnokey]
        rw [hempty, hsingle, List.nil_append, List.nil_append, List.singleton_append, List.map_cons,
          hwritten, EdgeStyle.ofParts_cons hnone]
  unfold EdgeStyle.borderOf
  rw [lastValue_unescape (by decide), lastValue_unescape (by decide), lastValue_border hborder,
    looseParts_unescape, looseParts_unescape, looseParts_relabelled, hloose]

end Relabelled

/-- When a new label is read back as one: an old label is keyed, or the new one
gets a key, or it is no part of a border. -/
def ReadsBack (parts : List Text) (label : Text) : Prop :=
  lastValue "label" parts ≠ [] ∨ '=' ∈ label ∨ Border.isPart (Comment.escape label) = true ∨
    Border.isPart label = false

instance (parts : List Text) (label : Text) : Decidable (ReadsBack parts label) :=
  inferInstanceAs (Decidable (_ ∨ _ ∨ _ ∨ _))

/-- The line is drawn the same without the part at a position. -/
def DrawsNothing (parts : List Text) (at? : Option Nat) : Prop :=
  ∀ i ∈ at?, EdgeStyle.SameLine
    (.ofBorder (EdgeStyle.borderOf ((parts.map Comment.unescape).eraseIdx i)))
    (.ofBorder (EdgeStyle.borderOf (parts.map Comment.unescape)))

instance (parts : List Text) (at? : Option Nat) : Decidable (DrawsNothing parts at?) :=
  inferInstanceAs (Decidable (∀ i ∈ at?, _))

/-- The parts around the label: what is written for it, and how it is read.
Both places of a label, keyed and loose, come down to this form. -/
theorem relabelledParts_eq {parts : List Text} {label : Text} {at? : Option Nat}
    (hat : LabelAt parts at?) (hlabel : Text.Tight (Comment.escape label)) :
    ∃ before after part,
      relabelledParts parts (Comment.escape label) at? =
        before.filter isOther ++ part :: after.filter isOther ∧
      WrittenLabel (Comment.escape label) part ∧
      (looseParts before = [] ∨ key? part = some "label".toList) ∧
      (key? part = some "label".toList ∨ Border.isPart label = false ↔ ReadsBack parts label) ∧
      (at? = none ∧ before ++ after = parts ∨
        ∃ i, at? = some i ∧ before ++ after = parts.eraseIdx i) := by
  obtain ⟨hnew, hkeyNew⟩ := writtenLabel_new hlabel
  have hmem : '=' ∈ Comment.escape label ↔ '=' ∈ label := Comment.mem_escape (by decide)
  have hreads : lastValue "label" parts = [] →
      (key? (labelPart (Comment.escape label) none) = some "label".toList ∨
        Border.isPart label = false ↔ ReadsBack parts label) := by
    intro hnone
    unfold ReadsBack
    rw [hkeyNew, hmem, hnone, or_assoc]
    simp
  have herase : ∀ i, parts.take i ++ parts.drop (i + 1) = parts.eraseIdx i := fun i =>
    (List.eraseIdx_eq_take_drop_succ parts i).symm
  cases hat with
  | keyed i p hp hkey hvalue hlast =>
      obtain ⟨hold, hkeyOld⟩ := writtenLabel_old hkey hlabel
      refine ⟨parts.take i, parts.drop (i + 1), _, rfl, ?_, Or.inr ?_, ?_,
        Or.inr ⟨i, rfl, herase i⟩⟩
      · rw [Text.getD_of_getElem? hp]
        exact hold
      · rw [Text.getD_of_getElem? hp]
        exact hkeyOld
      · rw [Text.getD_of_getElem? hp]
        unfold ReadsBack
        rw [lastValue_of_last hp hkey hlast]
        exact ⟨fun _ => Or.inl hvalue, fun _ => Or.inl hkeyOld⟩
  | loose i p hp hnone hloose hborder hfirst =>
      have hnoKey : writtenKey? (parts.getD i []) = none := by
        rw [Text.getD_of_getElem? hp]
        simpa [key?] using hloose
      have hempty : looseParts (parts.take i) = [] := by
        unfold looseParts
        rw [List.filter_eq_nil_iff]
        intro q hq
        simpa using hfirst q hq
      refine ⟨parts.take i, parts.drop (i + 1), labelPart (Comment.escape label) none, ?_, hnew,
        Or.inl hempty, hreads hnone, Or.inr ⟨i, rfl, herase i⟩⟩
      simp only [relabelledParts, hnoKey]
  | missing hnone hborder =>
      exact ⟨[], parts, _, rfl, hnew, Or.inl rfl, hreads hnone, Or.inl ⟨rfl, rfl⟩⟩

/-- **The style after the label was changed.**  The graph shows the new label on
the old line exactly when the label is read back, and when the part whose place
it takes did not draw anything. -/
theorem style_relabelled (font : Text) {parts : List Text} {label : Text} {at? : Option Nat}
    (hat : LabelAt parts at?) (hlabel : Text.Tight label) (hne : label ≠ [])
    (hescape : Text.hasPart "\\#" label = false) {style : EdgeStyle}
    (hstyle : style = .ofBracket font (.ofParts
      ((relabelledParts parts (Comment.escape label) at?).map Comment.unescape))) :
    style.label = some label ∧
        style.SameLine (.ofBracket font (.ofParts (parts.map Comment.unescape))) ↔
      ReadsBack parts label ∧ DrawsNothing parts at? := by
  obtain ⟨before, after, part, hparts, hpart, hfirst, hreads, hplace⟩ :=
    relabelledParts_eq hat (Comment.tight_escape hlabel)
  have hwritten := Comment.unescape_escape hescape
  have hold := EdgeStyle.sameLine_ofParts font (parts.map Comment.unescape)
  have hnew := EdgeStyle.sameLine_ofParts font
    ((before.filter isOther ++ part :: after.filter isOther).map Comment.unescape)
  subst hstyle
  rw [hparts, EdgeStyle.label_ofParts, labelOf_relabelled hpart hwritten hne hfirst, hreads]
  apply and_congr_right
  intro hback
  rw [borderOf_relabelled hpart hwritten hfirst (hreads.mpr hback)] at hnew
  rcases hplace with ⟨hnone, hsame⟩ | ⟨i, hsome, hsame⟩
  · rw [hsame] at hnew
    refine ⟨fun _ i hi => ?_, fun _ => hnew.trans hold.symm⟩
    rw [hnone] at hi
    cases hi
  · rw [hsame, ← List.eraseIdx_map] at hnew
    constructor
    · intro hline j hj
      obtain rfl : i = j := Option.some.inj (hsome.symm.trans hj)
      exact hnew.symm.trans (hline.trans hold)
    · intro hline
      exact hnew.trans ((hline i hsome).trans hold.symm)

end EdgeLayout

end LineDiagram
