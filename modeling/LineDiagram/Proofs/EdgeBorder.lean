import LineDiagram.Proofs.EdgeSelections

/-!
# The border in the bracket of an edge

The graph reads the border of an edge off one keyed part, or else off all loose
parts that draw.  An editor that changes the border writes one part, in the
place of the first that it takes for the border, and takes out the others.
Where a keyed border is taken out, it leaves the loose parts, and those that
draw come to count.  Where loose parts are taken out, the next loose part may
become the label.

* `borderAt_ofInner`, `update_border` — the parts after the border was changed
  or taken out;
* `BorderAt.borderParts_set`, `BorderAt.labelOf_set` — a border that is written
  is read beside the label;
* `BorderAt.borderParts_cleared`, `BorderAt.labelOf_unbordered` — what comes to
  count without a border.
-/

namespace LineDiagram

open LineDiagram.Bracket

namespace EdgeLayout

/-! ## The parts after the border was changed -/

/-- Whether a part stays when the border is changed: it is not keyed as a
border, and where no border is keyed it draws nothing. -/
def staysBeside (parts : List Text) (part : Text) : Bool :=
  !hasKey "border" part && (!(lastValue "border" parts).isEmpty || !drawsLoose part)

/-- The first part that an editor takes for the border. -/
inductive BorderAt (parts : List Text) : Option Nat → Prop
  | keyed (k : Nat) (p : Text) (hp : parts[k]? = some p) (hkey : hasKey "border" p = true)
      (hvalue : value p ≠ []) (hlast : ∀ q ∈ parts.drop (k + 1), hasKey "border" q = false) :
      BorderAt parts (some k)
  | loose (k : Nat) (p : Text) (hp : parts[k]? = some p) (hnone : lastValue "border" parts = [])
      (hdraws : drawsLoose p = true) (hfirst : ∀ q ∈ parts.take k, drawsLoose q = false) :
      BorderAt parts (some k)
  | missing (hnone : lastValue "border" parts = []) (hall : ∀ q ∈ parts, drawsLoose q = false) :
      BorderAt parts none

/-- The positions of the loose parts that draw, which are the border where none
is keyed. -/
private theorem border_of_none {inner : Text}
    (h : (lastKeyed (splitParts inner) "border").1 = none) :
    (ofInner inner).border = (List.range (splitParts inner).length).filter fun i =>
      drawsLoose ((splitParts inner).getD i []) := by
  rw [border_of_loose inner h, looseAt, List.filter_filter]
  apply List.filter_congr
  intro i _
  exact Bool.and_comm _ _

/-- Where no border is keyed, an editor takes the first loose part that draws
for the border, if there is one. -/
private theorem borderAt_loose {parts : List Text} (hnone : lastValue "border" parts = []) :
    BorderAt parts ((List.range parts.length).find? fun i => drawsLoose (parts.getD i [])) := by
  cases hfind : (List.range parts.length).find? fun i => drawsLoose (parts.getD i []) with
  | none =>
      refine .missing hnone ?_
      intro q hq
      obtain ⟨i, hi⟩ := List.mem_iff_getElem?.mp hq
      have hlt := (List.getElem?_eq_some_iff.mp hi).1
      have hno := List.find?_eq_none.mp hfind i (List.mem_range.mpr hlt)
      rw [Text.getD_of_getElem? hi] at hno
      simpa using hno
  | some k =>
      obtain ⟨hdraws, hlt, hbefore⟩ := List.find?_range_eq_some.mp hfind
      rw [List.mem_range] at hlt
      have hget : parts[k]? = some (parts.getD k []) := by
        rw [List.getD_eq_getElem?_getD, List.getElem?_eq_getElem hlt, Option.getD_some]
      refine .loose k _ hget hnone hdraws ?_
      intro q hq
      obtain ⟨j, hj⟩ := List.mem_iff_getElem?.mp hq
      rw [List.getElem?_take] at hj
      split at hj
      · rename_i hjlt
        have hno := hbefore j hjlt
        rw [Text.getD_of_getElem? hj] at hno
        simpa using hno
      · cases hj

theorem drawsLoose_of_hasKey {key : String} {part : Text} (h : hasKey key part = true) :
    drawsLoose part = false := by
  rw [hasKey_iff] at h
  simp [drawsLoose, h]

/-- **The first part that an editor takes for the border**, and what becomes of
each part when the border is changed: that part is replaced or goes, and of the
others go those that are read as a border too. -/
theorem borderAt_ofInner (inner : Text) :
    BorderAt (splitParts inner) (ofInner inner).border.head? ∧
      ∀ border i p, (splitParts inner)[i]? = some p → (ofInner inner).withBorder border i p =
        if (ofInner inner).border.head? = some i then
          if border.isEmpty then [] else borderPart border (writtenKey? p)
        else if staysBeside (splitParts inner) p then p else [] := by
  have hhidden : (ofInner inner).hiddenBorders = (lastKeyed (splitParts inner) "border").2 := rfl
  rcases lastKeyed_spec (splitParts inner) "border" with ⟨hnone, hkeyed, hall⟩ |
    ⟨k, p, hp, hkeyed, hkey, hvalue, hlast, hothers⟩
  · have hborder := border_of_none hkeyed
    have hhead :
        (ofInner inner).border.head? = (List.range (splitParts inner).length).find? fun i =>
        drawsLoose ((splitParts inner).getD i []) := by
      rw [hborder, List.head?_filter]
    have hat := borderAt_loose hnone
    rw [← hhead] at hat
    refine ⟨hat, ?_⟩
    intro border i p hp
    have hmem : (ofInner inner).border.contains i = drawsLoose p := by
      have hlt := (List.getElem?_eq_some_iff.mp hp).1
      rw [Bool.eq_iff_iff, List.contains_iff_mem, hborder, List.mem_filter,
        Text.getD_of_getElem? hp]
      simp [hlt]
    unfold withBorder staysBeside
    rw [hhidden, hall i p hp, hmem, hnone]
    cases hkey : hasKey "border" p with
    | true =>
        -- A part with the key of a border does not draw where none is keyed.
        have hnot : (ofInner inner).border.head? ≠ some i := by
          intro hi
          have hin := List.mem_of_mem_head? hi
          rw [← List.contains_iff_mem, hmem, drawsLoose_of_hasKey hkey] at hin
          cases hin
        simp [hnot]
    | false =>
        cases hdraws : drawsLoose p with
        | true => simp
        | false => simp
  · have hborder : (ofInner inner).border = [k] := by
      unfold ofInner
      dsimp only
      rw [hkeyed]
    have hlastValue : (lastValue "border" (splitParts inner)).isEmpty = false := by
      rw [lastValue_of_last hp hkey hlast]
      simpa using hvalue
    rw [hborder, List.head?_singleton]
    refine ⟨.keyed k p hp hkey hvalue hlast, ?_⟩
    intro border i q hq
    unfold withBorder staysBeside
    rw [hhidden, hothers i q hq, hborder, hlastValue, List.head?_singleton]
    by_cases hi : i = k
    · simp [hi]
    · have hi' : k ≠ i := fun heq => hi heq.symm
      cases hkey' : hasKey "border" q with
      | true => simp [hi, hi']
      | false => simp [hi, hi']

/-- The parts before the border, or before the place where a new one is
written. -/
def beforeBorder (parts : List Text) : Option Nat → List Text
  | none => parts
  | some k => parts.take k

/-- The parts after the border. -/
def afterBorder (parts : List Text) : Option Nat → List Text
  | none => []
  | some k => parts.drop (k + 1)

/-- The key with which the border is written. -/
def borderKey (parts : List Text) (at? : Option Nat) : Option Text :=
  at?.bind fun k => writtenKey? (parts.getD k [])

/-- The parts with another border: it takes the place of the first part of the
old one, or comes last, and no other part is read as a border.  The empty text
takes the old one out. -/
def reborderedParts (parts : List Text) (border : Text) (at? : Option Nat) : List Text :=
  around (staysBeside parts) (beforeBorder parts at?)
    (if border.isEmpty then [] else [borderPart border (borderKey parts at?)])
      (afterBorder parts at?)

/-- A border that is not empty is written as something, with a key or
without. -/
theorem borderPart_ne_nil {border : Text} (h : border ≠ []) (key : Option Text) :
    borderPart border key ≠ [] := by
  unfold borderPart
  split
  · simp
  · split
    · exact h
    · simp

/-- **The parts after the border was changed or taken out.**  The editor works
with positions; this says the same with the parts before and after the first
part of the old border. -/
theorem update_border (inner border : Text) :
    (ofInner inner).update none (some border) =
      joinParts (reborderedParts (splitParts inner) border (ofInner inner).border.head?) := by
  obtain ⟨hat, hwith⟩ := borderAt_ofInner inner
  have hparts : (ofInner inner).parts = splitParts inner := rfl
  have hne : ∀ p ∈ splitParts inner, p ≠ [] := fun p hp => (Text.mem_parts hp).2.1
  have hmissing : (ofInner inner).border.isEmpty = (ofInner inner).border.head?.isNone := by
    cases (ofInner inner).border <;> rfl
  unfold update reborderedParts
  dsimp only
  rw [hparts, hmissing]
  congr 1
  cases hborderAt : (ofInner inner).border.head? with
  | none =>
      have hmap : ((splitParts inner).mapIdx ((ofInner inner).withBorder border)).filter
          (fun p => !p.isEmpty) = (splitParts inner).filter (staysBeside (splitParts inner)) := by
        apply filter_mapIdx hne
        intro i p hp
        rw [hwith border i p hp, hborderAt]
        simp
      cases hempty : border.isEmpty with
      | true => simp [hmap, around, beforeBorder, afterBorder]
      | false => simp [hmap, around, beforeBorder, afterBorder, borderKey]
  | some k =>
      rw [hborderAt] at hat
      obtain ⟨p, hp⟩ : ∃ p, (splitParts inner)[k]? = some p := by
        cases hat with
        | keyed _ p hp => exact ⟨p, hp⟩
        | loose _ p hp => exact ⟨p, hp⟩
      have hhere := hwith border k p hp
      rw [if_pos hborderAt] at hhere
      have hmap := filter_mapIdx_at (f := (ofInner inner).withBorder border) hp hne
        (fun i q hq hi => by
          rw [hwith border i q hq, hborderAt, if_neg]
          exact fun heq => hi (Option.some.inj heq).symm)
      simp only [Option.isNone_some, Bool.false_and, Bool.false_eq_true, if_false, List.nil_append,
        List.append_nil]
      rw [hmap, hhere]
      cases hempty : border.isEmpty with
      | true => simp [around, beforeBorder, afterBorder]
      | false =>
          have hfilled : border ≠ [] := by simpa using hempty
          simp [around, beforeBorder, afterBorder, borderKey, hp, borderPart_ne_nil hfilled]

/-! ## What the graph reads from them -/

/-- A selection that holds no border: no part keyed as one, and no loose part
that draws. -/
structure IgnoresBorders (q : Text → Bool) : Prop where
  keyed : ∀ p, hasKey "border" p = true → q p = false
  loose : ∀ p, drawsLoose p = true → q p = false

/-- The parts keyed as a label hold no border. -/
theorem ignoresBorders_label : IgnoresBorders (hasKey "label") where
  keyed p h := by
    rw [hasKey_iff] at h
    unfold hasKey
    rw [h]
    decide
  loose p h := by
    rw [← Bool.not_eq_true]
    intro hkey
    rw [drawsLoose_of_hasKey hkey] at h
    cases h

/-- Nor do the parts with other keys than those of label and border. -/
theorem ignoresBorders_keyedBeside : IgnoresBorders (keyedBeside EdgeStyle.fieldKeys) where
  keyed p h := by
    rw [hasKey_iff] at h
    unfold keyedBeside
    rw [h]
    decide
  loose p h := by
    have hloose : key? p = none := by
      rw [drawsLoose, Bool.and_eq_true, Option.isNone_iff_eq_none] at h
      exact h.1
    unfold keyedBeside
    rw [hloose]
    rfl

/-- A part of a selection that holds no border stays when the border is
changed. -/
theorem IgnoresBorders.stays {q : Text → Bool} (hq : IgnoresBorders q)
    (parts : List Text) (p : Text) (h : q p = true) : staysBeside parts p = true := by
  have hkey : hasKey "border" p = false := by
    rw [← Bool.not_eq_true]
    intro hkey
    rw [hq.keyed p hkey] at h
    cases h
  have hdraws : drawsLoose p = false := by
    rw [← Bool.not_eq_true]
    intro hdraws
    rw [hq.loose p hdraws] at h
    cases h
  simp [staysBeside, hkey, hdraws]

/-- The parts before the border and those after it are all parts but the
border. -/
theorem before_append_after (parts : List Text) (at? : Option Nat) :
    beforeBorder parts at? ++ afterBorder parts at? = withoutAt parts at? := by
  cases at? with
  | none => exact List.append_nil parts
  | some k => exact (List.eraseIdx_eq_take_drop_succ parts k).symm

/-- A text that can be written as a border without a key. -/
structure IsBorder (border : Text) : Prop where
  /-- It is part of a border. -/
  draws : Border.isPart border = true
  /-- It is not read as a key and a value. -/
  no_equals : '=' ∉ border
  /-- It is one part of a bracket. -/
  piece : OnePart ['['] border

/-- A text that can be written as a border without a key is a loose part that
draws. -/
theorem IsBorder.drawsLoose {border : Text} (h : IsBorder border) : drawsLoose border = true := by
  simp [EdgeLayout.drawsLoose, key?_of_not_mem h.no_equals, h.draws]

section Border

variable {parts : List Text} {at? : Option Nat} (hat : BorderAt parts at?)

include hat

/-- Taking out the border changes no selection that holds none. -/
theorem BorderAt.filter_withoutAt {q : Text → Bool} (hq : IgnoresBorders q) :
    (withoutAt parts at?).filter q = parts.filter q := by
  cases hat with
  | keyed k p hp hkey hvalue hlast => exact filter_eraseIdx hp (hq.keyed p hkey)
  | loose k p hp hnone hdraws hfirst => exact filter_eraseIdx hp (hq.loose p hdraws)
  | missing hnone hall => rfl

/-- What is written for a border: with the key of the old one, or loose where no
border is keyed. -/
theorem BorderAt.written {border : Text} (h : IsBorder border) :
    lastValue "border" parts ≠ [] ∧
        hasKey "border" (borderPart border (borderKey parts at?)) = true ∧
        value (borderPart border (borderKey parts at?)) = border ∨
      lastValue "border" parts = [] ∧ borderPart border (borderKey parts at?) = border := by
  have hnew : borderPart border none = border := if_pos h.draws
  cases hat with
  | keyed k p hp hkey hvalue hlast =>
      obtain ⟨key, hwritten, hread, htext⟩ := exists_writtenKey hkey h.piece.tight
      have hborderKey : borderKey parts (some k) = some key := by
        rw [borderKey, Option.bind_some, Text.getD_of_getElem? hp, hwritten]
      have hpart : borderPart border (some key) = key ++ '=' :: border := by simp [borderPart]
      rw [lastValue_of_last hp hkey hlast, hborderKey, hpart]
      exact Or.inl ⟨hvalue, hasKey_iff.mpr hread, htext⟩
  | loose k p hp hnone hdraws hfirst =>
      have hloose : writtenKey? p = none := by
        simp only [EdgeLayout.drawsLoose, Bool.and_eq_true] at hdraws
        simpa [key?] using hdraws.1
      have hborderKey : borderKey parts (some k) = none := by
        rw [borderKey, Option.bind_some, Text.getD_of_getElem? hp, hloose]
      rw [hborderKey]
      exact Or.inr ⟨hnone, hnew⟩
  | missing hnone hall => exact Or.inr ⟨hnone, hnew⟩

/-- The part that is written is in no selection that holds no border. -/
theorem BorderAt.filter_written {border : Text} (h : IsBorder border) {q : Text → Bool}
    (hq : IgnoresBorders q) : [borderPart border (borderKey parts at?)].filter q = [] := by
  rcases hat.written h with ⟨-, hkey, -⟩ | ⟨-, hpart⟩
  · simp [hq.keyed _ hkey]
  · simp [hpart, hq.loose border h.drawsLoose]

/-- **Nothing but the border changes** in what is keyed: a selection that holds
no border is the same before and after. -/
theorem BorderAt.filter_rebordered {border : Text}
    (h : border = [] ∨ IsBorder border) {q : Text → Bool}
    (hq : IgnoresBorders q) : (reborderedParts parts border at?).filter q = parts.filter q := by
  have hwritten :
      (if border.isEmpty then [] else [borderPart border (borderKey parts at?)]).filter q =
      [] := by
    rcases h with rfl | h
    · rfl
    · rw [if_neg (by simpa using h.piece.ne_nil)]
      exact hat.filter_written h hq
  unfold reborderedParts
  rw [filter_around (hq.stays parts), hwritten, List.nil_append, ← List.filter_append,
    before_append_after, hat.filter_withoutAt hq]

omit hat in
/-- After a change of the border no part is keyed as one but the part that is
written, so its value is the only one that can be found. -/
theorem lastValue_border_rebordered (border : Text) :
    lastValue "border" (reborderedParts parts border at?) =
      lastValue "border" (if border.isEmpty then []
        else [borderPart border (borderKey parts at?)]) := by
  unfold lastValue reborderedParts
  rw [filter_around_dropped (fun p hp => by simp [staysBeside, hp])]

omit hat in
/-- Where no border is keyed, none of the loose parts that draw is kept:
together they were the border. -/
theorem not_staysBeside (hnone : lastValue "border" parts = []) (p : Text)
    (h : drawsLoose p = true) :
    staysBeside parts p = false := by
  simp [staysBeside, hnone, h]

/-- **A border that is written is the one that is read.**  All other parts that
could be read as one are gone, the keyed ones with empty values too. -/
theorem BorderAt.borderParts_set {border : Text} (h : IsBorder border) :
    borderParts (reborderedParts parts border at?) = [border] := by
  have hfilled : border.isEmpty = false := by simpa using h.piece.ne_nil
  rw [borderParts_eq, lastValue_border_rebordered, reborderedParts, hfilled,
    if_neg Bool.false_ne_true]
  rcases hat.written h with ⟨-, hkey, hvalue⟩ | ⟨hnone, hpart⟩
  · have hlast : lastValue "border" [borderPart border (borderKey parts at?)] = border := by
      simp [lastValue, hkey, hvalue]
    rw [hlast, hfilled, if_neg Bool.false_ne_true]
  · have hlast : lastValue "border" [border] = [] := by
      simp [lastValue, hasKey, key?_of_not_mem h.no_equals]
    rw [hpart, hlast, List.isEmpty_nil, if_pos rfl, filter_around_dropped (not_staysBeside hnone),
      List.filter_cons_of_pos h.drawsLoose, List.filter_nil]

/-- **When a border is taken out**, loose parts that draw come to count where it
was keyed. -/
theorem BorderAt.borderParts_cleared :
    borderParts (reborderedParts parts [] at?) =
      if (lastValue "border" parts).isEmpty then [] else parts.filter drawsLoose := by
  have hlast : lastValue "border" (reborderedParts parts [] at?) = [] :=
    lastValue_border_rebordered []
  rw [borderParts_eq, hlast, List.isEmpty_nil, if_pos rfl]
  split
  · rename_i hnone
    rw [reborderedParts, filter_around_dropped (not_staysBeside (List.isEmpty_iff.mp hnone))]
    rfl
  · rename_i hkeyed
    have hstays : ∀ p, drawsLoose p = true → staysBeside parts p = true := by
      intro p hp
      have hkey : hasKey "border" p = false := by
        rw [← Bool.not_eq_true]
        intro hkey
        rw [drawsLoose_of_hasKey hkey] at hp
        cases hp
      simp [staysBeside, hkey, hkeyed]
    rw [reborderedParts, filter_around hstays, List.isEmpty_nil, if_pos rfl, List.filter_nil,
      List.nil_append, ← List.filter_append, before_append_after]
    cases hat with
    | keyed k p hp hkey hvalue hlast => exact filter_eraseIdx hp (drawsLoose_of_hasKey hkey)
    | loose k p hp hnone hdraws hfirst => exact absurd (List.isEmpty_iff.mpr hnone) hkeyed
    | missing hnone hall => exact absurd (List.isEmpty_iff.mpr hnone) hkeyed

/-! ## The label beside a border that is changed -/

omit hat in
/-- Loose parts that start no border after some others do not matter for the
label. -/
theorem splitLooseLabel_append {before rest : List Text}
    (h : ∀ p ∈ rest.head?, Border.isPart p = true) :
    (EdgeStyle.splitLooseLabel (before ++ rest)).1 =
      before.head?.filter fun part => !Border.isPart part := by
  rw [splitLooseLabel_fst]
  cases before with
  | cons part before => rfl
  | nil =>
      cases rest with
      | nil => rfl
      | cons part rest => simp [Option.filter, h part rfl]

omit hat in
/-- Of the loose parts, those stay that do not draw, where no border is
keyed. -/
theorem looseParts_staysBeside (hnone : lastValue "border" parts = []) (texts : List Text) :
    looseParts (texts.filter (staysBeside parts)) =
      (looseParts texts).filter fun part => !Border.isPart part := by
  unfold looseParts
  rw [List.filter_filter, List.filter_filter]
  apply List.filter_congr
  intro p _
  cases hkey : key? p with
  | none => simp [staysBeside, hnone, hasKey, drawsLoose, hkey]
  | some key => simp

/-- A keyed border is changed beside the loose parts, which all stay, even those
that draw. -/
theorem BorderAt.looseParts_of_keyed (hkeyed : lastValue "border" parts ≠ []) {border : Text}
    (h : border = [] ∨ IsBorder border) :
    looseParts (reborderedParts parts border at?) = looseParts parts := by
  have hstays : ∀ p, (key? p).isNone = true → staysBeside parts p = true := by
    intro p hp
    rw [Option.isNone_iff_eq_none] at hp
    simp [staysBeside, hasKey, hp, hkeyed]
  have hwritten : (if border.isEmpty then [] else [borderPart border (borderKey parts at?)]).filter
      (fun p => (key? p).isNone) = [] := by
    rcases h with rfl | h
    · rfl
    · rw [if_neg (by simpa using h.piece.ne_nil)]
      rcases hat.written h with ⟨-, hkey, -⟩ | ⟨hnone, -⟩
      · rw [hasKey_iff] at hkey
        simp [hkey]
      · exact absurd hnone hkeyed
  rw [looseParts, reborderedParts, filter_around hstays, hwritten, List.nil_append,
    ← List.filter_append, before_append_after]
  cases hat with
  | keyed k p hp hkey hvalue hlast =>
      apply filter_eraseIdx hp
      rw [hasKey_iff] at hkey
      simp [hkey]
  | loose k p hp hnone hdraws hfirst => exact absurd hnone hkeyed
  | missing hnone hall => exact absurd hnone hkeyed

/-- Where no border is keyed, the first loose part that draws is the first part
of the border. -/
theorem BorderAt.exists_loose (hnone : lastValue "border" parts = []) :
    ∃ rest, looseParts parts = looseParts (beforeBorder parts at?) ++ rest ∧
      (∀ p ∈ rest.head?, Border.isPart p = true) ∧
      ∀ q ∈ beforeBorder parts at?, drawsLoose q = false := by
  cases hat with
  | keyed k p hp hkey hvalue hlast =>
      exact absurd ((lastValue_of_last hp hkey hlast).symm.trans hnone) hvalue
  | loose k p hp hnone hdraws hfirst =>
      rw [drawsLoose, Bool.and_eq_true] at hdraws
      refine ⟨p :: looseParts (parts.drop (k + 1)), ?_, ?_, hfirst⟩
      · conv_lhs => rw [Text.eq_take_cons_drop hp]
        rw [looseParts_append, beforeBorder]
        congr 1
        exact List.filter_cons_of_pos (by exact hdraws.1)
      · intro q hq
        cases hq
        exact hdraws.2
  | missing hnone hall => exact ⟨[], (List.append_nil _).symm, nofun, hall⟩

/-- **The label stays when a border is written.**  A keyed label is no border,
and a border that is written without a key draws, so it is not taken for a
label. -/
theorem BorderAt.labelOf_set {border : Text} (h : IsBorder border) :
    EdgeStyle.labelOf (reborderedParts parts border at?) = EdgeStyle.labelOf parts := by
  have hlabel : lastValue "label" (reborderedParts parts border at?) = lastValue "label" parts := by
    unfold lastValue
    rw [hat.filter_rebordered (Or.inr h) ignoresBorders_label]
  have hloose : (EdgeStyle.splitLooseLabel (looseParts (reborderedParts parts border at?))).1 =
      (EdgeStyle.splitLooseLabel (looseParts parts)).1 := by
    by_cases hkeyed : lastValue "border" parts = []
    · obtain ⟨rest, hrest, hhead, hbefore⟩ := hat.exists_loose hkeyed
      have hkept : (looseParts (beforeBorder parts at?)).filter (fun part => !Border.isPart part) =
          looseParts (beforeBorder parts at?) := by
        rw [List.filter_eq_self]
        intro q hq
        obtain ⟨hmem, hnokey⟩ := List.mem_filter.mp hq
        have hdraws := hbefore q hmem
        rw [drawsLoose, hnokey, Bool.true_and] at hdraws
        rw [hdraws]
        rfl
      have hpart := (hat.written h).resolve_left fun hwritten => hwritten.1 hkeyed
      have hsingle : looseParts [border] = [border] := by
        simp [looseParts, key?_of_not_mem h.no_equals]
      have hfirst : ∀ p ∈ (border :: looseParts ((afterBorder parts at?).filter
          (staysBeside parts))).head?, Border.isPart p = true := by
        intro p hp
        cases hp
        exact h.draws
      rw [hrest, splitLooseLabel_append hhead, reborderedParts,
        if_neg (by simpa using h.piece.ne_nil),
        around, looseParts_append, looseParts_append, hpart.2, hsingle,
        looseParts_staysBeside hkeyed (beforeBorder parts at?), hkept, List.singleton_append,
        splitLooseLabel_append hfirst]
    · rw [hat.looseParts_of_keyed hkeyed (Or.inr h)]
  unfold EdgeStyle.labelOf
  rw [hlabel, hloose]

end Border

/-- A border that is taken out is gone exactly if it was not keyed, or if no
loose part draws. -/
def BorderClears (parts : List Text) : Prop :=
  lastValue "border" parts = [] ∨ ∀ part ∈ parts, drawsLoose part = false

instance (parts : List Text) : Decidable (BorderClears parts) :=
  inferInstanceAs
    (Decidable (lastValue "border" parts = [] ∨ ∀ part ∈ parts, drawsLoose part = false))

/-- The label stays when the border is taken out exactly if one of them is
keyed, or if the first loose part is the label, or if all loose parts draw. -/
def LabelStays (parts : List Text) : Prop :=
  lastValue "label" parts ≠ [] ∨ lastValue "border" parts ≠ [] ∨
    ∀ first ∈ (looseParts parts).head?, Border.isPart first = true →
      ∀ part ∈ looseParts parts, Border.isPart part = true

instance (parts : List Text) : Decidable (LabelStays parts) :=
  inferInstanceAs (Decidable (lastValue "label" parts ≠ [] ∨ lastValue "border" parts ≠ [] ∨
    ∀ first ∈ (looseParts parts).head?, Border.isPart first = true →
      ∀ part ∈ looseParts parts, Border.isPart part = true))

/-- The first part that does not draw becomes the label, so it must have been
the first of all. -/
theorem splitLooseLabel_filter (loose : List Text) :
    (EdgeStyle.splitLooseLabel (loose.filter fun part => !Border.isPart part)).1 =
        (EdgeStyle.splitLooseLabel loose).1 ↔
      ∀ first ∈ loose.head?, Border.isPart first = true →
        ∀ part ∈ loose, Border.isPart part = true := by
  cases loose with
  | nil => simp
  | cons first rest =>
      cases hfirst : Border.isPart first with
      | false =>
          rw [List.filter_cons_of_pos (by simp [hfirst])]
          simp [EdgeStyle.splitLooseLabel, hfirst]
      | true =>
          have hhead : ∀ p, (rest.filter fun part => !Border.isPart part).head? = some p →
              Border.isPart p = false := by
            intro p hp
            simpa using (List.mem_filter.mp (List.mem_of_mem_head? hp)).2
          rw [List.filter_cons_of_neg (by simp [hfirst]), splitLooseLabel_fst, splitLooseLabel_fst]
          cases hrest : (rest.filter fun part => !Border.isPart part).head? with
          | none =>
              rw [List.head?_eq_none_iff, List.filter_eq_nil_iff] at hrest
              simp only [Bool.not_eq_true, Bool.not_eq_false'] at hrest
              simpa [hfirst, Option.filter] using hrest
          | some p =>
              have hmem := List.mem_of_mem_head? hrest
              obtain ⟨hin, -⟩ := List.mem_filter.mp hmem
              have hp := hhead p hrest
              simp only [Option.filter, hp, List.head?_cons, hfirst]
              simp only [Bool.not_false, Bool.not_true, if_true, Bool.false_eq_true, if_false,
                reduceCtorEq, false_iff]
              intro hall
              have := hall first rfl hfirst p (List.mem_cons_of_mem first hin)
              rw [hp] at this
              cases this

/-- **When the label stays** as the border is taken out.  Loose parts that draw
may hide one behind them that does not, and then the hidden one becomes the
label. -/
theorem BorderAt.labelOf_unbordered {parts : List Text} {at? : Option Nat}
    (hat : BorderAt parts at?) :
    EdgeStyle.labelOf (reborderedParts parts [] at?) = EdgeStyle.labelOf parts ↔
    LabelStays parts := by
  have hlabel : lastValue "label" (reborderedParts parts [] at?) = lastValue "label" parts := by
    unfold lastValue
    rw [hat.filter_rebordered (Or.inl rfl) ignoresBorders_label]
  unfold EdgeStyle.labelOf LabelStays
  rw [hlabel]
  by_cases hkeyed : lastValue "label" parts = []
  · rw [hkeyed, List.isEmpty_nil, if_pos rfl, if_pos rfl]
    by_cases hborder : lastValue "border" parts = []
    · have hloose : looseParts (reborderedParts parts [] at?) =
          (looseParts parts).filter fun part => !Border.isPart part := by
        rw [reborderedParts, List.isEmpty_nil, if_pos rfl, around, List.nil_append,
          ← List.filter_append, looseParts_staysBeside hborder, before_append_after]
        cases hat with
        | keyed k p hp hkey hvalue hlast =>
            exact absurd ((lastValue_of_last hp hkey hlast).symm.trans hborder) hvalue
        | loose k p hp hnone hdraws hfirst =>
            unfold looseParts
            rw [List.filter_filter, List.filter_filter]
            apply filter_eraseIdx hp
            rw [drawsLoose, Bool.and_eq_true] at hdraws
            simp [hdraws.2]
        | missing hnone hall => rfl
      rw [hloose, splitLooseLabel_filter, hborder]
      simp
    · rw [hat.looseParts_of_keyed hborder (Or.inl rfl)]
      simp [hborder]
  · simp [hkeyed]

end EdgeLayout

end LineDiagram
