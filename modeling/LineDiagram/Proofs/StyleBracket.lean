import LineDiagram.Edit.Bracket
import LineDiagram.Proofs.Bracket
import LineDiagram.Proofs.ColourForms
import LineDiagram.Proofs.NumberText

/-!
# The bracket after a change of style

The parts of a bracket after a change of style are old parts, and keys with new
values.  What the parts and the values have in common therefore goes for the new
bracket.  The editor refuses values that would end the bracket or the line;
number signs are escaped in a border and cannot come from a size, but a fill is
written as it is given.

* `forall_mem_setKey`, `mem_setKey` — the parts after one attribute was set;
* `NodeStyleEdit.fit_apply` — the new bracket opens no other one and stays on
  its line;
* `NodeStyleEdit.plain_apply_iff` — a comment opens in the new bracket exactly
  when one opens in the fill.
-/

namespace LineDiagram

open Comment

/-! ## Values that are written -/

namespace Bracket

/-- A text that may stand in a bracket: it opens no other one, and stays on its
line. -/
def Fit (t : Text) : Prop := ∀ c ∈ t, c ≠ '[' ∧ c ≠ '\n'

instance (t : Text) : Decidable (Fit t) :=
  decidable_of_iff (t.all (fun c => c != '[' && c != '\n') = true) (by simp [Fit, List.all_eq_true])

/-- A text may stand in a bracket exactly if neither an opening bracket nor a
line feed is in it. -/
theorem fit_iff {t : Text} : Fit t ↔ '[' ∉ t ∧ '\n' ∉ t := by
  constructor
  · intro h
    exact ⟨fun hmem => (h _ hmem).1 rfl, fun hmem => (h _ hmem).2 rfl⟩
  · rintro ⟨hopen, hline⟩ c hc
    exact ⟨fun heq => hopen (heq ▸ hc), fun heq => hline (heq ▸ hc)⟩

/-- A text that is made of characters of one that may stand in a bracket may
stand in one. -/
theorem Fit.of_subset {s t : Text} (h : Fit t) (hs : s ⊆ t) : Fit s := fun c hc => h c (hs hc)

/-- Two texts may stand in a bracket one after the other exactly if both may. -/
@[simp] theorem fit_append {a b : Text} : Fit (a ++ b) ↔ Fit a ∧ Fit b := List.forall_mem_append

/-- So may several with a separator between them, if they and the separator
may. -/
theorem fit_join {separator : Text} (hsep : Fit separator) {texts : List Text}
    (h : ∀ t ∈ texts, Fit t) : Fit (Text.join separator texts) := by
  rw [fit_iff] at hsep ⊢
  exact ⟨Text.not_mem_join hsep.1 fun t ht => (fit_iff.mp (h t ht)).1,
    Text.not_mem_join hsep.2 fun t ht => (fit_iff.mp (h t ht)).2⟩

theorem fit_of_numberText {t : Text} (h : NumberText t) : Fit t :=
  fit_iff.mpr ⟨h.not_mem (by decide), h.not_mem (by decide)⟩

/-- No character that would break a bracket is in a value that the editor does
not refuse. -/
theorem not_mem_spell {v : Value} (h : Field.isBroken (some v) = false) {c : Char}
    (hc : Text.isBracketBreaker c = true) : c ∉ v.spell := by
  have hword : ∀ {t : Text}, t.all (fun c => !Text.isBracketBreaker c) = true → c ∉ t := by
    intro t ht hmem
    have hnot := List.all_eq_true.mp ht c hmem
    rw [hc] at hnot
    cases hnot
  have hnumber : isNumberChar c = false := by
    simp only [Text.isBracketBreaker, Bool.or_eq_true, beq_iff_eq] at hc
    rcases hc with (((rfl | rfl) | rfl) | rfl) | rfl <;> decide
  cases v with
  | null => exact hword (by decide)
  | flag b => cases b <;> exact hword (by decide)
  | whole n => exact (numberText_ofInt n).not_mem hnumber
  | real x => exact x.numberText_plainText.not_mem hnumber
  | text _ | list _ | record _ =>
      simp only [Field.isBroken, Value.isScalarNumber, Bool.not_false, Bool.true_and,
        List.any_eq_false] at h
      exact fun hmem => h c hmem hc

/-- So may the text of a value that breaks no bracket. -/
theorem fit_spell {v : Value} (h : Field.isBroken (some v) = false) : Fit v.spell :=
  fit_iff.mpr ⟨not_mem_spell h (by decide), not_mem_spell h (by decide)⟩

/-- So may a colour as it is written into a document, if the colour may: it is
written as three numbers, or as it stands. -/
theorem fit_sourceToken {t : Text} (h : Fit t) : Fit (Colour.sourceToken t) := by
  rcases Colour.sourceToken_cases t with ⟨c, -, htoken, -⟩ | htoken
  · rw [htoken]
    unfold Colour.rgbText
    simp only [fit_append]
    exact ⟨⟨⟨⟨⟨⟨by decide, fit_of_numberText (numberText_ofNat _)⟩, by decide⟩,
      fit_of_numberText (numberText_ofNat _)⟩, by decide⟩, fit_of_numberText (numberText_ofNat _)⟩,
      by decide⟩
  · rw [htoken]
    exact h.of_subset fun _ hc => Text.mem_of_mem_trim hc

/-- A colour that breaks no bracket may stand in one as it is written. -/
theorem fit_writtenColour {v : Value} (h : Field.isBroken (some v) = false) :
    Fit (writtenColour v) := by
  apply fit_sourceToken
  unfold Value.textUnlessNull
  split
  · exact nofun
  · exact fit_spell h

/-- So may a border. -/
theorem fit_writtenBorder {v : Value} (h : Field.isBroken (some v) = false) :
    Fit (writtenBorder v) := by
  have hwords : Fit (Text.join " " ((Text.words v.textIfFilled).map Colour.sourceToken)) := by
    apply fit_join (by decide)
    intro word hword
    obtain ⟨w, hw, rfl⟩ := List.mem_map.mp hword
    apply fit_sourceToken
    intro c hc
    have hmem := (Text.mem_of_mem_words hw hc).2
    unfold Value.textIfFilled at hmem
    split at hmem
    · exact fit_spell h c hmem
    · cases hmem
  unfold writtenBorder
  rw [fit_iff] at hwords ⊢
  rwa [mem_escape (by decide), mem_escape (by decide)]

/-- A border is written without blanks around it. -/
theorem tight_writtenBorder (v : Value) : Text.Tight (writtenBorder v) := by
  apply Comment.tight_escape
  apply Text.tight_join
  intro token htoken
  obtain ⟨word, hword, rfl⟩ := List.mem_map.mp htoken
  have hne : word ≠ [] := by simpa using (List.mem_filter.mp hword).2
  have htight : Text.Tight word :=
    Text.tight_of_solid fun c hc => (Text.mem_of_mem_words hword hc).1
  rcases Colour.sourceToken_cases word with ⟨c, -, hcolour, -⟩ | hsame
  · rw [hcolour]
    exact ⟨Colour.tight_rgbText c, List.append_ne_nil_of_right_ne_nil _ (by decide)⟩
  · rw [hsame, Text.trim_of_tight htight]
    exact ⟨htight, hne⟩

/-- A text size is written as a number, whatever is asked for. -/
theorem numberText_writtenTextSize (v : Value) : NumberText (writtenTextSize v) := by
  unfold writtenTextSize
  dsimp only
  split
  · split
    · exact nofun
    · exact Binary64.numberText_compactText _
  · exact nofun

/-! ## Setting one attribute -/

/-- A property of texts that a keyed part has when its key and its value have
it, and that the key of a part inherits from the part. -/
structure Inherited (P : Text → Prop) : Prop where
  keyed : ∀ {key value}, P key → P value → P (key ++ "=" ++ value)
  key : ∀ {part key}, P part → writtenKey? part = some key → P key

/-- The key of a part stands before its first equals sign, so no equals sign is
in it. -/
theorem writtenKey?_eq_some {part key : Text} (h : writtenKey? part = some key) :
    key = Text.trim (part.takeWhile (· != '=')) ∧ '=' ∉ key := by
  unfold writtenKey? at h
  split at h
  · cases h
    refine ⟨rfl, fun hmem => ?_⟩
    have := List.mem_takeWhile_imp (Text.mem_of_mem_trim hmem)
    simp at this
  · cases h

/-- Whether a text may stand in a bracket is handed on from key and value to the
part, and from the part to its key. -/
theorem inherited_fit : Inherited Fit where
  keyed hkey hvalue := by
    rw [fit_append, fit_append]
    exact ⟨⟨hkey, by decide⟩, hvalue⟩
  key hpart hkey := by
    rw [(writtenKey?_eq_some hkey).1]
    exact hpart.of_subset fun _ hc =>
      (List.takeWhile_sublist _).subset (Text.mem_of_mem_trim hc)

/-- So is whether no comment opens in a text. -/
theorem inherited_plain : Inherited Plain where
  keyed hkey hvalue := (hkey.append (plain_of_not_mem (by decide))).append hvalue
  key {part key} hpart hkey := by
    rw [(writtenKey?_eq_some hkey).1]
    rw [← List.takeWhile_append_dropWhile (p := (· != '=')) (l := part)] at hpart
    exact hpart.left.trim

section SetKey

variable {aliases : List Text} {key value : Text} {parts : List Text}

/-- What the part that is replaced uses. -/
private theorem uses_of_findIdx? {i : Nat} (h : parts.findIdx? (usesKey aliases) = some i) :
    parts[i]? = some (parts.getD i []) ∧ usesKey aliases (parts.getD i []) = true := by
  obtain ⟨hlt, huses, -⟩ := List.findIdx?_eq_some_iff_getElem.mp h
  have hget : parts[i]? = some parts[i] := List.getElem?_eq_getElem hlt
  rw [Text.getD_of_getElem? hget]
  exact ⟨hget, huses⟩

/-- **Parts after an attribute was set** have what the old parts, the key and
the value have. -/
theorem forall_mem_setKey {P : Text → Prop} (hP : Inherited P) (hparts : ∀ p ∈ parts, P p)
    (hkey : P key) (hvalue : P value) : ∀ p ∈ setKey aliases key value parts, P p := by
  have hothers : ∀ l : List Text, l ⊆ parts → ∀ p ∈ l.filter (fun p => !usesKey aliases p), P p :=
    fun l hl p hp => hparts p (hl (List.mem_filter.mp hp).1)
  intro p hp
  unfold setKey at hp
  dsimp only at hp
  split at hp
  · exact hothers parts (List.Subset.refl _) p hp
  · split at hp
    · rename_i i hfound
      rcases List.mem_append.mp hp with hp | hp
      · exact hparts p ((List.take_subset _ _) hp)
      · rcases List.mem_cons.mp hp with rfl | hp
        · apply hP.keyed _ hvalue
          cases hwritten : writtenKey? (parts.getD i []) with
          | none => exact hkey
          | some written =>
              exact hP.key (hparts _ (List.mem_of_getElem? (uses_of_findIdx? hfound).1)) hwritten
        · exact hothers _ (List.drop_subset _ _) p hp
    · rcases List.mem_append.mp hp with hp | hp
      · exact hothers parts (List.Subset.refl _) p hp
      · rw [List.mem_singleton.mp hp]
        exact hP.keyed hkey hvalue

/-- Parts that use no key of an attribute stay when it is set. -/
theorem mem_setKey {p : Text} (hp : p ∈ parts) (hother : usesKey aliases p = false) :
    p ∈ setKey aliases key value parts := by
  have hfilter : ∀ l : List Text, p ∈ l → p ∈ l.filter (fun p => !usesKey aliases p) :=
    fun l hl => List.mem_filter.mpr ⟨hl, by rw [hother]; rfl⟩
  unfold setKey
  dsimp only
  split
  · exact hfilter parts hp
  · split
    · rename_i i hfound
      obtain ⟨hget, huses⟩ := uses_of_findIdx? hfound
      rw [Text.eq_take_cons_drop hget, List.mem_append, List.mem_cons] at hp
      rcases hp with hp | rfl | hp
      · exact List.mem_append_left _ hp
      · rw [hother] at huses
        cases huses
      · exact List.mem_append_right _ (List.mem_cons_of_mem _ (hfilter _ hp))
    · exact List.mem_append_left _ (hfilter parts hp)

/-- A value that is not empty is written behind a key of its attribute, and the
part with it uses this attribute. -/
theorem exists_mem_setKey (hkey : '=' ∉ key)
    (halias : aliases.contains (Text.lower (Text.trim key))) (hvalue : value ≠ []) :
    ∃ written, written ++ "=" ++ value ∈ setKey aliases key value parts ∧
      usesKey aliases (written ++ "=" ++ value) = true := by
  have huses : ∀ {written : Text}, '=' ∉ written →
      aliases.contains (Text.lower (Text.trim written)) →
      usesKey aliases (written ++ "=" ++ value) = true := by
    intro written hfree hmem
    have hcut : writtenKey? (written ++ "=" ++ value) = some (Text.trim written) := by
      rw [show written ++ "=" ++ value = written ++ '=' :: value by simp]
      exact writtenKey?_cut hfree value
    unfold usesKey key?
    rw [hcut]
    exact hmem
  unfold setKey
  dsimp only
  rw [if_neg (by simpa using hvalue)]
  split
  · rename_i i hfound
    obtain ⟨-, hold⟩ := uses_of_findIdx? hfound
    unfold usesKey key? at hold
    cases hwritten : writtenKey? (parts.getD i []) with
    | none =>
        rw [hwritten] at hold
        cases hold
    | some written =>
        rw [hwritten] at hold
        obtain ⟨htrim, hfree⟩ := writtenKey?_eq_some hwritten
        refine ⟨written, by simp, huses hfree ?_⟩
        rw [htrim, Text.trim_trim, ← htrim]
        exact hold
  · exact ⟨key, by simp, huses hkey halias⟩

end SetKey

/-- After an attribute is set, cleared or left alone, the parts have a property
that is handed on in this way, if the old parts, the key and the value have
it. -/
theorem forall_mem_updateKey {P : Text → Prop} (hP : Inherited P)
    {aliases : List Text} {key : String}
    {value : Option Text} {parts : List Text} (hparts : ∀ p ∈ parts, P p) (hkey : P key.toList)
    (hvalue : ∀ v ∈ value, P v) : ∀ p ∈ updateKey aliases key value parts, P p := by
  cases value with
  | none => exact hparts
  | some v => exact forall_mem_setKey hP hparts hkey (hvalue v rfl)

/-- A part with another key is still there then. -/
theorem mem_updateKey {aliases : List Text} {key : String} {value : Option Text} {parts : List Text}
    {p : Text} (hp : p ∈ parts) (hother : usesKey aliases p = false) :
    p ∈ updateKey aliases key value parts := by
  cases value with
  | none => exact hp
  | some v => exact mem_setKey hp hother

/-- After a node is made rounded or not, the parts have such a property, if the
old parts and the two words that may be written have it. -/
theorem forall_mem_updateRounded {P : Text → Prop} (hP : Inherited P) {rounded : Field}
    {parts : List Text} (hparts : ∀ p ∈ parts, P p) (hshape : P "shape".toList)
    (hrounded : P "rounded".toList) : ∀ p ∈ updateRounded rounded parts, P p := by
  unfold updateRounded
  split
  · exact hparts
  · split
    · exact forall_mem_setKey hP hparts hshape hrounded
    · exact fun p hp => hparts p (List.mem_filter.mp hp).1

/-- A part that is not about the shape is still there then. -/
theorem mem_updateRounded {rounded : Field} {parts : List Text} {p : Text} (hp : p ∈ parts)
    (hother : usesKey shapeKeys p = false) : p ∈ updateRounded rounded parts := by
  unfold updateRounded
  split
  · exact hp
  · split
    · exact mem_setKey hp hother
    · exact List.mem_filter.mpr ⟨hp, by simp [isRounded, hother]⟩

/-- No comment opens in parts with bars between them exactly when none opens in
one of them. -/
theorem plain_joinParts_iff {parts : List Text} :
    Plain (joinParts parts) ↔ ∀ p ∈ parts, Plain p := by
  induction parts with
  | nil => exact ⟨nofun, fun _ => trivial⟩
  | cons part parts ih =>
      cases parts with
      | nil => simp
      | cons next parts =>
          have hbar : Plain " | ".toList := plain_of_not_mem (by decide)
          rw [joinParts_cons_cons, List.forall_mem_cons, ← ih]
          constructor
          · intro h
            refine ⟨h.left, ?_⟩
            rw [show part ++ (" | ".toList ++ joinParts (next :: parts)) =
              (part ++ [' ', '|']) ++ ' ' :: joinParts (next :: parts) by simp] at h
            exact h.right (by decide)
          · rintro ⟨hpart, hrest⟩
            exact hpart.append (hbar.append hrest)

end Bracket

/-! ## The bracket of a node -/

/-- What a field writes is empty or the text of its value. -/
theorem Field.forall_toText? {P : Text → Prop} {convert : Value → Text}
    {field : Field} (hnil : P [])
    (h : ∀ v, field = some v → P (convert v)) : ∀ t ∈ field.toText? convert, P t := by
  intro t ht
  obtain ⟨v, hv, rfl⟩ := Option.map_eq_some_iff.mp ht
  split
  · exact hnil
  · exact h v hv

namespace NodeStyleEdit

open LineDiagram.Bracket

/-- The parts of the bracket of a node after an edit. -/
def partsAfter (edit : NodeStyleEdit) (parts : List Text) : List Text :=
  updateKey textSizeKeys "text size" (edit.textSize.toText? writtenTextSize)
    (updateRounded edit.rounded
      (updateKey borderKeys "border" (edit.border.toText? writtenBorder)
        (updateKey fillKeys "colour" (edit.fill.toText? writtenColour) parts)))

theorem apply_eq (edit : NodeStyleEdit) (inner : Text) :
    edit.apply inner = joinParts (edit.partsAfter (splitParts inner)) := rfl

variable {edit : NodeStyleEdit} {parts : List Text} {inner : Text}

/-- **The parts after an edit** have what the old parts, the keys and the values
have. -/
theorem forall_mem_partsAfter {P : Text → Prop} (hP : Inherited P) (hparts : ∀ p ∈ parts, P p)
    (hkeys : ∀ key ∈ ["colour", "border", "shape", "rounded", "text size"], P key.toList)
    (hfill : ∀ t ∈ edit.fill.toText? writtenColour, P t)
    (hborder : ∀ t ∈ edit.border.toText? writtenBorder, P t)
    (hsize : ∀ t ∈ edit.textSize.toText? writtenTextSize, P t) :
    ∀ p ∈ edit.partsAfter parts, P p := by
  apply forall_mem_updateKey hP _ (hkeys _ (by simp)) hsize
  apply forall_mem_updateRounded hP _ (hkeys _ (by simp)) (hkeys _ (by simp))
  apply forall_mem_updateKey hP _ (hkeys _ (by simp)) hborder
  exact forall_mem_updateKey hP hparts (hkeys _ (by simp)) hfill

/-- A part for the fill stays through the changes after it, since none of them
uses a key of the fill. -/
private theorem mem_partsAfter {p : Text}
    (hp : p ∈ updateKey fillKeys "colour" (edit.fill.toText? writtenColour) parts)
    (hfill : usesKey fillKeys p = true) : p ∈ edit.partsAfter parts := by
  have hother : ∀ aliases : List Text, (∀ key ∈ fillKeys, aliases.contains key = false) →
      usesKey aliases p = false := by
    intro aliases hdisjoint
    unfold usesKey at hfill ⊢
    cases hkey : key? p with
    | none => rfl
    | some key =>
        rw [hkey] at hfill
        exact hdisjoint key (by simpa using hfill)
  refine mem_updateKey (mem_updateRounded (mem_updateKey hp ?_) ?_) ?_
  · exact hother borderKeys (by decide)
  · exact hother shapeKeys (by decide)
  · exact hother textSizeKeys (by decide)

/-- **The new bracket** opens no other one and stays on its line.  So the editor
that wrote it will cut it out of the line again. -/
theorem fit_apply (hinner : Fit inner) (hfill : edit.fill.isBroken = false)
    (hborder : edit.border.isBroken = false) : Fit (edit.apply inner) := by
  rw [apply_eq]
  apply fit_join (by decide)
  apply forall_mem_partsAfter inherited_fit
  · exact fun p hp => hinner.of_subset (Text.subset_of_mem_parts hp)
  · decide
  · exact Field.forall_toText? nofun fun v hv => fit_writtenColour (hv ▸ hfill)
  · exact Field.forall_toText? nofun fun v hv => fit_writtenBorder (hv ▸ hborder)
  · exact Field.forall_toText? nofun fun v _ => fit_of_numberText (numberText_writtenTextSize v)

/-- **Comments in the new bracket.**  One opens exactly when one opens in the
fill as it is written. -/
theorem plain_apply_iff (hplain : Plain inner) (hinner : Fit inner) :
    Plain (edit.apply inner) ↔ Plain ((edit.fill.toText? writtenColour).getD []) := by
  obtain ⟨hopen, hline⟩ := fit_iff.mp hinner
  rw [apply_eq, plain_joinParts_iff]
  constructor
  · intro hall
    cases hfill : edit.fill.toText? writtenColour with
    | none => trivial
    | some fill =>
        rw [Option.getD_some]
        by_cases hnil : fill = []
        · rw [hnil]
          trivial
        · obtain ⟨written, hmem, huses⟩ : ∃ written,
              written ++ "=" ++ fill ∈ setKey fillKeys "colour" fill (splitParts inner) ∧
                usesKey fillKeys (written ++ "=" ++ fill) = true :=
            exists_mem_setKey (by decide) (by decide) hnil
          have hpart := hall _ (mem_partsAfter (by rw [hfill]; exact hmem) huses)
          rw [show written ++ "=" ++ fill = written ++ '=' :: fill by simp] at hpart
          exact hpart.right (by decide)
  · intro hfill
    apply forall_mem_partsAfter inherited_plain
    · exact fun p hp => (sound_of_mem hplain hopen hline hp).plain
    · exact fun key hkey => plain_of_not_mem (by revert key; decide)
    · intro t ht
      rw [Option.mem_def.mp ht] at hfill
      exact hfill
    · exact Field.forall_toText? trivial fun v _ => plain_escape _
    · exact Field.forall_toText? trivial fun v _ =>
        plain_of_not_mem ((numberText_writtenTextSize v).not_mem (by decide))

end NodeStyleEdit

end LineDiagram
