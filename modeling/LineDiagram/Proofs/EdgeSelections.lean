import LineDiagram.Proofs.EdgeReading

/-!
# Selections of the parts of a bracket

What the graph reads off the bracket of an edge depends on four selections of
its parts: those keyed as a label, those keyed as a border, the loose ones, and
those with other keys.  An edit of the bracket writes one part among those that
it keeps, so it is followed through by what it does to each selection.

* `sameRest_of_filter`, `sameLine_of_filters` — what the selections decide;
* `filter_around`, `filter_around_dropped` — a selection after one part was
  written;
* `ofText_joinParts` — the parts that are written are the ones that are read.
-/

namespace LineDiagram

open LineDiagram.Bracket

namespace Table

/-- Setting a name and leaving out names: if the name is left out, setting it
has made no difference. -/
theorem without_set (table : Table) (name value : Text) (names : List Text) :
    (table.set name value).without names =
      if names.contains name then table.without names
        else (table.without names).set name value := by
  have hkeep : (fun e : Text × Text => !names.contains e.1) ∘
      (fun e => if e.1 == name then (name, value) else e) = fun e => !names.contains e.1 := by
    funext e
    by_cases he : e.1 = name
    · simp [he]
    · simp [he]
  unfold Table.set Table.without
  by_cases hname : names.contains name = true
  · rw [if_pos hname]
    have hother : ∀ e ∈ table.filter (fun e => !names.contains e.1), ¬ (e.1 == name) = true := by
      intro e he heq
      rw [beq_iff_eq] at heq
      rw [List.mem_filter, heq, hname] at he
      exact Bool.false_ne_true he.2
    split
    · rw [List.filter_map, hkeep]
      conv_rhs => rw [← List.map_id' (table.filter _)]
      exact List.map_congr_left fun e he => if_neg (hother e he)
    · rw [List.filter_append, List.filter_cons_of_neg (by simpa using hname)]
      simp
  · rw [if_neg hname]
    have hany : (table.filter fun e => !names.contains e.1).any (·.1 == name) =
        table.any (·.1 == name) := by
      rw [Bool.eq_iff_iff, List.any_eq_true, List.any_eq_true]
      constructor
      · rintro ⟨e, he, heq⟩
        exact ⟨e, (List.mem_filter.mp he).1, heq⟩
      · rintro ⟨e, he, heq⟩
        refine ⟨e, List.mem_filter.mpr ⟨he, ?_⟩, heq⟩
        rw [beq_iff_eq.mp heq]
        simpa using hname
    rw [hany]
    split
    · rw [List.filter_map, hkeep]
    · rw [List.filter_append, List.filter_cons_of_pos (by simpa using hname)]
      rfl

/-- Taking some names out of a table leaves the values of all other names. -/
theorem get_without {table : Table} {name : Text} {names : List Text} (h : name ∉ names) :
    (table.without names).get name = table.get name := by
  unfold Table.without Table.get
  congr 1
  induction table with
  | nil => rfl
  | cons e table ih =>
      by_cases he : name = e.1
      · rw [List.filter_cons_of_pos (by simpa [← he] using h), List.lookup_cons,
          List.lookup_cons, he]
        simp
      · have hne : (name == e.1) = false := by simpa using he
        rw [List.filter_cons, List.lookup_cons, hne, ← ih]
        split
        · rw [List.lookup_cons, hne]
        · rfl

/-- Names that are taken out anyway need not be taken out before. -/
theorem without_without {table : Table} {names more : List Text} (h : names ⊆ more) :
    (table.without names).without more = table.without more := by
  unfold Table.without
  rw [List.filter_filter]
  apply List.filter_congr
  intro e _
  by_cases he : e.1 ∈ more
  · simp [he]
  · have hnot : e.1 ∉ names := fun hmem => he (h hmem)
    simp [he, hnot]

end Table

/-! ## What the selections of the parts decide -/

namespace Bracket

/-- Whether a part has a key that is not among some names. -/
def keyedBeside (names : List Text) (part : Text) : Bool :=
  (key? part).any fun key => !names.contains key

/-- The keyed parts of a bracket without some names are those of the parts with
other keys. -/
theorem keyed_without (names : List Text) (parts : List Text) :
    (ofParts parts).keyed.without names = (ofParts (parts.filter (keyedBeside names))).keyed := by
  induction parts using List.reverseRecOn with
  | nil => rfl
  | append_singleton parts part ih =>
      unfold ofParts at ih ⊢
      rw [List.foldl_append, List.foldl_cons, List.foldl_nil, List.filter_append]
      cases hkey : key? part with
      | none =>
          have hout : keyedBeside names part = false := by simp [keyedBeside, hkey]
          rw [List.filter_cons_of_neg (by simp [hout]), List.filter_nil, List.append_nil, ← ih]
          simp [addPart, hkey]
      | some key =>
          simp only [addPart, hkey, Table.without_set]
          by_cases hname : names.contains key = true
          · have hout : keyedBeside names part = false := by simpa [keyedBeside, hkey] using hname
            rw [if_pos hname, List.filter_cons_of_neg (by simp [hout]),
              List.filter_nil, List.append_nil, ih]
          · have hin : keyedBeside names part = true := by simpa [keyedBeside, hkey] using hname
            rw [if_neg hname, List.filter_cons_of_pos hin, List.filter_nil, List.foldl_append,
              List.foldl_cons, List.foldl_nil, ih]
            simp [addPart, hkey]

/-- The first value among those of some keys does not depend on other keys, so
tables that agree without those give the same value. -/
theorem first_of_without {a b : Bracket} {names keys : List Text}
    (h : a.keyed.without names = b.keyed.without names) (hkeys : ∀ key ∈ keys, key ∉ names) :
    a.first keys = b.first keys := by
  have hget : keys.map a.keyed.get = keys.map b.keyed.get := by
    apply List.map_congr_left
    intro key hkey
    rw [← Table.get_without (hkeys key hkey), h, Table.get_without (hkeys key hkey)]
  unfold first
  rw [hget]

end Bracket

namespace EdgeStyle

/-- The keys of label and border. -/
def fieldKeys : List Text := ["label", "border"]

/-- Two edges are drawn alike in what is neither label nor line: font and size
of the label, and the keys that mean nothing. -/
def SameRest (a b : EdgeStyle) : Prop :=
  a.font = b.font ∧ a.fontSize = b.fontSize ∧ a.extras = b.extras

/-- **The other keyed parts** decide font, size and extras.  So two brackets
that agree in the parts with keys other than `label` and `border` agree in all
of these. -/
theorem sameRest_of_filter (font : Text) {a b : List Text}
    (h : a.filter (keyedBeside fieldKeys) = b.filter (keyedBeside fieldKeys)) :
    SameRest (ofBracket font (.ofParts a)) (ofBracket font (.ofParts b)) := by
  have hkeyed : (Bracket.ofParts a).keyed.without fieldKeys =
      (Bracket.ofParts b).keyed.without fieldKeys := by
    rw [keyed_without, keyed_without, h]
  have hstyle :
      (Bracket.ofParts a).first labelStyleKeys = (Bracket.ofParts b).first labelStyleKeys :=
    first_of_without hkeyed (by decide)
  have hsize : (Bracket.ofParts a).first labelSizeKeys = (Bracket.ofParts b).first labelSizeKeys :=
    first_of_without hkeyed (by decide)
  have hextras : (Bracket.ofParts a).keyed.without managedKeys =
      (Bracket.ofParts b).keyed.without managedKeys := by
    have hsub : fieldKeys ⊆ managedKeys := by decide
    rw [← Table.without_without hsub, hkeyed, Table.without_without hsub]
  refine ⟨?_, ?_, ?_⟩
  · simp only [ofBracket, hstyle]
  · simp only [ofBracket, hsize]
  · simp only [ofBracket, hextras]

end EdgeStyle

namespace EdgeLayout

theorem hasKey_iff {key : String} {part : Text} :
    hasKey key part = true ↔ key? part = some key.toList := by
  unfold hasKey
  exact beq_iff_eq

/-- Whether a part is loose and part of a border. -/
def drawsLoose (part : Text) : Bool := (key? part).isNone && Border.isPart part

/-- The parts that are read as the border: the keyed one if its value is not
empty, and all loose parts that draw otherwise. -/
theorem borderParts_eq (parts : List Text) :
    borderParts parts =
      if (lastValue "border" parts).isEmpty then parts.filter drawsLoose
      else [lastValue "border" parts] := by
  unfold borderParts looseParts
  rw [List.filter_filter]
  congr 2
  funext part
  exact Bool.and_comm _ _

/-- **The keyed borders and the loose parts that draw** decide the line.  So two
brackets that agree in them are drawn with the same line, whatever labels they
have. -/
theorem sameLine_of_filters (font : Text) {a b : List Text}
    (hkeyed : a.filter (hasKey "border") = b.filter (hasKey "border"))
    (hloose : a.filter drawsLoose = b.filter drawsLoose) :
    EdgeStyle.SameLine (.ofBracket font (.ofParts a)) (.ofBracket font (.ofParts b)) := by
  have hborder : EdgeStyle.borderOf a = EdgeStyle.borderOf b := by
    rw [borderOf_eq, borderOf_eq, borderParts_eq, borderParts_eq]
    unfold lastValue
    rw [hkeyed, hloose]
  have ha := EdgeStyle.sameLine_ofParts font a
  rw [hborder] at ha
  exact ha.trans (EdgeStyle.sameLine_ofParts font b).symm

/-- The label among loose parts is the first of them, unless that one draws. -/
theorem splitLooseLabel_fst (loose : List Text) :
    (EdgeStyle.splitLooseLabel loose).1 = loose.head?.filter fun part => !Border.isPart part := by
  cases loose with
  | nil => rfl
  | cons part rest =>
      cases hpart : Border.isPart part with
      | true => simp [EdgeStyle.splitLooseLabel, Option.filter, hpart]
      | false => simp [EdgeStyle.splitLooseLabel, Option.filter, hpart]

/-! ## Parts that are written in the place of others -/

/-- Parts of which some are kept, and others that are written in one place among
them. -/
def around (keep : Text → Bool) (before written after : List Text) : List Text :=
  before.filter keep ++ (written ++ after.filter keep)

section Around

variable {keep q : Text → Bool}

/-- A selection of parts that are all kept: those before the place, those that
are written, and those behind. -/
theorem filter_around (h : ∀ p, q p = true → keep p = true) (before written after : List Text) :
    (around keep before written after).filter q =
      before.filter q ++ (written.filter q ++ after.filter q) := by
  have hkept : ∀ parts : List Text, (parts.filter keep).filter q = parts.filter q := by
    intro parts
    rw [List.filter_filter]
    apply List.filter_congr
    intro p _
    cases hq : q p with
    | false => rfl
    | true => simp [h p hq]
  unfold around
  rw [List.filter_append, List.filter_append, hkept, hkept]

/-- A selection of parts none of which is kept: only what is written can be in
it. -/
theorem filter_around_dropped (h : ∀ p, q p = true → keep p = false)
    (before written after : List Text) :
    (around keep before written after).filter q = written.filter q := by
  have hdropped : ∀ parts : List Text, (parts.filter keep).filter q = [] := by
    intro parts
    rw [List.filter_filter, List.filter_eq_nil_iff]
    intro p _
    cases hq : q p with
    | false => simp
    | true => simp [h p hq]
  unfold around
  rw [List.filter_append, List.filter_append, hdropped, hdropped, List.nil_append, List.append_nil]

/-- A part is one of those around the place, or one that is written there. -/
theorem mem_around {p : Text} {before written after : List Text}
    (h : p ∈ around keep before written after) : p ∈ before ++ after ∨ p ∈ written := by
  unfold around at h
  simp only [List.mem_append, List.mem_filter] at h ⊢
  tauto

end Around

/-- Taking out a part that is not selected. -/
theorem filter_eraseIdx {parts : List Text} {q : Text → Bool} {i : Nat} {p : Text}
    (hp : parts[i]? = some p) (hno : q p = false) :
    (parts.eraseIdx i).filter q = parts.filter q := by
  rw [List.eraseIdx_eq_take_drop_succ]
  conv_rhs => rw [Text.eq_take_cons_drop hp]
  rw [List.filter_append, List.filter_append, List.filter_cons_of_neg (by simp [hno])]

/-- The parts without the one at a position. -/
def withoutAt (parts : List Text) : Option Nat → List Text
  | none => parts
  | some i => parts.eraseIdx i

theorem mem_of_mem_withoutAt {parts : List Text} {at? : Option Nat} {p : Text}
    (h : p ∈ withoutAt parts at?) : p ∈ parts := by
  cases at? with
  | none => exact h
  | some i => exact List.mem_of_mem_eraseIdx h

/-- What has to be kept out of a part whose bracket is looked for in a text:
bars and opening brackets. -/
theorem onePart_of_no_open {part : Text} (htight : Text.Tight part) (hne : part ≠ [])
    (hbar : '|' ∉ part) (hopen : '[' ∉ part) : OnePart ['['] part :=
  ⟨⟨htight, by simp [hbar, hopen]⟩, hne⟩

/-- The key of a part may be written again, with another value behind it. -/
theorem onePart_writtenKey {part key value : Text} (hpart : OnePart ['['] part)
    (hkey : writtenKey? part = some key) (hvalue : OnePart ['['] value) :
    OnePart ['['] (key ++ '=' :: value) := by
  unfold writtenKey? at hkey
  split at hkey
  · cases hkey
    have hin : ∀ {c}, c ∈ Text.trim (part.takeWhile (· != '=')) → c ∈ part := fun hc =>
      (List.takeWhile_sublist _).subset (Text.mem_of_mem_trim hc)
    exact onePart_keyed (by decide) ⟨Text.tight_trim _, fun c hc hmem => hpart.free c hc (hin hmem)⟩
      hvalue.toWritable
  · cases hkey

/-- **Parts that are written are what the graph reads.**  No part opens a
bracket, so the inside is not taken for one that is still in its brackets. -/
theorem ofText_joinParts {parts : List Text} (h : ∀ p ∈ parts, OnePart ['['] p) :
    Bracket.ofText (joinParts parts) = .ofParts parts := by
  have hopen : '[' ∉ joinParts parts :=
    Text.not_mem_join (by decide) fun p hp => (h p hp).free '[' (by decide)
  rw [ofText_eq hopen, splitParts_of_onePart h]

end EdgeLayout

end LineDiagram
