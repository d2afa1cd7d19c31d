import LineDiagram.Proofs.StyleBracket

/-!
# Changes of the attributes in a bracket

An attribute of a node or a box has several keys, and an edit changes the parts
that use one of them.  Changes of different attributes do not meet: each
rewrites its own parts, whatever stands between them, and leaves the others
where they are.  So after a row of changes the parts of each attribute are what
its own change makes of them, and to do the whole row once more changes nothing.

* `KeyedChange` — a change of the parts with some keys, with the laws that make
  it one;
* `filter_runAll`, `filter_runAll_kept`, `runAll_runAll` — a row of changes of
  different attributes;
* `Attribute.change`, `roundedChange` — the changes that editors make.
-/

namespace LineDiagram.Bracket

/-! ## Rows of changes -/

/-- A change of the parts that use some keys. -/
structure KeyedChange where
  /-- The keys. -/
  keys : List Text
  /-- Whether there is anything to change. -/
  active : Bool
  /-- All parts after the change. -/
  run : List Text → List Text
  /-- The parts with the keys after the change, made from those before it. -/
  own : List Text → List Text
  filter_run : ∀ parts, (run parts).filter (usesKey keys) = own (parts.filter (usesKey keys))
  /-- A selection of parts without the keys stays as it is. -/
  filter_kept : ∀ parts (q : Text → Bool),
    (active = true → ∀ p, usesKey keys p = true → q p = false) →
      (run parts).filter q = parts.filter q
  own_own : ∀ parts, own (own parts) = own parts
  /-- Where the parts with the keys are as the change would make them, it
  changes nothing. -/
  run_eq_self : ∀ parts, own (parts.filter (usesKey keys)) = parts.filter (usesKey keys) →
    run parts = parts

/-- Makes changes one after the other. -/
def runAll (changes : List KeyedChange) (parts : List Text) : List Text :=
  changes.foldl (fun parts change => change.run parts) parts

/-- The changes are of different attributes: no two of them share a key. -/
def Apart (changes : List KeyedChange) : Prop :=
  (changes.map (·.keys)).Pairwise fun keys others => ∀ key ∈ keys, key ∉ others

/-- A part that uses one of some keys uses none of others that are all
different. -/
theorem usesKey_of_apart {keys others : List Text} (h : ∀ key ∈ keys, key ∉ others) {p : Text}
    (hp : usesKey keys p = true) : usesKey others p = false := by
  unfold usesKey at hp ⊢
  cases hkey : key? p with
  | none => rfl
  | some key =>
      rw [hkey] at hp
      have hmem : key ∈ keys := by simpa using hp
      simpa using h key hmem

section Run

variable {changes : List KeyedChange}

/-- A selection that none of the changes is about stays as it is, in its
order. -/
theorem filter_runAll_kept {q : Text → Bool}
    (hq : ∀ c ∈ changes, c.active = true → ∀ p, usesKey c.keys p = true → q p = false)
    (parts : List Text) : (runAll changes parts).filter q = parts.filter q := by
  induction changes generalizing parts with
  | nil => rfl
  | cons c changes ih =>
      have hrest := ih (fun d hd => hq d (List.mem_cons_of_mem c hd)) (c.run parts)
      exact hrest.trans (c.filter_kept parts q (hq c List.mem_cons_self))

/-- **The parts of each attribute** are what its own change makes of them.  No
other change touches them, since no two changes share a key. -/
theorem filter_runAll (hapart : Apart changes) {c : KeyedChange} (hc : c ∈ changes)
    (parts : List Text) :
    (runAll changes parts).filter (usesKey c.keys) = c.own (parts.filter (usesKey c.keys)) := by
  induction changes generalizing parts with
  | nil => cases hc
  | cons d changes ih =>
      obtain ⟨hd, hrest⟩ := List.pairwise_cons.mp hapart
      have hapart : ∀ e ∈ changes, ∀ key ∈ d.keys, key ∉ e.keys :=
        fun e he => hd e.keys (List.mem_map_of_mem he)
      rcases List.mem_cons.mp hc with rfl | hc
      · -- the later changes leave the parts of the first one alone
        have hlater : (runAll changes (c.run parts)).filter (usesKey c.keys) =
            (c.run parts).filter (usesKey c.keys) := by
          apply filter_runAll_kept
          intro e he _ p hp
          exact usesKey_of_apart (fun key hkey hmem => hapart e he key hmem hkey) hp
        exact hlater.trans (c.filter_run parts)
      · have hfirst := d.filter_kept parts (usesKey c.keys)
          (fun _ p hp => usesKey_of_apart (hapart c hc) hp)
        rw [← hfirst]
        exact ih hrest hc (d.run parts)

/-- Changes that leave the parts they are about as they are leave all parts as
they are. -/
theorem runAll_eq_self {parts : List Text}
    (h : ∀ c ∈ changes, c.own (parts.filter (usesKey c.keys)) = parts.filter (usesKey c.keys)) :
    runAll changes parts = parts := by
  induction changes with
  | nil => rfl
  | cons c changes ih =>
      have hrun := c.run_eq_self parts (h c List.mem_cons_self)
      unfold runAll at ih ⊢
      rw [List.foldl_cons, hrun]
      exact ih fun d hd => h d (List.mem_cons_of_mem c hd)

/-- **A second row of the same changes** changes nothing, because each change
made twice is the change made once. -/
theorem runAll_runAll (hapart : Apart changes) (parts : List Text) :
    runAll changes (runAll changes parts) = runAll changes parts := by
  apply runAll_eq_self
  intro c hc
  rw [filter_runAll hapart hc, c.own_own]

/-- A part is an old one or was made by one of the changes from old parts under
its keys. -/
theorem mem_runAll (hapart : Apart changes) {parts : List Text} {p : Text}
    (hp : p ∈ runAll changes parts) :
    p ∈ parts ∨ ∃ c ∈ changes, p ∈ c.own (parts.filter (usesKey c.keys)) := by
  by_cases huses : ∃ c ∈ changes, usesKey c.keys p = true
  · obtain ⟨c, hc, huses⟩ := huses
    refine Or.inr ⟨c, hc, ?_⟩
    rw [← filter_runAll hapart hc]
    exact List.mem_filter.mpr ⟨hp, huses⟩
  · -- a part without any of the keys is a selection that no change is about
    have hkept : (runAll changes parts).filter (· == p) = parts.filter (· == p) := by
      apply filter_runAll_kept
      intro c hc _ q hq
      rw [beq_eq_false_iff_ne]
      exact fun heq => huses ⟨c, hc, heq ▸ hq⟩
    have hmem : p ∈ (runAll changes parts).filter (· == p) :=
      List.mem_filter.mpr ⟨hp, beq_self_eq_true p⟩
    rw [hkept] at hmem
    exact Or.inl (List.mem_filter.mp hmem).1

/-- A change that writes texts of a kind, if the parts that it changes are of
this kind. -/
def KeyedChange.Writes (P : Text → Prop) (c : KeyedChange) : Prop :=
  ∀ old, (∀ p ∈ old, usesKey c.keys p = true ∧ P p) → ∀ p ∈ c.own old, P p

/-- What the parts and all that is written have in common goes for the parts
after the changes. -/
theorem forall_mem_runAll (hapart : Apart changes) {P : Text → Prop}
    (hwrites : ∀ c ∈ changes, c.Writes P)
    {parts : List Text} (hparts : ∀ p ∈ parts, P p) : ∀ p ∈ runAll changes parts, P p := by
  intro p hp
  rcases mem_runAll hapart hp with hold | ⟨c, hc, hnew⟩
  · exact hparts p hold
  · refine hwrites c hc _ (fun q hq => ?_) p hnew
    obtain ⟨hq, huses⟩ := List.mem_filter.mp hq
    exact ⟨huses, hparts q hq⟩

end Run

/-! ## Setting an attribute -/

/-- The part that is written for an attribute, under the key of the first of
some parts; none when the value is empty. -/
def writtenParts (key value : Text) (old : List Text) : List Text :=
  if value.isEmpty then [] else [(old.head?.bind writtenKey?).getD key ++ "=" ++ value]

/-- An attribute: its keys, and the one under which it is added. -/
structure Attribute where
  /-- The keys. -/
  keys : List Text
  /-- The key of a new part. -/
  key : String
  key_mem : Text.lower key ∈ keys := by decide
  tight : Text.Tight key.toList
  free : '=' ∉ key.toList := by decide
  no_bar : '|' ∉ key.toList := by decide

/-- A part that is written with a key uses one of some keys exactly if the key
in lower case is among them.  The value has no say in it. -/
theorem usesKey_written (keys : List Text) {written : Text} (htight : Text.Tight written)
    (hfree : '=' ∉ written) (value : Text) :
    usesKey keys (written ++ "=" ++ value) = keys.contains (Text.lower written) := by
  have hcut : writtenKey? (written ++ "=" ++ value) = some written := by
    rw [show written ++ "=" ++ value = written ++ '=' :: value by simp, writtenKey?_cut hfree,
      Text.trim_of_tight htight]
  unfold usesKey key?
  rw [hcut]
  rfl

/-- The key that is written for an attribute is one of its keys: its own, or one
that was written before. -/
theorem mem_writtenParts (a : Attribute) {value : Text} {old : List Text}
    (hold : ∀ p ∈ old, usesKey a.keys p = true) {p : Text} (hp : p ∈ writtenParts a.key value old) :
    ∃ written, p = written ++ "=" ++ value ∧ value ≠ [] ∧ Text.Tight written ∧ '=' ∉ written ∧
      Text.lower written ∈ a.keys ∧ (written = a.key.toList ∨ ∃ q ∈ old, written ⊆ q) := by
  unfold writtenParts at hp
  split at hp
  · cases hp
  · rename_i hvalue
    rw [List.mem_singleton] at hp
    have hne : value ≠ [] := by simpa using hvalue
    cases hfirst : old.head?.bind writtenKey? with
    | none =>
        rw [hfirst] at hp
        exact ⟨a.key.toList, hp, hne, a.tight, a.free, a.key_mem, Or.inl rfl⟩
    | some written =>
        rw [hfirst] at hp
        obtain ⟨q, hq, hkey⟩ := Option.bind_eq_some_iff.mp hfirst
        have hmem : q ∈ old := List.mem_of_head? hq
        obtain ⟨htrim, hfree⟩ := writtenKey?_eq_some hkey
        have huses := hold q hmem
        unfold usesKey key? at huses
        rw [hkey] at huses
        refine ⟨written, hp, hne, htrim ▸ Text.tight_trim _, hfree, by simpa using huses,
          Or.inr ⟨q, hmem, ?_⟩⟩
        rw [htrim]
        exact fun c hc => (List.takeWhile_sublist _).subset (Text.mem_of_mem_trim hc)

section SetKey

variable (a : Attribute) (value : Text)

/-- What is written for an attribute uses a key of it, whether the key is its
own or that of an old part. -/
theorem uses_writtenParts {old : List Text} (hold : ∀ p ∈ old, usesKey a.keys p = true) :
    ∀ p ∈ writtenParts a.key value old, usesKey a.keys p = true := by
  intro p hp
  obtain ⟨written, rfl, -, htight, hfree, hmem, -⟩ := mem_writtenParts a hold hp
  rw [usesKey_written a.keys htight hfree]
  simpa using hmem

/-- Writing a value in the place of itself writes the same part: the key of the
first part is kept. -/
theorem writtenParts_writtenParts (old : List Text) :
    writtenParts a.key value (writtenParts a.key value old) = writtenParts a.key value old := by
  by_cases hvalue : value.isEmpty = true
  · simp [writtenParts, hvalue]
  · have hagain : ∀ written : Text, Text.Tight written → '=' ∉ written →
        writtenKey? (written ++ "=" ++ value) = some written := by
      intro written htight hfree
      rw [show written ++ "=" ++ value = written ++ '=' :: value by simp, writtenKey?_cut hfree,
        Text.trim_of_tight htight]
    unfold writtenParts
    rw [if_neg hvalue, if_neg hvalue, List.head?_cons, Option.bind_some]
    cases hfirst : old.head?.bind writtenKey? with
    | none => rw [Option.getD_none, hagain _ a.tight a.free, Option.getD_some]
    | some written =>
        obtain ⟨q, -, hkey⟩ := Option.bind_eq_some_iff.mp hfirst
        obtain ⟨htrim, hfree⟩ := writtenKey?_eq_some hkey
        rw [Option.getD_some, hagain written (htrim ▸ Text.tight_trim _) hfree, Option.getD_some]

theorem setKey_nil (keys : List Text) (key : Text) :
    setKey keys key value [] = writtenParts key value [] := rfl

/-- The first part with one of the keys is replaced, and the later ones are
dropped. -/
theorem setKey_cons_of_uses {keys : List Text} {p : Text} (h : usesKey keys p = true) (key : Text)
    (rest : List Text) :
    setKey keys key value (p :: rest) =
      writtenParts key value (p :: rest.filter (usesKey keys)) ++
        rest.filter fun p => !usesKey keys p := by
  unfold setKey writtenParts
  simp only [List.filter_cons, List.findIdx?_cons, h, List.head?_cons, Option.bind_some]
  split
  · rfl
  · rfl

/-- A part that does not use the keys stays in front when an attribute is
set. -/
theorem setKey_cons_of_other {keys : List Text} {p : Text} (h : usesKey keys p = false) (key : Text)
    (rest : List Text) : setKey keys key value (p :: rest) = p :: setKey keys key value rest := by
  unfold setKey
  simp only [List.filter_cons, h, List.findIdx?_cons]
  split
  · rfl
  · cases rest.findIdx? (usesKey keys) <;> simp

/-- The parts of an attribute after it was set: one with the new value, or none
if the value is empty. -/
theorem filter_setKey (parts : List Text) :
    (setKey a.keys a.key value parts).filter (usesKey a.keys) =
      writtenParts a.key value (parts.filter (usesKey a.keys)) := by
  induction parts with
  | nil =>
      rw [setKey_nil, List.filter_nil]
      exact List.filter_eq_self.mpr (uses_writtenParts a value nofun)
  | cons p rest ih =>
      cases hp : usesKey a.keys p with
      | true =>
          have hold : ∀ q ∈ p :: rest.filter (usesKey a.keys), usesKey a.keys q = true :=
            List.forall_mem_cons.mpr ⟨hp, fun q hq => (List.mem_filter.mp hq).2⟩
          have hnone : (rest.filter fun p => !usesKey a.keys p).filter (usesKey a.keys) = [] := by
            rw [List.filter_eq_nil_iff]
            intro q hq
            simpa using (List.mem_filter.mp hq).2
          rw [setKey_cons_of_uses value hp, List.filter_append, hnone, List.append_nil,
            List.filter_eq_self.mpr (uses_writtenParts a value hold), List.filter_cons_of_pos hp]
      | false =>
          rw [setKey_cons_of_other value hp, List.filter_cons_of_neg (by simp [hp]), ih,
            List.filter_cons_of_neg (by simp [hp])]

/-- A selection of parts without the keys of an attribute, after it was set. -/
theorem filter_setKey_kept {q : Text → Bool} (hq : ∀ p, usesKey a.keys p = true → q p = false)
    (parts : List Text) : (setKey a.keys a.key value parts).filter q = parts.filter q := by
  have hwritten : ∀ old : List Text, (∀ p ∈ old, usesKey a.keys p = true) →
      (writtenParts a.key value old).filter q = [] := by
    intro old hold
    rw [List.filter_eq_nil_iff]
    intro p hp
    simp [hq p (uses_writtenParts a value hold p hp)]
  induction parts with
  | nil => exact hwritten [] nofun
  | cons p rest ih =>
      cases hp : usesKey a.keys p with
      | true =>
          have hrest : (rest.filter fun p => !usesKey a.keys p).filter q = rest.filter q := by
            rw [List.filter_filter]
            apply List.filter_congr
            intro r _
            cases hr : usesKey a.keys r with
            | true => simp [hq r hr]
            | false => simp
          have hold : ∀ q ∈ p :: rest.filter (usesKey a.keys), usesKey a.keys q = true :=
            List.forall_mem_cons.mpr ⟨hp, fun q hq => (List.mem_filter.mp hq).2⟩
          rw [setKey_cons_of_uses value hp, List.filter_append, hrest,
            hwritten _ hold, List.nil_append, List.filter_cons_of_neg (by simp [hq p hp])]
      | false => rw [setKey_cons_of_other value hp, List.filter_cons, List.filter_cons, ih]

/-- Setting an attribute changes nothing where it is set already.  This is what
makes edits repeatable. -/
theorem setKey_eq_self {parts : List Text}
    (h : writtenParts a.key value (parts.filter (usesKey a.keys)) = parts.filter (usesKey a.keys)) :
    setKey a.keys a.key value parts = parts := by
  induction parts with
  | nil => exact h
  | cons p rest ih =>
      cases hp : usesKey a.keys p with
      | true =>
          rw [List.filter_cons_of_pos hp] at h
          -- one part at most is written, so that none of the later parts has a key
          have hnone : rest.filter (usesKey a.keys) = [] := by
            have hlength := congrArg List.length h
            unfold writtenParts at hlength
            split at hlength
            · cases hlength
            · simpa using hlength
          have hrest : rest.filter (fun p => !usesKey a.keys p) = rest := by
            rw [List.filter_eq_self]
            intro q hq
            simpa using List.filter_eq_nil_iff.mp hnone q hq
          rw [setKey_cons_of_uses value hp, h, hnone, hrest, List.singleton_append]
      | false =>
          rw [List.filter_cons_of_neg (by simp [hp])] at h
          rw [setKey_cons_of_other value hp, ih h]

end SetKey

/-! ## The changes of an edit -/

/-- Sets an attribute, removes it when the value is empty, or leaves it
alone. -/
def Attribute.change (a : Attribute) (value : Option Text) : KeyedChange where
  keys := a.keys
  active := value.isSome
  run := updateKey a.keys a.key value
  own := fun old => (value.map fun v => writtenParts a.key v old).getD old
  filter_run parts := by
    cases value with
    | none => rfl
    | some v => exact filter_setKey a v parts
  filter_kept parts q hq := by
    cases value with
    | none => rfl
    | some v => exact filter_setKey_kept a v (hq rfl) parts
  own_own parts := by
    cases value with
    | none => rfl
    | some v => exact writtenParts_writtenParts a v parts
  run_eq_self parts h := by
    cases value with
    | none => rfl
    | some v => exact setKey_eq_self a v h

/-- What is written for an attribute is of a kind, if every text with a fitting
key and the value behind it is.  A key is fitting if it is that of the
attribute, or is made of characters of a part of this kind. -/
theorem Attribute.writes_of_keyed (a : Attribute) {P : Text → Prop} {value : Option Text}
    (hP : ∀ v ∈ value, ∀ written, Text.Tight written →
      (written = a.key.toList ∨ ∃ q, P q ∧ written ⊆ q) → P (written ++ "=" ++ v)) :
    (a.change value).Writes P := by
  intro old hold p hp
  cases value with
  | none => exact (hold p hp).2
  | some v =>
      obtain ⟨written, rfl, -, htight, -, -, hsource⟩ :=
        mem_writtenParts a (fun q hq => (hold q hq).1) hp
      exact hP v rfl written htight
        (hsource.imp_right fun ⟨q, hq, hsub⟩ => ⟨q, (hold q hq).2, hsub⟩)

/-- Drops the parts that make a node rounded; other shapes stay. -/
def unround : KeyedChange where
  keys := shapeKeys
  active := true
  run := fun parts => parts.filter fun p => !isRounded p
  own := fun parts => parts.filter fun p => !isRounded p
  filter_run parts := by
    rw [List.filter_filter, List.filter_filter]
    simp only [Bool.and_comm]
  filter_kept parts q hq := by
    rw [List.filter_filter]
    apply List.filter_congr
    intro p _
    unfold isRounded
    cases hp : usesKey shapeKeys p with
    | true => simp [hq rfl p hp]
    | false => simp
  own_own parts := by simp
  run_eq_self parts h := by
    rw [List.filter_eq_self]
    intro p hp
    cases huses : usesKey shapeKeys p with
    | true => exact List.filter_eq_self.mp h p (List.mem_filter.mpr ⟨hp, huses⟩)
    | false => simp [isRounded, huses]

/-- Dropping parts writes nothing, so the parts that are left are of whatever
kind they were. -/
theorem writes_unround (P : Text → Prop) : unround.Writes P :=
  fun _ hold p hp => (hold p (List.mem_filter.mp hp).1).2

/-- The shape of a node. -/
def Attribute.shape : Attribute where
  keys := shapeKeys
  key := "shape"
  tight := Text.tight_of_all (by decide)

/-- Makes a node rounded or not, or leaves its shape alone. -/
def roundedChange : Field → KeyedChange
  | none => Attribute.shape.change none
  | some v => if v.isFilled then Attribute.shape.change (some "rounded".toList) else unround

/-- The change of a rounded shape is a change of the shape. -/
theorem keys_roundedChange (rounded : Field) : (roundedChange rounded).keys = shapeKeys := by
  unfold roundedChange
  split
  · rfl
  · split <;> rfl

/-- It does something when it is asked for. -/
theorem active_roundedChange (rounded : Field) :
    (roundedChange rounded).active = rounded.isSome := by
  unfold roundedChange
  split
  · rfl
  · split <;> rfl

/-- And what it does is what an editor does. -/
theorem run_roundedChange (rounded : Field) :
    (roundedChange rounded).run = updateRounded rounded := by
  funext parts
  unfold roundedChange updateRounded
  cases rounded with
  | none => rfl
  | some v => dsimp only; split <;> rfl

end LineDiagram.Bracket
