import LineDiagram.Bracket
import LineDiagram.Proofs.Comment
import LineDiagram.Proofs.LetterCase

/-!
# What a bracket holds

The parts of a bracket stand between bars, and writing them down and reading
them again gives them back.  A bracket keeps its loose parts in order and, of
the parts with a key, the value of the last; `lastValue` and `looseParts` say
this for the list of parts, so that a bracket is what its parts are.

Taking backslashes away commutes with all of it.  A key that holds no number
sign is the key of the same parts before and after.

* `splitParts_joinParts` — parts that are written are read again;
* `OnePart`, `onePart_keyed` — texts that may be written as parts;
* `get_ofParts`, `loose_ofParts` — what a bracket of some parts holds;
* `lastValue_unescape`, `looseParts_unescape` — the same without backslashes.
-/

namespace LineDiagram

namespace Table

/-- Looking up a name in a table with one entry more: the first entry answers if
the name is its own, and the rest of the table otherwise. -/
private theorem lookup_cons_eq (key value name : Text) (table : Table) :
    List.lookup name ((key, value) :: table) =
      if name = key then some value else table.lookup name := by
  rw [List.lookup_cons]
  by_cases hname : name = key
  · simp [hname]
  · simp only [beq_eq_false_iff_ne.mpr hname, if_neg hname]

/-- A name has a value exactly if some entry of the table is under it. -/
private theorem lookup_isSome (table : Table) (name : Text) :
    (table.lookup name).isSome = table.any (·.1 == name) := by
  induction table with
  | nil => rfl
  | cons e table ih =>
      rw [lookup_cons_eq, List.any_cons, ← ih, Bool.beq_comm]
      by_cases hname : name = e.1
      · simp [hname]
      · simp [hname]

/-- What a table holds after every entry under a name is given one value: the
new value under that name, if there was an entry, and the old value under any
other. -/
private theorem lookup_replace (table : Table) (name value other : Text) :
    (table.map fun e => if e.1 == name then (name, value) else e).lookup other =
      if other = name then (table.lookup name).map fun _ => value else table.lookup other := by
  induction table with
  | nil => simp
  | cons e table ih =>
      rw [List.map_cons, lookup_cons_eq e.1 e.2, lookup_cons_eq e.1 e.2]
      by_cases hkey : e.1 = name
      · rw [if_pos (beq_iff_eq.mpr hkey), lookup_cons_eq, ih, hkey]
        by_cases hother : other = name
        · simp [hother]
        · simp [hother]
      · have hkey' : ¬ name = e.1 := fun heq => hkey heq.symm
        rw [if_neg (by simpa using hkey), lookup_cons_eq e.1 e.2, ih]
        by_cases hother : other = name
        · simp [hother, hkey']
        · simp [hother]

/-- **Setting a name** gives that name its new value and leaves every other name
alone, whether the name was in the table before or is new. -/
theorem get_set (table : Table) (name value other : Text) :
    (table.set name value).get other = if other = name then value else table.get other := by
  unfold Table.set Table.get
  split
  · rename_i hthere
    rw [← lookup_isSome] at hthere
    obtain ⟨old, hold⟩ := Option.isSome_iff_exists.mp hthere
    rw [lookup_replace]
    split
    · rw [hold]
      rfl
    · rfl
  · rename_i hnew
    rw [← lookup_isSome, Option.isSome_iff_ne_none, not_not] at hnew
    rw [List.lookup_append]
    split
    · rename_i hother
      rw [hother, hnew]
      simp
    · rename_i hother
      rw [lookup_cons_eq, if_neg hother]
      simp

end Table

namespace Bracket

/-! ## Parts that are written and read -/

@[simp] theorem joinParts_singleton (part : Text) : joinParts [part] = part := by
  unfold joinParts Text.join
  exact List.intercalate_singleton

/-- Two parts or more are written with a bar between any two, and a blank on
either side of it. -/
theorem joinParts_cons_cons (part next : Text) (parts : List Text) :
    joinParts (part :: next :: parts) = part ++ (" | ".toList ++ joinParts (next :: parts)) := by
  unfold joinParts Text.join
  rw [List.intercalate_cons_cons, List.append_assoc]

/-- **Parts that are written down are read again.**  The bars that are written
are the only ones, and the blanks around them are trimmed off with the parts as
they were. -/
theorem splitParts_joinParts {parts : List Text}
    (h : ∀ p ∈ parts, Text.Tight p ∧ p ≠ [] ∧ '|' ∉ p) : splitParts (joinParts parts) = parts := by
  induction parts with
  | nil => rfl
  | cons p parts ih =>
      obtain ⟨htight, hne, hbar⟩ := h p List.mem_cons_self
      have hrest := ih (fun q hq => h q (List.mem_cons_of_mem p hq))
      unfold splitParts at hrest ⊢
      cases parts with
      | nil =>
          rw [joinParts_singleton, Text.parts_of_not_mem hbar] <;> rw [Text.trim_of_tight htight]
          exact hne
      | cons q parts =>
          have hspace : Text.trim (p ++ [' ']) = p := by
            rw [Text.trim_append_blank (Text.allBlank_singleton (by decide)),
              Text.trim_of_tight htight]
          have hjoin : joinParts (p :: q :: parts) =
              (p ++ [' ']) ++ '|' :: ' ' :: joinParts (q :: parts) := by
            rw [joinParts_cons_cons]
            simp
          have hfirst : Text.parts '|' (p ++ [' ']) = [p] := by
            rw [Text.parts_of_not_mem (by simpa using hbar) (by rw [hspace]; exact hne), hspace]
          rw [hjoin, Text.parts_append, hfirst,
            Text.parts_cons_blank (by decide) (by decide), hrest]
          rfl

/-- A text that may be written behind a key: it starts and ends with no blank,
and neither a bar nor one of some other signs is in it. -/
structure Writable (signs : List Char) (t : Text) : Prop where
  /-- It starts and ends with no blank. -/
  tight : Text.Tight t
  /-- No bar is in it, and none of the other signs. -/
  free : ∀ c ∈ '|' :: signs, c ∉ t

/-- A text that is one part of a bracket when it stands between bars, with none
of some other signs in it.  Which signs have to be kept out depends on where the
bracket is read. -/
structure OnePart (signs : List Char) (part : Text) : Prop extends Writable signs part where
  /-- It is not empty. -/
  ne_nil : part ≠ []

instance (signs : List Char) (part : Text) : Decidable (OnePart signs part) :=
  decidable_of_iff (Text.trim part = part ∧ part ≠ [] ∧
      ('|' :: signs).all (fun c => !part.contains c) = true)
    ⟨fun ⟨htrim, hne, hfree⟩ => ⟨⟨htrim ▸ Text.tight_trim part,
        fun c hc => by simpa using List.all_eq_true.mp hfree c hc⟩, hne⟩,
      fun h => ⟨Text.trim_of_tight h.tight, h.ne_nil,
        List.all_eq_true.mpr fun c hc => by simpa using h.free c hc⟩⟩

section OnePart

variable {signs : List Char}

/-- The empty text may be written behind a key, whatever other signs are to be
kept out. -/
theorem writable_nil : Writable signs [] := ⟨⟨nofun, nofun⟩, fun _ _ => List.not_mem_nil⟩

/-- Where no other signs have to be kept out, a bar does. -/
theorem writable_of_no_bar {t : Text} (htight : Text.Tight t) (hbar : '|' ∉ t) : Writable [] t :=
  ⟨htight, by simpa using hbar⟩

theorem Writable.no_bar {t : Text} (h : Writable signs t) : '|' ∉ t := h.free '|' List.mem_cons_self

/-- The parts of a bracket are parts, and a sign that is not in the bracket is
not in them. -/
theorem onePart_of_mem {inner part : Text} (hfree : ∀ c ∈ signs, c ∉ inner)
    (h : part ∈ splitParts inner) : OnePart signs part := by
  obtain ⟨htight, hne, hbar⟩ := Text.mem_parts h
  refine ⟨⟨htight, ?_⟩, hne⟩
  intro c hc
  rcases List.mem_cons.mp hc with rfl | hc
  · exact hbar
  · exact fun hmem => hfree c hc (Text.subset_of_mem_parts h hmem)

/-- A key with a value behind it is a part, also when the value is empty. -/
theorem onePart_keyed (hsigns : '=' ∉ signs) {key value : Text} (hkey : Writable signs key)
    (hvalue : Writable signs value) : OnePart signs (key ++ '=' :: value) := by
  refine ⟨⟨⟨?_, ?_⟩, ?_⟩, by simp⟩
  · intro c hc
    cases key with
    | nil =>
        cases hc
        decide
    | cons d key => exact hkey.tight.start c hc
  · intro c hc
    rw [List.getLast?_append_of_ne_nil _ (by simp)] at hc
    cases value with
    | nil =>
        cases hc
        decide
    | cons d value =>
        rw [List.getLast?_cons_cons] at hc
        exact hvalue.tight.stop c hc
  · intro c hc hmem
    rcases List.mem_append.mp hmem with hmem | hmem
    · exact hkey.free c hc hmem
    · rcases List.mem_cons.mp hmem with rfl | hmem
      · exact hsigns (by simpa using hc)
      · exact hvalue.free c hc hmem

/-- Parts that are written down are read again, whatever other signs they
hold. -/
theorem splitParts_of_onePart {parts : List Text} (h : ∀ p ∈ parts, OnePart signs p) :
    splitParts (joinParts parts) = parts :=
  splitParts_joinParts fun p hp => ⟨(h p hp).tight, (h p hp).ne_nil, (h p hp).no_bar⟩

end OnePart

/-- Taking the backslashes away from the inside of a bracket takes them away
from each part.  Bars and blanks are never escaped, so the cuts fall in the same
places. -/
theorem splitParts_unescape (t : Text) :
    splitParts (Comment.unescape t) = (splitParts t).map Comment.unescape := by
  have hcommute : Text.trim ∘ Comment.unescape = Comment.unescape ∘ Text.trim :=
    funext Comment.trim_unescape
  have hempty : ((fun p : Text => !p.isEmpty) ∘ Comment.unescape) = fun p => !p.isEmpty := by
    funext p
    simp only [Function.comp]
    rw [Bool.eq_iff_iff]
    simp [Comment.unescape_eq_nil]
  unfold splitParts Text.parts
  rw [Comment.splitOn_unescape (by decide) (by decide), List.map_map, hcommute, ← List.map_map,
    List.filter_map, hempty]

/-- A text that may stand in a bracket: it opens no comment, no bracket and no
line. -/
structure Enclosed (text : Text) : Prop where
  /-- It starts and ends with no blank. -/
  tight : Text.Tight text
  /-- No comment opens in it. -/
  plain : Comment.Plain text
  /-- No bracket opens in it. -/
  no_open : '[' ∉ text
  /-- It stays on one line. -/
  one_line : '\n' ∉ text

/-- A text that may be a part of a bracket. -/
structure Sound (part : Text) : Prop extends Enclosed part where
  /-- It is not empty. -/
  ne_nil : part ≠ []
  /-- It is one part. -/
  no_bar : '|' ∉ part

/-- The parts of the inside of a bracket are sound when no comment, no bracket
and no line opens in the inside. -/
theorem sound_of_mem {inner part : Text} (hplain : Comment.Plain inner) (hopen : '[' ∉ inner)
    (hline : '\n' ∉ inner) (h : part ∈ splitParts inner) : Sound part := by
  obtain ⟨htight, hne, hbar⟩ := Text.mem_parts h
  obtain ⟨hmem, -⟩ := List.mem_filter.mp h
  obtain ⟨piece, hpiece, rfl⟩ := List.mem_map.mp hmem
  obtain ⟨-, a, b, rfl, hstart⟩ := Text.mem_splitOn hpiece
  have hin : ∀ {c}, c ∈ Text.trim piece → c ∈ a ++ piece ++ b := fun hc =>
    List.mem_append_left _ (List.mem_append_right _ (Text.mem_of_mem_trim hc))
  have hpiecePlain : Comment.Plain piece := by
    rcases hstart with rfl | ⟨a', rfl⟩
    · exact hplain.left
    · have hfirst := hplain.left
      rw [List.append_assoc, List.singleton_append] at hfirst
      exact hfirst.right (by decide)
  exact ⟨⟨htight, hpiecePlain.trim, fun hc => hopen (hin hc), fun hc => hline (hin hc)⟩, hne, hbar⟩

/-- Parts that start with one that is not empty are written as a text that is
not empty. -/
theorem joinParts_ne_nil {part : Text} (h : part ≠ []) (parts : List Text) :
    joinParts (part :: parts) ≠ [] := by
  cases parts with
  | nil => rwa [joinParts_singleton]
  | cons next parts => simp [joinParts_cons_cons, h]

/-- Parts that are written one after the other may stand in a bracket. -/
theorem enclosed_joinParts {parts : List Text} (h : ∀ p ∈ parts, Enclosed p ∧ p ≠ []) :
    Enclosed (joinParts parts) := by
  induction parts with
  | nil => exact ⟨⟨nofun, nofun⟩, trivial, nofun, nofun⟩
  | cons p parts ih =>
      obtain ⟨hp, hpne⟩ := h p List.mem_cons_self
      have hrest := ih (fun q hq => h q (List.mem_cons_of_mem p hq))
      cases parts with
      | nil =>
          rw [joinParts_singleton]
          exact hp
      | cons q parts =>
          obtain ⟨-, hqne⟩ := h q (List.mem_cons_of_mem p List.mem_cons_self)
          have hbar : Comment.Plain " | ".toList := Comment.plain_of_not_mem (by decide)
          rw [joinParts_cons_cons]
          refine ⟨hp.tight.append hpne ?_, hp.plain.append (hbar.append hrest.plain), ?_, ?_⟩
          · intro c hc
            rw [List.getLast?_append_of_ne_nil _ (joinParts_ne_nil hqne parts)] at hc
            exact hrest.tight.stop c hc
          · rw [List.mem_append, List.mem_append, not_or, not_or]
            exact ⟨hp.no_open, by decide, hrest.no_open⟩
          · rw [List.mem_append, List.mem_append, not_or, not_or]
            exact ⟨hp.one_line, by decide, hrest.one_line⟩

/-! ## What the parts say -/

/-- The bracket of some parts. -/
def ofParts (parts : List Text) : Bracket := parts.foldl addPart {}

/-- The loose parts. -/
def looseParts (parts : List Text) : List Text := parts.filter fun p => (key? p).isNone

/-- Whether a part has a given key. -/
def hasKey (key : String) (part : Text) : Bool := key? part == some key.toList

/-- The value of the last part with a key, or the empty text. -/
def lastValue (key : String) (parts : List Text) : Text :=
  ((parts.filter (hasKey key)).getLast?.map value).getD []

/-- The loose parts of two lists of parts are those of the first, and then those
of the second. -/
theorem looseParts_append (first second : List Text) :
    looseParts (first ++ second) = looseParts first ++ looseParts second :=
  List.filter_append ..

/-- One part more at the end gives the value of its own key, and changes the
value of no other. -/
theorem lastValue_concat (key : String) (parts : List Text) (part : Text) :
    lastValue key (parts ++ [part]) =
      if hasKey key part then value part else lastValue key parts := by
  unfold lastValue
  rw [List.filter_append]
  by_cases hkey : hasKey key part = true
  · simp [hkey]
  · simp [hkey]

/-- The value of a part with a key that no later part has is the value of the
key. -/
theorem lastValue_of_last {key : String} {parts : List Text} {i : Nat} {p : Text}
    (hp : parts[i]? = some p) (hkey : hasKey key p = true)
    (hlast : ∀ q ∈ parts.drop (i + 1), hasKey key q = false) : lastValue key parts = value p := by
  have hnone : (parts.drop (i + 1)).filter (hasKey key) = [] := by
    rw [List.filter_eq_nil_iff]
    intro q hq
    simp [hlast q hq]
  unfold lastValue
  rw [Text.eq_take_cons_drop hp, List.filter_append, List.filter_cons, hnone, if_pos hkey]
  simp

/-- The loose parts of a bracket are the parts without a key, in the order in
which they are written. -/
theorem loose_ofParts (parts : List Text) : (ofParts parts).loose = looseParts parts := by
  induction parts using List.reverseRecOn with
  | nil => rfl
  | append_singleton parts part ih =>
      unfold ofParts at ih ⊢
      rw [List.foldl_append, List.foldl_cons, List.foldl_nil, looseParts_append, ← ih]
      unfold addPart
      cases hkey : key? part with
      | none => simp [looseParts, hkey]
      | some key => simp [looseParts, hkey]

/-- The value of a key in a bracket is that of the last part with the key.  So
parts that are added at the end win over those before them. -/
theorem get_ofParts (parts : List Text) (key : String) :
    (ofParts parts).get key = lastValue key parts := by
  induction parts using List.reverseRecOn with
  | nil => rfl
  | append_singleton parts part ih =>
      rw [lastValue_concat, ← ih]
      unfold ofParts
      rw [List.foldl_append, List.foldl_cons, List.foldl_nil]
      unfold addPart hasKey Bracket.get
      cases hkey : key? part with
      | none => simp
      | some found =>
          dsimp only
          rw [Table.get_set]
          by_cases hfound : found = key.toList
          · simp [hfound]
          · have hfound' : ¬ key.toList = found := fun heq => hfound heq.symm
            simp [hfound, hfound']

/-- The text of a bracket without brackets in it is its parts: there are no
outer brackets to be taken off first. -/
theorem ofText_eq {t : Text} (hopen : '[' ∉ t) : ofText t = ofParts (splitParts t) := by
  have htrim : '[' ∉ Text.trim t := fun hmem => hopen (Text.mem_of_mem_trim hmem)
  unfold ofText ofParts splitParts
  dsimp only
  rw [← Text.parts_trim (by decide) t]
  split
  · rename_i hstart
    simp [hstart] at htrim
  · rfl

/-! ## Keys and values -/

theorem key?_of_not_mem {part : Text} (h : '=' ∉ part) : key? part = none := by
  simp [key?, writtenKey?, h]

/-- The key of a part, as it is written, stands before the first equals sign. -/
theorem writtenKey?_cut {a : Text} (h : '=' ∉ a) (b : Text) :
    writtenKey? (a ++ '=' :: b) = some (Text.trim a) := by
  have hall : ∀ c ∈ a, (c != '=') = true := by
    intro c hc
    have hne : c ≠ '=' := fun heq => h (heq ▸ hc)
    simpa using hne
  unfold writtenKey?
  rw [if_pos (by simp), List.takeWhile_append_of_pos hall]
  simp

/-- The value of a part stands behind its first equals sign.  Further equals
signs are part of the value. -/
theorem value_cut {a : Text} (h : '=' ∉ a) (b : Text) : value (a ++ '=' :: b) = Text.trim b := by
  have hall : ∀ c ∈ a, (c != '=') = true := by
    intro c hc
    have hne : c ≠ '=' := fun heq => h (heq ▸ hc)
    simpa using hne
  unfold value
  rw [List.dropWhile_append_of_pos hall]
  simp

/-- A part without an equals sign is all value. -/
theorem value_of_not_mem {part : Text} (h : '=' ∉ part) : value part = Text.trim part := by
  have hnil : part.dropWhile (· != '=') = [] := by
    rw [List.dropWhile_eq_nil_iff]
    intro c hc
    have hne : c ≠ '=' := fun heq => h (heq ▸ hc)
    simpa using hne
  unfold value
  rw [hnil]

/-! ## Parts without backslashes -/

/-- Taking the backslashes away from a part takes them away from its value. -/
theorem value_unescape (part : Text) :
    value (Comment.unescape part) = Comment.unescape (value part) := by
  by_cases hkeyed : '=' ∈ part
  · obtain ⟨a, b, rfl, ha⟩ := List.eq_append_cons_of_mem hkeyed
    have ha' : '=' ∉ Comment.unescape a := by
      rwa [Comment.mem_unescape (by decide)]
    rw [Comment.unescape_cut (by decide) (by decide), value_cut ha, value_cut ha',
      Comment.trim_unescape]
  · have hkeyed' : '=' ∉ Comment.unescape part := by
      rwa [Comment.mem_unescape (by decide)]
    rw [value_of_not_mem hkeyed, value_of_not_mem hkeyed', Comment.trim_unescape]

/-- A part is loose exactly if it is loose without its backslashes, for equals
signs are never escaped. -/
theorem key?_unescape_isNone (part : Text) :
    (key? (Comment.unescape part)).isNone = (key? part).isNone := by
  by_cases hkeyed : '=' ∈ part
  · obtain ⟨a, b, rfl, ha⟩ := List.eq_append_cons_of_mem hkeyed
    have ha' : '=' ∉ Comment.unescape a := by
      rwa [Comment.mem_unescape (by decide)]
    rw [Comment.unescape_cut (by decide) (by decide)]
    simp only [key?, writtenKey?_cut ha, writtenKey?_cut ha', Option.map_some, Option.isNone_some]
  · have hkeyed' : '=' ∉ Comment.unescape part := by
      rwa [Comment.mem_unescape (by decide)]
    rw [key?_of_not_mem hkeyed, key?_of_not_mem hkeyed']

/-- A key without number signs is the key of the same parts before and after
backslashes are taken away. -/
theorem hasKey_unescape {key : String} (hsign : '#' ∉ key.toList) (part : Text) :
    hasKey key (Comment.unescape part) = hasKey key part := by
  unfold hasKey
  by_cases hkeyed : '=' ∈ part
  · obtain ⟨a, b, rfl, ha⟩ := List.eq_append_cons_of_mem hkeyed
    have ha' : '=' ∉ Comment.unescape a := by
      rwa [Comment.mem_unescape (by decide)]
    rw [Comment.unescape_cut (by decide) (by decide)]
    simp only [key?, writtenKey?_cut ha, writtenKey?_cut ha', Option.map_some]
    by_cases hin : '#' ∈ a
    · -- With a number sign in them, neither of the two keys is this one.
      have hne : ∀ t : Text, '#' ∈ t →
          (some (Text.lower (Text.trim t)) == some key.toList) = false := by
        intro t ht
        rw [beq_eq_false_iff_ne]
        intro heq
        apply hsign
        rw [← Option.some.inj heq]
        exact Text.Caseless.mem_lower (fun _ _ => rfl) (Text.mem_trim (by decide) ht)
      rw [hne a hin, hne _ ((Comment.mem_unescape (by decide)).mpr hin)]
    · rw [Comment.unescape_of_not_mem hin]
  · have hkeyed' : '=' ∉ Comment.unescape part := by
      rwa [Comment.mem_unescape (by decide)]
    rw [key?_of_not_mem hkeyed, key?_of_not_mem hkeyed']

/-- So the loose parts are the same ones, each without its backslashes. -/
theorem looseParts_unescape (parts : List Text) :
    looseParts (parts.map Comment.unescape) = (looseParts parts).map Comment.unescape := by
  unfold looseParts
  rw [List.filter_map]
  congr 2
  funext p
  exact key?_unescape_isNone p

/-- The value of a key loses its backslashes and is otherwise the same.  The key
must hold no number sign: one that does may be met only once the backslashes are
gone. -/
theorem lastValue_unescape {key : String} (hsign : '#' ∉ key.toList) (parts : List Text) :
    lastValue key (parts.map Comment.unescape) = Comment.unescape (lastValue key parts) := by
  have hfilter : (parts.map Comment.unescape).filter (hasKey key) =
      (parts.filter (hasKey key)).map Comment.unescape := by
    rw [List.filter_map]
    congr 2
    funext p
    exact hasKey_unescape hsign p
  unfold lastValue
  rw [hfilter, List.getLast?_map]
  cases (parts.filter (hasKey key)).getLast? with
  | none => rfl
  | some part => exact value_unescape part

end Bracket

end LineDiagram
