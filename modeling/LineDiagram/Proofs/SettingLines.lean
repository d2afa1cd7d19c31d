import LineDiagram.Proofs.ColourForms
import LineDiagram.Proofs.EdgeSides
import LineDiagram.Proofs.Reading
import LineDiagram.Proofs.SingleLine
import LineDiagram.Settings.Block

/-!
# Settings that are written out

Each setting that is set has a line of its own: a name, a colon and its value.
A text is escaped, a colour is spelled as it may stand in a source, a number is
brought to the nearest whole one.  Such a line is read as a settings line,
unless the value holds an arrow or a double colon, and then it sets the value
again.

* `writes_line` — a settings line that is written out is read again;
* `lineOf_spec` — the line of one setting;
* `toLines_spec` — the lines of a record set what its values stand for;
* `exists_of_mem_toLines` — every line that is written is a name and a value.
-/

namespace LineDiagram

/-- The setting that a line writes, with its value. -/
def Content.writes : Content → List (Setting × Text)
  | .setting phrase _ value => (Setting.ofKey? phrase).toList.map fun s => (s, value)
  | _ => []

/-- The setting that a raw line writes, with its value. -/
def SettingsBlock.writes (raw : Text) : List (Setting × Text) := (Line.contentOfRaw raw).writes

/-! ## One line -/

/-- The setting that a line of a given form sets. -/
def SettingForm.target : SettingForm → Setting
  | .text s => .text s
  | .colour s => .text s
  | .number s => .number s

/-- The name that a settings line starts with. -/
structure IsSettingName (name : Text) (s : Setting) : Prop where
  /-- It opens a settings line. -/
  known : isSettingPhrase (Text.lower (Text.trim name)) = true
  /-- It names the setting. -/
  target : Setting.ofKey? (Text.lower (Text.trim name)) = some s
  /-- It does not end the line or the name, and opens neither comment nor
  arrow. -/
  plain : ∀ c ∈ name, c ≠ ':' ∧ c ≠ '#' ∧ c ≠ '-' ∧ c ≠ '\n'
  /-- It starts with a character that is no blank. -/
  start : name.head?.map Text.isBlank = some false

/-- Every name under which a setting is written opens a settings line, and this
line sets the same setting. -/
theorem isSettingName_settingLines : ∀ line ∈ settingLines, IsSettingName line.1 line.2.target := by
  have hall : ∀ line ∈ settingLines, isSettingPhrase (Text.lower (Text.trim line.1)) = true ∧
      Setting.ofKey? (Text.lower (Text.trim line.1)) = some line.2.target ∧
      (line.1.toList.all fun c => c != ':' && c != '#' && c != '-' && c != '\n') = true ∧
      line.1.toList.head?.map Text.isBlank = some false := by decide +kernel
  intro line hline
  obtain ⟨hknown, htarget, hplain, hstart⟩ := hall line hline
  refine ⟨hknown, htarget, ?_, hstart⟩
  intro c hc
  simpa [and_assoc] using List.all_eq_true.mp hplain c hc

/-- A value that can stand on a settings line: one line, not blank, without
arrow and double colon. -/
structure IsSettingValue (value : Text) : Prop where
  one_line : '\n' ∉ value
  filled : Text.trim value ≠ []
  arrow : Text.hasPart "->" value = false
  colons : Text.hasPart "::" value = false

instance (value : Text) : Decidable (IsSettingValue value) :=
  decidable_of_iff ('\n' ∉ value ∧ Text.trim value ≠ [] ∧ Text.hasPart "->" value = false ∧
      Text.hasPart "::" value = false)
    ⟨fun ⟨one_line, filled, arrow, colons⟩ => ⟨one_line, filled, arrow, colons⟩,
      fun h => ⟨h.one_line, h.filled, h.arrow, h.colons⟩⟩

namespace Line

variable {name code : Text} {s : Setting}

/-- A name and a value hold no arrow and no double colon when the value holds
none. -/
theorem not_hasPart_settingLine (hname : IsSettingName name s) (hvalue : IsSettingValue code) :
    Text.hasPart "->" (name ++ ':' :: ' ' :: code) = false ∧
      Text.hasPart "::" (name ++ ':' :: ' ' :: code) = false := by
  have harrow : ¬ ['-', '>'] <:+: code := by
    rw [← Text.hasPart_iff]
    exact Bool.eq_false_iff.mp hvalue.arrow
  have hcolons : ¬ [':', ':'] <:+: code := by
    rw [← Text.hasPart_iff]
    exact Bool.eq_false_iff.mp hvalue.colons
  constructor
  · rw [Bool.eq_false_iff, Ne, Text.hasPart_iff]
    intro hin
    rcases Text.pair_infix_append (by decide) (by decide) hin with hin | hin
    · exact (hname.plain '-' (hin.subset List.mem_cons_self)).2.2.1 rfl
    · rcases Text.pair_infix_append (a := []) (by decide) (by decide) hin with hin | hin
      · exact absurd (hin.subset List.mem_cons_self) List.not_mem_nil
      · exact harrow hin
  · rw [Bool.eq_false_iff, Ne, Text.hasPart_iff]
    intro hin
    have hwhole : name ++ ':' :: ' ' :: code = (name ++ [':']) ++ ' ' :: code := by simp
    rw [hwhole] at hin
    rcases Text.pair_infix_append (by decide) (by decide) hin with hin | hin
    · -- the name and its colon hold one colon
      have htwo : 2 ≤ (name ++ [':']).count ':' := hin.sublist.count_le ':'
      have hnone : name.count ':' = 0 :=
        List.count_eq_zero.mpr fun hmem => (hname.plain ':' hmem).1 rfl
      rw [List.count_append, hnone] at htwo
      exact absurd htwo (by decide)
    · exact hcolons hin

/-- The code of a settings line is read as the setting that was written, with
the value that was written. -/
theorem contentOf_settingLine (hname : IsSettingName name s) (htight : Text.Tight code)
    (hvalue : IsSettingValue code) :
    contentOf (name ++ ':' :: ' ' :: code) =
      .setting (Text.lower (Text.trim name)) hname.known code := by
  have hfree : '\n' ∉ name ++ ':' :: ' ' :: code := by
    simp only [List.mem_append, List.mem_cons, not_or]
    exact ⟨fun hmem => (hname.plain _ hmem).2.2.2 rfl, by decide, by decide, hvalue.one_line⟩
  have hspace : Text.AllBlank [' '] := Text.allBlank_singleton (by decide)
  have hrest : Text.trim (' ' :: code) = code := by
    have hblanks := Text.trim_of_blanks_around hspace Text.allBlank_nil code
    rw [Text.trim_of_tight htight, List.append_nil] at hblanks
    exact hblanks
  have hstart : Text.trimStart (' ' :: code) = code := by
    have hblanks := Text.trimStart_of_blank_append hspace code
    rw [Text.trimStart_eq_self htight.start] at hblanks
    exact hblanks
  have hcode : code ≠ [] := by
    rintro rfl
    exact hvalue.filled rfl
  have hhas : hasValue (' ' :: code) = true := by
    have hlast : code.dropWhile (· != '\n') = [] := by
      rw [List.dropWhile_eq_nil_iff]
      intro c hc
      rw [bne_iff_ne]
      rintro rfl
      exact hvalue.one_line hc
    unfold hasValue
    dsimp only
    rw [hstart, if_neg (by simpa using hcode), hlast]
    rfl
  have hmarker : marker? (name ++ ':' :: ' ' :: code) = none := by
    rw [marker?_eq_none_iff hfree]
    cases hfirst : name with
    | nil => simp
    | cons c rest =>
        have hdash : c ≠ '-' := (hname.plain c (by rw [hfirst]; exact List.mem_cons_self)).2.2.1
        simp [hdash]
  obtain ⟨harrow, hcolons⟩ := not_hasPart_settingLine hname hvalue
  rw [contentOf_eq_setting_iff]
  refine ⟨hmarker, ' ' :: code, ?_, hrest.symm⟩
  rw [settingParts?_eq_some_iff]
  exact ⟨name, rfl, fun hmem => (hname.plain _ hmem).1 rfl, harrow, hcolons, hhas, rfl⟩

/-- The value of a line whose end is no line feed stands on one line: a line
feed may follow a value, but nothing else behind it. -/
theorem not_mem_of_hasValue {t : Text} (hvalue : hasValue t = true)
    (hfilled : Text.trimStart t ≠ [])
    (hend : (Text.trimStart t).getLast? ≠ some '\n') : '\n' ∉ Text.trimStart t := by
  unfold hasValue at hvalue
  dsimp only at hvalue
  rw [if_neg (by simpa using hfilled), Bool.or_eq_true, List.isEmpty_iff, beq_iff_eq] at hvalue
  rcases hvalue with hnone | hlast
  · intro hmem
    have hall := List.dropWhile_eq_nil_iff.mp hnone '\n' hmem
    simp at hall
  · exfalso
    apply hend
    rw [← List.takeWhile_append_dropWhile (p := (· != '\n')) (l := Text.trimStart t), hlast]
    simp

/-- What follows the first colon of a settings line holds a value. -/
theorem hasValue_of_settingParts? {name rest : Text} (hcolon : ':' ∉ name)
    (h : (settingParts? (name ++ ':' :: rest)).isSome = true) : hasValue rest = true := by
  have hname : ∀ c ∈ name, (c != ':') = true := by
    intro c hc
    rw [bne_iff_ne]
    rintro rfl
    exact hcolon hc
  have hdrop : (name ++ ':' :: rest).dropWhile (· != ':') = ':' :: rest := by
    rw [List.dropWhile_append_of_pos hname, List.dropWhile_cons_of_neg (by decide)]
  unfold settingParts? at h
  rw [hdrop] at h
  by_contra hnone
  simp [hnone] at h

end Line

/-- How a value is written: it opens no comment, and without its backslashes it
is the value. -/
structure Spells (value code : Text) : Prop where
  plain : Comment.Plain value
  code_eq : Comment.unescape value = code
  tight : Text.Tight code
  sound : IsSettingValue code

/-- A value without number signs is written as it is. -/
theorem Spells.of_not_mem {value : Text} (hsign : '#' ∉ value) (htight : Text.Tight value)
    (hvalue : IsSettingValue value) : Spells value value :=
  ⟨Comment.plain_of_not_mem hsign, Comment.unescape_of_not_mem hsign, htight, hvalue⟩

theorem Spells.one_line {value code : Text} (h : Spells value code) : '\n' ∉ value := by
  intro hmem
  rw [← Comment.mem_unescape (by decide), h.code_eq] at hmem
  exact h.sound.one_line hmem

/-- **A settings line that is written out is read again**, as the setting of its
name with the value that is spelled. -/
theorem SettingsBlock.writes_line {name value code : Text} {s : Setting}
    (hname : IsSettingName name s)
    (hspells : Spells value code) : writes (name ++ ": " ++ value) = [(s, code)] := by
  obtain ⟨hplain, hcode, htight, hvalue⟩ := hspells
  have hsign : '#' ∉ name ++ [':', ' '] := by
    simp only [List.mem_append, List.mem_cons, not_or]
    exact ⟨fun hmem => (hname.plain _ hmem).2.1 rfl, by decide, by decide, List.not_mem_nil⟩
  have hne : code ≠ [] := by
    rintro rfl
    exact hvalue.filled rfl
  have hcodeTight : Text.Tight (name ++ ':' :: ' ' :: code) := by
    refine ⟨?_, ?_⟩
    · intro c hc
      have hstart := hname.start
      cases hfirst : name with
      | nil => simp [hfirst] at hstart
      | cons d rest =>
          rw [hfirst, List.cons_append, List.head?_cons, Option.some.injEq] at hc
          simpa [hfirst, hc] using hstart
    · intro c hc
      rw [show name ++ ':' :: ' ' :: code = (name ++ [':', ' ']) ++ code by simp,
        List.getLast?_append_of_ne_nil _ hne] at hc
      exact htight.stop c hc
  have hstrip : Comment.strip (name ++ ": " ++ value) = name ++ ':' :: ' ' :: code := by
    have hline : Comment.Plain ((name ++ [':', ' ']) ++ value) :=
      (Comment.plain_of_not_mem hsign).append hplain
    change Comment.strip ((name ++ [':', ' ']) ++ value) = _
    rw [Comment.strip_of_plain hline, Comment.unescape_append (by simp), hcode,
      Comment.unescape_of_not_mem hsign, List.append_assoc]
    exact Text.trim_of_tight hcodeTight
  unfold writes Line.contentOfRaw
  rw [hstrip, Line.contentOf_settingLine hname htight hvalue, Content.writes, hname.target]
  rfl

/-! ## The values -/

theorem TextSetting.read_trim (s : TextSetting) (v : Text) : s.read (Text.trim v) = s.read v := by
  cases s <;> simp [read, titlePosition?, direction?, meaning?, compactWord, Colour.normalize]

/-- A setting that is written as a colour is read as one. -/
theorem TextSetting.read_of_colour {name : String} {s : TextSetting}
    (h : (name, SettingForm.colour s) ∈ settingLines) (v : Text) :
    s.read v = some (Colour.normalize v) := by
  simp only [settingLines, List.mem_cons, Prod.mk.injEq, reduceCtorEq, and_false, false_or,
    SettingForm.colour.injEq, List.not_mem_nil, or_false] at h
  rcases h with ⟨-, rfl⟩ | ⟨-, rfl⟩ | ⟨-, rfl⟩ | ⟨-, rfl⟩ | ⟨-, rfl⟩ | ⟨-, rfl⟩ <;> rfl

namespace IsSettingValue

/-- A value that can stand on a settings line still can without the blanks
around it. -/
protected theorem trim {v : Text} (h : IsSettingValue v) : IsSettingValue (Text.trim v) where
  one_line hmem := h.one_line (Text.mem_of_mem_trim hmem)
  filled := by
    rw [Text.trim_trim]
    exact h.filled
  arrow := Text.hasPart_trim h.arrow
  colons := Text.hasPart_trim h.colons

/-- A text without the characters that matter on a settings line. -/
theorem of_not_mem {v : Text} (hfilled : ∃ c ∈ v, Text.isBlank c = false) (hline : '\n' ∉ v)
    (hhead : '>' ∉ v) (hcolon : ':' ∉ v) : IsSettingValue v where
  one_line := hline
  filled hnil := by
    obtain ⟨c, hc, hsolid⟩ := hfilled
    exact (Text.trim_eq_nil.mp hnil).not_mem hsolid hc
  arrow := by
    rw [Bool.eq_false_iff, Ne, Text.hasPart_iff]
    exact fun hin => hhead (hin.subset (by decide))
  colons := by
    rw [Bool.eq_false_iff, Ne, Text.hasPart_iff]
    exact fun hin => hcolon (hin.subset (by decide))

/-- A whole number can stand on a settings line. -/
theorem ofInt (n : Int) : IsSettingValue (Text.ofInt n) := by
  have hne : Text.ofInt n ≠ [] := by
    cases n with
    | ofNat m => exact Nat.toDigits_ne_nil
    | negSucc m => exact List.cons_ne_nil _ _
  have hfilled : ∃ c ∈ Text.ofInt n, Text.isBlank c = false := by
    cases htext : Text.ofInt n with
    | nil => exact absurd htext hne
    | cons c rest =>
      exact ⟨c, List.mem_cons_self, (Text.tight_ofInt n).start c (by rw [htext]; rfl)⟩
  exact of_not_mem hfilled (Text.oneLine_ofInt n) (Text.not_mem_ofInt (by decide) (by decide))
    (Text.not_mem_ofInt (by decide) (by decide))

/-- So can a colour that is written as `rgb(...)`. -/
theorem rgbText (c : Rgb) : IsSettingValue (Colour.rgbText c) := by
  have hnot : ∀ x : Char, x ∉ "rgb(,)".toList → Text.isDigit x = false → x ∉ Colour.rgbText c := by
    intro x hmark hx hmem
    have hnumber : ∀ n, x ∉ Text.ofNat n := fun n => Text.not_mem_ofNat hx
    unfold Colour.rgbText at hmem
    simp_all
  exact of_not_mem ⟨'r', List.mem_cons_self, by decide⟩ (hnot _ (by decide) (by decide))
    (hnot _ (by decide) (by decide)) (hnot _ (by decide) (by decide))

/-- And so can a colour as it is written into a document, if the colour itself
can. -/
theorem sourceToken {v : Text} (h : IsSettingValue v) : IsSettingValue (Colour.sourceToken v) := by
  rcases Colour.sourceToken_cases v with ⟨c, -, htoken, -⟩ | htoken
  · rw [htoken]
    exact rgbText c
  · rw [htoken]
    exact h.trim

end IsSettingValue

/-- A whole number to which one half can be added. -/
def Number.IsSmallWhole : Number → Prop
  | .whole n => n.natAbs ≤ 2 ^ 52
  | .real _ => False

instance : DecidablePred Number.IsSmallWhole
  | .whole n => inferInstanceAs (Decidable (n.natAbs ≤ 2 ^ 52))
  | .real _ => inferInstanceAs (Decidable False)

theorem Number.IsSmallWhole.eq_whole {n : Number} (h : n.IsSmallWhole) :
    ∃ k : Int, n = .whole k ∧ k.natAbs ≤ 2 ^ 52 := by
  cases n with
  | whole k => exact ⟨k, rfl, h⟩
  | real x => exact h.elim

/-! ## A record -/

namespace Settings

/-- Applies settings lines in order. -/
def assignAll (settings : Settings) (writes : List (Setting × Text)) : Settings :=
  writes.foldl (fun settings write => settings.assign write.1 write.2) settings

theorem assignAll_append (settings : Settings) (a b : List (Setting × Text)) :
    settings.assignAll (a ++ b) = (settings.assignAll a).assignAll b := List.foldl_append

/-- The settings that the values of a record stand for. -/
def reread (settings : Settings) : Settings where
  text s := (settings.text s).bind s.read
  number s := (settings.number s).map fun n => .real n.toBinary64

/-- The value of a setting of either kind. -/
def valueAt (settings : Settings) : Setting → Option Text ⊕ Option Number
  | .text s => .inl (settings.text s)
  | .number s => .inr (settings.number s)

/-- Settings with the same values are the same, so settings may be compared one
setting at a time. -/
theorem eq_of_valueAt {a b : Settings} (h : ∀ s, a.valueAt s = b.valueAt s) : a = b := by
  cases a
  cases b
  congr 1
  · exact funext fun s => Sum.inl.inj (h (.text s))
  · exact funext fun s => Sum.inr.inj (h (.number s))

/-- A settings line sets its setting. -/
theorem valueAt_assign_text (settings : Settings) (s : TextSetting) (value : Text) :
    (settings.assign (.text s) value).valueAt (.text s) = .inl (s.read value) :=
  congrArg Sum.inl (if_pos rfl)

theorem valueAt_assign_number (settings : Settings) (s : NumberSetting) (value : Text) :
    (settings.assign (.number s) value).valueAt (.number s) = .inr (s.read value) :=
  congrArg Sum.inr (if_pos rfl)

/-- A settings line sets no other setting.  So lines of different settings may
stand in any order. -/
theorem valueAt_assign_of_ne (settings : Settings) {s other : Setting}
    (hne : other ≠ s) (value : Text) :
    (settings.assign s value).valueAt other = settings.valueAt other := by
  cases s with
  | text s =>
      cases other with
      | text other => exact congrArg Sum.inl (if_neg fun heq => hne (by rw [heq]))
      | number other => rfl
  | number s =>
      cases other with
      | text other => rfl
      | number other => exact congrArg Sum.inr (if_neg fun heq => hne (by rw [heq]))

/-- The values of a record that are read as they are written: texts of one line
that hold neither arrow, double colon nor an escaped number sign, colours that
open no comment, whole numbers up to `2 ^ 52`. -/
def Legible (settings : Settings) : SettingForm → Prop
  | .text s => ∀ v ∈ settings.text s, IsSettingValue v ∧ Text.hasPart "\\#" v = false
  | .colour s => ∀ v ∈ settings.text s, IsSettingValue v ∧ '#' ∉ Colour.sourceToken v
  | .number s => ∀ n ∈ settings.number s, n.IsSmallWhole

instance (settings : Settings) (form : SettingForm) : Decidable (settings.Legible form) := by
  cases form <;> unfold Legible <;> infer_instance

/-- The line that is written for a setting, if it is set. -/
def lineOf (settings : Settings) (line : String × SettingForm) :
    Except RoundingFault (Option Text) := do
  let value ← settings.written line.2
  return value.map fun v => line.1.toList ++ ": " ++ v

/-- The lines that are written for settings, with the line of one setting as a
function of its own. -/
theorem toLines_eq (settings : Settings) : settings.toLines = (do
    let lines ← settingLines.mapM settings.lineOf
    return lines.filterMap fun line => line) := rfl

/-- What is written for a setting spells the value that it stands for; what is
unset is not written. -/
theorem written_spec {settings : Settings} {line : String × SettingForm}
    (hline : line ∈ settingLines) (hlegible : settings.Legible line.2) :
    (settings.written line.2 = .ok none ∧
      settings.reread.valueAt line.2.target = valueAt {} line.2.target) ∨
    ∃ value code, settings.written line.2 = .ok (some value) ∧ Spells value code ∧
      ∀ other : Settings, (other.assign line.2.target code).valueAt line.2.target =
        settings.reread.valueAt line.2.target := by
  obtain ⟨name, form⟩ := line
  have hkept : ∀ v : Text, IsSettingValue v → (some v).filter (fun t => !t.isEmpty) = some v := by
    intro v hv
    cases v with
    | nil => exact absurd rfl hv.filled
    | cons c rest => rfl
  cases form with
  | text s =>
      cases hset : settings.text s with
      | none =>
        exact Or.inl ⟨by simp [written, hset], by simp [SettingForm.target, valueAt, reread, hset]⟩
      | some v =>
          obtain ⟨hv, hsign⟩ := hlegible v hset
          refine Or.inr ⟨Comment.escape (Text.trim v), Text.trim v, ?_, ?_, ?_⟩
          · simp only [written, hset, hkept v hv, Option.map_some]
          · exact ⟨Comment.plain_escape _, Comment.unescape_escape (Text.hasPart_trim hsign),
              Text.tight_trim v, hv.trim⟩
          · intro other
            rw [SettingForm.target, valueAt_assign_text, TextSetting.read_trim]
            simp [valueAt, reread, hset]
  | colour s =>
      cases hset : settings.text s with
      | none =>
        exact Or.inl ⟨by simp [written, hset], by simp [SettingForm.target, valueAt, reread, hset]⟩
      | some v =>
          obtain ⟨hv, hsign⟩ := hlegible v hset
          refine Or.inr ⟨Colour.sourceToken v, Colour.sourceToken v, ?_, ?_, ?_⟩
          · simp only [written, hset, hkept v hv, Option.map_some]
          · exact .of_not_mem hsign (Colour.tight_sourceToken v) hv.sourceToken
          · intro other
            have hread := TextSetting.read_of_colour hline
            rw [SettingForm.target, valueAt_assign_text, hread,
              Colour.normalize_sourceToken, ← hread]
            simp [valueAt, reread, hset]
  | number s =>
      cases hset : settings.number s with
      | none =>
        exact Or.inl ⟨by simp [written, hset], by simp [SettingForm.target, valueAt, reread, hset]⟩
      | some n =>
          obtain ⟨k, rfl, hk⟩ := (hlegible n hset).eq_whole
          have hround : (Number.whole k).toBinary64.roundHalfUp = .ok k :=
            Binary64.roundHalfUp_ofInt hk
          refine Or.inr ⟨Text.ofInt k, Text.ofInt k, ?_, ?_, ?_⟩
          · simp only [written, hset, hround]
          · exact .of_not_mem (Text.not_mem_ofInt (by decide) (by decide))
              (Text.tight_ofInt k) (.ofInt k)
          · intro other
            rw [SettingForm.target, valueAt_assign_number, NumberSetting.read,
              Text.leadingNumber?_ofInt (by omega)]
            simp [valueAt, reread, hset, Number.toBinary64]

/-- **The line of a setting is read as the setting**: either it is unset and has
no line, or its line writes the value that it stands for. -/
theorem lineOf_spec {settings : Settings} {line : String × SettingForm}
    (hline : line ∈ settingLines) (hlegible : settings.Legible line.2) :
    (settings.lineOf line = .ok none ∧
      settings.reread.valueAt line.2.target = valueAt {} line.2.target) ∨
    ∃ raw code, settings.lineOf line = .ok (some raw) ∧ '\n' ∉ raw ∧
      SettingsBlock.writes raw = [(line.2.target, code)] ∧
      ∀ other : Settings, (other.assign line.2.target code).valueAt line.2.target =
        settings.reread.valueAt line.2.target := by
  have hname := isSettingName_settingLines line hline
  unfold lineOf
  rcases written_spec hline hlegible
    with ⟨hwritten, hunset⟩ | ⟨value, code, hwritten, hspells, hset⟩
  · exact Or.inl ⟨by rw [hwritten]; rfl, hunset⟩
  · refine Or.inr ⟨line.1.toList ++ ": " ++ value, code, by rw [hwritten]; rfl, ?_,
      SettingsBlock.writes_line hname hspells, hset⟩
    simp only [List.mem_append, not_or]
    exact ⟨⟨fun hmem => (hname.plain _ hmem).2.2.2 rfl, by decide⟩, hspells.one_line⟩

/-- **Settings that are written out and read again**, line by line: each of them
takes the value that it stands for, and what has no line stays as it is. -/
theorem mapM_lineOf {settings : Settings} {lines : List (String × SettingForm)}
    (hlines : lines ⊆ settingLines) (hlegible : ∀ line ∈ lines, settings.Legible line.2)
    (hnodup : (lines.map fun line => line.2.target).Nodup) :
    ∃ written, lines.mapM settings.lineOf = .ok written ∧
      (∀ raw ∈ written.filterMap fun line => line, '\n' ∉ raw) ∧
      ∀ other : Settings, (∀ line ∈ lines, other.valueAt line.2.target = valueAt {} line.2.target) →
        (∀ line ∈ lines,
          (other.assignAll ((written.filterMap fun line => line).flatMap
            SettingsBlock.writes)).valueAt line.2.target = settings.reread.valueAt line.2.target) ∧
        ∀ s ∉ lines.map fun line => line.2.target,
          (other.assignAll ((written.filterMap fun line => line).flatMap
            SettingsBlock.writes)).valueAt s = other.valueAt s := by
  induction lines with
  | nil => exact ⟨[], rfl, by simp, fun other _ => ⟨by simp, fun s _ => rfl⟩⟩
  | cons line lines ih =>
      rw [List.map_cons, List.nodup_cons] at hnodup
      obtain ⟨written, hwritten, hone, hvalues⟩ :=
        ih (fun l hl => hlines (List.mem_cons_of_mem _ hl))
        (fun l hl => hlegible l (List.mem_cons_of_mem _ hl)) hnodup.2
      rcases lineOf_spec (hlines List.mem_cons_self) (hlegible line List.mem_cons_self) with
        ⟨hline, hunset⟩ | ⟨raw, code, hline, hraw, hwrites, hset⟩
      · -- the setting is unset: it keeps the value that it had before
        refine ⟨none :: written, by rw [List.mapM_cons, hline, hwritten]; rfl, hone, ?_⟩
        intro other hother
        obtain ⟨hthese, hothers⟩ := hvalues other fun l hl => hother l (List.mem_cons_of_mem _ hl)
        refine ⟨?_, ?_⟩
        · intro l hl
          rcases List.mem_cons.mp hl with rfl | hl
          · exact (hothers _ hnodup.1).trans ((hother l List.mem_cons_self).trans hunset.symm)
          · exact hthese l hl
        · intro s hs
          rw [List.map_cons, List.mem_cons, not_or] at hs
          exact hothers s hs.2
      · -- the setting has a line, and no later line is for it
        refine ⟨some raw :: written, by rw [List.mapM_cons, hline, hwritten]; rfl, ?_, ?_⟩
        · intro l hl
          rcases List.mem_cons.mp hl with rfl | hl
          · exact hraw
          · exact hone l hl
        · intro other hother
          have hothersKept : ∀ l ∈ lines, (other.assign line.2.target code).valueAt l.2.target =
              valueAt {} l.2.target := by
            intro l hl
            have hne : l.2.target ≠ line.2.target := fun heq =>
              hnodup.1 (heq ▸ List.mem_map_of_mem (f := fun line => line.2.target) hl)
            rw [valueAt_assign_of_ne _ hne, hother l (List.mem_cons_of_mem _ hl)]
          obtain ⟨hthese, hothers⟩ := hvalues _ hothersKept
          have hall : other.assignAll (((some raw :: written).filterMap fun line => line).flatMap
              SettingsBlock.writes) = (other.assign line.2.target code).assignAll
                ((written.filterMap fun line => line).flatMap SettingsBlock.writes) := by
            change other.assignAll (SettingsBlock.writes raw ++ _) = _
            rw [hwrites, assignAll_append]
            rfl
          rw [hall]
          refine ⟨?_, ?_⟩
          · intro l hl
            rcases List.mem_cons.mp hl with rfl | hl
            · rw [hothers _ hnodup.1, hset]
            · exact hthese l hl
          · intro s hs
            rw [List.map_cons, List.mem_cons, not_or] at hs
            rw [hothers s hs.2, valueAt_assign_of_ne _ hs.1]

theorem target_mem (s : Setting) : s ∈ settingLines.map fun line => line.2.target := by
  cases s with
  | text s => cases s <;> decide
  | number s => cases s <;> decide

/-- A record whose values can be read as they are written is written out, and
its lines set it. -/
theorem toLines_spec {settings : Settings}
    (hlegible : ∀ line ∈ settingLines, settings.Legible line.2) :
    ∃ lines, settings.toLines = .ok lines ∧ (∀ raw ∈ lines, '\n' ∉ raw) ∧
      assignAll {} (lines.flatMap SettingsBlock.writes) = settings.reread := by
  obtain ⟨written, hwritten, hone, hvalues⟩ :=
    mapM_lineOf (fun line hline => hline) hlegible (by decide)
  refine ⟨written.filterMap fun line => line, ?_, hone, ?_⟩
  · rw [toLines_eq, hwritten]
    rfl
  · apply eq_of_valueAt
    intro s
    obtain ⟨line, hline, rfl⟩ := List.mem_map.mp (target_mem s)
    exact (hvalues {} fun _ _ => rfl).1 line hline

/-- What a row of calls returns, if none of them fails, comes from one of the
calls. -/
theorem mem_of_mapM_ok {α β ε : Type} {f : α → Except ε β} {as : List α} {bs : List β}
    (h : as.mapM f = .ok bs) {b : β} (hb : b ∈ bs) : ∃ a ∈ as, f a = .ok b := by
  induction as generalizing bs with
  | nil =>
      cases h
      cases hb
  | cons a as ih =>
      rw [List.mapM_cons] at h
      cases hfirst : f a with
      | error e =>
          rw [hfirst] at h
          cases h
      | ok first =>
          cases hrest : as.mapM f with
          | error e =>
              rw [hfirst, hrest] at h
              cases h
          | ok rest =>
              rw [hfirst, hrest] at h
              cases h
              rcases List.mem_cons.mp hb with rfl | hb
              · exact ⟨a, List.mem_cons_self, hfirst⟩
              · obtain ⟨a', ha', hvalue⟩ := ih hrest hb
                exact ⟨a', List.mem_cons_of_mem a ha', hvalue⟩

/-- What is written has no blanks around it. -/
theorem tight_written {settings : Settings} {form : SettingForm} {v : Text}
    (h : settings.written form = .ok (some v)) : Text.Tight v := by
  cases form with
  | text s =>
      obtain ⟨value, -, rfl⟩ := Option.map_eq_some_iff.mp (Except.ok.inj h)
      exact Comment.tight_escape (Text.tight_trim value)
  | colour s =>
      obtain ⟨value, -, rfl⟩ := Option.map_eq_some_iff.mp (Except.ok.inj h)
      exact Colour.tight_sourceToken value
  | number s =>
      unfold written at h
      dsimp only at h
      split at h
      · cases h
      · split at h
        · cases h
          exact Text.tight_ofInt _
        · cases h

/-- A line that is written starts with the name of a setting, and a tight value
follows the colon. -/
theorem exists_of_mem_toLines {settings : Settings} {lines : List Text}
    (h : settings.toLines = .ok lines) {raw : Text} (hraw : raw ∈ lines) :
    ∃ line ∈ settingLines, ∃ v, Text.Tight v ∧ raw = line.1.toList ++ ": " ++ v := by
  rw [toLines_eq] at h
  cases hwritten : settingLines.mapM settings.lineOf with
  | error e =>
      rw [hwritten] at h
      cases h
  | ok written =>
      rw [hwritten] at h
      cases h
      obtain ⟨entry, hentry, hsome⟩ := List.mem_filterMap.mp hraw
      obtain ⟨line, hline, hvalue⟩ := mem_of_mapM_ok hwritten hentry
      rw [hsome] at hvalue
      refine ⟨line, hline, ?_⟩
      unfold lineOf at hvalue
      cases hv : settings.written line.2 with
      | error e =>
          rw [hv] at hvalue
          cases hvalue
      | ok value =>
          rw [hv] at hvalue
          obtain ⟨v, rfl, rfl⟩ := Option.map_eq_some_iff.mp (Except.ok.inj hvalue)
          exact ⟨v, tight_written hv, rfl⟩

end Settings

end LineDiagram
