import LineDiagram.Compilation
import LineDiagram.Proofs.Document
import LineDiagram.Proofs.Draft
import LineDiagram.Proofs.SettingLines

/-!
# Replacing the settings

The settings of a document are what its settings lines write, one after the
other.  When they are replaced, the new lines stand before all that is left of
the document.  The block takes a line for a settings line by the whole of it,
the compiler without its comment, so an old line whose comment holds an arrow or
a double colon stays and has the last word.

* `settings_compile` — the settings of a document;
* `gather_replaced` — what is found in the lines after the settings were
  replaced;
* `gather_replaceLines` — what the lines write then;
* `replace_settings` — the settings after they were replaced.
-/

namespace LineDiagram

/-! ## The settings of a document -/

namespace Draft

/-- A line writes the setting that it says, and no other line changes the
settings. -/
theorem settings_addLine (font : Text) (d : Draft) (index : Nat) (line : Line) :
    (d.addLine font index line).graph.settings =
      d.graph.settings.assignAll line.content.writes := by
  cases hcontent : line.content with
  | marker depth label bracket =>
      obtain ⟨boxes, hgraph⟩ := graph_addMarker d index depth line
      simp only [addLine, hcontent, hgraph]
      rfl
  | node token label bracket =>
      simp only [addLine, hcontent, addNode, settings_placeNode, Content.writes, Graph.modifyNode,
        Graph.settings_mention]
      split <;> rfl
  | edge sources targets bracket =>
      simp only [addLine, hcontent, graph_addEdges, Content.writes]
      exact Graph.settings_mentionAll d.graph _
  | blank => simp only [addLine, hcontent]; rfl
  | setting phrase known value =>
      simp only [addLine, hcontent, addSetting_eq, Content.writes]
      cases Setting.ofKey? phrase <;> rfl
  | unrecognised => simp only [addLine, hcontent]; rfl

/-- **The settings of a document** are those that its lines write, applied in
order to nothing. -/
theorem settings_ofLines (font : Text) (lines : List Text) :
    (ofLines font lines).graph.settings =
      Settings.assignAll {} (lines.flatMap fun raw => (Line.contentOfRaw raw).writes) := by
  apply ofLines_induction font (P := fun lines d => d.graph.settings =
    Settings.assignAll {} (lines.flatMap fun raw => (Line.contentOfRaw raw).writes))
  · rfl
  · intro lines raw d h
    have hline : (Line.ofText raw).content = Line.contentOfRaw raw := rfl
    rw [settings_addLine, h, hline, List.flatMap_append, List.flatMap_singleton,
      Settings.assignAll_append]

end Draft

namespace SettingsBlock

variable {α : Type} {f : Text → List α}

/-- What a function finds in a line that is not taken for a settings line. -/
def unlessSetting (f : Text → List α) (raw : Text) : List α := if isSetting raw then [] else f raw

/-- If a function does not see blanks, it does not see them either when settings
lines are left out. -/
theorem ignoresBlanks_unlessSetting (hf : Document.IgnoresBlanks f) :
    Document.IgnoresBlanks (unlessSetting f) := by
  refine ⟨hf.nil, ?_⟩
  intro raw
  unfold unlessSetting isSetting
  rw [Text.trim_trim, hf.trim]

/-- What a line writes that is not taken for a settings line. -/
def stale (raw : Text) : List (Setting × Text) := if isSetting raw then [] else writes raw

theorem ignoresBlanks_writes : Document.IgnoresBlanks writes :=
  Document.ignoresBlanks_contentOfRaw (f := Content.writes) rfl

theorem ignoresBlanks_stale : Document.IgnoresBlanks stale :=
  ignoresBlanks_unlessSetting ignoresBlanks_writes

/-- **The settings of a document** are what its lines write, one after the
other. -/
theorem settings_compile (t : Text) (font : Option Text) :
    (compile t font).settings = Settings.assignAll {} (Document.gather writes t) := by
  rw [← Document.flatMap_split ignoresBlanks_writes]
  exact Draft.settings_ofLines _ _

/-! ## The document that is left -/

/-- The lines of the block that stay. -/
def keptLines (t : Text) : List Text := Document.dropBlankEnd (otherLines (split t).1)

/-- What stays of the rest. -/
def keptContents (t : Text) : Text := Text.trimStart (Document.join (otherLines (split t).2))

/-- The block of some lines that stay and the new lines. -/
def newBlock (kept newLines : List Text) : Text :=
  Text.trimEnd (Document.join
    (kept ++ (if kept.isEmpty || newLines.isEmpty then [] else [[]]) ++ newLines))

/-- Between what stays and the new lines there is at most one blank line,
whatever is at the end of the one and the start of the other. -/
theorem exists_divider (kept newLines : List Text) :
    ∃ divider, newBlock kept newLines = Text.trimEnd (Document.join (kept ++ divider ++ newLines)) ∧
      (divider = [] ∨ divider = [[]]) := by
  refine ⟨_, rfl, ?_⟩
  split
  · exact .inl rfl
  · exact .inr rfl

/-- A block and what follows it, written out. -/
def arrange (block contents : Text) : Text :=
  if block.isEmpty then contents else Text.trimEnd (block ++ "\n\n" ++ contents) ++ "\n"

/-- Replacing settings arranges a new block, of what stays of the old one and
the new lines, before what stays of the rest. -/
theorem replaceLines_eq (t : Text) (newLines : List Text) :
    replaceLines t newLines = arrange (newBlock (keptLines t) newLines) (keptContents t) := rfl

/-- Lines of the block write nothing but what is replaced, so nothing stale is
left of them. -/
theorem stale_of_belongs {raw : Text} (h : belongs raw = true) : stale raw = [] := by
  unfold belongs at h
  simp only [Bool.or_eq_true] at h
  rcases h with (hempty | hcomment) | hsetting
  · rw [← ignoresBlanks_stale.trim, List.isEmpty_iff.mp hempty]
    rfl
  · -- a comment is all of the line
    obtain ⟨rest, hrest⟩ : ∃ rest, Text.trim raw = '#' :: rest := by
      cases htrim : Text.trim raw with
      | nil => simp [htrim] at hcomment
      | cons c rest =>
          simp only [htrim, List.head?_cons, beq_iff_eq, Option.some.injEq] at hcomment
          exact ⟨rest, by rw [hcomment]⟩
    have hsplit : Comment.split ('#' :: rest) = ([], '#' :: rest) :=
      Comment.split_eq_iff.mpr ⟨rfl, trivial, Or.inr ⟨⟨rest, rfl⟩, by simp⟩⟩
    have hblank : Line.contentOfRaw ('#' :: rest) = .blank := by
      unfold Line.contentOfRaw Comment.strip
      rw [hsplit]
      rfl
    rw [← ignoresBlanks_stale.trim, hrest]
    unfold stale writes
    rw [hblank]
    split <;> rfl
  · unfold stale
    rw [if_pos hsetting]

/-- The lines of a text without its settings lines hold what its other lines
hold. -/
theorem flatMap_otherLines (hf : Document.IgnoresBlanks f) (t : Text) :
    (otherLines t).flatMap f = Document.gather (unlessSetting f) t := by
  unfold otherLines
  by_cases hempty : t.isEmpty = true
  · rw [if_pos hempty, List.isEmpty_iff.mp hempty,
      Document.gather_blank (ignoresBlanks_unlessSetting hf) Text.allBlank_nil]
    rfl
  · rw [if_neg hempty]
    unfold Document.gather
    generalize t.splitOn '\n' = lines
    induction lines with
    | nil => rfl
    | cons raw lines ih =>
        rw [List.flatMap_cons, ← ih, List.filter_cons]
        unfold unlessSetting
        by_cases hsetting : isSetting raw = true
        · simp [hsetting]
        · simp [hsetting]

theorem mem_otherLines {t raw : Text} (h : raw ∈ otherLines t) : '\n' ∉ raw := by
  unfold otherLines at h
  split at h
  · cases h
  · exact Text.not_mem_splitOn (List.mem_filter.mp h).1

theorem mem_dropBlankEnd {lines : List Text} {raw : Text} (h : raw ∈ Document.dropBlankEnd lines) :
    raw ∈ lines := by
  unfold Document.dropBlankEnd at h
  rw [List.mem_reverse] at h
  exact List.mem_reverse.mp ((List.dropWhile_sublist _).subset h)

/-- The new block holds what the lines that are kept hold, and then what the new
lines hold. -/
theorem gather_newBlock (hf : Document.IgnoresBlanks f) {kept newLines : List Text}
    (hlines : ∀ raw ∈ kept, '\n' ∉ raw) (hnew : ∀ raw ∈ newLines, '\n' ∉ raw) :
    Document.gather f (newBlock kept newLines) = kept.flatMap f ++ newLines.flatMap f := by
  obtain ⟨divider, hblock, hdivider⟩ := exists_divider kept newLines
  have hblank : ∀ raw ∈ divider, raw = [] := by
    rcases hdivider with rfl | rfl
    · exact nofun
    · exact fun raw => List.mem_singleton.mp
  have hnothing : divider.flatMap f = [] := by
    rw [List.flatMap_eq_nil_iff]
    intro raw hraw
    rw [hblank raw hraw, hf.nil]
  have hall : ∀ raw ∈ kept ++ divider ++ newLines, '\n' ∉ raw := by
    intro raw hraw
    simp only [List.mem_append] at hraw
    rcases hraw with (hraw | hraw) | hraw
    · exact hlines raw hraw
    · rw [hblank raw hraw]
      exact List.not_mem_nil
    · exact hnew raw hraw
  rw [hblock, Document.gather_trimEnd hf, Document.gather_join hf hall, List.flatMap_append,
    List.flatMap_append, hnothing, List.append_nil]

/-- What is found in a document that is arranged is what is found in the block,
and then what is found in the rest. -/
theorem gather_arrange (hf : Document.IgnoresBlanks f) (block contents : Text) :
    Document.gather f (arrange block contents) =
      Document.gather f block ++ Document.gather f contents := by
  unfold arrange
  by_cases hempty : block.isEmpty = true
  · rw [if_pos hempty, List.isEmpty_iff.mp hempty, Document.gather_blank hf Text.allBlank_nil,
      List.nil_append]
  · have hend : Text.trimEnd (block ++ "\n\n" ++ contents) ++ "\n" =
        Text.trimEnd (block ++ '\n' :: ([] ++ '\n' :: contents)) ++ ['\n'] := by simp
    rw [if_neg hempty, hend, Document.gather_append_blank hf (Text.allBlank_singleton (by decide)),
      Document.gather_trimEnd hf, Document.gather_append, Document.gather_append,
      Document.gather_blank hf Text.allBlank_nil, List.nil_append]

/-- **What the lines hold after the settings lines were replaced**: what the
other lines of the block held, what the new lines hold, and what the other lines
after the block held. -/
theorem gather_replaced (hf : Document.IgnoresBlanks f) (t : Text) {newLines : List Text}
    (hnew : ∀ raw ∈ newLines, '\n' ∉ raw) :
    Document.gather f (replaceLines t newLines) =
      ((Document.split t).takeWhile belongs).flatMap (unlessSetting f) ++ newLines.flatMap f ++
        ((Document.split t).dropWhile belongs).flatMap (unlessSetting f) := by
  have hothers := ignoresBlanks_unlessSetting hf
  have hlines : ∀ raw ∈ Document.split t, '\n' ∉ raw := fun raw hraw => Document.not_mem_split hraw
  have hstart : ∀ raw ∈ (Document.split t).takeWhile belongs, '\n' ∉ raw := fun raw hraw =>
    hlines raw ((List.takeWhile_sublist _).subset hraw)
  have hrest : ∀ raw ∈ (Document.split t).dropWhile belongs, '\n' ∉ raw := fun raw hraw =>
    hlines raw ((List.dropWhile_sublist _).subset hraw)
  have hkept : (keptLines t).flatMap f =
      ((Document.split t).takeWhile belongs).flatMap (unlessSetting f) := by
    unfold keptLines split
    rw [Document.flatMap_dropBlankEnd hf, flatMap_otherLines hf, Document.gather_trimEnd hothers,
      Document.gather_join hothers hstart]
  have hcontents : Document.gather f (keptContents t) =
      ((Document.split t).dropWhile belongs).flatMap (unlessSetting f) := by
    unfold keptContents split
    rw [Document.gather_trimStart hf, Document.gather_join hf (fun raw hraw => mem_otherLines hraw),
      flatMap_otherLines hf, Document.gather_trimStart hothers, Document.gather_join hothers hrest]
  have hfree : ∀ raw ∈ keptLines t, '\n' ∉ raw :=
    fun raw hraw => mem_otherLines (mem_dropBlankEnd hraw)
  rw [replaceLines_eq, gather_arrange hf, gather_newBlock hf hfree hnew, hkept, hcontents]

/-- **What the lines write after the settings lines were replaced**: what the
new lines write, and then what was stale. -/
theorem gather_replaceLines (t : Text) {newLines : List Text}
    (hnew : ∀ raw ∈ newLines, '\n' ∉ raw) :
    Document.gather writes (replaceLines t newLines) =
      newLines.flatMap writes ++ (Document.split t).flatMap stale := by
  have hstale : unlessSetting writes = stale := rfl
  -- the block keeps no line that writes anything
  have hblock : ((Document.split t).takeWhile belongs).flatMap stale = [] := by
    rw [List.flatMap_eq_nil_iff]
    exact fun raw hraw => stale_of_belongs (List.mem_takeWhile_imp hraw)
  have hall :
      (Document.split t).flatMap stale = ((Document.split t).dropWhile belongs).flatMap stale := by
    conv_lhs => rw [← List.takeWhile_append_dropWhile (p := belongs) (l := Document.split t)]
    rw [List.flatMap_append, hblock, List.nil_append]
  rw [gather_replaced ignoresBlanks_writes t hnew, hstale, hblock, hall, List.nil_append]

end SettingsBlock

/-- **The settings after they were replaced.**  The document is written out; it
has the settings that the given values stand for, except where an old settings
line was not taken for one: such lines come after the new ones and overwrite
them. -/
theorem replace_settings (t : Text) (font : Option Text) {settings : Settings}
    (hlegible : ∀ line ∈ settingLines, settings.Legible line.2) :
    ∃ new, SettingsBlock.replace t settings = .ok new ∧
      (compile new font).settings =
        settings.reread.assignAll ((Document.split t).flatMap SettingsBlock.stale) ∧
      ((∀ raw ∈ Document.split t, SettingsBlock.writes raw ≠ [] →
        SettingsBlock.isSetting raw = true) →
        (compile new font).settings = settings.reread) := by
  obtain ⟨lines, hlines, hone, hwritten⟩ := Settings.toLines_spec hlegible
  have hsettings : (compile (SettingsBlock.replaceLines t lines) font).settings =
      settings.reread.assignAll ((Document.split t).flatMap SettingsBlock.stale) := by
    rw [SettingsBlock.settings_compile, SettingsBlock.gather_replaceLines t hone,
      Settings.assignAll_append, hwritten]
  refine ⟨SettingsBlock.replaceLines t lines, ?_, hsettings, ?_⟩
  · unfold SettingsBlock.replace
    rw [hlines]
  · intro hseen
    have hnone : (Document.split t).flatMap SettingsBlock.stale = [] := by
      rw [List.flatMap_eq_nil_iff]
      intro raw hraw
      unfold SettingsBlock.stale
      by_cases hsetting : SettingsBlock.isSetting raw = true
      · rw [if_pos hsetting]
      · rw [if_neg hsetting]
        by_contra hwrites
        exact hsetting (hseen raw hraw hwrites)
    rw [hsettings, hnone]
    rfl

/-- Old settings lines are replaced wherever they stand, and values are read as
they are written. -/
theorem replace_settings_of_old_lines :
    (∀ line ∈
      settingLines, (((({ } : Settings).setText .title (some "Sales #1")).setText .background
      (some "#F80")).setNumber .titleSize (some (.whole 20))).Legible line.2) ∧
    ∃ new, SettingsBlock.replace "Title: Old\nA -> B\nbackground: blue # x"
        (((({ } : Settings).setText .title (some "Sales #1")).setText .background
          (some "#F80")).setNumber .titleSize (some (.whole 20))) = .ok new ∧
      (compile new).settings =
        (((({ } : Settings).setText .title (some "Sales #1")).setText .background
        (some "#F80")).setNumber .titleSize (some (.whole 20))).reread := by
  have hlegible :
      ∀ line ∈ settingLines, (((({ } : Settings).setText .title (some "Sales #1")).setText
      .background (some "#F80")).setNumber .titleSize (some (.whole 20))).Legible line.2 := by
    decide +kernel
  obtain ⟨new, hnew, -, hseen⟩ :=
    replace_settings "Title: Old\nA -> B\nbackground: blue # x" none hlegible
  exact ⟨hlegible, new, hnew, hseen (by decide +kernel)⟩

/-- The comment of an old line may hold an arrow: the line stays below the block
and has the last word. -/
theorem replace_settings_overruled :
    ¬ ∀ (t : Text) (settings : Settings),
      (∀ s, ∀ v ∈ settings.text s, '\n' ∉ v ∧ Text.trim v ≠ []) →
      (∀ s, ∀ n ∈ settings.number s, ∃ k : Int, n = .whole k) →
      ∃ new, SettingsBlock.replace t settings = .ok new ∧
        (compile new).settings = settings.reread := by
  intro hall
  obtain ⟨new, hnew, hsettings⟩ := hall "Title: Old # see a -> b\nA:: X"
    (({ } : Settings).setText .title (some "New")) (by
      intro s v hv
      change (if s = .title then some "New".toList else none) = some v at hv
      split at hv
      · cases hv
        decide
      · cases hv) (by
      intro s n hn
      cases hn)
  have htitle : (SettingsBlock.replace "Title: Old # see a -> b\nA:: X"
      (({ } : Settings).setText .title (some "New"))).toOption.map
        (fun new => (compile new).settings.text .title) =
          some (some "Old".toList) := by decide +kernel
  rw [hnew, Except.toOption, Option.map_some, hsettings, Option.some.injEq] at htitle
  exact absurd htitle (by decide +kernel)

end LineDiagram
