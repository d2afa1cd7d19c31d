import LineDiagram.Proofs.SettingsBlock

/-!
# Replacing the settings once more

Replacing the settings cuts a document into the block and the rest, takes the
settings lines out of both, trims what is left at its ends and writes it below
each other with the new lines between.  A document that was written in this way
is cut at the same place: the lines of its block belong there, the first line of
the rest does not, and there is no settings line but the new ones.  So replacing
the settings by the same ones changes nothing more.

* `Stays`, `IsContents` — the lines of a block and the rest of a document, as
  they are left;
* `stays_keptLines`, `isContents_keptContents` — every document is left so;
* `IsContents.split_append`, `newBlock_again` — a document that was written, cut
  again, and its block;
* `replaceLines_replaceLines`, `linesWhere_replaceLines` — replacing twice, and
  the lines that stay;
* `replace_replace` — for settings whose lines are all taken for settings lines.
-/

namespace LineDiagram

namespace SettingsBlock

/-- Whether a line is taken for a settings line does not depend on the blanks
around it. -/
theorem isSetting_congr {a b : Text} (h : Text.trim a = Text.trim b) :
    isSetting a = isSetting b := by
  unfold isSetting
  rw [h]

theorem belongs_congr {a b : Text} (h : Text.trim a = Text.trim b) : belongs a = belongs b := by
  unfold belongs
  rw [isSetting_congr h, h]

theorem trim_ne_nil_of_isSetting {raw : Text} (h : isSetting raw = true) : Text.trim raw ≠ [] := by
  intro hnil
  simp [isSetting, hnil] at h

theorem belongs_of_isSetting {raw : Text} (h : isSetting raw = true) : belongs raw = true := by
  simp [belongs, h]

theorem not_isSetting_of_not_belongs {raw : Text} (h : belongs raw = false) :
    isSetting raw = false := by
  unfold belongs at h
  simp only [Bool.or_eq_false_iff] at h
  exact h.2

theorem trim_ne_nil_of_not_belongs {raw : Text} (h : belongs raw = false) : Text.trim raw ≠ [] := by
  intro hnil
  simp [belongs, hnil] at h

/-- Whether a line is neither blank nor taken for a settings line. -/
def isContent (raw : Text) : Bool := !(Text.trim raw).isEmpty && !isSetting raw

/-- The lines of a text that is not empty, without its settings lines. -/
theorem otherLines_join {lines : List Text} (hlines : ∀ raw ∈ lines, '\n' ∉ raw)
    (hne : Document.join lines ≠ []) :
    otherLines (Document.join lines) = lines.filter fun raw => !isSetting raw := by
  have hsome : lines ≠ [] := by
    rintro rfl
    exact hne rfl
  unfold otherLines
  rw [if_neg (by simpa using hne), Document.splitOn_join hlines hsome]

/-- Where the settings lines stand together, what stands before them is left
when they are taken out. -/
theorem otherLines_join_append {others taken : List Text}
    (hothers : ∀ raw ∈ others, '\n' ∉ raw ∧ isSetting raw = false)
    (htaken : ∀ raw ∈ taken, '\n' ∉ raw ∧ isSetting raw = true)
    (hsome : ∃ raw ∈ others ++ taken, Text.trim raw ≠ []) :
    otherLines (Document.join (others ++ taken)) = others := by
  have hlines : ∀ raw ∈ others ++ taken, '\n' ∉ raw := by
    intro raw hraw
    rcases List.mem_append.mp hraw with hraw | hraw
    · exact (hothers raw hraw).1
    · exact (htaken raw hraw).1
  have hne : Document.join (others ++ taken) ≠ [] := by
    obtain ⟨raw, hraw, htrim⟩ := hsome
    apply Document.join_ne_nil hlines hraw
    rintro rfl
    exact htrim rfl
  have hkeep : others.filter (fun raw => !isSetting raw) = others := by
    rw [List.filter_eq_self]
    exact fun raw hraw => by simp [(hothers raw hraw).2]
  have hdrop : taken.filter (fun raw => !isSetting raw) = [] := by
    rw [List.filter_eq_nil_iff]
    exact fun raw hraw => by simp [(htaken raw hraw).2]
  rw [otherLines_join hlines hne, List.filter_append, hkeep, hdrop, List.append_nil]

/-! ## What is left of a document -/

/-- A line that breaks nowhere. -/
structure Unbroken (raw : Text) : Prop where
  feed : '\n' ∉ raw
  turn : '\r' ∉ raw

/-- A text that is made of characters of a line that breaks nowhere breaks
nowhere. -/
theorem Unbroken.of_subset {a b : Text} (h : Unbroken a) (hsub : b ⊆ a) : Unbroken b :=
  ⟨fun hmem => h.feed (hsub hmem), fun hmem => h.turn (hsub hmem)⟩

theorem Unbroken.trimEnd {raw : Text} (h : Unbroken raw) : Unbroken (Text.trimEnd raw) :=
  h.of_subset fun _ => Text.mem_of_mem_trimEnd

theorem unbroken_nil : Unbroken [] := ⟨List.not_mem_nil, List.not_mem_nil⟩

/-- Lines of a block that stay in it: comments and blank lines, the last of them
not blank. -/
structure Stays (kept : List Text) : Prop where
  /-- They belong to the block and set nothing. -/
  others : ∀ raw ∈ kept, belongs raw = true ∧ isSetting raw = false
  /-- Each is a line. -/
  lines : ∀ raw ∈ kept, Unbroken raw
  /-- The last one is not blank. -/
  stop : ∀ raw, kept.getLast? = some raw → Text.trim raw ≠ []

/-- The rest of a document without settings lines: it starts with a line that
does not belong to the block. -/
inductive IsContents : Text → Prop
  | nothing : IsContents []
  | lines (first : Text) (rest : List Text) (hstart : Text.trimStart first = first)
      (hfirst : belongs first = false) (hrest : ∀ raw ∈ rest, isSetting raw = false)
      (hlines : ∀ raw ∈ first :: rest, Unbroken raw) :
      IsContents (Document.join (first :: rest))

/-- The lines of a text without carriage returns. -/
theorem unbroken_of_mem_split {t : Text} (ht : '\r' ∉ t) :
    ∀ raw ∈ Document.split t, Unbroken raw := by
  intro raw hraw
  have hpieces : ∀ piece ∈ t.splitOn '\n', '\r' ∉ piece := by
    intro piece hpiece hmem
    obtain ⟨-, a, b, rfl, -⟩ := Text.mem_splitOn hpiece
    exact ht (List.mem_append_left _ (List.mem_append_right _ hmem))
  refine ⟨Document.not_mem_split hraw, ?_⟩
  rw [Document.split_eq_splitOn fun piece hpiece hlast =>
    hpieces piece hpiece (List.mem_of_getLast? hlast)] at hraw
  exact hpieces raw hraw

/-- What is left of the rest of a document. -/
theorem isContents_keptContents {t : Text} (ht : '\r' ∉ t) : IsContents (keptContents t) := by
  have hlines := unbroken_of_mem_split ht
  unfold keptContents split
  dsimp only
  cases htail : (Document.split t).dropWhile belongs with
  | nil => exact .nothing
  | cons first rest =>
      have hfirst : belongs first = false := by
        have hhead := List.head?_dropWhile_not belongs (Document.split t)
        simpa [htail] using hhead
      have htrim := trim_ne_nil_of_not_belongs hfirst
      have hsame : Text.trim (Text.trimStart first) = Text.trim first := Text.trim_trimStart first
      have hmem : ∀ raw ∈ first :: rest, Unbroken raw := fun raw hraw =>
        hlines raw ((List.dropWhile_sublist belongs).subset (htail ▸ hraw))
      have hnew : ∀ raw ∈ Text.trimStart first :: rest, Unbroken raw := by
        intro raw hraw
        rcases List.mem_cons.mp hraw with rfl | hraw
        · exact (hmem first List.mem_cons_self).of_subset fun _ => Text.mem_of_mem_trimStart
        · exact hmem raw (List.mem_cons_of_mem first hraw)
      have hstart : Text.trimStart (Text.trimStart first) = Text.trimStart first :=
        Text.trimStart_eq_self fun _ hc => Text.head_trimStart hc
      -- the first line is no settings line, so it stays the first one
      have hother : isSetting (Text.trimStart first) = false := by
        rw [isSetting_congr hsame]
        exact not_isSetting_of_not_belongs hfirst
      have hjoin : Document.join (Text.trimStart first :: rest) ≠ [] :=
        Document.join_ne_nil (fun raw hraw => (hnew raw hraw).feed) List.mem_cons_self fun hnil =>
          htrim (Text.trim_eq_nil.mpr (Text.trimStart_eq_nil.mp hnil))
      rw [Document.trimStart_join_cons rest htrim,
        otherLines_join (fun raw hraw => (hnew raw hraw).feed) hjoin,
        List.filter_cons_of_pos (by simp [hother]),
          Document.trimStart_join_cons _ (hsame.symm ▸ htrim), hstart]
      refine .lines _ _ hstart ((belongs_congr hsame).trans hfirst) ?_ ?_
      · intro raw hraw
        simpa using (List.mem_filter.mp hraw).2
      · intro raw hraw
        rcases List.mem_cons.mp hraw with rfl | hraw
        · exact hnew _ List.mem_cons_self
        · exact hnew raw (List.mem_cons_of_mem _ (List.mem_filter.mp hraw).1)

/-- What is left of the block of a document. -/
theorem stays_keptLines {t : Text} (ht : '\r' ∉ t) : Stays (keptLines t) := by
  obtain ⟨left, hleft, hfrom⟩ := Document.exists_trimEnd_join ((Document.split t).takeWhile belongs)
  have hline : ∀ raw ∈ left, belongs raw = true ∧ Unbroken raw := by
    intro raw hraw
    obtain ⟨old, hold, hsame⟩ := hfrom raw hraw
    have hbelongs : belongs old = true := List.mem_takeWhile_imp hold
    have hold := unbroken_of_mem_split ht old ((List.takeWhile_sublist _).subset hold)
    rcases hsame with rfl | rfl
    · exact ⟨hbelongs, hold⟩
    · exact ⟨(belongs_congr (Text.trim_trimEnd old)).trans hbelongs, hold.trimEnd⟩
  have hothers : ∀ raw ∈ otherLines (Document.join left), raw ∈ left ∧ isSetting raw = false := by
    intro raw hraw
    by_cases hempty : Document.join left = []
    · simp [hempty, otherLines] at hraw
    · rw [otherLines_join (fun raw hraw => (hline raw hraw).2.feed) hempty, List.mem_filter] at hraw
      simpa using hraw
  have hkept : keptLines t = Document.dropBlankEnd (otherLines (Document.join left)) := by
    rw [← hleft]
    rfl
  rw [hkept]
  refine ⟨?_, ?_, ?_⟩
  · intro raw hraw
    obtain ⟨hmem, hother⟩ := hothers raw (mem_dropBlankEnd hraw)
    exact ⟨(hline raw hmem).1, hother⟩
  · intro raw hraw
    exact (hline raw (hothers raw (mem_dropBlankEnd hraw)).1).2
  · obtain ⟨-, -, -, hstop⟩ := Document.dropBlankEnd_spec (otherLines (Document.join left))
    exact hstop

/-! ## The document that is written, cut again -/

/-- A line of a block that is read as it is written. -/
structure BlockLine (raw : Text) : Prop where
  belongs : SettingsBlock.belongs raw = true
  one_line : '\n' ∉ raw
  stop : raw.getLast? ≠ some '\r'

theorem blockLine_nil : BlockLine [] := ⟨rfl, by simp, by simp⟩

/-- A line that can stand in a block still can without the blanks at its end.
The end of a block is trimmed, so its last line loses them. -/
theorem BlockLine.trimEnd {raw : Text} (h : BlockLine raw) : BlockLine (Text.trimEnd raw) where
  belongs := (belongs_congr (Text.trim_trimEnd raw)).trans h.belongs
  one_line hmem := h.one_line (Text.mem_of_mem_trimEnd hmem)
  stop hlast := absurd (Text.last_trimEnd hlast) (by decide)

section Rewrite

variable {kept newLines lines : List Text} {c : Text}

theorem Stays.blockLine (h : Stays kept) {raw : Text} (hraw : raw ∈ kept) : BlockLine raw :=
  ⟨(h.others raw hraw).1, (h.lines raw hraw).feed, fun hlast =>
    (h.lines raw hraw).turn (List.mem_of_getLast? hlast)⟩

/-- The lines of the rest of a document are read as they stand. -/
theorem split_lines {first : Text} {rest : List Text}
    (hlines : ∀ raw ∈ first :: rest, Unbroken raw) :
    Document.split (Document.join (first :: rest)) = first :: rest := by
  have hcut : (Document.join (first :: rest)).splitOn '\n' = first :: rest :=
    Document.splitOn_join (fun raw hraw => (hlines raw hraw).feed) (by simp)
  rw [Document.split_eq_splitOn, hcut]
  intro raw hraw hlast
  rw [hcut] at hraw
  exact (hlines raw hraw).turn (List.mem_of_getLast? hlast)

theorem IsContents.start (hc : IsContents c) : Text.trimStart c = c := by
  cases hc with
  | nothing => rfl
  | lines first rest hstart hfirst _ _ =>
      rw [Document.trimStart_join_cons rest (trim_ne_nil_of_not_belongs hfirst), hstart]

/-- A text that is the rest of a document has no block, since its first line
belongs to none. -/
theorem IsContents.split_eq (hc : IsContents c) : split c = ([], c) := by
  have hstart := hc.start
  unfold split
  dsimp only
  cases hc with
  | nothing => rfl
  | lines first rest _ hfirst _ hlines =>
      rw [split_lines hlines, List.takeWhile_cons_of_neg (by simp [hfirst]),
        List.dropWhile_cons_of_neg (by simp [hfirst]), hstart]
      rfl

/-- A block and the rest of a document are cut where they meet, so that both are
found again. -/
theorem IsContents.split_append (hc : IsContents c) (hne : lines ≠ [])
    (hlines : ∀ raw ∈ lines, BlockLine raw) :
    split (Document.join lines ++ '\n' :: c) = (Text.trimEnd (Document.join lines), c) := by
  have hstart := hc.start
  have hall : ∀ raw ∈ lines, belongs raw = true := fun raw hraw => (hlines raw hraw).belongs
  unfold split
  dsimp only
  rw [Document.split_join_append hne fun raw hraw => ⟨(hlines raw hraw).one_line,
    (hlines raw hraw).stop⟩, List.takeWhile_append_of_pos hall, List.dropWhile_append_of_pos hall]
  cases hc with
  | nothing =>
      have hblank :
          Text.trimEnd (Document.join (lines ++ [[]])) = Text.trimEnd (Document.join lines) :=
        Document.trimEnd_join_concat_blank lines rfl
      exact Prod.ext hblank rfl
  | lines first rest _ hfirst _ hmem =>
      rw [split_lines hmem, List.takeWhile_cons_of_neg (by simp [hfirst]),
        List.dropWhile_cons_of_neg (by simp [hfirst]), List.append_nil, hstart]

/-- There is nothing to take out of the rest of a document. -/
theorem IsContents.others (hc : IsContents c) :
    Text.trimStart (Document.join (otherLines c)) = c := by
  have hstart := hc.start
  cases hc with
  | nothing => rfl
  | lines first rest _ hfirst hrest hlines =>
      have hothers : ∀ raw ∈ first :: rest, '\n' ∉ raw ∧ isSetting raw = false := by
        intro raw hraw
        refine ⟨(hlines raw hraw).feed, ?_⟩
        rcases List.mem_cons.mp hraw with rfl | hraw
        · exact not_isSetting_of_not_belongs hfirst
        · exact hrest raw hraw
      have hall := @otherLines_join_append _ [] hothers nofun
        ⟨first, by simp, trim_ne_nil_of_not_belongs hfirst⟩
      rw [List.append_nil] at hall
      rw [hall, hstart]

/-- The rest of a document may be ended anew. -/
theorem IsContents.ended (hc : IsContents c) (hne : c ≠ []) :
    IsContents (Text.trimEnd c ++ "\n") := by
  have hended : ∀ lines : List Text, lines ≠ [] → Document.join lines ++ "\n" =
      Document.join (lines ++ [[]]) := by
    intro lines hlines
    rw [Document.join_append hlines (by simp)]
    rfl
  cases hc with
  | nothing => exact absurd rfl hne
  | lines first rest hstart hfirst hrest hlines =>
      clear hne
      -- blank lines at the end are dropped one by one, and the last of the others loses its blanks
      induction rest using List.reverseRecOn with
      | nil =>
          rw [Document.join_singleton, ← Document.join_singleton (Text.trimEnd first),
            hended _ (by simp)]
          refine .lines _ [[]] ?_
            ((belongs_congr (Text.trim_trimEnd first)).trans hfirst) (by decide) ?_
          · exact Text.trimStart_trimEnd hstart
          · intro raw hraw
            rcases List.mem_cons.mp hraw with rfl | hraw
            · exact (hlines first List.mem_cons_self).trimEnd
            · exact List.mem_singleton.mp hraw ▸ unbroken_nil
      | append_singleton rest last ih =>
          by_cases hblank : Text.trim last = []
          · rw [← List.cons_append, Document.trimEnd_join_concat_blank _ hblank]
            refine ih ?_ ?_
            · exact fun raw hraw => hrest raw (List.mem_append_left _ hraw)
            · exact fun raw hraw => hlines raw (List.mem_append_left _ hraw)
          · rw [← List.cons_append, Document.trimEnd_join_concat _ hblank, hended _ (by simp)]
            refine .lines first (rest ++ [Text.trimEnd last] ++ [[]]) hstart hfirst ?_ ?_
            · intro raw hraw
              simp only [List.mem_append, List.mem_singleton] at hraw
              rcases hraw with (hraw | rfl) | rfl
              · exact hrest raw (List.mem_append_left _ hraw)
              · exact (isSetting_congr (Text.trim_trimEnd last)).trans (hrest last (by simp))
              · rfl
            · intro raw hraw
              simp only [List.mem_cons, List.mem_append, List.not_mem_nil, or_false] at hraw
              rcases hraw with rfl | (hraw | rfl) | rfl
              · exact hlines _ List.mem_cons_self
              · exact hlines raw (by simp [hraw])
              · exact (hlines last (by simp)).trimEnd
              · exact unbroken_nil

/-- The block of lines that stay, when there are no new ones.  It is a block
again, and writing it once more leaves it as it is. -/
theorem newBlock_nil_again (hkept : Stays kept) :
    ∃ lines, newBlock kept [] = Document.join lines ∧ (∀ raw ∈ lines, BlockLine raw) ∧
      newBlock (Document.dropBlankEnd (otherLines (newBlock kept []))) [] = newBlock kept [] := by
  have hwhole : ∀ kept, newBlock kept [] = Text.trimEnd (Document.join kept) := by
    intro kept
    simp [newBlock]
  rcases List.eq_nil_or_concat' kept with rfl | ⟨before, final, rfl⟩
  · exact ⟨[], rfl, nofun, rfl⟩
  · have hmem : final ∈ before ++ [final] := by simp
    have hfinal : Text.trim final ≠ [] := hkept.stop final (by simp)
    have hsame : Text.trim (Text.trimEnd final) = Text.trim final := Text.trim_trimEnd final
    have hblock :
        newBlock (before ++ [final]) [] = Document.join (before ++ [Text.trimEnd final]) := by
      rw [hwhole, Document.trimEnd_join_concat before hfinal]
    have hlines : ∀ raw ∈ before ++ [Text.trimEnd final], BlockLine raw ∧
        isSetting raw = false := by
      intro raw hraw
      rcases List.mem_append.mp hraw with hraw | hraw
      · have hraw := List.mem_append_left [final] hraw
        exact ⟨hkept.blockLine hraw, (hkept.others raw hraw).2⟩
      · rw [List.mem_singleton.mp hraw]
        exact ⟨(hkept.blockLine hmem).trimEnd,
          (isSetting_congr hsame).trans (hkept.others final hmem).2⟩
    have hstill : Text.trim (Text.trimEnd final) ≠ [] := hsame.symm ▸ hfinal
    have hothers :
        otherLines (newBlock (before ++ [final]) []) = before ++ [Text.trimEnd final] := by
      have hall := @otherLines_join_append _ []
        (fun raw hraw => ⟨(hlines raw hraw).1.one_line, (hlines raw hraw).2⟩) nofun
        ⟨Text.trimEnd final, by simp, hstill⟩
      rwa [List.append_nil, ← hblock] at hall
    refine ⟨_, hblock, fun raw hraw => (hlines raw hraw).1, ?_⟩
    have htwice : Text.trimEnd (Text.trimEnd final) = Text.trimEnd final :=
      Text.trimEnd_trimEnd final
    have hkeep : Document.dropBlankEnd (before ++ [Text.trimEnd final]) =
        before ++ [Text.trimEnd final] :=
      Document.dropBlankEnd_of_last (by simpa using hstill)
    rw [hothers, hkeep, hwhole, Document.trimEnd_join_concat before hstill, htwice, hblock]

/-- **The new block is found again.**  Without its settings lines it is what was
kept, up to blanks at the end, so it is written as before. -/
theorem newBlock_again (hkept : Stays kept)
    (hnew : ∀ raw ∈ newLines, isSetting raw = true ∧ BlockLine raw) :
    ∃ lines, newBlock kept newLines = Document.join lines ∧ (∀ raw ∈ lines, BlockLine raw) ∧
      newBlock (Document.dropBlankEnd (otherLines (newBlock kept newLines))) newLines =
        newBlock kept newLines := by
  rcases List.eq_nil_or_concat' newLines with rfl | ⟨init, last, rfl⟩
  · exact newBlock_nil_again hkept
  · obtain ⟨hsetting, hlast⟩ := hnew last (by simp)
    obtain ⟨divider, hwhole, hdivider⟩ := exists_divider kept (init ++ [last])
    have hblock : newBlock kept (init ++ [last]) =
        Document.join ((kept ++ divider) ++ (init ++ [Text.trimEnd last])) := by
      rw [hwhole, ← List.append_assoc,
        Document.trimEnd_join_concat _ (trim_ne_nil_of_isSetting hsetting),
        List.append_assoc _ init]
    -- the divider is blank, and it is dropped again
    have hdropped : Document.dropBlankEnd (kept ++ divider) = kept := by
      rcases hdivider with rfl | rfl
      · rw [List.append_nil, Document.dropBlankEnd_of_last hkept.stop]
      · rw [Document.dropBlankEnd_concat_blank, Document.dropBlankEnd_of_last hkept.stop]
    have hfree : ∀ raw ∈ kept ++ divider, BlockLine raw ∧ isSetting raw = false := by
      intro raw hraw
      rcases List.mem_append.mp hraw with hraw | hraw
      · exact ⟨hkept.blockLine hraw, (hkept.others raw hraw).2⟩
      · rcases hdivider with rfl | rfl
        · cases hraw
        · rw [List.mem_singleton.mp hraw]
          exact ⟨blockLine_nil, rfl⟩
    have hset : ∀ raw ∈ init ++ [Text.trimEnd last], BlockLine raw ∧ isSetting raw = true := by
      intro raw hraw
      rcases List.mem_append.mp hraw with hraw | hraw
      · exact (hnew raw (List.mem_append_left _ hraw)).symm
      · rw [List.mem_singleton.mp hraw]
        exact ⟨hlast.trimEnd, (isSetting_congr (Text.trim_trimEnd last)).trans hsetting⟩
    have hlines : ∀ raw ∈ (kept ++ divider) ++ (init ++ [Text.trimEnd last]), BlockLine raw := by
      intro raw hraw
      rcases List.mem_append.mp hraw with hraw | hraw
      · exact (hfree raw hraw).1
      · exact (hset raw hraw).1
    have hothers : otherLines (newBlock kept (init ++ [last])) = kept ++ divider := by
      have hmem : Text.trimEnd last ∈ init ++ [Text.trimEnd last] := by simp
      rw [hblock]
      exact otherLines_join_append
        (fun raw hraw => ⟨(hfree raw hraw).1.one_line, (hfree raw hraw).2⟩)
        (fun raw hraw => ⟨(hset raw hraw).1.one_line, (hset raw hraw).2⟩)
        ⟨_, List.mem_append_right _ hmem, trim_ne_nil_of_isSetting (hset _ hmem).2⟩
    exact ⟨_, hblock, hlines, by rw [hothers, hdropped]⟩

/-- A block with nothing below it. -/
theorem arrange_nil {block : Text} (hne : block ≠ []) (htrim : Text.trimEnd block = block) :
    arrange block [] = block ++ '\n' :: [] := by
  have hblank : Text.trimEnd (block ++ ['\n', '\n']) = Text.trimEnd block :=
    Text.trimEnd_append_blank (by simp [Text.isBlank]) block
  unfold arrange
  rw [if_neg (by simpa using hne), List.append_nil]
  exact congrArg (· ++ ['\n']) (hblank.trans htrim)

/-- A block with something below it. -/
theorem arrange_of_not_blank {block : Text} (hne : block ≠ []) (hc : ¬ Text.AllBlank c) :
    arrange block c = (block ++ ['\n']) ++ '\n' :: (Text.trimEnd c ++ "\n") := by
  unfold arrange
  rw [if_neg (by simpa using hne), Text.trimEnd_append hc]
  simp

/-- The end of what is below a block is trimmed before it is written. -/
theorem arrange_ended {block : Text} (hne : block ≠ []) (c : Text) :
    arrange block (Text.trimEnd c ++ "\n") = arrange block c := by
  have hblank : Text.AllBlank ['\n'] := Text.allBlank_singleton (by decide)
  unfold arrange
  rw [if_neg (by simpa using hne), if_neg (by simpa using hne)]
  change Text.trimEnd (block ++ "\n\n" ++ (Text.trimEnd c ++ ['\n'])) ++ _ = _
  rw [← List.append_assoc, Text.trimEnd_append_blank hblank, Text.trimEnd_append_trimEnd]

/-- A document that was written is written in the same way again.  This is why
writing settings twice is writing them once. -/
theorem replaceLines_arrange (hkept : Stays kept)
    (hnew : ∀ raw ∈ newLines, isSetting raw = true ∧ BlockLine raw) (hc : IsContents c) :
    replaceLines (arrange (newBlock kept newLines) c) newLines =
      arrange (newBlock kept newLines) c := by
  obtain ⟨lines, hblock, hlines, hagain⟩ := newBlock_again hkept hnew
  have htrim : Text.trimEnd (newBlock kept newLines) = newBlock kept newLines :=
    Text.trimEnd_trimEnd _
  generalize newBlock kept newLines = block at hblock hagain htrim ⊢
  -- it is enough to know where the document is cut
  have hcut : ∀ {t contents : Text}, split t = (block, contents) → IsContents contents →
      replaceLines t newLines = arrange block contents := by
    intro t contents hsplit hcontents
    rw [replaceLines_eq, keptLines, keptContents, hsplit, hagain, hcontents.others]
  by_cases hempty : block = []
  · have harrange : arrange block c = c := by
      rw [hempty]
      rfl
    rw [harrange]
    exact (hcut (hempty ▸ hc.split_eq) hc).trans harrange
  · have hne : lines ≠ [] := by
      rintro rfl
      exact hempty hblock
    by_cases hnothing : c = []
    · have hsplit : split (block ++ '\n' :: []) = (block, []) := by
        rw [hblock, IsContents.nothing.split_append hne hlines, ← hblock, htrim]
      rw [hnothing, arrange_nil hempty htrim, hcut hsplit .nothing, arrange_nil hempty htrim]
    · have hfilled : ¬ Text.AllBlank c := fun hblank =>
        hnothing (hc.start.symm.trans (Text.trimStart_eq_nil.mpr hblank))
      have hmore : block ++ ['\n'] = Document.join (lines ++ [[]]) := by
        rw [Document.join_append hne (by simp), ← hblock]
        rfl
      have hsplit : split ((block ++ ['\n']) ++ '\n' :: (Text.trimEnd c ++ "\n")) =
          (block, Text.trimEnd c ++ "\n") := by
        have hall : ∀ raw ∈ lines ++ [[]], BlockLine raw := by
          intro raw hraw
          rcases List.mem_append.mp hraw with hraw | hraw
          · exact hlines raw hraw
          · exact List.mem_singleton.mp hraw ▸ blockLine_nil
        rw [hmore, (hc.ended hnothing).split_append (by simp) hall,
          Document.trimEnd_join_concat_blank lines rfl, ← hblock, htrim]
      rw [arrange_of_not_blank hempty hfilled, hcut hsplit (hc.ended hnothing),
        arrange_ended hempty, arrange_of_not_blank hempty hfilled]

/-- **Replacing the settings lines once more changes nothing.**  The document
that was written is cut into the same block and the same rest. -/
theorem replaceLines_replaceLines {t : Text} (ht : '\r' ∉ t)
    (hnew : ∀ raw ∈ newLines, isSetting raw = true ∧ BlockLine raw) :
    replaceLines (replaceLines t newLines) newLines = replaceLines t newLines :=
  replaceLines_arrange (stays_keptLines ht) hnew (isContents_keptContents ht)

/-! ## The lines of the document -/

/-- The lines that are neither blank nor taken for settings lines stay as they
are, but for blanks around them, and the settings lines are the new ones. -/
theorem linesWhere_replaceLines (t : Text)
    (hnew : ∀ raw ∈ newLines, isSetting raw = true ∧ BlockLine raw) :
    Document.linesWhere isContent (replaceLines t newLines) = Document.linesWhere isContent t ∧
      Document.linesWhere isSetting (replaceLines t newLines) = newLines.map Text.trim := by
  have hone : ∀ raw ∈ newLines, '\n' ∉ raw := fun raw hraw => (hnew raw hraw).2.one_line
  have hset : Document.IgnoresBlanks (Document.pick isSetting) :=
    Document.ignoresBlanks_pick rfl fun raw => isSetting_congr (Text.trim_trim raw)
  have hcontent : Document.IgnoresBlanks (Document.pick isContent) := by
    apply Document.ignoresBlanks_pick rfl
    intro raw
    unfold isContent
    rw [isSetting_congr (Text.trim_trim raw), Text.trim_trim]
  rw [Document.linesWhere_eq_gather hcontent, Document.linesWhere_eq_gather hcontent,
    Document.linesWhere_eq_gather hset, gather_replaced hcontent t hone,
      gather_replaced hset t hone]
  constructor
  · have hothers : unlessSetting (Document.pick isContent) = Document.pick isContent := by
      funext raw
      by_cases hraw : isSetting raw = true
      · simp [unlessSetting, Document.pick, isContent, hraw]
      · simp [unlessSetting, hraw]
    have hnone : newLines.flatMap (Document.pick isContent) = [] := by
      rw [List.flatMap_eq_nil_iff]
      intro raw hraw
      simp [Document.pick, isContent, (hnew raw hraw).1]
    rw [hothers, hnone, List.append_nil, ← List.flatMap_append, List.takeWhile_append_dropWhile,
      Document.flatMap_split hcontent]
  · have hothers : unlessSetting (Document.pick isSetting) = fun _ => [] := by
      funext raw
      by_cases hraw : isSetting raw = true
      · simp [unlessSetting, hraw]
      · simp [unlessSetting, Document.pick, hraw]
    have hall : newLines.flatMap (Document.pick isSetting) = newLines.map Text.trim := by
      rw [← List.flatMap_singleton' (newLines.map Text.trim), List.flatMap_map]
      apply List.flatMap_congr
      intro raw hraw
      simp [Document.pick, (hnew raw hraw).1]
    have hempty : ∀ lines : List Text, lines.flatMap (fun _ => ([] : List Text)) = [] := by simp
    rw [hothers, hall, hempty, hempty, List.nil_append, List.append_nil]

end Rewrite

end SettingsBlock

/-- A line that is written for a setting and taken for a settings line is read
as it stands. -/
theorem SettingsBlock.blockLine_of_isSetting {name v : Text} {s : Setting}
    (hname : IsSettingName name s) (hv : Text.Tight v) (h : isSetting (name ++ ": " ++ v) = true) :
    Text.Tight (name ++ ": " ++ v) ∧ BlockLine (name ++ ": " ++ v) := by
  have hcolon : ':' ∉ name := fun hmem => (hname.plain _ hmem).1 rfl
  have hstart : ∀ rest c, (name ++ ':' :: rest).head? = some c → Text.isBlank c = false := by
    intro rest c hc
    have hfirst := hname.start
    cases hcons : name with
    | nil => simp [hcons] at hfirst
    | cons d rest =>
        rw [hcons, List.cons_append, List.head?_cons, Option.some.injEq] at hc
        simpa [hcons, hc] using hfirst
  have hraw : name ++ ": " ++ v = name ++ ':' :: ' ' :: v := by simp
  rw [hraw] at h ⊢
  have hparts : (Line.settingParts? (Text.trim (name ++ ':' :: ' ' :: v))).isSome = true := by
    unfold isSetting at h
    simp only [Bool.and_eq_true] at h
    exact h.2
  -- a name alone is no settings line
  have hne : v ≠ [] := by
    rintro rfl
    have htight : Text.Tight (name ++ [':']) := by
      refine ⟨hstart [], ?_⟩
      intro c hc
      rw [List.getLast?_concat, Option.some.injEq] at hc
      exact hc ▸ rfl
    have hname : Text.trim (name ++ [':', ' ']) = name ++ [':'] := by
      rw [show name ++ [':', ' '] = (name ++ [':']) ++ [' '] by simp,
        Text.trim_append_blank (Text.allBlank_singleton (by decide)), Text.trim_of_tight htight]
    rw [hname] at hparts
    exact absurd (Line.hasValue_of_settingParts? hcolon hparts) (by decide)
  have htight : Text.Tight (name ++ ':' :: ' ' :: v) := by
    refine ⟨hstart _, ?_⟩
    intro c hc
    rw [show name ++ ':' :: ' ' :: v = (name ++ [':', ' ']) ++ v by simp,
      List.getLast?_append_of_ne_nil _ hne] at hc
    exact hv.stop c hc
  have hvalue : Text.trimStart (' ' :: v) = v := by
    have hblank := Text.trimStart_of_blank_append (Text.allBlank_singleton (c := ' ') (by decide)) v
    rw [Text.trimStart_eq_self hv.start] at hblank
    exact hblank
  rw [Text.trim_of_tight htight] at hparts
  have hone := Line.not_mem_of_hasValue (Line.hasValue_of_settingParts? hcolon hparts)
  rw [hvalue] at hone
  have hfeed : '\n' ∉ v := hone hne fun hlast => absurd (hv.stop _ hlast) (by decide)
  refine ⟨htight, belongs_of_isSetting h, ?_, fun hlast => absurd (htight.stop _ hlast) (by decide)⟩
  simp only [List.mem_append, List.mem_cons, not_or]
  exact ⟨fun hmem => (hname.plain _ hmem).2.2.2 rfl, by decide, by decide, hfeed⟩

/-- **Settings are replaced once and for all.**  In a document without carriage
returns, settings whose lines are all taken for settings lines are written so
that writing them again changes nothing.  The settings lines of the new document
are the given ones, and its other lines are those of the old one, up to blank
lines and blanks around them. -/
theorem replace_replace {t : Text} (ht : '\r' ∉ t) {settings : Settings} {lines : List Text}
    (hlines : settings.toLines = .ok lines)
    (hset : ∀ raw ∈ lines, SettingsBlock.isSetting raw = true) :
    ∃ new, SettingsBlock.replace t settings = .ok new ∧
    SettingsBlock.replace new settings = .ok new ∧
      Document.linesWhere SettingsBlock.isContent new =
        Document.linesWhere SettingsBlock.isContent t ∧
      Document.linesWhere SettingsBlock.isSetting new = lines := by
  have hwritten : ∀ raw ∈ lines, Text.Tight raw ∧ SettingsBlock.BlockLine raw := by
    intro raw hraw
    obtain ⟨line, hline, v, hv, rfl⟩ := Settings.exists_of_mem_toLines hlines hraw
    exact SettingsBlock.blockLine_of_isSetting
      (isSettingName_settingLines line hline) hv (hset _ hraw)
  have hnew : ∀ raw ∈ lines, SettingsBlock.isSetting raw = true ∧ SettingsBlock.BlockLine raw :=
    fun raw hraw => ⟨hset raw hraw, (hwritten raw hraw).2⟩
  have hreplace :
      ∀ t, SettingsBlock.replace t settings = .ok (SettingsBlock.replaceLines t lines) := by
    intro t
    unfold SettingsBlock.replace
    rw [hlines]
  have htrim : lines.map Text.trim = lines := by
    conv_rhs => rw [← List.map_id lines]
    exact List.map_congr_left fun raw hraw => Text.trim_of_tight (hwritten raw hraw).1
  obtain ⟨hcontent, hsettings⟩ := SettingsBlock.linesWhere_replaceLines t hnew
  refine ⟨SettingsBlock.replaceLines t lines, hreplace t, ?_, hcontent, hsettings.trans htrim⟩
  rw [hreplace, SettingsBlock.replaceLines_replaceLines ht hnew]

/-- Comments of the block stay above the new lines, an old settings line below
is taken out, and a second time nothing changes. -/
theorem replace_replace_of_scattered_lines :
    '\r' ∉ "# a map\n\nTitle: Old\n\n  A -> B [red]\nbackground: blue\n\n B:: X  ".toList ∧
    (((({ } : Settings).setText .title (some "Sales #1")).setNumber .titleSize
      (some (.whole 20))).toLines =
      .ok ["Title: Sales \\#1".toList, "Title size: 20".toList]) ∧
    ∃ new, SettingsBlock.replace
      "# a map\n\nTitle: Old\n\n  A -> B [red]\nbackground: blue\n\n B:: X  "
        ((({ } : Settings).setText .title (some "Sales #1")).setNumber .titleSize
          (some (.whole 20))) = .ok new ∧
      SettingsBlock.replace new
        ((({ } : Settings).setText .title (some "Sales #1")).setNumber .titleSize
          (some (.whole 20))) = .ok new ∧
      Document.linesWhere SettingsBlock.isContent new =
        ["# a map".toList, "A -> B [red]".toList, "B:: X".toList] ∧
      Document.linesWhere SettingsBlock.isSetting new =
        ["Title: Sales \\#1".toList, "Title size: 20".toList] := by
  have ht :
      '\r' ∉
        "# a map\n\nTitle: Old\n\n  A -> B [red]\nbackground: blue\n\n B:: X  ".toList := by decide
  have hlines : ((({ } : Settings).setText .title (some "Sales #1")).setNumber .titleSize
      (some (.whole 20))).toLines =
        .ok ["Title: Sales \\#1".toList, "Title size: 20".toList] := by rfl
  obtain ⟨new, hnew, hagain, hcontent, hsettings⟩ := replace_replace ht hlines (by decide +kernel)
  have hold : Document.linesWhere SettingsBlock.isContent
      "# a map\n\nTitle: Old\n\n  A -> B [red]\nbackground: blue\n\n B:: X  ".toList =
        ["# a map".toList, "A -> B [red]".toList, "B:: X".toList] := by decide +kernel
  exact ⟨ht, hlines, new, hnew, hagain, hcontent.trans hold, hsettings⟩

end LineDiagram
