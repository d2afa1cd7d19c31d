import LineDiagram.Document
import LineDiagram.Line.Basic
import LineDiagram.Proofs.Comment
import Mathlib.Data.List.DropRight

/-!
# Documents written and read again

The lines of a document hold no line feed, so a document that is written is cut
at the same places when it is read.  A line may lose a carriage return at its
end on the way; that is a blank, and it does not change what the line says.

* `split_join_append`, `trimEnd_join_concat`, `trimStart_join_cons` — lines that
  are written, cut or trimmed;
* `contents_split_join` — lines that are written and read again say the same;
* `gather_join`, `flatMap_split` — what is found in the lines of a text,
  whatever the blanks around them;
* `linesWhere_eq_gather` — so are the lines of some kind;
* `content_replaced` — a line that took the place of another, written and read
  again.
-/

namespace LineDiagram.Document

theorem mem_dropReturn {c : Char} {raw : Text} (h : c ∈ dropReturn raw) : c ∈ raw := by
  unfold dropReturn at h
  split at h
  · exact List.dropLast_subset raw h
  · exact h

/-- The lines of a document hold no line feed. -/
theorem not_mem_split {t raw : Text} (h : raw ∈ split t) : '\n' ∉ raw := by
  unfold split at h
  rcases List.mem_append.mp h with hinit | hlast
  · obtain ⟨part, hpart, rfl⟩ := List.mem_map.mp hinit
    intro hmem
    exact Text.not_mem_splitOn (List.dropLast_subset _ hpart) (mem_dropReturn hmem)
  · rw [Option.mem_toList] at hlast
    exact Text.not_mem_splitOn (List.mem_of_getLast? hlast)

/-- A carriage return at the end of a line does not change what it says. -/
theorem contentOfRaw_dropReturn (raw : Text) :
    Line.contentOfRaw (dropReturn raw) = Line.contentOfRaw raw := by
  have hstrip : Comment.strip (dropReturn raw) = Comment.strip raw := by
    unfold dropReturn
    split
    · rename_i hlast
      have hreturn : raw = raw.dropLast ++ ['\r'] :=
        (List.dropLast_append_getLast? '\r' (by simpa using hlast)).symm
      conv_rhs => rw [hreturn]
      have hblank : Text.AllBlank ['\r'] :=
        Text.allBlank_singleton (by decide)
      exact (Comment.strip_append_blank hblank raw.dropLast).symm
    · rfl
  unfold Line.contentOfRaw
  rw [hstrip]

theorem join_singleton (raw : Text) : join [raw] = raw := Text.join_singleton _ raw

/-- Two groups of lines, neither of them empty, are written with a line feed
between them. -/
theorem join_append {first second : List Text} (hfirst : first ≠ []) (hsecond : second ≠ []) :
    join (first ++ second) = join first ++ '\n' :: join second := by
  obtain ⟨next, others, rfl⟩ := List.exists_cons_of_ne_nil hsecond
  induction first with
  | nil => exact absurd rfl hfirst
  | cons raw first ih =>
      cases first with
      | nil => simp [join, Text.join, List.intercalate_cons_cons]
      | cons next first =>
          have hrest := ih (by simp)
          unfold join Text.join at hrest ⊢
          simp only [List.cons_append, List.intercalate_cons_cons] at hrest ⊢
          rw [hrest]
          simp

/-- Lines that are written are read again, if none of them holds a line feed and
there is at least one. -/
theorem splitOn_join {lines : List Text} (hlines : ∀ raw ∈ lines, '\n' ∉ raw) (hne : lines ≠ []) :
    (join lines).splitOn '\n' = lines := List.splitOn_intercalate '\n' hlines hne

/-- Lines are written as something if one of them is not empty. -/
theorem join_ne_nil {lines : List Text} (hlines : ∀ raw ∈ lines, '\n' ∉ raw) {raw : Text}
    (hraw : raw ∈ lines) (hne : raw ≠ []) : join lines ≠ [] := by
  intro hnil
  have hcut := splitOn_join hlines (List.ne_nil_of_mem hraw)
  rw [hnil] at hcut
  rw [← hcut] at hraw
  exact hne (List.mem_singleton.mp hraw)

/-- The end of a document is trimmed in its last line, unless that is blank. -/
theorem trimEnd_join_concat (lines : List Text) {last : Text} (h : Text.trim last ≠ []) :
    Text.trimEnd (join (lines ++ [last])) = join (lines ++ [Text.trimEnd last]) := by
  have hlast : ¬ Text.AllBlank last := fun hblank => h (Text.trim_eq_nil.mpr hblank)
  by_cases hnil : lines = []
  · rw [hnil, List.nil_append, List.nil_append, join_singleton, join_singleton]
  · rw [join_append hnil (by simp), join_append hnil (by simp), join_singleton, join_singleton,
      ← List.singleton_append, ← List.append_assoc, Text.trimEnd_append hlast, List.append_assoc]
    rfl

/-- A blank line at the end of a document is trimmed away. -/
theorem trimEnd_join_concat_blank (lines : List Text) {last : Text} (h : Text.trim last = []) :
    Text.trimEnd (join (lines ++ [last])) = Text.trimEnd (join lines) := by
  have hlast : Text.AllBlank last := Text.trim_eq_nil.mp h
  by_cases hnil : lines = []
  · rw [hnil, List.nil_append, join_singleton, Text.trimEnd_eq_nil.mpr hlast]
    rfl
  · rw [join_append hnil (by simp), join_singleton]
    exact Text.trimEnd_append_blank (Text.allBlank_cons.mpr ⟨by decide, hlast⟩) _

/-- The start of a document is trimmed in its first line, unless that is
blank. -/
theorem trimStart_join_cons (lines : List Text) {first : Text} (h : Text.trim first ≠ []) :
    Text.trimStart (join (first :: lines)) = join (Text.trimStart first :: lines) := by
  have hfirst : ¬ Text.AllBlank first := fun hblank => h (Text.trim_eq_nil.mpr hblank)
  by_cases hnil : lines = []
  · rw [hnil, join_singleton, join_singleton]
  · rw [← List.singleton_append, join_append (by simp) hnil,
      ← List.singleton_append (x := Text.trimStart first),
      join_append (by simp) hnil, join_singleton, join_singleton, Text.trimStart_append hfirst]

/-- Blanks at the end of a document take whole lines and the end of one line;
all other lines stay as they are. -/
theorem exists_trimEnd_join (lines : List Text) :
    ∃ left, Text.trimEnd (join lines) = join left ∧
      ∀ raw ∈ left, ∃ old ∈ lines, raw = old ∨ raw = Text.trimEnd old := by
  induction lines using List.reverseRecOn with
  | nil => exact ⟨[], rfl, nofun⟩
  | append_singleton lines last ih =>
      by_cases hblank : Text.trim last = []
      · obtain ⟨left, hleft, hfrom⟩ := ih
        refine ⟨left, (trimEnd_join_concat_blank lines hblank).trans hleft, ?_⟩
        intro raw hraw
        obtain ⟨old, hold, hsame⟩ := hfrom raw hraw
        exact ⟨old, List.mem_append_left _ hold, hsame⟩
      · refine ⟨lines ++ [Text.trimEnd last], trimEnd_join_concat lines hblank, ?_⟩
        intro raw hraw
        rcases List.mem_append.mp hraw with hraw | hraw
        · exact ⟨raw, List.mem_append_left _ hraw, .inl rfl⟩
        · exact ⟨last, by simp, .inr (List.mem_singleton.mp hraw)⟩

theorem dropLast_append_last (lines : List Text) :
    lines.dropLast ++ lines.getLast?.toList = lines := by
  rcases List.eq_nil_or_concat lines with rfl | ⟨init, last, rfl⟩
  · rfl
  · simp

/-- Lines that end in no carriage return lose none. -/
theorem map_dropReturn {lines : List Text} (h : ∀ raw ∈ lines, raw.getLast? ≠ some '\r') :
    lines.map dropReturn = lines := by
  conv_rhs => rw [← List.map_id lines]
  apply List.map_congr_left
  intro raw hraw
  simp [dropReturn, h raw hraw]

/-- Lines without a carriage return at their end are read as they stand between
the line feeds. -/
theorem split_eq_splitOn {t : Text} (h : ∀ raw ∈ t.splitOn '\n', raw.getLast? ≠ some '\r') :
    split t = t.splitOn '\n' := by
  unfold split
  dsimp only
  rw [map_dropReturn fun raw hraw => h raw (List.dropLast_subset _ hraw), dropLast_append_last]

/-- Lines that are written before a text are read before its lines. -/
theorem split_join_append {lines : List Text} (hne : lines ≠ [])
    (hlines : ∀ raw ∈ lines, '\n' ∉ raw ∧ raw.getLast? ≠ some '\r') (t : Text) :
    split (join lines ++ '\n' :: t) = lines ++ split t := by
  have hrest : t.splitOn '\n' ≠ [] := List.splitOn_ne_nil _ _
  unfold split
  dsimp only
  rw [List.splitOn_append_cons_self, splitOn_join (fun raw hraw => (hlines raw hraw).1) hne,
    List.dropLast_append_of_ne_nil hrest, List.getLast?_append_of_ne_nil _ hrest, List.map_append,
    map_dropReturn fun raw hraw => (hlines raw hraw).2, List.append_assoc]

/-- Lines that are written and read again lose a carriage return at their end,
the last one apart. -/
theorem split_join {lines : List Text} (hne : lines ≠ []) (hlines : ∀ raw ∈ lines, '\n' ∉ raw) :
    split (join lines) = lines.dropLast.map dropReturn ++ lines.getLast?.toList := by
  unfold split
  rw [splitOn_join hlines hne]

/-- **Lines that are written and read again say the same.**  They may lose
carriage returns at their ends, which are blanks and have no say in what a line
says. -/
theorem contents_split_join {lines : List Text} (hne : lines ≠ [])
    (hlines : ∀ raw ∈ lines, '\n' ∉ raw) :
    (split (join lines)).map Line.contentOfRaw = lines.map Line.contentOfRaw := by
  have hcontent : (Line.contentOfRaw ∘ dropReturn) = Line.contentOfRaw :=
    funext contentOfRaw_dropReturn
  rw [split_join hne hlines, List.map_append, List.map_map, hcontent, ← List.map_append,
    dropLast_append_last]

/-- Only blank lines are dropped from the end, and all of them: the last line
that is left is not blank. -/
theorem dropBlankEnd_spec (lines : List Text) :
    ∃ blanks, lines = dropBlankEnd lines ++ blanks ∧
      (∀ raw ∈ blanks, Text.trim raw = []) ∧
      ∀ raw, (dropBlankEnd lines).getLast? = some raw → Text.trim raw ≠ [] := by
  have hdrop : dropBlankEnd lines =
      lines.rdropWhile fun raw => (Text.trim raw).isEmpty := rfl
  rw [hdrop]
  refine ⟨lines.rtakeWhile fun raw => (Text.trim raw).isEmpty, ?_, ?_, ?_⟩
  · exact List.rdropWhile_append_rtakeWhile.symm
  · intro raw hraw
    exact List.isEmpty_iff.mp
      (List.mem_rtakeWhile_imp (p := fun raw => (Text.trim raw).isEmpty) hraw)
  · intro raw hraw htrim
    have hne : (lines.rdropWhile fun raw => (Text.trim raw).isEmpty) ≠ [] := by
      intro hnil
      simp [hnil] at hraw
    have hlast := List.rdropWhile_last_not (fun raw => (Text.trim raw).isEmpty) lines hne
    rw [List.getLast?_eq_some_getLast hne, Option.some_inj] at hraw
    rw [hraw, htrim] at hlast
    exact hlast rfl

/-- Blank lines at the end are dropped, and nothing else. -/
theorem dropBlankEnd_of_last {lines : List Text}
    (h : ∀ raw, lines.getLast? = some raw → Text.trim raw ≠ []) : dropBlankEnd lines = lines := by
  rcases List.eq_nil_or_concat lines with rfl | ⟨init, last, rfl⟩
  · rfl
  · have hlast := h last (by simp)
    simp [dropBlankEnd, hlast]

/-- One empty line at the end makes no difference once blank lines at the end
are dropped. -/
theorem dropBlankEnd_concat_blank (lines : List Text) :
    dropBlankEnd (lines ++ [[]]) = dropBlankEnd lines := by
  unfold dropBlankEnd
  rw [List.reverse_append]
  rfl

/-! ## What the lines of a text add up to -/

/-- A function of lines that does not see the blanks around a line and finds
nothing in a blank one. -/
structure IgnoresBlanks {α : Type} (f : Text → List α) : Prop where
  nil : f [] = []
  trim : ∀ raw, f (Text.trim raw) = f raw

/-- What a function finds in the lines of a text, in order. -/
def gather {α : Type} (f : Text → List α) (t : Text) : List α := (t.splitOn '\n').flatMap f

section Gather

variable {α : Type} {f : Text → List α}

/-- What is found in two groups of lines is what is found in the first, and then
what is found in the second. -/
theorem gather_append (a b : Text) : gather f (a ++ '\n' :: b) = gather f a ++ gather f b := by
  unfold gather
  rw [List.splitOn_append_cons_self, List.flatMap_append]

theorem gather_of_not_mem {t : Text} (h : '\n' ∉ t) : gather f t = f t := by
  unfold gather
  rw [List.splitOn_eq_singleton h, List.flatMap_singleton]

/-- A fact about texts of one line, and kept when a line is put in front, is a
fact about all texts. -/
theorem lines_induction {P : Text → Prop} (line : ∀ t, '\n' ∉ t → P t)
    (cons : ∀ first rest, '\n' ∉ first → P rest → P (first ++ '\n' :: rest)) (t : Text) : P t := by
  induction hlength : t.length using Nat.strong_induction_on generalizing t with
  | _ n ih =>
      by_cases hmem : '\n' ∈ t
      · obtain ⟨first, rest, rfl, hfirst⟩ := List.eq_append_cons_of_mem hmem
        refine cons first rest hfirst (ih rest.length ?_ rest rfl)
        rw [← hlength, List.length_append, List.length_cons]
        omega
      · exact line t hmem

/-- Blanks in front of a line make no difference to what is found in it. -/
theorem IgnoresBlanks.blank_append (hf : IgnoresBlanks f) {b : Text}
    (hb : Text.AllBlank b) (raw : Text) :
    f (b ++ raw) = f raw := by
  rw [← hf.trim, ← hf.trim raw]
  congr 1
  simpa using Text.trim_of_blanks_around hb Text.allBlank_nil raw

theorem IgnoresBlanks.append_blank (hf : IgnoresBlanks f) {b : Text}
    (hb : Text.AllBlank b) (raw : Text) :
    f (raw ++ b) = f raw := by
  rw [← hf.trim, Text.trim_append_blank hb, hf.trim]

/-- Nothing is found in a blank text. -/
theorem gather_blank (hf : IgnoresBlanks f) {b : Text} (hb : Text.AllBlank b) :
    gather f b = [] := by
  induction b using lines_induction with
  | line b hline =>
      rw [gather_of_not_mem hline, ← List.append_nil b, hf.blank_append hb, hf.nil]
  | cons first rest hfirst ih =>
      obtain ⟨hblank, hrest⟩ := Text.allBlank_append.mp hb
      rw [gather_append, ih (Text.allBlank_cons.mp hrest).2, gather_of_not_mem hfirst,
        ← List.append_nil first, hf.blank_append hblank, hf.nil]
      rfl

/-- Blanks behind a text make no difference to what is found in its lines, even
if there are line feeds among the blanks: the lines that they add are blank. -/
theorem gather_append_blank (hf : IgnoresBlanks f) {b : Text} (hb : Text.AllBlank b) (t : Text) :
    gather f (t ++ b) = gather f t := by
  induction t using lines_induction with
  | line t hline =>
      -- the last line takes up the first of the blank ones
      induction b using lines_induction with
      | line b hblank =>
          have hwhole : '\n' ∉ t ++ b := by simp [hline, hblank]
          rw [gather_of_not_mem hwhole, gather_of_not_mem hline, hf.append_blank hb]
      | cons first rest hfirst _ =>
          obtain ⟨hstart, hrest⟩ := Text.allBlank_append.mp hb
          have hwhole : '\n' ∉ t ++ first := by simp [hline, hfirst]
          rw [← List.append_assoc, gather_append, gather_blank hf (Text.allBlank_cons.mp hrest).2,
            List.append_nil, gather_of_not_mem hwhole, gather_of_not_mem hline,
            hf.append_blank hstart]
  | cons first rest _ ih =>
      rw [List.append_assoc, List.cons_append, gather_append, gather_append, ih]

/-- Blanks in front of a text make no difference in the same way. -/
theorem gather_blank_append (hf : IgnoresBlanks f) {b : Text} (hb : Text.AllBlank b) (t : Text) :
    gather f (b ++ t) = gather f t := by
  induction b using lines_induction with
  | line b hline =>
      -- the first line takes up the last of the blank ones
      induction t using lines_induction with
      | line t ht =>
          have hwhole : '\n' ∉ b ++ t := by simp [hline, ht]
          rw [gather_of_not_mem hwhole, gather_of_not_mem ht, hf.blank_append hb]
      | cons first rest hfirst _ =>
          have hwhole : '\n' ∉ b ++ first := by simp [hline, hfirst]
          rw [← List.append_assoc, gather_append, gather_append, gather_of_not_mem hwhole,
            gather_of_not_mem hfirst, hf.blank_append hb]
  | cons first rest _ ih =>
      obtain ⟨hstart, hrest⟩ := Text.allBlank_append.mp hb
      rw [List.append_assoc, List.cons_append, gather_append,
        gather_blank hf hstart, List.nil_append, ih (Text.allBlank_cons.mp hrest).2]

/-- So the blanks in front may be taken off without a change to what is
found. -/
theorem gather_trimStart (hf : IgnoresBlanks f) (t : Text) :
    gather f (Text.trimStart t) = gather f t := by
  conv_rhs => rw [← Text.margin_append_trimStart t]
  rw [gather_blank_append hf (Text.allBlank_margin t)]

theorem gather_trimEnd (hf : IgnoresBlanks f) (t : Text) :
    gather f (Text.trimEnd t) = gather f t := by
  obtain ⟨b, ht, hb⟩ := Text.exists_trimEnd t
  conv_rhs => rw [ht]
  rw [gather_append_blank hf hb]

/-- **Lines that are written hold what they held**, for everything that is found
line by line without regard to blanks. -/
theorem gather_join (hf : IgnoresBlanks f) {lines : List Text}
    (hlines : ∀ raw ∈ lines, '\n' ∉ raw) :
    gather f (join lines) = lines.flatMap f := by
  by_cases hne : lines = []
  · -- no lines are written as one blank line
    subst hne
    exact gather_blank hf Text.allBlank_nil
  · unfold gather
    rw [splitOn_join hlines hne]

/-- The lines of a document hold what the lines of its text hold, for a function
that does not see blanks.  A carriage return is one. -/
theorem flatMap_split (hf : IgnoresBlanks f) (t : Text) : (split t).flatMap f = gather f t := by
  have hreturn : ∀ raw, f (dropReturn raw) = f raw := by
    intro raw
    unfold dropReturn
    split
    · rename_i hlast
      have hraw : raw = raw.dropLast ++ ['\r'] :=
        (List.dropLast_append_getLast? '\r' (by simpa using hlast)).symm
      conv_rhs => rw [hraw]
      rw [hf.append_blank (Text.allBlank_singleton (by decide))]
    · rfl
  have hne : t.splitOn '\n' ≠ [] := List.splitOn_ne_nil _ _
  unfold split gather
  dsimp only
  rw [List.flatMap_append, List.flatMap_map, List.getLast?_eq_some_getLast hne]
  conv_rhs => rw [← List.dropLast_append_getLast hne, List.flatMap_append]
  simp only [hreturn, Option.toList_some]

/-- Blank lines at the end hold nothing. -/
theorem flatMap_dropBlankEnd (hf : IgnoresBlanks f) (lines : List Text) :
    (dropBlankEnd lines).flatMap f = lines.flatMap f := by
  induction lines using List.reverseRecOn with
  | nil => rfl
  | append_singleton lines raw ih =>
      unfold dropBlankEnd at ih ⊢
      rw [List.reverse_append, List.reverse_singleton, List.singleton_append, List.dropWhile_cons]
      by_cases hblank : (Text.trim raw).isEmpty = true
      · rw [if_pos hblank, ih, List.flatMap_append, List.flatMap_singleton, ← hf.trim raw,
          List.isEmpty_iff.mp hblank, hf.nil, List.append_nil]
      · rw [if_neg hblank, List.reverse_cons, List.reverse_reverse]

end Gather

/-- The lines of a document that are of some kind, without the blanks around
them. -/
def linesWhere (p : Text → Bool) (t : Text) : List Text := ((split t).filter p).map Text.trim

/-- A line of some kind. -/
def pick (p : Text → Bool) (raw : Text) : List Text := if p raw then [Text.trim raw] else []

/-- A kind of line that is told from the trimmed line, and that no empty line is
of, gives a function that does not see blanks. -/
theorem ignoresBlanks_pick {p : Text → Bool} (hnil : p [] = false)
    (htrim : ∀ raw, p (Text.trim raw) = p raw) :
    IgnoresBlanks (pick p) := by
  refine ⟨by simp [pick, hnil], ?_⟩
  intro raw
  unfold pick
  rw [htrim, Text.trim_trim]

/-- The lines of a kind are found line by line between the line feeds.  A
document also drops the carriage returns before them, and those are blanks, so
they make no difference to the kind of a line. -/
theorem linesWhere_eq_gather {p : Text → Bool} (hp : IgnoresBlanks (pick p)) (t : Text) :
    linesWhere p t = gather (pick p) t := by
  rw [← flatMap_split hp]
  unfold linesWhere
  generalize split t = lines
  induction lines with
  | nil => rfl
  | cons raw lines ih =>
      rw [List.flatMap_cons, ← ih, List.filter_cons]
      unfold pick
      by_cases hraw : p raw = true
      · simp [hraw]
      · simp [hraw]

/-- What a line says does not depend on the blanks around it. -/
theorem ignoresBlanks_contentOfRaw {α : Type} {f : Content → List α} (hblank : f .blank = []) :
    IgnoresBlanks fun raw => f (Line.contentOfRaw raw) := by
  refine ⟨?_, ?_⟩
  · exact hblank
  · intro raw
    unfold Line.contentOfRaw
    rw [Comment.strip_trim]

/-- Lines that are written and read again say in all what they said; there may
be no lines. -/
theorem flatMap_contents {α : Type} {lines : List Text} (hlines : ∀ raw ∈ lines, '\n' ∉ raw)
    {f : Content → List α} (hblank : f .blank = []) :
    ((split (join lines)).map Line.contentOfRaw).flatMap f =
      (lines.map Line.contentOfRaw).flatMap f := by
  have hf := ignoresBlanks_contentOfRaw hblank
  rw [List.flatMap_map, List.flatMap_map, flatMap_split hf, gather_join hf hlines]

section Replaced

variable {lines : List Text} {index : Nat} {old new : Text}

/-- The lines after one of them was replaced, written and read again, say what
they said before. -/
theorem contents_replaced (hlines : ∀ raw ∈ lines, '\n' ∉ raw) (hnew : '\n' ∉ new)
    (hold : lines[index]? = some old) :
    (split (join (lines.set index new))).map Line.contentOfRaw =
      (lines.set index new).map Line.contentOfRaw := by
  apply contents_split_join
  · intro hnil
    have hlt := (List.getElem?_eq_some_iff.mp hold).1
    have hlength := congrArg List.length hnil
    rw [List.length_set, List.length_nil] at hlength
    omega
  · intro raw hraw
    rcases List.mem_or_eq_of_mem_set hraw with hmem | rfl
    · exact hlines raw hmem
    · exact hnew

/-- The new line, written and read again, stands in its place and says the
same. -/
theorem content_replaced (hlines : ∀ raw ∈ lines, '\n' ∉ raw) (hnew : '\n' ∉ new)
    (hold : lines[index]? = some old) :
    ∃ again, (split (join (lines.set index new)))[index]? = some again ∧
      Line.contentOfRaw again = Line.contentOfRaw new := by
  have hlt := (List.getElem?_eq_some_iff.mp hold).1
  have hget : ((split (join (lines.set index new))).map Line.contentOfRaw)[index]? =
      some (Line.contentOfRaw new) := by
    rw [contents_replaced hlines hnew hold, List.getElem?_map, List.getElem?_set_self hlt]
    rfl
  rw [List.getElem?_map, Option.map_eq_some_iff] at hget
  exact hget

end Replaced

end LineDiagram.Document
