import LineDiagram.Box.Scanner
import Mathlib.Data.List.Induction

/-!
# What a scan has seen

A line is skipped, closes boxes or opens one; `Fed` says under which condition
it does which, and every fact about scans follows from its three cases.  A scan
is the scan of the lines before the last one, fed with the last one, so a fact
that each line keeps holds of every document.

* `feed_fed` — the three things that a line can do;
* `scan_induction` — what holds at the start and is kept by each line holds of
  every scan;
* `sound_scan` — openers are numbered in order, and stand and are closed on
  marker lines;
* `Steady` — changes of openers that commute with closing and opening.
-/

namespace LineDiagram.Box.Scanner

/-- What a line at a position does to a scan: the step that is taken and the
scan after it. -/
inductive Fed (s : Scanner) (index : Nat) (line : Line) : Step × Scanner → Prop
  | skipped (hodd : ∀ depth label bracket, line.content = .marker depth label bracket →
      depth % 2 ≠ 0) : Fed s index line (.skipped, s)
  | closed (depth : Nat) (hline : line.content = .marker depth [] none) (heven : depth % 2 = 0)
      (hopen : s.closesAt depth = true) : Fed s index line (.closed, s.close depth index)
  | opened (depth : Nat) (label : Text) (bracket : Option Text)
      (hline : line.content = .marker depth label bracket) (heven : depth % 2 = 0)
      (hnot : (label.isEmpty && bracket.isNone && s.closesAt depth) = false) :
      Fed s index line
        (.opened, s.openBox index depth label (Text.trim (bracket.getD [])) line.comment)

/-- **One line of a scan** does one of three things: it is skipped, it closes
boxes, or it opens one.  All later proofs go by these cases and not by the
code. -/
theorem feed_fed (s : Scanner) (index : Nat) (line : Line) :
    Fed s index line (s.feed index line) := by
  unfold feed
  split
  · rename_i depth label bracket hline
    split
    · rename_i hodd
      refine .skipped ?_
      intro d l b hmarker
      rw [hline] at hmarker
      cases hmarker
      simpa using hodd
    · rename_i heven
      have heven : depth % 2 = 0 := by simpa using heven
      split
      · rename_i hclose
        simp only [Bool.and_eq_true, List.isEmpty_iff, Option.isNone_iff_eq_none] at hclose
        obtain ⟨⟨rfl, rfl⟩, hopen⟩ := hclose
        exact .closed depth hline heven hopen
      · rename_i hnot
        exact .opened depth label bracket hline heven (by simpa using hnot)
  · rename_i hother
    exact .skipped (fun depth label bracket hmarker =>
      absurd hmarker (hother depth label bracket))

/-- A scan goes on where it was after the first lines, with the position at
which it is. -/
theorem feedAll_append (s : Scanner) (index : Nat) (first second : List Text) :
    s.feedAll index (first ++ second) =
      (s.feedAll index first).feedAll (index + first.length) second := by
  induction first generalizing s index with
  | nil => rfl
  | cons raw first ih =>
      rw [List.cons_append, feedAll, feedAll, ih, List.length_cons]
      congr 1
      omega

/-- The scan of a document with one more line is the scan so far, fed with this
line. -/
theorem scan_concat (lines : List Text) (raw : Text) :
    scan (lines ++ [raw]) = ((scan lines).feed lines.length (.ofText raw)).2 := by
  unfold scan
  rw [feedAll_append, Nat.zero_add]
  rfl

/-- What holds at the start and is kept by each line holds of the scan of every
document. -/
theorem scan_induction {P : List Text → Scanner → Prop} (start : P [] {})
    (step : ∀ lines raw s, P lines s →
      P (lines ++ [raw]) (s.feed lines.length (.ofText raw)).2)
    (lines : List Text) : P lines (scan lines) := by
  induction lines using List.reverseRecOn with
  | nil => exact start
  | append_singleton lines raw ih =>
      rw [scan_concat]
      exact step lines raw (scan lines) ih

/-- The line at a position is a marker of a given depth. -/
def MarkerAt (lines : List Text) (index depth : Nat) : Prop :=
  ∃ raw label bracket, lines[index]? = some raw ∧
    Line.contentOfRaw raw = .marker depth label bracket

/-- What is true of the openers of a document. -/
structure Sound (lines : List Text) (s : Scanner) : Prop where
  /-- They are numbered in order. -/
  numbered : ∀ (i : Nat) (o : Opener), s.openers[i]? = some o → o.index = i
  /-- Each stands on a marker line. -/
  opening : ∀ o ∈ s.openers, MarkerAt lines o.lineIndex o.depth
  /-- Each that is closed is closed on a marker line. -/
  closing : ∀ o ∈ s.openers, ∀ index, o.closeLine = some index →
    ∃ depth, MarkerAt lines index depth

/-- A marker stays where it is when a line is added behind. -/
theorem MarkerAt.concat {lines : List Text} {index depth : Nat} (h : MarkerAt lines index depth)
    (raw : Text) : MarkerAt (lines ++ [raw]) index depth := by
  obtain ⟨found, label, bracket, hget, hcontent⟩ := h
  have hlt : index < lines.length := (List.getElem?_eq_some_iff.mp hget).1
  refine ⟨found, label, bracket, ?_, hcontent⟩
  rw [List.getElem?_append_left hlt]
  exact hget

/-- A marker at the end of the lines so far. -/
theorem markerAt_last {lines : List Text} {raw : Text} {depth : Nat} {label : Text}
    {bracket : Option Text} (h : (Line.ofText raw).content = .marker depth label bracket) :
    MarkerAt (lines ++ [raw]) lines.length depth :=
  ⟨raw, label, bracket, by simp, h⟩

/-- Closing boxes changes where openers are closed and nothing else of them:
address, label and bracket stay. -/
theorem mem_openers_close {s : Scanner} {depth index : Nat} {o : Opener}
    (h : o ∈ (s.close depth index).openers) :
    ∃ old ∈ s.openers, o = old ∨ o = { old with closeLine := some index } := by
  simp only [close, List.mem_map] at h
  obtain ⟨old, hmem, rfl⟩ := h
  refine ⟨old, hmem, ?_⟩
  split
  · exact Or.inr rfl
  · exact Or.inl rfl

/-- One more line keeps what is true of the openers: each stands on a marker of
its depth, and what closes it is a marker. -/
private theorem sound_feed (lines : List Text) (raw : Text) (s : Scanner) (h : Sound lines s) :
    Sound (lines ++ [raw]) (s.feed lines.length (.ofText raw)).2 := by
  have hfed := feed_fed s lines.length (.ofText raw)
  generalize s.feed lines.length (.ofText raw) = result at hfed
  have hopening : ∀ o ∈ s.openers, MarkerAt (lines ++ [raw]) o.lineIndex o.depth :=
    fun o ho => (h.opening o ho).concat raw
  have hclosing : ∀ o ∈ s.openers, ∀ index, o.closeLine = some index →
      ∃ depth, MarkerAt (lines ++ [raw]) index depth := by
    intro o ho index hindex
    obtain ⟨depth, hmarker⟩ := h.closing o ho index hindex
    exact ⟨depth, hmarker.concat raw⟩
  cases hfed with
  | skipped => exact ⟨h.numbered, hopening, hclosing⟩
  | closed depth hline heven hopen =>
      refine ⟨?_, ?_, ?_⟩
      · intro i o hget
        simp only [close, List.getElem?_map, Option.map_eq_some_iff] at hget
        obtain ⟨old, hold, rfl⟩ := hget
        have hindex := h.numbered i old hold
        split <;> exact hindex
      · intro o ho
        obtain ⟨old, hold, rfl | rfl⟩ := mem_openers_close ho
        · exact hopening o hold
        · exact hopening old hold
      · intro o ho index hindex
        obtain ⟨old, hold, rfl | rfl⟩ := mem_openers_close ho
        · exact hclosing o hold index hindex
        · cases hindex
          exact ⟨depth, markerAt_last hline⟩
  | opened depth label bracket hline heven =>
      refine ⟨?_, ?_, ?_⟩
      · intro i o hget
        simp only [openBox] at hget
        rw [List.getElem?_append] at hget
        split at hget
        · exact h.numbered i o hget
        · rename_i hlt
          obtain ⟨hi, rfl⟩ := List.getElem?_eq_some_iff.mp hget
          simp only [List.length_singleton] at hi
          simp only [List.getElem_singleton]
          omega
      · intro o ho
        simp only [openBox, List.mem_append, List.mem_singleton] at ho
        rcases ho with hold | rfl
        · exact hopening o hold
        · exact markerAt_last hline
      · intro o ho index hindex
        simp only [openBox, List.mem_append, List.mem_singleton] at ho
        rcases ho with hold | rfl
        · exact hclosing o hold index hindex
        · cases hindex

/-- **Openers of a document.**  They are numbered in order, and stand and are
closed on marker lines. -/
theorem sound_scan (lines : List Text) : Sound lines (scan lines) := by
  apply scan_induction
  · exact ⟨by simp, by simp, by simp⟩
  · exact sound_feed

/-! ## Openers with other texts -/

/-- A change of openers that a scan does not notice, since it goes by number and
depth alone. -/
structure Steady (f : Opener → Opener) : Prop where
  index : ∀ o, (f o).index = o.index
  depth : ∀ o, (f o).depth = o.depth
  close : ∀ o line, f { o with closeLine := some line } = { f o with closeLine := some line }

/-- A scan with its openers changed. -/
def map (f : Opener → Opener) (s : Scanner) : Scanner := ⟨s.openers.map f, s.stack.map f⟩

variable {f : Opener → Opener}

/-- A marker closes a box in a scan with changed openers exactly if it does in
the scan. -/
theorem Steady.closesAt_map (hf : Steady f) (s : Scanner) (depth : Nat) :
    (s.map f).closesAt depth = s.closesAt depth := by
  cases hstack : s.stack with
  | nil => simp [closesAt, map, hstack]
  | cons o outer => simp [closesAt, map, hstack, hf.depth o]

/-- And if it does, the openers may be changed before or after. -/
theorem Steady.close_map (hf : Steady f) (s : Scanner) (depth index : Nat) :
    (s.map f).close depth index = (s.close depth index).map f := by
  have hdeep :
      (fun o : Opener => decide (depth ≤ o.depth)) ∘ f = fun o => decide (depth ≤ o.depth) :=
    funext fun o => congrArg (fun d => decide (depth ≤ d)) (hf.depth o)
  have hequal : (fun o : Opener => o.depth == depth) ∘ f = fun o => o.depth == depth :=
    funext fun o => congrArg (· == depth) (hf.depth o)
  have hindex : (fun o : Opener => o.index) ∘ f = fun o => o.index := funext hf.index
  unfold Scanner.close map
  simp only [List.takeWhile_map, List.filter_map, List.map_map, hdeep, hequal,
    hindex, List.length_map, List.map_drop, mk.injEq, and_true]
  apply List.map_congr_left
  intro o _
  simp only [Function.comp, hf.index, apply_ite f, hf.close]

/-- A box is opened the same way, if the change gives its opener the texts that
are put in. -/
theorem Steady.openBox_map (hf : Steady f) (s : Scanner) {index depth : Nat}
    {label inner comment label' inner' comment' : Text}
    (hnew : ∀ parent, f ⟨s.openers.length, index, depth, label, inner, comment, parent, none⟩ =
      ⟨s.openers.length, index, depth, label', inner', comment', parent, none⟩) :
    (s.map f).openBox index depth label' inner' comment' =
      (s.openBox index depth label inner comment).map f := by
  have hdeep : (fun o : Opener => decide (depth < o.depth + 2)) ∘ f =
      fun o => decide (depth < o.depth + 2) :=
    funext fun o => congrArg (fun d => decide (depth < d + 2)) (hf.depth o)
  have hindex : (fun o : Opener => o.index) ∘ f = fun o => o.index := funext hf.index
  simp only [openBox, map, List.dropWhile_map, hdeep, List.length_map,
    List.map_append, List.map_cons, List.map_nil, List.head?_map, Option.map_map, hindex, hnew]

end LineDiagram.Box.Scanner
