import LineDiagram.Proofs.Nesting

/-!
# Scans line by line

A scan of a document passes through the scans of its first lines.  What a line
adds or closes bears its position, and what was closed before stays as it was,
so the openers at the end tell what happened on each line.

* `before_scan` — the positions in a scan of some lines are positions of these
  lines;
* `later_scan` — what the lines after a position can do to the openers before
  it;
* `opened_at`, `closed_at` — an opener or a closing at the end was made on its
  line;
* `opener_at`, `closeLine_at` — a line that opens or closes a box is its line at
  the end.
-/

namespace LineDiagram.Box.Scanner

/-- What is true of a scan before the line at a position. -/
structure Before (index : Nat) (s : Scanner) : Prop where
  nested : Nested s
  numbered : ∀ (k : Nat) o, s.openers[k]? = some o → o.index = k
  opened : ∀ o ∈ s.openers, o.lineIndex < index
  closed : ∀ o ∈ s.openers, ∀ j, o.closeLine = some j → j < index
  listed : ∀ o ∈ s.stack, ∃ o', s.openers[o.index]? = some o' ∧ o'.address = o.address ∧
    o'.closeLine = none

/-- What lines from a position on can do to a scan. -/
structure Later (index : Nat) (s t : Scanner) : Prop where
  kept : ∀ (k : Nat) o, s.openers[k]? = some o → ∃ o', t.openers[k]? = some o' ∧
    o'.address = o.address ∧ (o'.closeLine = o.closeLine ∨
      (∃ top ∈ s.stack, top.index = k) ∧ ∃ j, o'.closeLine = some j ∧ index ≤ j)
  fresh : ∀ (k : Nat) o', s.openers.length ≤ k → t.openers[k]? = some o' → index ≤ o'.lineIndex
  popped : ∀ top ∈ t.stack, top.index < s.openers.length →
    ∃ old ∈ s.stack, old.index = top.index

/-- No lines do nothing to a scan. -/
theorem Later.refl (index : Nat) (s : Scanner) : Later index s s := by
  refine ⟨?_, ?_, ?_⟩
  · intro k o ho
    exact ⟨o, ho, rfl, Or.inl rfl⟩
  · intro k o hk ho
    have := (List.getElem?_eq_some_iff.mp ho).1
    omega
  · intro top htop _
    exact ⟨top, htop, rfl⟩

/-- Openers are added and never taken away, so the number of a box is its
position for good. -/
theorem Later.length_le {index : Nat} {s t : Scanner} (h : Later index s t) :
    s.openers.length ≤ t.openers.length := by
  cases hlength : s.openers.length with
  | zero => exact Nat.zero_le _
  | succ k =>
      have hget : s.openers[k]? = some s.openers[k] := List.getElem?_eq_getElem (by omega)
      obtain ⟨o', ho', -⟩ := h.kept k _ hget
      exact (List.getElem?_eq_some_iff.mp ho').1

/-- What lines can do, and then more lines, all lines together can do.  This is
the step of every run. -/
theorem Later.trans {i j : Nat} {s t u : Scanner} (hst : Later i s t) (htu : Later j t u)
    (hij : i ≤ j) : Later i s u := by
  have hlength := hst.length_le
  refine ⟨?_, ?_, ?_⟩
  · intro k o ho
    have hk := (List.getElem?_eq_some_iff.mp ho).1
    obtain ⟨o₁, ho₁, haddress₁, hclose₁⟩ := hst.kept k o ho
    obtain ⟨o₂, ho₂, haddress₂, hclose₂⟩ := htu.kept k o₁ ho₁
    refine ⟨o₂, ho₂, haddress₂.trans haddress₁, ?_⟩
    rcases hclose₂ with hsame | ⟨⟨top, htop, rfl⟩, l, hl, hjl⟩
    · rcases hclose₁ with hsame₁ | ⟨hopen, l, hl, hil⟩
      · exact Or.inl (hsame.trans hsame₁)
      · exact Or.inr ⟨hopen, l, hsame.trans hl, hil⟩
    · exact Or.inr ⟨hst.popped top htop hk, l, hl, by omega⟩
  · intro k o hk ho
    by_cases hnew : t.openers.length ≤ k
    · have := htu.fresh k o hnew ho
      omega
    · have hget : t.openers[k]? = some t.openers[k] := List.getElem?_eq_getElem (by omega)
      obtain ⟨o', ho', haddress, -⟩ := htu.kept k _ hget
      obtain rfl : o' = o := Option.some.inj (ho'.symm.trans ho)
      have hline := hst.fresh k _ hk hget
      have hsame : o'.lineIndex + 1 = t.openers[k].lineIndex + 1 := congrArg Address.line haddress
      omega
  · intro top htop hlt
    obtain ⟨old, hold, hindex⟩ := htu.popped top htop (by omega)
    obtain ⟨older, holder, hindex'⟩ := hst.popped old hold (by omega)
    exact ⟨older, holder, hindex'.trans hindex⟩

/-- The number of a box that is closed by an empty marker of its own depth. -/
theorem mem_marked {s : Scanner} {depth k : Nat}
    (h :
    k ∈ ((s.stack.takeWhile fun o => depth ≤ o.depth).filter (·.depth == depth)).map (·.index)) :
    ∃ top ∈ s.stack, top.index = k ∧ top.depth = depth := by
  obtain ⟨top, htop, rfl⟩ := List.mem_map.mp h
  obtain ⟨hmem, hdepth⟩ := List.mem_filter.mp htop
  exact ⟨top, (List.takeWhile_sublist _).subset hmem, rfl, by simpa using hdepth⟩

/-- The opener at a position after boxes were closed: it is the same, or its
closing line is noted. -/
theorem getElem?_close {s : Scanner} {depth index k : Nat} {o : Opener}
    (ho : s.openers[k]? = some o) (hnumbered : o.index = k) :
    ((s.close depth index).openers[k]? = some o) ∨
      (∃ top ∈ s.stack, top.index = k ∧ top.depth = depth) ∧
        (s.close depth index).openers[k]? = some { o with closeLine := some index } := by
  unfold close
  rw [List.getElem?_map, ho]
  dsimp only [Option.map_some]
  split
  · rename_i hmarked
    rw [hnumbered] at hmarked
    exact Or.inr ⟨mem_marked (by simpa using hmarked), rfl⟩
  · exact Or.inl rfl

theorem length_close (s : Scanner) (depth index : Nat) :
    (s.close depth index).openers.length = s.openers.length := List.length_map _

/-- Open boxes have different numbers and different depths, so either of them
tells which box it is. -/
theorem Nested.eq_of_level {s : Scanner} (h : Nested s) {a b : Opener} (ha : a ∈ s.stack)
    (hb : b ∈ s.stack) (heq : a.index = b.index ∨ a.depth = b.depth) : a = b := by
  have hapart : s.stack.Pairwise fun a b => a.index = b.index ∨ a.depth = b.depth → a = b :=
    h.ordered.imp fun hab hsame => by omega
  have hflip :
      s.stack.Pairwise (flip fun a b : Opener => a.index = b.index ∨ a.depth = b.depth → a = b) :=
    h.ordered.imp fun hab hsame => by omega
  exact hapart.forall_of_forall_of_flip (fun _ _ _ => rfl) hflip ha hb heq

theorem Nested.eq_of_index {s : Scanner} (h : Nested s) {a b : Opener} (ha : a ∈ s.stack)
    (hb : b ∈ s.stack) (heq : a.index = b.index) : a = b := h.eq_of_level ha hb (Or.inl heq)

/-- A marker that closes boxes keeps what is true before a line, for the line
behind it. -/
theorem before_close {index depth : Nat} {s : Scanner} (h : Before index s)
    (hnested : Nested (s.close depth index)) : Before (index + 1) (s.close depth index) := by
  have hold : ∀ o' ∈ (s.close depth index).openers, ∃ o ∈ s.openers,
      o' = o ∨ o' = { o with closeLine := some index } := fun o' ho' => mem_openers_close ho'
  refine ⟨hnested, ?_, ?_, ?_, ?_⟩
  · intro k o' ho'
    have hk : k < s.openers.length := by
      rw [← length_close s depth index]
      exact (List.getElem?_eq_some_iff.mp ho').1
    have hget : s.openers[k]? = some s.openers[k] := List.getElem?_eq_getElem hk
    have hnumbered := h.numbered k _ hget
    rcases getElem?_close hget hnumbered with hsame | ⟨-, hclosed⟩
    · rw [Option.some.inj (ho'.symm.trans hsame)]
      exact hnumbered
    · rw [Option.some.inj (ho'.symm.trans hclosed)]
      exact hnumbered
  · intro o' ho'
    obtain ⟨o, ho, rfl | rfl⟩ := hold o' ho'
    · exact Nat.lt_succ_of_lt (h.opened _ ho)
    · exact Nat.lt_succ_of_lt (h.opened o ho)
  · intro o' ho' j hj
    obtain ⟨o, ho, rfl | rfl⟩ := hold o' ho'
    · exact Nat.lt_succ_of_lt (h.closed _ ho j hj)
    · cases hj
      exact Nat.lt_succ_self index
  · intro top htop
    rw [h.nested.stack_close] at htop
    obtain ⟨hmem, hdepth⟩ := List.mem_filter.mp htop
    obtain ⟨o, ho, haddress, hclose⟩ := h.listed top hmem
    rcases getElem?_close ho (h.numbered _ _ ho) with hsame | ⟨⟨other, hother, hindex, hother'⟩, -⟩
    · exact ⟨o, hsame, haddress, hclose⟩
    · -- a box that the marker closes has its depth, and the ones that stay open are shallower
      rw [h.nested.eq_of_index hother hmem hindex] at hother'
      simp only [decide_eq_true_eq] at hdepth
      omega

/-- All that it does is to note the line for boxes that were open. -/
theorem later_close {index depth : Nat} {s : Scanner} (h : Before index s) :
    Later index s (s.close depth index) := by
  refine ⟨?_, ?_, ?_⟩
  · intro k o ho
    rcases getElem?_close ho (h.numbered k o ho) with hsame | ⟨⟨top, htop, hindex, -⟩, hclosed⟩
    · exact ⟨o, hsame, rfl, Or.inl rfl⟩
    · exact ⟨_, hclosed, rfl, Or.inr ⟨⟨top, htop, hindex⟩, index, rfl, Nat.le_refl _⟩⟩
  · intro k o hk ho
    have hlt := (List.getElem?_eq_some_iff.mp ho).1
    rw [length_close] at hlt
    omega
  · intro top htop _
    rw [h.nested.stack_close] at htop
    exact ⟨top, (List.mem_filter.mp htop).1, rfl⟩

/-- A marker that opens a box keeps what is true before a line, for the line
behind it. -/
theorem before_openBox {index depth : Nat} {s : Scanner} (h : Before index s)
    {label inner comment : Text} (hnested : Nested (s.openBox index depth label inner comment)) :
    Before (index + 1) (s.openBox index depth label inner comment) := by
  refine ⟨hnested, ?_, ?_, ?_, ?_⟩
  · intro k o ho
    rcases getElem?_concat_cases ho with hold | ⟨rfl, rfl⟩
    · exact h.numbered k o hold
    · rfl
  · intro o ho
    rcases List.mem_append.mp ho with hold | hnew
    · exact Nat.lt_succ_of_lt (h.opened o hold)
    · rw [List.mem_singleton.mp hnew]
      exact Nat.lt_succ_self index
  · intro o ho j hj
    rcases List.mem_append.mp ho with hold | hnew
    · exact Nat.lt_succ_of_lt (h.closed o hold j hj)
    · rw [List.mem_singleton.mp hnew] at hj
      cases hj
  · intro top htop
    simp only [openBox, List.mem_cons] at htop
    rcases htop with rfl | hmem
    · exact ⟨_, List.getElem?_concat_length, rfl, rfl⟩
    · obtain ⟨o, ho, hrest⟩ := h.listed top ((List.dropWhile_sublist _).subset hmem)
      refine ⟨o, ?_, hrest⟩
      simp only [openBox]
      rw [List.getElem?_append_left (List.getElem?_eq_some_iff.mp ho).1]
      exact ho

/-- All that it does is to add an opener at this line. -/
theorem later_openBox {index depth : Nat} (s : Scanner) (label inner comment : Text) :
    Later index s (s.openBox index depth label inner comment) := by
  refine ⟨?_, ?_, ?_⟩
  · intro k o ho
    refine ⟨o, ?_, rfl, Or.inl rfl⟩
    simp only [openBox]
    rw [List.getElem?_append_left (List.getElem?_eq_some_iff.mp ho).1]
    exact ho
  · intro k o hk ho
    rcases getElem?_concat_cases ho with hold | ⟨-, rfl⟩
    · have := (List.getElem?_eq_some_iff.mp hold).1
      omega
    · exact Nat.le_refl _
  · intro top htop hlt
    simp only [openBox, List.mem_cons] at htop
    rcases htop with rfl | hmem
    · exact absurd hlt (Nat.lt_irrefl _)
    · exact ⟨top, (List.dropWhile_sublist _).subset hmem, rfl⟩

/-- One line keeps the openers in front of the position, and does to the scan
what a later line can. -/
theorem before_feed {index : Nat} {s : Scanner} (h : Before index s) (raw : Text) :
    Before (index + 1) (s.feed index (.ofText raw)).2 ∧
      Later index s (s.feed index (.ofText raw)).2 := by
  have hnested := nested_feed h.nested index raw
  have hfed := feed_fed s index (.ofText raw)
  generalize s.feed index (.ofText raw) = result at hfed hnested
  cases hfed with
  | skipped =>
      refine ⟨⟨h.nested, h.numbered, ?_, ?_, h.listed⟩, Later.refl index s⟩
      · exact fun o ho => Nat.lt_succ_of_lt (h.opened o ho)
      · exact fun o ho j hj => Nat.lt_succ_of_lt (h.closed o ho j hj)
  | closed depth hline heven hopen => exact ⟨before_close h hnested, later_close h⟩
  | opened depth label bracket hline heven =>
      exact ⟨before_openBox h hnested, later_openBox s _ _ _⟩

/-! ## The scans of the first lines -/

variable {lines : List Text}

theorem scan_take_succ {i : Nat} {raw : Text} (h : lines[i]? = some raw) :
    scan (lines.take (i + 1)) = ((scan (lines.take i)).feed i (.ofText raw)).2 := by
  have hlt := (List.getElem?_eq_some_iff.mp h).1
  rw [List.take_add_one, h, Option.toList_some, scan_concat, List.length_take,
    Nat.min_eq_left (Nat.le_of_lt hlt)]

/-- **What is true before a line** is true after any lines.  The step lemmas
above are put together by induction over the lines. -/
theorem before_scan (lines : List Text) : Before lines.length (scan lines) := by
  apply scan_induction (P := fun lines s => Before lines.length s)
  · exact ⟨nested_scan [], by simp, by simp, by simp, by simp⟩
  · intro lines raw s h
    rw [List.length_append, List.length_singleton]
    exact (before_feed h raw).1

theorem before_take {i : Nat} (h : i ≤ lines.length) : Before i (scan (lines.take i)) := by
  have hbefore := before_scan (lines.take i)
  rwa [List.length_take, Nat.min_eq_left h] at hbefore

/-- **The lines after a position** add openers that stand after it, and close
only boxes that are open there. -/
theorem later_scan {i j : Nat} (hij : i ≤ j) (hj : j ≤ lines.length) :
    Later i (scan (lines.take i)) (scan (lines.take j)) := by
  induction j, hij using Nat.le_induction with
  | base => exact Later.refl i _
  | succ j hij ih =>
      have hget : lines[j]? = some lines[j] := List.getElem?_eq_getElem (by omega)
      rw [scan_take_succ hget]
      exact (ih (by omega)).trans (before_feed (before_take (by omega)) lines[j]).2 hij

/-- The openers of a document, seen from a position: those before it are there
with the same address, and the others come after. -/
theorem later_openers {i : Nat} (hi : i ≤ lines.length) :
    Later i (scan (lines.take i)) (scan lines) := by
  have hlater := later_scan hi (Nat.le_refl lines.length)
  rwa [List.take_length] at hlater

/-- An opener of a document was opened on its line, as the next of the openers
before. -/
theorem opened_at {k : Nat} {o : Opener} (h : (scan lines).openers[k]? = some o) :
    ∃ raw label bracket, lines[o.lineIndex]? = some raw ∧
      (Line.ofText raw).content = .marker o.depth label bracket ∧ o.depth % 2 = 0 ∧
      (label.isEmpty && bracket.isNone && (scan (lines.take o.lineIndex)).closesAt o.depth) =
        false ∧
      k = (scan (lines.take o.lineIndex)).openers.length ∧
      scan (lines.take (o.lineIndex + 1)) = (scan (lines.take o.lineIndex)).openBox o.lineIndex
        o.depth label (Text.trim (bracket.getD [])) (Line.ofText raw).comment := by
  have hline : o.lineIndex < lines.length :=
    (before_scan lines).opened o (List.mem_of_getElem? h)
  have hraw : lines[o.lineIndex]? = some lines[o.lineIndex] := List.getElem?_eq_getElem hline
  have hbefore := before_take (Nat.le_of_lt hline)
  have hold := later_openers (Nat.le_of_lt hline)
  have hnew := later_openers hline
  have hstep := scan_take_succ hraw
  generalize lines[o.lineIndex] = raw at hraw hstep
  have hge : (scan (lines.take o.lineIndex)).openers.length ≤ k := by
    by_contra hlt
    have hget := List.getElem?_eq_getElem (Nat.not_le.mp hlt)
    obtain ⟨o', ho', haddress, -⟩ := hold.kept k _ hget
    obtain rfl : o' = o := Option.some.inj (ho'.symm.trans h)
    have hearly := hbefore.opened _ (List.getElem_mem (Nat.not_le.mp hlt))
    have hsame := congrArg Address.line haddress
    simp only [Opener.address] at hsame
    omega
  have hlt : k < (scan (lines.take (o.lineIndex + 1))).openers.length := by
    by_contra hle
    have := hnew.fresh k o (Nat.not_lt.mp hle) h
    omega
  have hfed := feed_fed (scan (lines.take o.lineIndex)) o.lineIndex (.ofText raw)
  rw [hstep] at hlt hnew ⊢
  generalize (scan (lines.take o.lineIndex)).feed o.lineIndex (.ofText raw) =
    result at hfed hlt hnew ⊢
  cases hfed with
  | skipped => exact absurd hlt (Nat.not_lt.mpr hge)
  | closed depth hcontent heven hopen =>
      rw [length_close] at hlt
      omega
  | opened depth label bracket hcontent heven hnot =>
      simp only [openBox, List.length_append, List.length_singleton] at hlt
      obtain rfl : k = (scan (lines.take o.lineIndex)).openers.length := by omega
      obtain ⟨o', ho', haddress, -⟩ := hnew.kept _ _ List.getElem?_concat_length
      obtain rfl : o' = o := Option.some.inj (ho'.symm.trans h)
      have hdepth : o'.depth = depth := congrArg Address.depth haddress
      rw [hdepth]
      exact ⟨raw, label, bracket, hraw, hcontent, heven, hnot, rfl, rfl⟩

/-- A box is closed after it was opened. -/
theorem lineIndex_lt_closeLine {k j : Nat} {o : Opener} (h : (scan lines).openers[k]? = some o)
    (hclose : o.closeLine = some j) : o.lineIndex < j := by
  obtain ⟨raw, label, bracket, hraw, -, -, -, rfl, hstep⟩ := opened_at h
  have hnew := later_openers (List.getElem?_eq_some_iff.mp hraw).1
  rw [hstep] at hnew
  obtain ⟨o', ho', -, hsame | ⟨-, l, hl, hle⟩⟩ := hnew.kept _ _ List.getElem?_concat_length
  · obtain rfl : o' = o := Option.some.inj (ho'.symm.trans h)
    rw [hsame] at hclose
    cases hclose
  · obtain rfl : o' = o := Option.some.inj (ho'.symm.trans h)
    rw [hclose] at hl
    cases hl
    exact hle

/-- A box that is closed by a marker was closed on its line, while it was
open. -/
theorem closed_at {k j : Nat} {o : Opener} (h : (scan lines).openers[k]? = some o)
    (hclose : o.closeLine = some j) :
    ∃ raw, lines[j]? = some raw ∧ (Line.ofText raw).content = .marker o.depth [] none ∧
      ∃ top ∈ (scan (lines.take j)).stack, top.index = k ∧ top.depth = o.depth := by
  have hafter := lineIndex_lt_closeLine h hclose
  have hj : j < lines.length :=
    (before_scan lines).closed o (List.mem_of_getElem? h) j hclose
  have hraw : lines[j]? = some lines[j] := List.getElem?_eq_getElem hj
  have hbefore := before_take (Nat.le_of_lt hj)
  have hold := later_openers (Nat.le_of_lt hj)
  have hnew := later_openers hj
  have hstep := scan_take_succ hraw
  generalize lines[j] = raw at hraw hstep
  have hk : k < (scan (lines.take j)).openers.length := by
    obtain ⟨_, _, _, -, -, -, -, rfl, hopen⟩ := opened_at h
    have hlength := (later_scan hafter (Nat.le_of_lt hj)).length_le
    rw [hopen] at hlength
    simp only [openBox, List.length_append, List.length_singleton] at hlength
    omega
  have hget := List.getElem?_eq_getElem hk
  obtain ⟨o', ho', haddress, -⟩ := hold.kept k _ hget
  obtain rfl : o' = o := Option.some.inj (ho'.symm.trans h)
  have hunclosed : ∀ later, Later (j + 1) later (scan lines) →
      later.openers[k]? ≠ some (scan (lines.take j)).openers[k] := by
    intro later hlater hsame
    obtain ⟨o'', ho'', -, hclosed⟩ := hlater.kept k _ hsame
    obtain rfl : o'' = o' := Option.some.inj (ho''.symm.trans h)
    rcases hclosed with hkept | ⟨-, l, hl, hle⟩
    · have := hbefore.closed _ (List.getElem_mem hk) j (hkept.symm.trans hclose)
      omega
    · rw [hclose] at hl
      cases hl
      omega
  have hfed := feed_fed (scan (lines.take j)) j (.ofText raw)
  rw [hstep] at hnew
  generalize (scan (lines.take j)).feed j (.ofText raw) = result at hfed hnew
  cases hfed with
  | skipped => exact absurd hget (hunclosed _ hnew)
  | closed depth hcontent heven hopen =>
      rcases getElem?_close hget (hbefore.numbered k _ hget)
        with hsame | ⟨⟨top, htop, hindex, hdepth⟩, -⟩
      · exact absurd hsame (hunclosed _ hnew)
      · obtain ⟨listed, hlisted, hlistedAddress, -⟩ := hbefore.listed top htop
        rw [hindex, hget] at hlisted
        cases hlisted
        have hsame : o'.depth = top.depth :=
          congrArg Address.depth (haddress.trans hlistedAddress)
        refine ⟨raw, hraw, ?_, top, htop, hindex, hsame.symm⟩
        rw [hsame, hdepth]
        exact hcontent
  | opened depth label bracket hcontent heven =>
      refine absurd ?_ (hunclosed _ hnew)
      simp only [openBox]
      rw [List.getElem?_append_left hk]
      exact hget

/-! ## Lines that open and close, seen at the end -/

/-- An opener that is there at a position is there at the end. -/
theorem opener_later {i k : Nat} {o : Opener} (hi : i ≤ lines.length)
    (h : (scan (lines.take i)).openers[k]? = some o) :
    ∃ o', (scan lines).openers[k]? = some o' ∧ o'.address = o.address := by
  obtain ⟨o', ho', haddress, -⟩ := (later_openers hi).kept k o h
  exact ⟨o', ho', haddress⟩

/-- An open box has the address of its opener, although its copy on the stack
does not know where it will be closed. -/
theorem address_of_open {i k : Nat} {o top : Opener} (h : (scan lines).openers[k]? = some o)
    (hi : i ≤ lines.length) (htop : top ∈ (scan (lines.take i)).stack) (hindex : top.index = k) :
    top.address = o.address := by
  obtain ⟨listed, hlisted, hsame, -⟩ := (before_take hi).listed top htop
  rw [hindex] at hlisted
  obtain ⟨o', ho', haddress⟩ := opener_later hi hlisted
  obtain rfl : o' = o := Option.some.inj (ho'.symm.trans h)
  exact hsame.symm.trans haddress.symm

/-- Openers stand in the order of their lines. -/
theorem lineIndex_lt {j k : Nat} {a b : Opener} (ha : (scan lines).openers[j]? = some a)
    (hb : (scan lines).openers[k]? = some b) (hjk : j < k) : a.lineIndex < b.lineIndex := by
  have hline : b.lineIndex ≤ lines.length :=
    Nat.le_of_lt ((before_scan lines).opened b (List.mem_of_getElem? hb))
  obtain ⟨_, _, _, -, -, -, -, rfl, -⟩ := opened_at hb
  have hget := List.getElem?_eq_getElem hjk
  have hearly := (before_take hline).opened _ (List.getElem_mem hjk)
  obtain ⟨a', ha', haddress⟩ := opener_later hline hget
  obtain rfl : a' = a := Option.some.inj (ha'.symm.trans ha)
  have hsame := congrArg Address.line haddress
  simp only [Opener.address] at hsame
  omega

/-- A marker of an even depth that does not close is the line of an opener, in
the list of all openers. -/
theorem opener_at {i depth : Nat} {raw label : Text} {bracket : Option Text}
    (hraw : lines[i]? = some raw)
    (hcontent : (Line.ofText raw).content = .marker depth label bracket)
    (heven : depth % 2 = 0)
    (hnot : (label.isEmpty && bracket.isNone && (scan (lines.take i)).closesAt depth) = false) :
    ∃ (k : Nat) (o : Opener), (scan lines).openers[k]? = some o ∧ o.lineIndex = i ∧
      o.depth = depth := by
  have hstep := scan_take_succ hraw
  have hopen :
      ((scan (lines.take i)).feed i (.ofText raw)).2 = (scan (lines.take i)).openBox i depth
      label (Text.trim (bracket.getD [])) (Line.ofText raw).comment := by
    unfold feed
    rw [hcontent]
    simp [heven, hnot]
  have hlater := later_openers (List.getElem?_eq_some_iff.mp hraw).1
  rw [hstep, hopen] at hlater
  obtain ⟨o, ho, haddress, -⟩ := hlater.kept _ _ List.getElem?_concat_length
  have hline := congrArg Address.line haddress
  simp only [Opener.address] at hline
  exact ⟨_, o, ho, by omega, congrArg Address.depth haddress⟩

/-- An empty marker of the depth of an open box is the line that closes it, and
this is noted at its opener. -/
theorem closeLine_at {i k : Nat} {raw : Text} {o top : Opener}
    (h : (scan lines).openers[k]? = some o) (hraw : lines[i]? = some raw)
    (hcontent : (Line.ofText raw).content = .marker o.depth [] none) (heven : o.depth % 2 = 0)
    (hcloses : (scan (lines.take i)).closesAt o.depth = true)
    (htop : top ∈ (scan (lines.take i)).stack) (hindex : top.index = k) : o.closeLine = some i := by
  have hi := (List.getElem?_eq_some_iff.mp hraw).1
  have hbefore := before_take (Nat.le_of_lt hi)
  have hdepth : top.depth = o.depth :=
    congrArg Address.depth (address_of_open h (Nat.le_of_lt hi) htop hindex)
  have hnew := later_openers hi
  have hstep : scan (lines.take (i + 1)) = (scan (lines.take i)).close o.depth i := by
    rw [scan_take_succ hraw]
    unfold feed
    rw [hcontent]
    simp [heven, hcloses]
  rw [hstep] at hnew
  -- the box is among those that the marker closes, since the ones that stay are shallower
  have hmarked : top.index ∈ (((scan (lines.take i)).stack.takeWhile fun a =>
      o.depth ≤ a.depth).filter (·.depth == o.depth)).map (·.index) := by
    refine List.mem_map_of_mem (List.mem_filter.mpr ⟨?_, by simpa using hdepth⟩)
    rw [← List.takeWhile_append_dropWhile (p := fun a : Opener => decide (o.depth ≤ a.depth))
      (l := (scan (lines.take i)).stack), List.mem_append] at htop
    rcases htop with hgoes | hstays
    · exact hgoes
    · rw [← stack_close _ o.depth i, hbefore.nested.stack_close] at hstays
      have hlt := (List.mem_filter.mp hstays).2
      simp only [decide_eq_true_eq] at hlt
      omega
  obtain ⟨listed, hlisted, -, -⟩ := hbefore.listed top htop
  have hclosed : ((scan (lines.take i)).close o.depth i).openers[k]? =
      some { listed with closeLine := some i } := by
    unfold close
    rw [List.getElem?_map, ← hindex, hlisted, Option.map_some,
      hbefore.numbered top.index listed hlisted, if_pos (by simpa using hmarked)]
  obtain ⟨o', ho', -, hsame | ⟨⟨other, hother, hotherIndex⟩, -⟩⟩ := hnew.kept k _ hclosed
  · obtain rfl : o' = o := Option.some.inj (ho'.symm.trans h)
    exact hsame
  · -- the box is open no more
    rw [hbefore.nested.stack_close] at hother
    obtain ⟨hmem, hlt⟩ := List.mem_filter.mp hother
    rw [hbefore.nested.eq_of_index hmem htop (hotherIndex.trans hindex.symm)] at hlt
    simp only [decide_eq_true_eq] at hlt
    omega

end LineDiagram.Box.Scanner
