import LineDiagram.Edit.Structure
import LineDiagram.Proofs.Document
import LineDiagram.Proofs.NestRemoval
import LineDiagram.Proofs.ScanOrder

/-!
# Deleting a box

Deleting a box takes its markers away and raises the deeper markers in its
content.  The content is then in the box around it, and no other box changes,
provided that the markers of the box do nothing else: a marker may open or close
a box and close others with it.

* `contentOfRaw_raiseMarker` — a raised marker is the same marker, two dashes
  shallower;
* `removal_run` — the document and what is left of it, line by line;
* `deleteBox_dissolves` — the boxes and members of the compiled graph after the
  box is deleted.
-/

namespace LineDiagram

open Box.Scanner (scan)

/-! ## Raised markers -/

/-- Code that starts with another character than a number sign starts with it
before the backslashes are taken away. -/
private theorem unescape_eq_cons {t rest : Text} {c : Char} (hc : c ≠ '#')
    (h : Comment.unescape t = c :: rest) : ∃ u, t = c :: u ∧ Comment.unescape u = rest := by
  have hhead : (Comment.unescape t).head? = some c := by rw [h]; rfl
  rcases Comment.head_unescape hhead with hstart | hsign
  · obtain ⟨u, rfl⟩ := List.head?_eq_some_iff.mp hstart
    refine ⟨u, rfl, ?_⟩
    have hnot : c = '\\' → u.head? ≠ some '#' := by
      rintro rfl hu
      obtain ⟨v, rfl⟩ := List.head?_eq_some_iff.mp hu
      rw [Comment.unescape_pair] at h
      exact hc (List.cons.inj h).1.symm
    rw [Comment.unescape_cons hnot] at h
    exact (List.cons.inj h).2
  · exact absurd hsign hc

/-- A raised line loses two of its dashes. -/
theorem strip_raiseMarker {raw rest : Text} (h : Comment.strip raw = '-' :: '-' :: '-' :: rest) :
    Comment.strip (Edit.raiseMarker raw) = '-' :: rest := by
  obtain ⟨code, comment, hsplit⟩ :
      ∃ code comment, Comment.split raw = (code, comment) := ⟨_, _, rfl⟩
  obtain ⟨rfl, hplain, hend⟩ := Comment.split_eq_iff.mp hsplit
  unfold Comment.strip at h ⊢
  rw [hsplit, Comment.trim_unescape] at h
  obtain ⟨a, b, hcode, ha, hb⟩ := Text.exists_trim code
  have htight := Text.tight_trim code
  obtain ⟨second, hdashes, hsecond⟩ := unescape_eq_cons (by decide) h
  obtain ⟨third, rfl, hthird⟩ := unescape_eq_cons (by decide) hsecond
  obtain ⟨body, rfl, hbody⟩ := unescape_eq_cons (by decide) hthird
  change Text.trim code = _ at hdashes
  rw [hdashes] at hcode htight
  subst hcode
  have hmargin : Text.margin (a ++ '-' :: '-' :: '-' :: body ++ b ++ comment) = a := by
    unfold Text.margin
    rw [List.append_assoc, List.append_assoc, List.takeWhile_append_of_pos ha, List.cons_append,
      List.cons_append, List.takeWhile_cons, if_neg (by decide), List.append_nil]
  have hraised : Edit.raiseMarker (a ++ '-' :: '-' :: '-' :: body ++ b ++ comment) =
      a ++ '-' :: body ++ b ++ comment := by
    unfold Edit.raiseMarker
    rw [hmargin]
    simp [List.drop_append]
  have hshort : Comment.Plain (a ++ '-' :: body ++ b) := by
    have hleft : Comment.Plain a := Comment.Plain.left (by simpa using hplain)
    have hright : Comment.Plain ('-' :: body ++ b) :=
      Comment.Plain.right (a := a ++ ['-']) (c := '-') (by simpa using hplain) (by decide)
    simpa using hleft.append hright
  have hlast : (a ++ '-' :: body ++ b).getLast? =
      (a ++ '-' :: '-' :: '-' :: body ++ b).getLast? := by
    simp [List.getLast?_append, List.getLast?_cons]
  have hcut : Comment.split (a ++ '-' :: body ++ b ++ comment) =
      (a ++ '-' :: body ++ b, comment) := by
    refine Comment.split_eq_iff.mpr ⟨rfl, hshort, ?_⟩
    unfold Comment.EndsCode at hend ⊢
    rw [hlast]
    exact hend
  have htrim : Text.trim ('-' :: body) = '-' :: body := by
    refine Text.trim_of_tight ⟨?_, ?_⟩
    · intro c hc
      cases hc
      decide
    · intro c hc
      refine htight.stop c ?_
      simpa [List.getLast?_cons] using hc
  rw [hraised, hcut, Comment.trim_unescape, Text.trim_of_blanks_around ha hb, htrim,
    Comment.unescape_cons (fun hback => absurd hback (by decide)), hbody]

/-- **A raised marker** says the same, one level higher.  It had four dashes at
least, so that two are left and it is still a marker. -/
theorem contentOfRaw_raiseMarker {raw label : Text} {depth : Nat} {bracket : Option Text}
    (h : Line.contentOfRaw raw = .marker depth label bracket) (hdepth : 4 ≤ depth) :
    Line.contentOfRaw (Edit.raiseMarker raw) = .marker (depth - 2) label bracket := by
  obtain ⟨-, hdashes, hrest⟩ := Line.contentOf_eq_marker_iff.mp h
  -- four dashes or more are three dashes and more code
  obtain ⟨rest, hcode⟩ : ∃ rest, Comment.strip raw = '-' :: '-' :: '-' :: rest := by
    generalize Comment.strip raw = code at hdashes
    have hlong : 4 ≤ (code.takeWhile (· == '-')).length := by omega
    match code with
    | [] => simp at hlong
    | [x] => by_cases hx : x = '-' <;> simp [hx] at hlong
    | [x, y] =>
        by_cases hx : x = '-' <;> by_cases hy : y = '-' <;> simp [hx, hy] at hlong
    | x :: y :: z :: rest =>
        by_cases hx : x = '-' <;> by_cases hy : y = '-' <;> by_cases hz : z = '-' <;>
          simp [hx, hy, hz] at hlong
        subst hx hy hz
        exact ⟨rest, rfl⟩
  have hraised : Line.contentOfRaw (Edit.raiseMarker raw) = Line.contentOf ('-' :: rest) := by
    unfold Line.contentOfRaw
    rw [strip_raiseMarker hcode]
  rw [hraised, Line.contentOf_eq_marker_iff]
  rw [hcode] at hdashes hrest
  simp only [List.takeWhile_cons, List.dropWhile_cons, beq_self_eq_true, if_true, List.length_cons]
    at hdashes hrest ⊢
  exact ⟨by omega, by omega, hrest⟩

/-! ## The nests of the first lines -/

namespace Nest

/-- The nest of the lines before a position. -/
def upTo (lines : List Text) (i : Nat) : Nest := ofContents ((lines.take i).map Line.contentOfRaw)

variable {lines : List Text} {i : Nat}

theorem upTo_succ {raw : Text} (h : lines[i]? = some raw) :
    upTo lines (i + 1) = (upTo lines i).feed (Line.contentOfRaw raw) := by
  unfold upTo
  rw [List.take_add_one, h, Option.toList_some, List.map_append, List.map_singleton,
    ofContents_concat]

/-- The open boxes of the nesting are those of the scan, with number and
depth. -/
theorem stack_upTo (lines : List Text) (i : Nat) :
    (upTo lines i).stack = (scan (lines.take i)).stack.map fun o => (o.index, o.depth) := by
  have hstack := (Draft.shows_ofLines [] (lines.take i)).stack
  rw [Draft.scanner_ofLines] at hstack
  exact hstack.symm

/-- So a marker closes a box in the one exactly when it does in the other. -/
theorem closesAt_upTo (lines : List Text) (i depth : Nat) :
    (upTo lines i).closesAt depth = (scan (lines.take i)).closesAt depth := by
  have hcloses := (Draft.shows_ofLines [] (lines.take i)).closesAt depth
  rwa [Draft.scanner_ofLines] at hcloses

/-- Both have opened the same number of boxes. -/
theorem length_upTo (lines : List Text) (i : Nat) :
    (upTo lines i).boxes.length = (scan (lines.take i)).openers.length := by
  have hshows := Draft.shows_ofLines [] (lines.take i)
  have hlength := hshows.length_eq
  rw [Draft.scanner_ofLines] at hlength
  unfold upTo
  rw [hlength, ← hshows.boxes, List.length_map]

/-- The box that another one stands in is one of those that are opened so
far. -/
theorem parent_upTo {o : Outline} (ho : o ∈ (upTo lines i).boxes) {p : Nat}
    (hp : o.parent = some p) : p < (upTo lines i).boxes.length := by
  have hboxes := (Draft.shows_ofLines [] (lines.take i)).boxes
  have hopened := Draft.opened_ofLines [] (lines.take i)
  unfold upTo at ho ⊢
  rw [← hboxes] at ho ⊢
  obtain ⟨b, hb, rfl⟩ := List.mem_map.mp ho
  obtain ⟨j, hj⟩ := List.mem_iff_getElem?.mp hb
  have hindex := hopened.numbered j b hj
  have hlt := (List.getElem?_eq_some_iff.mp hj).1
  have hearlier := hopened.earlier b hb p hp
  rw [List.length_map]
  omega

theorem ordered_upTo (lines : List Text) (i : Nat) :
    (upTo lines i).stack.Pairwise fun a b => b.2 < a.2 := by
  rw [stack_upTo, List.pairwise_map]
  exact (Box.Scanner.nested_scan (lines.take i)).ordered.imp fun h => h.2

/-- Boxes have even depths, so there is a whole level between the open ones and
a deeper even depth. -/
theorem shallow_upTo {depth : Nat} (hdepth : Box.depthBefore lines i < depth)
    (heven : depth % 2 = 0) : ∀ f ∈ (upTo lines i).stack, f.2 + 2 ≤ depth := by
  have hnested := Box.Scanner.nested_scan (lines.take i)
  have hordered := hnested.ordered
  have hall := hnested.even
  unfold Box.depthBefore Box.Scanner.depth at hdepth
  rw [stack_upTo]
  intro f hf
  obtain ⟨o, ho, rfl⟩ := List.mem_map.mp hf
  have hoEven := (hall o ho).1
  -- the innermost open box is the deepest one
  have hdeepest : o.depth < depth := by
    cases hstack : (scan (lines.take i)).stack with
    | nil =>
        rw [hstack] at ho
        cases ho
    | cons top below =>
        rw [hstack] at hdepth ho hordered
        rcases List.mem_cons.mp ho with rfl | hbelow
        · exact hdepth
        · have hlt := (List.rel_of_pairwise_cons hordered hbelow).2
          exact Nat.lt_trans hlt hdepth
  dsimp only
  omega

/-- The opener of a box opens it, in the innermost of the boxes around, and the
box gets the next number. -/
theorem upTo_opener {k : Nat} {c : Box.Opener} (hc : (scan lines).openers[k]? = some c) :
    k = (upTo lines c.lineIndex).boxes.length ∧
      c.parent = ((upTo lines c.lineIndex).around c.depth).head?.map (·.1) ∧
      ∃ label inner, upTo lines (c.lineIndex + 1) =
        (upTo lines c.lineIndex).openBox c.depth label inner := by
  obtain ⟨raw, label, bracket, hraw, hcontent, heven, hnot, rfl, hstep⟩ := Box.Scanner.opened_at hc
  refine ⟨(length_upTo lines c.lineIndex).symm, ?_, label, Text.trim (bracket.getD []), ?_⟩
  · have hnew := Box.Scanner.later_openers (List.getElem?_eq_some_iff.mp hraw).1
    rw [hstep] at hnew
    obtain ⟨o, ho, haddress, -⟩ := hnew.kept _ _ List.getElem?_concat_length
    obtain rfl : o = c := Option.some.inj (ho.symm.trans hc)
    unfold around
    rw [stack_upTo, List.dropWhile_map, List.head?_map, Option.map_map]
    exact congrArg Box.Address.parent haddress
  · have hmarker : Line.contentOfRaw raw = .marker c.depth label bracket := hcontent
    rw [upTo_succ hraw, hmarker, feed_marker _ heven, closesAt_upTo, hnot]
    rfl

end Nest

namespace Edit

/-- An empty marker of some depth at a position, where a box is the innermost
open one, closes another box too. -/
def ClosesMore (lines : List Text) (c : Box.Opener) (i depth : Nat) : Prop :=
  lines[i]?.map Line.contentOfRaw = some (.marker depth [] none) →
    (scan (lines.take i)).current?.map (·.index) = some c.index →
    ∃ o ∈ (scan (lines.take i)).stack, o.index ≠ c.index ∧ depth ≤ o.depth

instance (lines : List Text) (c : Box.Opener) (i depth : Nat) :
    Decidable (ClosesMore lines c i depth) := inferInstanceAs (Decidable (_ → _ → _))

/-- The markers of a box do nothing but open and close it: its opener closes no
other box, its closing marker closes no other box, and an empty marker that
closes it from further out closes another box too. -/
structure Detachable (lines : List Text) (c : Box.Opener) : Prop where
  opens : Box.depthBefore lines c.lineIndex < c.depth
  closes : ∀ j ∈ c.closeLine, Box.depthBefore lines j = c.depth
  shares : ∀ i < lines.length, ∀ depth < c.depth, depth % 2 = 0 → ClosesMore lines c i depth

instance (lines : List Text) (c : Box.Opener) : Decidable (Detachable lines c) :=
  decidable_of_iff (Box.depthBefore lines c.lineIndex < c.depth ∧
      (∀ j ∈ c.closeLine, Box.depthBefore lines j = c.depth) ∧
      ∀ i < lines.length, ∀ depth < c.depth, depth % 2 = 0 → ClosesMore lines c i depth)
    ⟨fun h => ⟨h.1, h.2.1, h.2.2⟩, fun h => ⟨h.opens, h.closes, h.shares⟩⟩

/-- What is left of the lines before a position. -/
def leftUpTo (c : Box.Opener) (lines : List Text) (i : Nat) : List Text :=
  ((lines.take i).mapIdx (withoutBox c (scopeEnd lines c))).filterMap (·.1)

/-- The nest of what is left of the lines before a position. -/
def nestLeft (c : Box.Opener) (lines : List Text) (i : Nat) : Nest :=
  .ofContents ((leftUpTo c lines i).map Line.contentOfRaw)

section Run

variable {lines : List Text} {c : Box.Opener} {k : Nat}

/-- One line more adds what is left of it when the box is taken out. -/
theorem leftUpTo_succ {i : Nat} {raw : Text} (h : lines[i]? = some raw) :
    leftUpTo c lines (i + 1) =
      leftUpTo c lines i ++ (withoutBox c (scopeEnd lines c) i raw).1.toList := by
  have hlt := (List.getElem?_eq_some_iff.mp h).1
  unfold leftUpTo
  rw [List.take_add_one, h, Option.toList_some, List.mapIdx_concat, List.length_take,
    Nat.min_eq_left (Nat.le_of_lt hlt), List.filterMap_append]
  congr 1

/-- A line of which nothing is left does nothing to the nesting of what is
left. -/
theorem nestLeft_of_none {i : Nat} {raw : Text} (h : lines[i]? = some raw)
    (hleft : (withoutBox c (scopeEnd lines c) i raw).1 = none) :
    nestLeft c lines (i + 1) = nestLeft c lines i := by
  unfold nestLeft
  rw [leftUpTo_succ h, hleft, Option.toList_none, List.append_nil]

/-- A line of which something is left feeds that nesting with what it says
then. -/
theorem nestLeft_of_some {i : Nat} {raw new : Text} (h : lines[i]? = some raw)
    (hleft : (withoutBox c (scopeEnd lines c) i raw).1 = some new) :
    nestLeft c lines (i + 1) = (nestLeft c lines i).feed (Line.contentOfRaw new) := by
  unfold nestLeft
  rw [leftUpTo_succ h, hleft, Option.toList_some, List.map_append, List.map_singleton,
    Nest.ofContents_concat]

/-! ## The content of the box -/

/-- The content of a box ends after its opener. -/
theorem lt_scopeEnd (hc : (scan lines).openers[k]? = some c) : c.lineIndex < scopeEnd lines c := by
  unfold scopeEnd
  split
  · rename_i j hclose
    exact Box.Scanner.lineIndex_lt_closeLine hc hclose
  · dsimp only
    split
    · rename_i o hfind
      have hlater := List.find?_some hfind
      simp only [Bool.and_eq_true, decide_eq_true_eq] at hlater
      exact hlater.1
    · exact (Box.Scanner.before_scan lines).opened c (List.mem_of_getElem? hc)

/-- The content of a box ends at the latest where a box that is not deeper is
opened. -/
theorem scopeEnd_le {m : Nat} {o : Box.Opener} (hc : (scan lines).openers[k]? = some c)
    (ho : (scan lines).openers[m]? = some o) (hafter : c.lineIndex < o.lineIndex)
    (hdepth : o.depth ≤ c.depth) : scopeEnd lines c ≤ o.lineIndex := by
  unfold scopeEnd
  split
  · rename_i j hclose
    by_contra hlt
    obtain ⟨_, -, -, top, htop, hindex, -⟩ := Box.Scanner.closed_at hc hclose
    have hj : j ≤ lines.length :=
      Nat.le_of_lt ((Box.Scanner.before_scan lines).closed c (List.mem_of_getElem? hc) j hclose)
    obtain ⟨raw, label, bracket, hraw, -, -, -, rfl, hstep⟩ := Box.Scanner.opened_at ho
    have hi := (List.getElem?_eq_some_iff.mp hraw).1
    -- the box is open at its closing marker, so it was open after the other was opened
    have hlater : Box.Scanner.Later (o.lineIndex + 1) _ _ := Box.Scanner.later_scan (by omega) hj
    have hk : k < (scan (lines.take o.lineIndex)).openers.length := by
      by_contra hge
      rcases Nat.lt_or_eq_of_le (Nat.not_lt.mp hge) with hgt | heq
      · have := Box.Scanner.lineIndex_lt ho hc hgt
        omega
      · rw [heq] at ho
        obtain rfl : o = c := Option.some.inj (ho.symm.trans hc)
        omega
    have hlength := hlater.length_le
    rw [hstep] at hlater
    obtain ⟨old, hold, holdIndex⟩ := hlater.popped top htop (by
      simp only [Box.Scanner.openBox, List.length_append, List.length_singleton]
      omega)
    rw [hindex] at holdIndex
    rw [← hstep] at hold
    have holdDepth : old.depth = c.depth :=
      congrArg Box.Address.depth (Box.Scanner.address_of_open hc hi hold holdIndex)
    rw [hstep] at hold
    rcases Box.Scanner.mem_stack_openBox hold with ⟨hnew, -⟩ | haround
    · omega
    · rw [(Box.Scanner.nested_scan _).around_eq] at haround
      have hshallow := (List.mem_filter.mp haround).2
      simp only [decide_eq_true_eq] at hshallow
      omega
  · have hpred : (decide (c.lineIndex < o.lineIndex) && decide (o.depth ≤ c.depth)) = true := by
      simp [hafter, hdepth]
    dsimp only
    split
    · -- the first opener that qualifies stands before the given one
      rename_i first hfind
      unfold Box.openers at hfind
      obtain ⟨-, n, hn, hget, hfirst⟩ := List.find?_eq_some_iff_getElem.mp hfind
      obtain ⟨hm, hgetm⟩ := List.getElem?_eq_some_iff.mp ho
      have hle : n ≤ m := by
        by_contra hgt
        have hfail := hfirst m (Nat.not_le.mp hgt)
        rw [hgetm, hpred] at hfail
        cases hfail
      have hfirstAt : (scan lines).openers[n]? = some first :=
        List.getElem?_eq_some_iff.mpr ⟨hn, hget⟩
      rcases Nat.lt_or_eq_of_le hle with hlt | rfl
      · exact Nat.le_of_lt (Box.Scanner.lineIndex_lt hfirstAt ho hlt)
      · obtain rfl : first = o := Option.some.inj (hfirstAt.symm.trans ho)
        exact Nat.le_refl _
    · rename_i hfind
      have hnone := List.find?_eq_none.mp hfind o (List.mem_of_getElem? ho)
      exact absurd hpred hnone

/-- What is left of a line that is no marker of the box: all of it, unless it is
a deeper marker in its scope. -/
theorem withoutBox_kept (lines : List Text) {i : Nat} (raw : Text) (hafter : c.lineIndex ≠ i)
    (hclose : c.closeLine ≠ some i)
    (hsame : ¬ (c.lineIndex < i ∧ i < scopeEnd lines c ∧ isDeeperMarker c.depth raw = true)) :
    (withoutBox c (scopeEnd lines c) i raw).1 = some raw := by
  have hindex : ¬ (i == c.lineIndex) = true := by simpa using Ne.symm hafter
  have hclose : ¬ (c.closeLine == some i) = true := by simpa using hclose
  have hraise : ¬ (decide (c.lineIndex < i) && decide (i < scopeEnd lines c) &&
      isDeeperMarker c.depth raw) = true := by simpa [and_assoc] using hsame
  unfold withoutBox
  rw [if_neg hindex, if_neg hclose, if_neg hraise]

/-- A deeper marker in the scope of the box that is taken out loses two
dashes. -/
theorem withoutBox_raised {i : Nat} {raw : Text} (hafter : c.lineIndex < i)
    (hbefore : i < scopeEnd lines c) (hclose : c.closeLine ≠ some i)
    (hdeeper : isDeeperMarker c.depth raw = true) :
    (withoutBox c (scopeEnd lines c) i raw).1 = some (raiseMarker raw) := by
  have hindex : ¬ (i == c.lineIndex) = true := by simpa using Nat.ne_of_gt hafter
  have hclose : ¬ (c.closeLine == some i) = true := by simpa using hclose
  have hraise : (decide (c.lineIndex < i) && decide (i < scopeEnd lines c) &&
      isDeeperMarker c.depth raw) = true := by simp [hafter, hbefore, hdeeper]
  unfold withoutBox
  rw [if_neg hindex, if_neg hclose, if_pos hraise]

/-- The marker that closes the box stands at the end of its scope and nowhere
else. -/
theorem closeLine_ne {i : Nat} (h : i ≠ scopeEnd lines c) : c.closeLine ≠ some i := by
  intro hclose
  unfold scopeEnd at h
  rw [hclose] at h
  exact h rfl

/-! ## Line by line -/

/-- The document and what is left of it, after the lines before a position. -/
structure RemovedUpTo (lines : List Text) (c : Box.Opener) (k i : Nat) : Prop where
  without : (Nest.upTo lines i).Without k c.parent (nestLeft c lines i)
  inside : i ≤ scopeEnd lines c →
    Nest.Inside k c.depth c.parent (Nest.upTo lines i).stack (nestLeft c lines i).stack
  past : scopeEnd lines c < i → Nest.Past k (Nest.upTo lines i).stack (nestLeft c lines i).stack

/-- Before the opener nothing changes: the lines are the same, and so is the
nesting. -/
theorem nestLeft_before (hc : (scan lines).openers[k]? = some c) {i : Nat} (hi : i ≤ c.lineIndex) :
    nestLeft c lines i = Nest.upTo lines i := by
  have hline := (Box.Scanner.before_scan lines).opened c (List.mem_of_getElem? hc)
  induction i with
  | zero => rfl
  | succ i ih =>
      have hraw : lines[i]? = some lines[i] := List.getElem?_eq_getElem (by omega)
      have hscope := lt_scopeEnd hc
      have hopen : c.closeLine ≠ some i := closeLine_ne (show i ≠ scopeEnd lines c by omega)
      have hkept : (withoutBox c (scopeEnd lines c) i lines[i]).1 = some lines[i] :=
        withoutBox_kept lines lines[i] (by omega) hopen (by omega)
      rw [nestLeft_of_some hraw hkept, Nest.upTo_succ hraw, ih (by omega)]

/-- The opener of the box is dropped, and from there on what would be in the box
is in the one around it. -/
theorem removal_start (hc : (scan lines).openers[k]? = some c) (hdetach : Detachable lines c) :
    RemovedUpTo lines c k (c.lineIndex + 1) := by
  obtain ⟨raw, -, -, hraw, -, heven, -⟩ := Box.Scanner.opened_at hc
  have hscope := lt_scopeEnd hc
  have hgone : (withoutBox c (scopeEnd lines c) c.lineIndex raw).1 = none := by
    simp [withoutBox]
  have hleft : nestLeft c lines (c.lineIndex + 1) = Nest.upTo lines c.lineIndex := by
    rw [nestLeft_of_none hraw hgone, nestLeft_before hc (Nat.le_refl _)]
  have hbounded : (Nest.upTo lines c.lineIndex).Bounded := Nest.bounded_ofContents _
  obtain ⟨rfl, hparent, label, inner, hopen⟩ := Nest.upTo_opener hc
  -- the opener closes nothing, so all open boxes are around the new one
  have hshallow := Nest.shallow_upTo hdetach.opens heven
  have haround : (Nest.upTo lines c.lineIndex).around c.depth =
      (Nest.upTo lines c.lineIndex).stack := by
    unfold Nest.around
    rw [List.dropWhile_eq_self_iff]
    intro hpos
    have hfirst := hshallow _ (List.getElem_mem hpos)
    simp only [decide_eq_true_eq]
    omega
  rw [haround] at hparent
  refine ⟨?_, fun _ => ?_, by omega⟩
  · rw [hleft, hopen]
    exact hbounded.without_openBox (fun _ ho _ hp => Nest.parent_upTo ho hp) c.depth label inner
  · rw [hleft, hopen]
    refine ⟨[], [((Nest.upTo lines c.lineIndex).boxes.length, c.depth)],
      (Nest.upTo lines c.lineIndex).stack, ⟨by simp, Or.inl ⟨rfl, hparent⟩, ?_⟩, ?_, rfl⟩
    · exact fun f hf => ⟨hbounded.stack f hf, hshallow f hf⟩
    · simp only [Nest.openBox, haround]
      rfl

/-- A line of the content: deeper markers are raised, and other markers close
boxes around the box. -/
theorem removal_step_inside (hc : (scan lines).openers[k]? = some c) (hdetach : Detachable lines c)
    {i : Nat} {raw : Text} (hraw : lines[i]? = some raw) (hi : c.lineIndex < i)
    (hscope : i < scopeEnd lines c) (h : RemovedUpTo lines c k i) :
    RemovedUpTo lines c k (i + 1) := by
  have hindex : c.index = k := (Box.Scanner.before_scan lines).numbered k c hc
  have hinside := h.inside (Nat.le_of_lt hscope)
  have hclose : c.closeLine ≠ some i := closeLine_ne (Nat.ne_of_lt hscope)
  suffices hboth : (Nest.upTo lines (i + 1)).Without k c.parent (nestLeft c lines (i + 1)) ∧
      Nest.Inside k c.depth c.parent (Nest.upTo lines (i + 1)).stack
        (nestLeft c lines (i + 1)).stack from ⟨hboth.1, fun _ => hboth.2, by omega⟩
  rw [Nest.upTo_succ hraw]
  by_cases hmarker : ∃ d label bracket, Line.contentOfRaw raw = .marker d label bracket ∧ d % 2 = 0
  · obtain ⟨d, label, bracket, hcontent, heven⟩ := hmarker
    have hdeeper : isDeeperMarker c.depth raw = true ↔ c.depth < d := by
      simp [isDeeperMarker, hcontent, heven]
    rw [hcontent]
    by_cases hd : c.depth < d
    · -- both depths are even, so there is room for one level
      obtain ⟨_, _, _, -, hopener, hcEven, -⟩ := Box.Scanner.opened_at hc
      have hcTwo := (Line.contentOf_eq_marker_iff.mp hopener).1
      rw [nestLeft_of_some hraw (withoutBox_raised hi hscope hclose (hdeeper.mpr hd)),
        contentOfRaw_raiseMarker hcontent (by omega)]
      exact Nest.Inside.feed_deeper h.without hinside (by omega) heven label bracket
    · have hkept := withoutBox_kept lines raw (Nat.ne_of_lt hi) hclose
        (fun hraise => hd (hdeeper.mp hraise.2.2))
      rw [nestLeft_of_some hraw hkept, hcontent]
      -- a box that is opened here would end the content
      cases hcloses : label.isEmpty && bracket.isNone && (scan (lines.take i)).closesAt d with
      | false =>
          obtain ⟨m, o, ho, hoLine, hoDepth⟩ := Box.Scanner.opener_at hraw hcontent heven hcloses
          have hend := scopeEnd_le hc ho (by omega) (by omega)
          omega
      | true =>
          simp only [Bool.and_eq_true, List.isEmpty_iff, Option.isNone_iff_eq_none] at hcloses
          obtain ⟨⟨rfl, rfl⟩, hcloses⟩ := hcloses
          refine Nest.Inside.feed_closing h.without hinside (Nat.not_lt.mp hd) heven ?_
            (Nest.ordered_upTo lines i) ?_
          · rw [Nest.closesAt_upTo]
            exact hcloses
          · intro hinner
            have hcurrent : (scan (lines.take i)).current?.map (·.index) = some k := by
              rw [← hinner]
              unfold Nest.innermost? Box.Scanner.current?
              rw [Nest.stack_upTo, List.head?_map, Option.map_map]
              rfl
            have hshallow : d < c.depth := by
              by_contra hge
              obtain rfl : c.depth = d := by omega
              obtain ⟨top, htop, htopIndex⟩ := Option.map_eq_some_iff.mp hcurrent
              exact hclose (Box.Scanner.closeLine_at hc hraw hcontent heven hcloses
                (List.mem_of_mem_head? htop) htopIndex)
            obtain ⟨o, ho, hne, hle⟩ :=
              hdetach.shares i (List.getElem?_eq_some_iff.mp hraw).1 d hshallow
              heven (by rw [hraw, Option.map_some, hcontent]) (by rw [hindex]; exact hcurrent)
            rw [Nest.stack_upTo]
            exact ⟨(o.index, o.depth), List.mem_map_of_mem ho, by rwa [← hindex], hle⟩
  · have hother : ∀ depth label bracket, Line.contentOfRaw raw = .marker depth label bracket →
        depth % 2 ≠ 0 := fun d label bracket hcontent heven =>
      hmarker ⟨d, label, bracket, hcontent, heven⟩
    have hplain : isDeeperMarker c.depth raw ≠ true := by
      unfold isDeeperMarker
      split
      · rename_i d label bracket hcontent
        have hodd := hother d label bracket hcontent
        simp [hodd]
      · simp
    have hkept :=
      withoutBox_kept lines raw (Nat.ne_of_lt hi) hclose (fun hraise => hplain hraise.2.2)
    rw [nestLeft_of_some hraw hkept]
    refine ⟨h.without.feed_other hinside.sameHolder hother, ?_⟩
    rw [Nest.stack_feed _ hother, Nest.stack_feed _ hother]
    exact hinside

/-- The line that ends the content: the closing marker of the box, or a box that
is not deeper. -/
theorem removal_step_end (hc : (scan lines).openers[k]? = some c) (hdetach : Detachable lines c)
    {i : Nat} {raw : Text} (hraw : lines[i]? = some raw) (hscope : i = scopeEnd lines c)
    (h : RemovedUpTo lines c k i) : RemovedUpTo lines c k (i + 1) := by
  have hlt := (List.getElem?_eq_some_iff.mp hraw).1
  have hafter := lt_scopeEnd hc
  have hinside := h.inside (Nat.le_of_eq hscope)
  suffices hboth : (Nest.upTo lines (i + 1)).Without k c.parent (nestLeft c lines (i + 1)) ∧
      Nest.Past k (Nest.upTo lines (i + 1)).stack (nestLeft c lines (i + 1)).stack from
    ⟨hboth.1, by omega, fun _ => hboth.2⟩
  rw [Nest.upTo_succ hraw]
  cases hclose : c.closeLine with
  | some j =>
      obtain rfl : i = j := by
        rw [hscope]
        unfold scopeEnd
        rw [hclose]
      obtain ⟨raw', hraw', hcontent, top, htop, hindex, htopDepth⟩ :=
        Box.Scanner.closed_at hc hclose
      obtain rfl : raw' = raw := Option.some.inj (hraw'.symm.trans hraw)
      obtain ⟨_, _, _, -, -, heven, -⟩ := Box.Scanner.opened_at hc
      have hgone : (withoutBox c (scopeEnd lines c) i raw').1 = none := by
        have hne : ¬ (i == c.lineIndex) = true := by
          simp only [beq_iff_eq]
          omega
        have heq : (c.closeLine == some i) = true := by simp [hclose]
        unfold withoutBox
        rw [if_neg hne, if_pos heq]
      -- the box is the innermost one, and its marker closes nothing else
      have hhead : (Nest.upTo lines i).stack.head?.map (·.2) = some c.depth := by
        have hdepth := hdetach.closes i hclose
        unfold Box.depthBefore Box.Scanner.depth at hdepth
        rw [Nest.stack_upTo]
        cases hstack : (scan (lines.take i)).stack with
        | nil => simp [hstack] at htop
        | cons first below =>
            rw [hstack] at hdepth
            simp [← hdepth]
      have hopen : ∃ f ∈ (Nest.upTo lines i).stack, f.1 = k := by
        rw [Nest.stack_upTo]
        exact ⟨(top.index, top.depth), List.mem_map_of_mem htop, hindex⟩
      have hcloses : (Nest.upTo lines i).closesAt c.depth = true := by
        unfold Nest.closesAt
        cases hstack : (Nest.upTo lines i).stack with
        | nil => simp [hstack] at hhead
        | cons f below =>
            rw [hstack, List.head?_cons, Option.map_some, Option.some.injEq] at hhead
            simp [hhead]
      have hcontent : Line.contentOfRaw raw' = .marker c.depth [] none := hcontent
      obtain ⟨hstack, hearlier⟩ := hinside.close_own hhead hopen
      rw [nestLeft_of_none hraw hgone, hcontent, Nest.feed_marker _ heven, hcloses]
      refine ⟨h.without.congr rfl rfl rfl rfl, ?_⟩
      have hleft : ((Nest.upTo lines i).close c.depth).stack = (nestLeft c lines i).stack := hstack
      simp only [List.isEmpty_nil, Option.isNone_none, Bool.and_self, if_true, hleft]
      exact Nest.past_of_earlier hearlier
  | none =>
      have hkept := withoutBox_kept lines raw (by omega) (by rw [hclose]; simp)
        (fun hraise => absurd hraise.2.1 (Nat.not_lt.mpr (Nat.le_of_eq hscope.symm)))
      obtain ⟨m, o, ho, hoLine, hoDepth⟩ : ∃ (m : Nat) (o : Box.Opener),
          (scan lines).openers[m]? = some o ∧ o.lineIndex = i ∧ o.depth ≤ c.depth := by
        unfold scopeEnd at hscope
        rw [hclose] at hscope
        dsimp only at hscope
        split at hscope
        · rename_i o hfind
          have hlater := List.find?_some hfind
          simp only [Bool.and_eq_true, decide_eq_true_eq] at hlater
          obtain ⟨m, hm⟩ := List.mem_iff_getElem?.mp (List.mem_of_find?_eq_some hfind)
          exact ⟨m, o, hm, hscope.symm, hlater.2⟩
        · omega
      obtain ⟨raw', label, bracket, hraw', hcontent, heven, hnot, -⟩ := Box.Scanner.opened_at ho
      rw [hoLine] at hraw' hnot
      obtain rfl : raw' = raw := Option.some.inj (hraw'.symm.trans hraw)
      have hcontent : Line.contentOfRaw raw' = .marker o.depth label bracket := hcontent
      rw [← Nest.closesAt_upTo] at hnot
      rw [nestLeft_of_some hraw hkept, hcontent]
      exact Nest.Inside.feed_opening h.without hinside hoDepth heven hnot

/-- A line after the content says the same in both nests, for no marker is
raised there any more. -/
theorem removal_step_past (hc : (scan lines).openers[k]? = some c) {i : Nat} {raw : Text}
    (hraw : lines[i]? = some raw) (hscope : scopeEnd lines c < i) (h : RemovedUpTo lines c k i) :
    RemovedUpTo lines c k (i + 1) := by
  have hafter := lt_scopeEnd hc
  have hpast := h.past hscope
  have hclose : c.closeLine ≠ some i := closeLine_ne (Nat.ne_of_gt hscope)
  have hkept := withoutBox_kept lines raw (by omega) hclose
    (fun hraise => absurd hraise.2.1 (Nat.not_lt.mpr (Nat.le_of_lt hscope)))
  suffices hboth : (Nest.upTo lines (i + 1)).Without k c.parent (nestLeft c lines (i + 1)) ∧
      Nest.Past k (Nest.upTo lines (i + 1)).stack (nestLeft c lines (i + 1)).stack from
    ⟨hboth.1, by omega, fun _ => hboth.2⟩
  rw [Nest.upTo_succ hraw, nestLeft_of_some hraw hkept]
  by_cases hmarker : ∃ d label bracket, Line.contentOfRaw raw = .marker d label bracket ∧ d % 2 = 0
  · obtain ⟨d, label, bracket, hcontent, heven⟩ := hmarker
    rw [hcontent]
    exact hpast.feed h.without heven label bracket
  · have hother : ∀ depth label bracket, Line.contentOfRaw raw = .marker depth label bracket →
        depth % 2 ≠ 0 := fun d label bracket hcontent heven =>
      hmarker ⟨d, label, bracket, hcontent, heven⟩
    refine ⟨h.without.feed_other hpast.sameHolder hother, ?_⟩
    rw [Nest.stack_feed _ hother, Nest.stack_feed _ hother]
    exact hpast

/-- **What is left of a document is the document without the box**, after every
line from the opener on. -/
theorem removal_run (hc : (scan lines).openers[k]? = some c)
    (hdetach : Detachable lines c) {i : Nat}
    (hafter : c.lineIndex < i) (hi : i ≤ lines.length) : RemovedUpTo lines c k i := by
  induction i, hafter using Nat.le_induction with
  | base => exact removal_start hc hdetach
  | succ i hafter ih =>
      have hraw : lines[i]? = some lines[i] := List.getElem?_eq_getElem (by omega)
      have hbefore := ih (by omega)
      rcases Nat.lt_trichotomy i (scopeEnd lines c) with hin | hend | hout
      · exact removal_step_inside hc hdetach hraw hafter hin hbefore
      · exact removal_step_end hc hdetach hraw hend hbefore
      · exact removal_step_past hc hraw hout hbefore

/-! ## The document that is left -/

theorem leftUpTo_length (lines : List Text) (c : Box.Opener) : leftUpTo c lines lines.length =
    (lines.mapIdx (withoutBox c (scopeEnd lines c))).filterMap (·.1) := by
  unfold leftUpTo
  rw [List.take_length]

/-- Deleting a box puts no line feed into a line. -/
theorem lineFeed_not_mem_left (hlines : ∀ raw ∈ lines, '\n' ∉ raw) (i : Nat) :
    ∀ new ∈ leftUpTo c lines i, '\n' ∉ new := by
  intro new hnew
  unfold leftUpTo at hnew
  obtain ⟨left, hleft, hfst⟩ := List.mem_filterMap.mp hnew
  obtain ⟨j, hj, rfl⟩ := List.mem_mapIdx.mp hleft
  have hraw := hlines _ ((List.take_sublist i lines).subset (List.getElem_mem hj))
  generalize (lines.take i)[j] = raw at hfst hraw
  unfold withoutBox at hfst
  split at hfst
  · cases hfst
  · split at hfst
    · cases hfst
    · split at hfst
      · cases hfst
        intro hmem
        rcases List.mem_append.mp hmem with hmargin | hrest
        · exact hraw ((List.takeWhile_sublist _).subset hmargin)
        · exact hraw ((List.drop_sublist _ _).subset hrest)
      · cases hfst
        exact hraw

/-- Lines that are written and read again have the same nest, also when there
are none. -/
theorem nest_split_join {left : List Text} (hleft : ∀ raw ∈ left, '\n' ∉ raw) :
    Nest.ofContents ((Document.split (Document.join left)).map Line.contentOfRaw) =
      Nest.ofContents (left.map Line.contentOfRaw) := by
  by_cases hne : left = []
  · subst hne
    rfl
  · rw [Document.contents_split_join hne hleft]

end Run

end Edit

namespace Graph

/-- A graph in which one box of another is dissolved.  The other boxes are there
in their order, with their labels and brackets; what was in the dissolved box is
in the box around it. -/
structure Dissolved (g : Graph) (box : Box) (g' : Graph) : Prop where
  length_eq : g'.boxes.length + 1 = g.boxes.length
  kept : ∀ (i : Nat) b, i ≠ box.index → g.boxes[i]? = some b →
    ∃ b', g'.boxes[Nest.shifted box.index i]? = some b' ∧ b'.label = b.label ∧ b'.inner = b.inner ∧
      b'.parent = b.parent.bind (Nest.heldBy box.index box.parent) ∧
      ∀ v, v ∈ b'.members ↔ v ∈ b.members ∨ box.parent = some i ∧ v ∈ box.members

end Graph

/-- A nest without a box shows a graph in which the box is dissolved.  This
takes the result about nests back to graphs. -/
theorem Draft.Shows.dissolved {d d' : Draft} {n n' : Nest} {box : Box} {k : Nat} (h : d.Shows n)
    (h' : d'.Shows n') (hbox : d.graph.boxes[k]? = some box) (hwithout : n.Without k box.parent n')
    (hparent : ∀ j, box.parent = some j → j < k) : d.graph.Dissolved box d'.graph := by
  have hindex := h.numbered k box hbox
  have hlength : ∀ {d : Draft} {n : Nest}, d.Shows n → d.graph.boxes.length = n.boxes.length :=
    fun h => by rw [← h.boxes, List.length_map]
  refine ⟨?_, ?_⟩
  · rw [hlength h, hlength h']
    exact hwithout.length_eq
  · rw [hindex]
    intro i b hi hb
    have hold : n.boxes[i]? = some b.outline := by
      rw [← h.boxes, List.getElem?_map, hb]
      rfl
    have hnew :
        n'.boxes[Nest.shifted k i]? = some (Nest.outlineWithout k box.parent b.outline) := by
      rw [hwithout.boxes, List.getElem?_map, List.getElem?_eraseIdx]
      rcases Nat.lt_or_gt_of_ne hi with hlt | hgt
      · rw [Nest.shifted_of_lt hlt, if_pos hlt, hold]
        rfl
      · have hsucc : i - 1 + 1 = i := by omega
        rw [Nest.shifted_of_gt hgt, if_neg (by omega), hsucc, hold]
        rfl
    rw [← h'.boxes, List.getElem?_map, Option.map_eq_some_iff] at hnew
    obtain ⟨b', hb', houtline⟩ := hnew
    refine ⟨b', hb', congrArg Outline.label houtline, congrArg Outline.inner houtline,
      congrArg Outline.parent houtline, ?_⟩
    intro v
    rw [h'.members _ b' hb', h.members i b hb, h.members k box hbox]
    exact hwithout.mem_membersOf hi hparent v

/-- **Deleting a box keeps its content where it belongs.**  When the markers of
the box do nothing but open and close it, the boxes of the compiled graph are
the old ones without it: each has its label and its nesting, what was directly
in the box is directly in the box around it, and all other nodes are where they
were. -/
theorem deleteBox_dissolves (t : Text) (font : Option Text) {id : Text} {c : Box.Opener}
    (hc : Box.find? (Document.split t) id = some c)
    (hdetach : Edit.Detachable (Document.split t) c) :
    (Edit.deleteBox (Document.split t) id).patch.success = true ∧
      ∃ g g' box, (compile t font).graph = some g ∧ box ∈ g.boxes ∧ Box.idOf box.index = id ∧
        (compile (Document.join (Edit.deleteBox (Document.split t) id).lines) font).graph =
          some g' ∧
        g.Dissolved box g' := by
  have hlines : ∀ raw ∈ Document.split t, '\n' ∉ raw := fun raw => Document.not_mem_split
  have hdelete : ∃ patch, patch.success = true ∧ Edit.deleteBox (Document.split t) id =
      ⟨patch, Edit.leftUpTo c (Document.split t) (Document.split t).length⟩ := by
    unfold Edit.deleteBox
    rw [hc, Edit.leftUpTo_length]
    exact ⟨_, rfl, rfl⟩
  obtain ⟨patch, hsuccess, hdelete⟩ := hdelete
  rw [hdelete, graph_compile, graph_compile]
  dsimp only
  refine ⟨hsuccess, ?_⟩
  generalize (filled? font).getD Label.defaultFont = font
  generalize Document.split t = lines at *
  obtain ⟨k, hk⟩ := List.mem_iff_getElem?.mp (List.mem_of_find?_eq_some hc)
  have hindex : c.index = k := (Box.Scanner.before_scan lines).numbered k c hk
  have hname : Box.idOf c.index = id := by simpa using List.find?_some hc
  have hline : c.lineIndex < lines.length :=
    (Box.Scanner.before_scan lines).opened c (List.mem_of_getElem? hk)
  have hshows := Draft.shows_ofLines font lines
  have hshows' := Draft.shows_ofLines font
    (Document.split (Document.join (Edit.leftUpTo c lines lines.length)))
  rw [Edit.nest_split_join (Edit.lineFeed_not_mem_left hlines lines.length)] at hshows'
  -- the box of the graph has the address of its opener
  obtain ⟨box, hbox⟩ : ∃ box, (Draft.ofLines font lines).graph.boxes[k]? = some box := by
    have hlength := hshows.length_eq
    rw [Draft.scanner_ofLines] at hlength
    have hlt := (List.getElem?_eq_some_iff.mp hk).1
    exact ⟨_, List.getElem?_eq_getElem (by rw [← hlength]; exact hlt)⟩
  obtain ⟨o, ho, haddress⟩ := address_at hbox
  obtain rfl : o = c := Option.some.inj (ho.symm.trans hk)
  have hparent : box.parent = o.parent := congrArg Box.Address.parent haddress
  have hnumber : box.index = k := hshows.numbered k box hbox
  have hrun := (Edit.removal_run hk hdetach hline (Nat.le_refl _)).without
  unfold Nest.upTo at hrun
  rw [List.take_length, ← hparent] at hrun
  refine ⟨_, _, box, rfl, List.mem_of_getElem? hbox, ?_, rfl, ?_⟩
  · rw [hnumber, ← hindex]
    exact hname
  · refine hshows.dissolved hshows' hbox hrun ?_
    intro j hj
    have hearlier := (Draft.opened_ofLines font lines).earlier box (List.mem_of_getElem? hbox) j hj
    omega

/-- The box `C` is closed by the marker of the box around it, and the box `D` in
it is raised. -/
theorem deleteBox_dissolves_in_box :
    ∃ c, Box.find? (Document.split "--P\n----C\nX:: 1\n------D\nY:: 2\n------\n--\nZ:: 3")
        "cluster_1" = some c ∧
      Edit.Detachable (Document.split "--P\n----C\nX:: 1\n------D\nY:: 2\n------\n--\nZ:: 3") c ∧
      (Edit.deleteBox (Document.split "--P\n----C\nX:: 1\n------D\nY:: 2\n------\n--\nZ:: 3")
        "cluster_1").patch.success = true ∧
      ∃ g g' box,
        (compile "--P\n----C\nX:: 1\n------D\nY:: 2\n------\n--\nZ:: 3").graph = some g ∧
        box ∈ g.boxes ∧ Box.idOf box.index = "cluster_1".toList ∧
        (compile (Document.join (Edit.deleteBox (Document.split
          "--P\n----C\nX:: 1\n------D\nY:: 2\n------\n--\nZ:: 3") "cluster_1").lines)).graph =
            some g' ∧ g.Dissolved box g' := by
  have hc : Box.find? (Document.split "--P\n----C\nX:: 1\n------D\nY:: 2\n------\n--\nZ:: 3")
      "cluster_1" = some ⟨1, 1, 4, "C".toList, [], [], some 0, none⟩ := by decide +kernel
  have hdetach : Edit.Detachable (Document.split
      "--P\n----C\nX:: 1\n------D\nY:: 2\n------\n--\nZ:: 3")
      ⟨1, 1, 4, "C".toList, [], [], some 0, none⟩ := by decide +kernel
  exact ⟨_, hc, hdetach, deleteBox_dissolves _ none hc hdetach⟩

/-- Without the condition a nested box can go astray.  The opener of `A` closes
the box `S` beside it, so without it `S` stays open; `B`, which was in `A` two
levels down, is one level below `S` then. -/
theorem deleteBox_nests_in_sibling :
    ¬ ∀ t id : Text, (Edit.deleteBox (Document.split t) id).patch.success = true →
      ∃ g g' box, (compile t).graph = some g ∧ box ∈ g.boxes ∧ Box.idOf box.index = id ∧
        (compile (Document.join (Edit.deleteBox (Document.split t) id).lines)).graph = some g' ∧
        g.Dissolved box g' := by
  intro hall
  obtain ⟨g, g', box, hg, hbox, hid, hg', hdissolved⟩ :=
    hall "--P\n----S\n----A\n--------B\nX:: 1" "cluster_2" (by decide +kernel)
  have hbefore : (compile "--P\n----S\n----A\n--------B\nX:: 1").graph.map
      (fun g => g.boxes.map fun b => (b.index, b.parent)) =
        some [(0, none), (1, some 0), (2, some 0), (3, some 2)] := by decide +kernel
  have hafter : (compile (Document.join (Edit.deleteBox (Document.split
      "--P\n----S\n----A\n--------B\nX:: 1") "cluster_2").lines)).graph.map
      (fun g => g.boxes.map (·.parent)) = some [none, some 0, some 1] := by decide +kernel
  rw [hg, Option.map_some, Option.some.injEq] at hbefore
  rw [hg', Option.map_some, Option.some.injEq] at hafter
  have hindex : box.index = 2 := Box.idOf_injective hid
  have hparent : box.parent = some 0 := by
    have hmem := List.mem_map_of_mem (f := fun b : Box => (b.index, b.parent)) hbox
    rw [hbefore] at hmem
    simpa [hindex] using hmem
  obtain ⟨b, hb, hinside⟩ : ∃ b, g.boxes[3]? = some b ∧ b.parent = some 2 := by
    have hget := congrArg (·[3]?) hbefore
    simp only [List.getElem?_map, List.getElem?_cons_succ, List.getElem?_cons_zero,
      Option.map_eq_some_iff, Prod.mk.injEq] at hget
    obtain ⟨b, hb, -, hinside⟩ := hget
    exact ⟨b, hb, hinside⟩
  obtain ⟨b', hb', -, -, houter, -⟩ := hdissolved.kept 3 b (by omega) hb
  rw [hindex, hparent, hinside, Option.bind_some, Nest.heldBy_self] at houter
  rw [hindex, Nest.shifted_of_gt (by omega)] at hb'
  have hget := congrArg (·[2]?) hafter
  simp only [List.getElem?_map, hb', List.getElem?_cons_succ,
    List.getElem?_cons_zero, Option.map_some, Option.some.injEq] at hget
  rw [houter] at hget
  exact absurd hget (by decide)

end LineDiagram
