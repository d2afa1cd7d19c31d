import LineDiagram.Proofs.Addresses
import Mathlib.Data.List.Forall2

/-!
# Lines that are left out

A malformed line adds an issue and nothing else, and a comment is kept by the
scan and goes nowhere else.  So what two documents add up to can be compared
line by line: two runs that start alike stay alike over lines that say the same,
and over lines that are left out on both sides, whatever these hold.

* `Alike.addLine` — two lines that say the same keep two drafts alike;
* `addLine_silent` — a line that is left out changes neither graph nor scan;
* `LeavesOut.isSilent` — blank lines and lines on which an error is reported are
  left out;
* `compile_interchangeable` — documents that differ only in comments and in
  lines that are left out have the same graph, settings and drawing.
-/

namespace LineDiagram

/-! ## Scans without comments -/

namespace Box

/-- An opener without its comment. -/
def Opener.bare (o : Opener) : Opener := { o with comment := [] }

namespace Scanner

/-- A scan without the comments of its markers. -/
def bare (s : Scanner) : Scanner := ⟨s.openers.map Opener.bare, s.stack.map Opener.bare⟩

theorem current?_bare (s : Scanner) : s.bare.current? = s.current?.map Opener.bare := List.head?_map

private theorem steady_bare : Steady Opener.bare := ⟨fun _ => rfl, fun _ => rfl, fun _ _ => rfl⟩

/-- Without comments a line does the same to a scan, since a comment is only
copied into the opener. -/
theorem feed_bare (s : Scanner) (index : Nat) (line : Line) :
    s.bare.feed index { line with comment := [] } =
      ((s.feed index line).1, (s.feed index line).2.bare) := by
  unfold feed
  dsimp only
  split
  · split
    · rfl
    · rw [show s.bare = s.map Opener.bare from rfl, steady_bare.closesAt_map]
      split
      · rw [steady_bare.close_map]
        rfl
      · rw [steady_bare.openBox_map s fun _ => rfl]
        rfl
  · rfl

/-- Two lines that say the same do the same to scans that differ in comments
only. -/
theorem feed_congr {s t : Scanner} (h : s.bare = t.bare) (index : Nat) {a b : Line}
    (hcontent : a.content = b.content) :
    (s.feed index a).1 = (t.feed index b).1 ∧
      (s.feed index a).2.bare = (t.feed index b).2.bare := by
  have hsame : s.bare.feed index { a with comment := [] } =
      t.bare.feed index { b with comment := [] } := by
    simp only [feed, hcontent, h]
  rw [feed_bare, feed_bare] at hsame
  exact Prod.mk.inj hsame

end Scanner

theorem ofOpener_bare (o : Opener) : Box.ofOpener o.bare = Box.ofOpener o := rfl

end Box

namespace Draft

/-- Two drafts that differ in issues and comments only. -/
structure Alike (d e : Draft) : Prop where
  graph : d.graph = e.graph
  scanner : d.scanner.bare = e.scanner.bare

/-! ## Lines that say the same -/

/-- Reports change neither graph nor scan, so drafts stay alike whatever is
reported. -/
theorem Alike.report {d e : Draft} (h : Alike d e) (p q : Problem) (index : Nat) (a b : Text) :
    Alike (d.report p index a) (e.report q index b) := ⟨h.graph, h.scanner⟩

/-- Drafts stay alike when they take in markers that say the same. -/
theorem Alike.addMarker {d e : Draft} (h : Alike d e) (index depth : Nat) {a b : Line}
    (hcontent : a.content = b.content) :
    Alike (d.addMarker index depth a) (e.addMarker index depth b) := by
  obtain ⟨hstep, hscanner⟩ := Box.Scanner.feed_congr h.scanner index hcontent
  have hopened := congrArg (fun s => s.current?.map Box.ofOpener) hscanner
  simp only [Box.Scanner.current?_bare, Option.map_map, Function.comp_def,
    Box.ofOpener_bare] at hopened
  unfold Draft.addMarker
  split
  · exact h.report _ _ _ _ _
  · generalize d.scanner.feed index a = first at *
    generalize e.scanner.feed index b = second at *
    obtain ⟨step, s⟩ := first
    obtain ⟨step', t⟩ := second
    obtain rfl : step = step' := hstep
    cases step with
    | opened =>
        dsimp only at hopened ⊢
        cases hs : s.current? with
        | none =>
            cases ht : t.current? with
            | none => exact ⟨h.graph, hscanner⟩
            | some o => simp [hs, ht] at hopened
        | some o =>
            cases ht : t.current? with
            | none => simp [hs, ht] at hopened
            | some o' =>
                have hbox : Box.ofOpener o = Box.ofOpener o' := by simpa [hs, ht] using hopened
                exact ⟨by simp only [h.graph, hbox], hscanner⟩
    | closed => exact ⟨h.graph, hscanner⟩
    | skipped => exact ⟨h.graph, hscanner⟩

/-- They stay alike when a node is put into the innermost box. -/
theorem Alike.placeNode {d e : Draft} (h : Alike d e) (id : Text) :
    Alike (d.placeNode id) (e.placeNode id) := by
  have hcurrent := congrArg (fun s => s.current?.map Box.Opener.index) h.scanner
  simp only [Box.Scanner.current?_bare, Option.map_map] at hcurrent
  unfold Draft.placeNode
  cases hd : d.scanner.current? with
  | none =>
      cases he : e.scanner.current? with
      | none => exact h
      | some o => simp [hd, he] at hcurrent
  | some o =>
      cases he : e.scanner.current? with
      | none => simp [hd, he] at hcurrent
      | some o' =>
          have hindex : o.index = o'.index := by simpa [hd, he, Box.Opener.bare] using hcurrent
          exact ⟨by simp only [h.graph, hindex], h.scanner⟩

/-- So they do when they take in a definition. -/
theorem Alike.addNode {d e : Draft} (h : Alike d e) (token label : Text) (bracket : Option Text) :
    Alike (d.addNode token label bracket) (e.addNode token label bracket) := by
  unfold Draft.addNode
  dsimp only
  rw [h.graph]
  apply Alike.placeNode
  exact ⟨rfl, h.scanner⟩

/-- And so they do when they take in edges, for a raw text is only reported and
not drawn. -/
theorem Alike.addEdges {d e : Draft} (h : Alike d e) (font : Text) (index : Nat)
    (a b sources targets : Text) (bracket : Option Text) :
    Alike (addEdges font d index a sources targets bracket)
      (addEdges font e index b sources targets bracket) := by
  unfold Draft.addEdges
  dsimp only
  split
  · exact h.report _ _ _ _ _
  · split
    · exact h.report _ _ _ _ _
    · exact ⟨by simp only [h.graph], h.scanner⟩

/-- Two lines that say the same keep drafts alike, whatever their raw texts and
their comments are. -/
theorem Alike.addLine {d e : Draft} (h : Alike d e) (font : Text) (index : Nat) {a b : Line}
    (hcontent : a.content = b.content) :
    Alike (d.addLine font index a) (e.addLine font index b) := by
  cases hb : b.content with
  | blank => simpa only [Draft.addLine, hcontent, hb] using h
  | marker depth label bracket =>
      simp only [Draft.addLine, hcontent, hb]
      exact h.addMarker index depth hcontent
  | setting phrase known value =>
      simp only [Draft.addLine, hcontent, hb, addSetting_eq]
      exact ⟨by simp only [h.graph], h.scanner⟩
  | node token label bracket =>
      simp only [Draft.addLine, hcontent, hb]
      apply Alike.addNode
      split
      · exact h
      · exact h.report _ _ _ _ _
  | edge sources targets bracket =>
      simp only [Draft.addLine, hcontent, hb]
      exact h.addEdges font index _ _ _ _ _
  | unrecognised =>
      simp only [Draft.addLine, hcontent, hb]
      exact h.report _ _ _ _ _

end Draft

/-! ## Lines that are left out -/

/-- The problem of a line, if it has one. -/
def Content.problem? : Content → Option Problem
  | .marker depth _ _ => if depth % 2 != 0 then some .oddMarker else none
  | .node token _ _ =>
    if Identifier.isBare token then none
    else some (.invalidNodeId token (Identifier.ofToken token))
  | .edge sources targets _ =>
    if (splitEndpoints sources).isEmpty then some .edgeWithoutSources
    else if (splitEndpoints targets).isEmpty then some .edgeWithoutTargets
    else none
  | .unrecognised => some .unrecognised
  | _ => none

/-- Whether a problem is an error: all are, but for a token that is not an
identifier. -/
def Problem.isError : Problem → Bool
  | .invalidNodeId _ _ => false
  | _ => true

/-- Whether a line is left out: it is blank or has an error. -/
def Content.isSilent (content : Content) : Bool :=
  content = .blank || content.problem?.any Problem.isError

theorem Problem.severity_toIssue (p : Problem) (number : Nat) (raw : Text) :
    (p.toIssue number raw).severity = .error ↔ p.isError = true := by
  cases p with
  | invalidNodeId token id => constructor <;> intro h <;> cases h
  | _ => exact ⟨fun _ => rfl, fun _ => rfl⟩

theorem Problem.line_toIssue (p : Problem) (number : Nat) (raw : Text) :
    (p.toIssue number raw).line = number := by
  cases p <;> rfl

namespace Draft

/-- A draft takes in the problem of a line, with the number of the line counted
from one. -/
theorem issues_addLine (font : Text) (d : Draft) (index : Nat) (line : Line) :
    (d.addLine font index line).issues =
      d.issues ++ (line.content.problem?.map (·.toIssue (index + 1) line.raw)).toList := by
  cases hcontent : line.content with
  | blank => simp [addLine, hcontent, Content.problem?]
  | setting phrase known value => simp [addLine, hcontent, addSetting_eq, Content.problem?]
  | unrecognised => simp [addLine, hcontent, Content.problem?, report]
  | marker depth label bracket =>
      simp only [addLine, hcontent, addMarker, Content.problem?]
      split
      · rfl
      · split
        · split <;> simp
        · simp
  | node token label bracket =>
      have hplace : ∀ (e : Draft) id, (e.placeNode id).issues = e.issues := by
        intro e id
        unfold placeNode
        split <;> rfl
      simp only [addLine, hcontent, addNode, hplace, Content.problem?]
      split
      · simp
      · rfl
  | edge sources targets bracket =>
      simp only [addLine, hcontent, addEdges, Content.problem?]
      split
      · rfl
      · split
        · rfl
        · simp

/-- The issues of a document are those of its lines, in order. -/
theorem issues_ofLines (font : Text) (lines : List Text) :
    (ofLines font lines).issues = (lines.mapIdx fun i raw =>
      ((Line.contentOfRaw raw).problem?.map (·.toIssue (i + 1) raw)).toList).flatten := by
  apply ofLines_induction font (P := fun lines d => d.issues = (lines.mapIdx fun i raw =>
    ((Line.contentOfRaw raw).problem?.map (·.toIssue (i + 1) raw)).toList).flatten)
  · rfl
  · intro lines raw d h
    rw [issues_addLine, h, List.mapIdx_concat, List.flatten_append, List.flatten_singleton]
    rfl

/-- A line that is left out changes neither graph nor scan. -/
theorem addLine_silent (font : Text) (d : Draft) (index : Nat) {line : Line}
    (h : line.content.isSilent = true) : Alike (d.addLine font index line) d := by
  cases hcontent : line.content with
  | blank =>
      simp only [addLine, hcontent]
      exact ⟨rfl, rfl⟩
  | unrecognised =>
      simp only [addLine, hcontent]
      exact ⟨rfl, rfl⟩
  | setting phrase known value => simp [hcontent, Content.isSilent, Content.problem?] at h
  | node token label bracket =>
      simp only [hcontent, Content.isSilent, Content.problem?, reduceCtorEq, decide_false,
        Bool.false_or] at h
      split at h <;> cases h
  | marker depth label bracket =>
      have hodd : (depth % 2 != 0) = true := by
        by_contra heven
        simp only [hcontent, Content.isSilent, Content.problem?, if_neg heven] at h
        simp at h
      simp only [addLine, hcontent, addMarker, if_pos hodd]
      exact ⟨rfl, rfl⟩
  | edge sources targets bracket =>
      simp only [addLine, hcontent, addEdges]
      split
      · exact ⟨rfl, rfl⟩
      · split
        · exact ⟨rfl, rfl⟩
        · rename_i hsources htargets
          simp [hcontent, Content.isSilent, Content.problem?, hsources, htargets] at h

/-- Two lines that say the same, or are both left out. -/
def Interchangeable (a b : Text) : Prop :=
  Line.contentOfRaw a = Line.contentOfRaw b ∨
    (Line.contentOfRaw a).isSilent = true ∧ (Line.contentOfRaw b).isSilent = true

theorem Alike.symm {d e : Draft} (h : Alike d e) : Alike e d := ⟨h.graph.symm, h.scanner.symm⟩

theorem Alike.trans {d e f : Draft} (h : Alike d e) (h' : Alike e f) : Alike d f :=
  ⟨h.graph.trans h'.graph, h.scanner.trans h'.scanner⟩

/-- One line of each of two runs: they say the same, or both are left out. -/
theorem Alike.step {d e : Draft} (h : Alike d e) (font : Text) (index : Nat) {a b : Text}
    (hab : Interchangeable a b) :
    Alike (d.addLine font index (.ofText a)) (e.addLine font index (.ofText b)) := by
  rcases hab with hsame | ⟨ha, hb⟩
  · exact h.addLine font index hsame
  · exact (addLine_silent font d index ha).trans (h.trans (addLine_silent font e index hb).symm)

/-- **Two runs.**  Over lines that can be interchanged two drafts stay alike, by
induction over the pairs of lines. -/
theorem Alike.addLines {d e : Draft} (h : Alike d e) (font : Text) (index : Nat)
    {first second : List Text} (hlines : List.Forall₂ Interchangeable first second) :
    Alike (Draft.addLines font d index first) (Draft.addLines font e index second) := by
  induction hlines generalizing d e index with
  | nil => exact h
  | cons hline _ ih => exact ih (h.step font index hline) (index + 1)

end Draft

namespace Compilation

/-- A line that a compilation leaves out: it is blank, or it is reported as an
error. -/
def LeavesOut (c : Compilation) (index : Nat) (raw : Text) : Prop :=
  Comment.strip raw = [] ∨
    ∃ issue ∈ c.issues, issue.line = (index + 1 : Nat) ∧ issue.severity = .error

instance (c : Compilation) (index : Nat) (raw : Text) : Decidable (c.LeavesOut index raw) :=
  inferInstanceAs (Decidable (_ ∨ _))

/-- What a compilation leaves out says nothing that a draft takes in: it is
blank, or one of the problems is about it. -/
theorem LeavesOut.isSilent {t : Text} {font : Option Text} {index : Nat} {raw : Text}
    (h : (compile t font).LeavesOut index raw) (hraw : (Document.split t)[index]? = some raw) :
    (Line.contentOfRaw raw).isSilent = true := by
  rcases h with hblank | ⟨issue, hissue, hline, herror⟩
  · simp [Line.contentOfRaw, hblank, Line.contentOf, Content.isSilent]
  · have hissues : (compile t font).issues = (Draft.ofLines ((filled? font).getD Label.defaultFont)
      (Document.split t)).issues := rfl
    rw [hissues, Draft.issues_ofLines] at hissue
    simp only [List.mem_flatten, List.mem_mapIdx] at hissue
    obtain ⟨issues, ⟨i, hi, rfl⟩, hmem⟩ := hissue
    obtain ⟨p, hp, rfl⟩ := Option.map_eq_some_iff.mp (Option.mem_toList.mp hmem)
    rw [Problem.line_toIssue] at hline
    obtain rfl : i = index := by omega
    obtain rfl : (Document.split t)[i] = raw := by
      rw [List.getElem?_eq_getElem hi] at hraw
      exact Option.some.inj hraw
    simp [Content.isSilent, hp, (Problem.severity_toIssue p _ _).mp herror]

end Compilation

/-- **Comments and lines that are left out have no effect.**  Two documents that
differ in nothing else have the same graph, the same settings and the same
drawing. -/
theorem compile_interchangeable (t u : Text) (font : Option Text)
    (hlength : (Document.split t).length = (Document.split u).length)
    (hlines : ∀ (i : Nat) a b, (Document.split t)[i]? = some a → (Document.split u)[i]? = some b →
      Comment.strip a = Comment.strip b ∨
        (compile t font).LeavesOut i a ∧ (compile u font).LeavesOut i b) :
    (compile t font).graph = (compile u font).graph ∧
      (compile t font).settings = (compile u font).settings ∧
      (compile t font).dot = (compile u font).dot := by
  have hpairs : List.Forall₂ Draft.Interchangeable (Document.split t) (Document.split u) := by
    refine List.forall₂_iff_get.mpr ⟨hlength, ?_⟩
    intro i hi hi'
    have ha : (Document.split t)[i]? = some ((Document.split t).get ⟨i, hi⟩) :=
      List.getElem?_eq_getElem hi
    have hb : (Document.split u)[i]? = some ((Document.split u).get ⟨i, hi'⟩) :=
      List.getElem?_eq_getElem hi'
    rcases hlines i _ _ ha hb with hsame | ⟨hleft, hright⟩
    · exact Or.inl (by simp only [Line.contentOfRaw, hsame])
    · exact Or.inr ⟨hleft.isSilent ha, hright.isSilent hb⟩
  have hstart : Draft.Alike {} {} := ⟨rfl, rfl⟩
  have hgraph := (hstart.addLines ((filled? font).getD Label.defaultFont) 0 hpairs).graph
  refine ⟨congrArg some hgraph, congrArg Graph.settings hgraph, ?_⟩
  exact congrArg (Dot.render · ((filled? font).getD Label.defaultFont)) hgraph

/-- A document with an odd marker, a blank line and an edge without sources
among its lines. -/
def draftText : Text :=
  "Title: T # draft\n---odd\n\n--Box # open\nX:: 1 [colour=red]\n| -> C\nX -> Y # seen"

/-- A document with an unrecognised line, a comment and an edge without targets
in their places. -/
def redraftText : Text :=
  "Title: T\njunk\n# a note\n--Box\nX:: 1 [colour=red] # why\nX -> |\nX -> Y"

/-- The two documents say the same: three lines of each are left out, and four
differ in comments or not at all. -/
theorem compile_interchangeable_drafts :
    (Document.split draftText).length = (Document.split redraftText).length ∧
      (∀ i < 7, ∀ a ∈ (Document.split draftText)[i]?, ∀ b ∈ (Document.split redraftText)[i]?,
        Comment.strip a = Comment.strip b ∨
          (compile draftText none).LeavesOut i a ∧ (compile redraftText none).LeavesOut i b) ∧
      (compile draftText none).errorCount = 2 ∧ (compile redraftText none).errorCount = 2 ∧
      (compile draftText none).graph = (compile redraftText none).graph ∧
      (compile draftText none).settings = (compile redraftText none).settings ∧
      (compile draftText none).dot = (compile redraftText none).dot := by
  have hlines : ∀ i < 7, ∀ a ∈ (Document.split draftText)[i]?,
      ∀ b ∈ (Document.split redraftText)[i]?, Comment.strip a = Comment.strip b ∨
        (compile draftText none).LeavesOut i a ∧ (compile redraftText none).LeavesOut i b := by
    decide +kernel
  have hseven : (Document.split draftText).length = 7 := by decide +kernel
  have hlength : (Document.split draftText).length = (Document.split redraftText).length := by
    decide +kernel
  refine ⟨hlength, hlines, by decide +kernel, by decide +kernel, ?_⟩
  refine compile_interchangeable draftText redraftText none hlength ?_
  intro i a b ha hb
  have hi := (List.getElem?_eq_some_iff.mp ha).1
  exact hlines i (by omega) a ha b hb

end LineDiagram
