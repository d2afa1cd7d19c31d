import LineDiagram.Document
import LineDiagram.Edit.Box
import LineDiagram.Proofs.BracketCut
import LineDiagram.Proofs.LineParts
import LineDiagram.Proofs.ScanOrder

/-!
# Changing the label of a box

A new label is written right behind the dashes of the marker that opens the box;
bracket and comment stay.  The editor refuses when another line then opens the
box with some number, and this is all that it compares.  It is enough for a
label that does not start with a dash: the marker keeps its depth, and the scan
goes on as before, since it reads no labels.  A label that starts with a dash
makes the marker deeper.

* `bracket_of_marker` — scanner and editor cut the bracket of a marker alike;
* `content_relabelled`, `deeper_relabelled` — what the new marker says;
* `scan_relabelled` — a scan with another label on one marker;
* `setBoxLabel_openers` — when every other field of every opener stays as it
  was.
-/

namespace LineDiagram

open Comment

/-! ## The new marker -/

namespace Line

/-- **The bracket of a marker** is the one that the editor cuts.  The compiler
cuts it out of the code without backslashes and the editor out of the raw line,
and brackets are never escaped. -/
theorem bracket_of_marker {raw label : Text} {depth : Nat} {bracket : Option Text}
    (h : contentOfRaw raw = .marker depth label bracket) :
    bracket = (LineParts.ofText raw).inner.map unescape ∧
      '\n' ∉ (LineParts.ofText raw).inner.getD [] := by
  obtain ⟨-, -, hfree, -, -⟩ := contentOf_eq_marker_iff.mp h
  refine ⟨(splitTrailing_of_marker h).trans (LineParts.inner_eq_splitTrailing raw).symm, ?_⟩
  cases (LineParts.ofText_spec raw).shape with
  | bare hbody hinner hend =>
      rw [hinner]
      exact List.not_mem_nil
  | bracketed inside hbody hopen hinner =>
      rw [LineParts.strip_eq_body, hbody, LineParts.code_bracketed,
        after_dashes_append (by decide)] at hfree
      rw [hinner]
      intro hmem
      have hin := (mem_unescape (by decide)).mpr (Text.mem_of_mem_trim hmem)
      exact hfree (by simp [hin])

/-- The code of a marker. -/
def markerCode (depth : Nat) (label inner : Text) : Text :=
  List.replicate depth '-' ++ label ++ if inner.isEmpty then [] else ' ' :: '[' :: (inner ++ [']'])

/-- The marker that an editor writes to give a box another label. -/
def relabelled (raw : Text) (depth : Nat) (label : Text) : Text :=
  let parts := LineParts.ofText raw
  parts.assemble parts.inner
    (some (parts.spaced (Text.margin raw ++ List.replicate depth '-' ++ escape label)))

section Relabelled

variable {raw label : Text} {depth : Nat}

/-- A marker with a label behind it starts and ends with no blank. -/
theorem tight_dashes (hdepth : 0 < depth) (hlabel : Text.Tight label) :
    Text.Tight (List.replicate depth '-' ++ label) := by
  have hdash : ∀ c ∈ List.replicate depth '-', Text.isBlank c = false := by
    intro c hc
    rw [List.eq_of_mem_replicate hc]
    decide
  apply Text.Tight.append ⟨?_, ?_⟩
  · simp
    omega
  · exact hlabel.stop
  · exact fun c hc => hdash c (List.mem_of_head? hc)
  · exact fun c hc => hdash c (List.mem_of_getLast? hc)

/-- What an editor writes in front of the bracket, read again: no comment opens
in it, and without backslashes it is the margin, the dashes and the label. -/
private theorem before_relabelled (raw : Text) (depth : Nat)
    (hsign : Text.hasPart "\\#" label = false) :
    Plain (Text.margin raw ++ List.replicate depth '-' ++ escape label) ∧
      unescape (Text.margin raw ++ List.replicate depth '-' ++ escape label) =
        Text.margin raw ++ (List.replicate depth '-' ++ label) := by
  have hmargin := Text.allBlank_margin raw
  constructor
  · apply Plain.append _ (plain_escape label)
    apply plain_of_not_mem
    simp [hmargin.not_mem (c := '#') (by decide)]
  · have hlast : (List.replicate depth '-').getLast? ≠ some '\\' := by
      intro hlast
      exact absurd (List.eq_of_mem_replicate (List.mem_of_getLast? hlast)) (by decide)
    rw [List.append_assoc, unescape_blank_append hmargin,
      unescape_append (fun h => absurd h hlast), unescape_escape hsign,
      unescape_of_not_mem (by simp)]

/-- The code that is written without a bracket. -/
private theorem code_without_bracket {before : Text} (hbefore : Plain before) (hdepth : 0 < depth)
    (hlabel : Text.Tight label)
    (hread : unescape before = Text.margin raw ++ (List.replicate depth '-' ++ label)) :
    Plain (Text.trimEnd before) ∧
      Text.trim (unescape (Text.trimEnd before)) = markerCode depth label [] := by
  constructor
  · obtain ⟨gap, hsplit, -⟩ := Text.exists_trimEnd before
    rw [hsplit] at hbefore
    exact hbefore.left
  · rw [trim_unescape, Text.trim_trimEnd, ← trim_unescape, hread,
      ← List.append_nil (Text.margin raw ++ _),
      Text.trim_of_blanks_around (Text.allBlank_margin raw) Text.allBlank_nil,
      Text.trim_of_tight (tight_dashes hdepth hlabel)]
    simp [markerCode]

/-- The code that is written with a bracket. -/
private theorem code_with_bracket {before inner : Text} (hbefore : Plain before)
    (hplain : Plain inner) (hne : inner ≠ []) (hdepth : 0 < depth) (hlabel : Text.Tight label)
    (hread : unescape before = Text.margin raw ++ (List.replicate depth '-' ++ label)) :
    Plain ((before ++ [' ']) ++ '[' :: (inner ++ [']'])) ∧
      Text.trim (unescape ((before ++ [' ']) ++ '[' :: (inner ++ [']']))) =
        markerCode depth label (unescape inner) := by
  have hspace : Text.AllBlank [' '] := Text.allBlank_singleton (by decide)
  constructor
  · have hopen : Plain ['['] := plain_of_not_mem (by decide)
    exact (hbefore.append (plain_of_not_mem (by decide))).append
      (hopen.append (hplain.append (plain_of_not_mem (by decide))))
  · rw [LineParts.code_bracketed, unescape_append_blank hspace, hread, List.append_assoc,
      Text.trimStart_of_blank_append (Text.allBlank_margin raw), Text.trimStart_eq_self]
    · have hread : unescape inner ≠ [] := fun h => hne (unescape_eq_nil.mp h)
      simp [markerCode, hread]
    · intro c hc
      rw [List.head?_append_of_ne_nil _ (by simp; omega)] at hc
      exact (tight_dashes hdepth hlabel).start c hc

/-- **The new marker** has the dashes, the new label, the old bracket unless it
is empty, and the old comment. -/
theorem strip_relabelled (hdepth : 0 < depth) (hlabel : Text.Tight label)
    (hsign : Text.hasPart "\\#" label = false) :
    Comment.strip (relabelled raw depth label) =
        markerCode depth label (unescape ((LineParts.ofText raw).inner.getD [])) ∧
      (Comment.split (relabelled raw depth label)).2 = (Comment.split raw).2 := by
  have hparts := LineParts.ofText_spec raw
  obtain ⟨hinner, hplain, -⟩ := hparts.inner_spec
  have hcomment := LineParts.ofText_comment raw
  obtain ⟨hbefore, hread⟩ := before_relabelled raw depth hsign
  unfold relabelled
  generalize LineParts.ofText raw = parts at *
  generalize Text.margin raw ++ List.replicate depth '-' ++ escape label = before at *
  have hcode : Plain (parts.newCode (parts.inner.getD []) (parts.spaced before)) ∧
      Text.trim (unescape (parts.newCode (parts.inner.getD []) (parts.spaced before))) =
        markerCode depth label (unescape (parts.inner.getD [])) := by
    unfold LineParts.newCode LineParts.spaced
    rw [Text.trim_of_tight hinner]
    split
    · rename_i hnil
      rw [List.isEmpty_iff.mp hnil]
      have hend : Text.trimEnd (if parts.inner.isSome then before ++ " " else before) =
          Text.trimEnd before := by
        split
        · exact Text.trimEnd_append_blank (Text.allBlank_singleton (by decide)) before
        · rfl
      rw [hend]
      exact code_without_bracket hbefore hdepth hlabel hread
    · rename_i hne
      have hsome : parts.inner.isSome = true := by
        cases hcase : parts.inner with
        | none => simp [hcase] at hne
        | some inner => rfl
      rw [Option.isNone_eq_false_iff.mpr hsome, hsome]
      exact code_with_bracket hbefore hplain (by simpa using hne) hdepth hlabel hread
  constructor
  · rw [LineParts.strip_assemble hparts hcode.1]
    exact hcode.2
  · rw [← hcomment]
    exact (LineParts.comment_assemble_iff hparts).mpr hcode.1

/-- The dashes of a marker and what follows them. -/
private theorem dashes_markerCode (depth : Nat) (label inner : Text) :
    ∃ rest, markerCode depth label inner = List.replicate depth '-' ++ rest ∧
      rest = label ++ (if inner.isEmpty then [] else ' ' :: '[' :: (inner ++ [']'])) ∧
      (markerCode depth label inner).takeWhile (· == '-') =
        List.replicate depth '-' ++ rest.takeWhile (· == '-') ∧
      (markerCode depth label inner).dropWhile (· == '-') = rest.dropWhile (· == '-') := by
  have hdash : ∀ c ∈ List.replicate depth '-', (c == '-') = true := by
    intro c hc
    rw [List.eq_of_mem_replicate hc]
    decide
  unfold markerCode
  rw [List.append_assoc]
  exact ⟨_, rfl, rfl, List.takeWhile_append_of_pos hdash, List.dropWhile_append_of_pos hdash⟩

/-- What a marker says whose label does not start with a dash: its depth is the
number of dashes that were written. -/
private theorem contentOf_markerCode {inner : Text} (hdepth : 2 ≤ depth) (hlabel : Text.Tight label)
    (hdash : label.head? ≠ some '-') (hfree : '[' ∉ label ∧ '\n' ∉ label)
    (hinner : Text.Tight inner)
    (hfree' : '[' ∉ inner ∧ '\n' ∉ inner) :
    contentOf (markerCode depth label inner) =
      .marker depth label (if inner.isEmpty then none else some inner) := by
  obtain ⟨rest, -, hrest, htake, hdrop⟩ := dashes_markerCode depth label inner
  have hhead : rest.head? ≠ some '-' := by
    rw [hrest, List.head?_append]
    cases hcase : label.head? with
    | none =>
        split
        · simp
        · simp
    | some c =>
        rw [hcase] at hdash
        simpa using hdash
  have hnone : rest.takeWhile (· == '-') = [] := by
    cases rest with
    | nil => rfl
    | cons c rest => simpa using hhead
  have hall : rest.dropWhile (· == '-') = rest := by
    conv_rhs => rw [← List.takeWhile_append_dropWhile (p := (· == '-')) (l := rest), hnone]
    rfl
  rw [contentOf_eq_marker_iff, htake, hdrop, hnone, hall, List.append_nil,
    List.length_replicate, hrest]
  cases inner with
  | nil =>
      simp only [List.isEmpty_nil, if_true, List.append_nil]
      rw [Text.trim_of_tight hlabel, Bracket.splitTrailing_of_not_mem hfree.1,
        Text.trim_trimEnd, Text.trim_of_tight hlabel]
      exact ⟨hdepth, trivial, hfree.2, rfl, rfl⟩
  | cons c inner =>
      have hsplit : label ++ ' ' :: '[' :: (c :: inner ++ [']']) =
          (label ++ [' ']) ++ '[' :: (c :: inner ++ [']']) := by simp
      simp only [List.isEmpty_cons, Bool.false_eq_true, if_false]
      refine ⟨hdepth, trivial, ?_, ?_, ?_⟩
      · simp only [List.mem_append, List.mem_cons, not_or] at hfree' ⊢
        exact ⟨hfree.2, by decide, by decide, ⟨hfree'.2.1, hfree'.2.2⟩, by decide, by simp⟩
      · rw [hsplit, Bracket.splitTrailing_trim _ hfree'.1, Text.trim_trim,
          Text.trim_append_blank (Text.allBlank_singleton (by decide)), Text.trim_of_tight hlabel]
      · rw [hsplit, Bracket.splitTrailing_trim _ hfree'.1, Text.trim_of_tight hinner]

/-- The new marker opens the same box with the new label, if that does not start
with a dash. -/
theorem content_relabelled {old : Text} {bracket : Option Text}
    (h : contentOfRaw raw = .marker depth old bracket) (hlabel : Text.Tight label)
    (hsign : Text.hasPart "\\#" label = false) (hdash : label.head? ≠ some '-')
    (hfree : '[' ∉ label ∧ '\n' ∉ label) :
    ∃ bracket', contentOfRaw (relabelled raw depth label) = .marker depth label bracket' ∧
      bracket'.getD [] = bracket.getD [] := by
  have hdepth : 2 ≤ depth := (contentOf_eq_marker_iff.mp h).1
  obtain ⟨hbracket, hline⟩ := bracket_of_marker h
  obtain ⟨hinner, -, hopen⟩ := (LineParts.ofText_spec raw).inner_spec
  unfold contentOfRaw
  rw [(strip_relabelled (by omega) hlabel hsign).1, contentOf_markerCode hdepth hlabel hdash hfree
    (tight_unescape hinner) (by rw [mem_unescape (by decide), mem_unescape (by decide)]
                                exact ⟨hopen, hline⟩)]
  refine ⟨_, rfl, ?_⟩
  rw [hbracket]
  cases hcase : (LineParts.ofText raw).inner with
  | none => simp
  | some inner =>
      rw [Option.getD_some, Option.map_some, Option.getD_some]
      split
      · rename_i hnil
        exact (List.isEmpty_iff.mp hnil).symm
      · rfl

/-- A label that starts with a dash makes the marker deeper, for its dashes are
counted along with those of the marker. -/
theorem deeper_relabelled {label' : Text} {depth' : Nat} {bracket' : Option Text}
    (hdepth : 0 < depth) (hlabel : Text.Tight label) (hsign : Text.hasPart "\\#" label = false)
    (hdash : label.head? = some '-')
    (h : contentOfRaw (relabelled raw depth label) = .marker depth' label' bracket') :
    depth < depth' := by
  unfold contentOfRaw at h
  rw [(strip_relabelled hdepth hlabel hsign).1] at h
  obtain ⟨rest, -, hrest, htake, -⟩ :=
    dashes_markerCode depth label (unescape ((LineParts.ofText raw).inner.getD []))
  obtain ⟨-, hlength, -⟩ := contentOf_eq_marker_iff.mp h
  obtain ⟨more, rfl⟩ := List.head?_eq_some_iff.mp hdash
  rw [htake, hrest, List.length_append, List.length_replicate] at hlength
  simp only [List.cons_append, BEq.rfl, List.takeWhile_cons_of_pos, List.length_cons] at hlength
  omega

end Relabelled

end Line

/-! ## The scan after it -/

namespace Box

/-- An opener with another label, if it has the given number. -/
def Opener.relabel (k : Nat) (label : Text) (o : Opener) : Opener :=
  if o.index = k then { o with label } else o

namespace Scanner

/-- Another label for one opener changes no number, no depth and no line. -/
private theorem steady_relabel (k : Nat) (label : Text) : Steady (Opener.relabel k label) := by
  refine ⟨?_, ?_, ?_⟩
  · intro o
    unfold Opener.relabel
    split <;> rfl
  · intro o
    unfold Opener.relabel
    split <;> rfl
  · intro o line
    simp only [Opener.relabel]
    split <;> rfl

/-- A change that leaves later openers alone commutes with a line.  The scan
goes by numbers and depths, which the change does not touch. -/
private theorem feed_map {f : Opener → Opener} (hf : Steady f) (s : Scanner)
    (hfresh : ∀ o : Opener, o.index = s.openers.length → f o = o) (index : Nat) (line : Line) :
    (s.map f).feed index line = ((s.feed index line).1, (s.feed index line).2.map f) := by
  unfold feed
  split
  · split
    · rfl
    · rw [hf.closesAt_map]
      split
      · rw [hf.close_map]
      · rw [hf.openBox_map s fun parent => hfresh _ rfl]
  · rfl

/-- **A label that is changed** during a scan is changed in its result, and
nothing else is. -/
theorem feedAll_relabel {k : Nat} {label : Text} {s : Scanner}
    (hk : k < s.openers.length) (index : Nat) (lines : List Text) :
    (s.map (Opener.relabel k label)).feedAll index lines =
      (s.feedAll index lines).map (Opener.relabel k label) := by
  induction lines generalizing s index with
  | nil => rfl
  | cons raw lines ih =>
      have hfresh : ∀ o : Opener, o.index = s.openers.length → o.relabel k label = o := by
        intro o ho
        exact if_neg (by omega)
      rw [feedAll, feedAll, feed_map (steady_relabel k label) s hfresh]
      apply ih
      have hfed := feed_fed s index (.ofText raw)
      generalize s.feed index (.ofText raw) = result at hfed
      cases hfed with
      | skipped => exact hk
      | closed depth hline heven hopen => rwa [length_close]
      | opened depth label bracket hline heven =>
          simp only [openBox, List.length_append, List.length_singleton]
          omega

variable {lines : List Text}

/-- The first openers do not have the number of the next one, so giving that
number another label changes nothing yet. -/
private theorem map_relabel_of_before {i : Nat} {s : Scanner} (h : Before i s) (label : Text) :
    s.map (Opener.relabel s.openers.length label) = s := by
  have hopeners : ∀ o ∈ s.openers, o.relabel s.openers.length label = o := by
    intro o ho
    obtain ⟨j, hj⟩ := List.mem_iff_getElem?.mp ho
    have hindex := h.numbered j o hj
    have hlt := (List.getElem?_eq_some_iff.mp hj).1
    exact if_neg (by omega)
  have hstack : ∀ o ∈ s.stack, o.relabel s.openers.length label = o := by
    intro o ho
    have hlt := h.nested.numbered o ho
    exact if_neg (by omega)
  unfold map
  rw [List.map_congr_left hopeners, List.map_congr_left hstack, List.map_id', List.map_id']

/-- **A scan with another label on one marker.**  The lines after it do the same
as before. -/
theorem scan_relabelled {i depth : Nat} {new old label inner comment : Text} (hi : i < lines.length)
    (hold : scan (lines.take (i + 1)) = (scan (lines.take i)).openBox i depth old inner comment)
    (hnew : scan ((lines.set i new).take (i + 1)) =
      (scan (lines.take i)).openBox i depth label inner comment) :
    scan (lines.set i new) =
      (scan lines).map (Opener.relabel (scan (lines.take i)).openers.length label) := by
  have hbefore := before_take (Nat.le_of_lt hi)
  -- the marker itself
  have hstep : scan ((lines.set i new).take (i + 1)) =
      (scan (lines.take (i + 1))).map
        (Opener.relabel (scan (lines.take i)).openers.length label) := by
    have hopen := @Steady.openBox_map _ (steady_relabel (scan (lines.take i)).openers.length label)
      (scan (lines.take i)) i depth old inner comment label inner comment (fun _ => if_pos rfl)
    rw [map_relabel_of_before hbefore] at hopen
    rw [hnew, hold, hopen]
  -- and what follows
  have hrest : ∀ all : List Text, i < all.length →
      scan all = (scan (all.take (i + 1))).feedAll (i + 1) (all.drop (i + 1)) := by
    intro all hall
    conv_lhs => rw [← List.take_append_drop (i + 1) all]
    unfold scan
    rw [feedAll_append, Nat.zero_add, List.length_take, Nat.min_eq_left hall]
  have hlt : (scan (lines.take i)).openers.length < (scan (lines.take (i + 1))).openers.length := by
    rw [hold]
    simp [openBox]
  rw [hrest _ (by rwa [List.length_set]), hstep, List.drop_set_of_lt (by omega),
    feedAll_relabel hlt, ← hrest lines hi]

/-- Openers are numbered in order, so one of them is relabelled by its
position. -/
theorem openers_relabel {k : Nat} {o : Opener}
    (ho : (scan lines).openers[k]? = some o) (label : Text) :
    ((scan lines).map (Opener.relabel k label)).openers =
      (scan lines).openers.set k { o with label } := by
  have hnumbered := (before_scan lines).numbered
  apply List.ext_getElem?
  intro j
  simp only [map, List.getElem?_map]
  by_cases hj : j = k
  · subst hj
    rw [ho, List.getElem?_set_self (List.getElem?_eq_some_iff.mp ho).1, Option.map_some]
    exact congrArg some (if_pos (hnumbered j o ho))
  · rw [List.getElem?_set_ne (Ne.symm hj)]
    cases hget : (scan lines).openers[j]? with
    | none => rfl
    | some other =>
        have hindex := hnumbered j other hget
        exact congrArg some (if_neg (by omega))

end Scanner

end Box

/-! ## The edit -/

namespace Edit

/-- What the editor has checked when it replaces a marker: the box is there, and
with the new line all boxes are still in their places. -/
theorem replaceOpener_done {lines : List Text} {id : Text} {action : Action}
    {newLine : Box.Opener → Text} {changes : List Text}
    (h : (replaceOpener lines id action newLine changes).patch.success = true) :
    ∃ (k : Nat) (o : Box.Opener), (Box.openers lines)[k]? = some o ∧ Box.idOf k = id ∧
      openerPlaces (lines.set o.lineIndex (newLine o)) = openerPlaces lines ∧
      (replaceOpener lines id action newLine changes).lines =
        lines.set o.lineIndex (newLine o) := by
  unfold replaceOpener at h ⊢
  split at h
  · cases h
  · rename_i o hfind
    dsimp only at h
    split at h
    · rename_i hplaces
      obtain ⟨k, hk⟩ := List.mem_iff_getElem?.mp (List.mem_of_find?_eq_some hfind)
      have hid : Box.idOf o.index = id := by simpa using List.find?_some hfind
      rw [(Box.Scanner.before_scan lines).numbered k o hk] at hid
      refine ⟨k, o, hk, hid, by simpa using hplaces, ?_⟩
      dsimp only
      rw [if_pos hplaces]
      rfl
    · cases h

/-- What the editor has checked when it changes the label of a box, and what it
writes. -/
theorem setBoxLabel_done {lines : List Text} {id label : Text}
    (h : (setBoxLabel lines id label).patch.success = true) :
    ('[' ∉ Text.trim label ∧ '\n' ∉ Text.trim label) ∧
      ∃ (k : Nat) (o : Box.Opener), (Box.openers lines)[k]? = some o ∧ Box.idOf k = id ∧
        openerPlaces (setBoxLabel lines id label).lines = openerPlaces lines ∧
        (setBoxLabel lines id label).lines = lines.set o.lineIndex
          (Line.relabelled (lines.getD o.lineIndex []) o.depth (Text.trim label)) := by
  unfold setBoxLabel at h ⊢
  dsimp only at h ⊢
  split at h
  · cases h
  · rename_i hbreak
    rw [if_neg hbreak]
    have hfree : ∀ c, Text.isBracketBreaker c = true → c ≠ '\\' → c ∉ Text.trim label := by
      intro c hc hslash hmem
      exact hbreak (List.any_eq_true.mpr ⟨c, (mem_escape hslash).mpr hmem, hc⟩)
    refine ⟨⟨hfree '[' (by decide) (by decide), hfree '\n' (by decide) (by decide)⟩, ?_⟩
    obtain ⟨k, o, hk, hid, hplaces, hlines⟩ := replaceOpener_done h
    rw [hlines]
    exact ⟨k, o, hk, hid, hplaces, rfl⟩

end Edit

/-- **Changing the label of a box** changes this label and no other field of any
opener, exactly when the new label does not start with a dash. -/
theorem setBoxLabel_openers {lines : List Text} {id label : Text}
    (hsign : Text.hasPart "\\#" label = false)
    (hdone : (Edit.setBoxLabel lines id label).patch.success = true) :
    ∃ (k : Nat) (o : Box.Opener), (Box.openers lines)[k]? = some o ∧ Box.idOf k = id ∧
      (Box.openers (Edit.setBoxLabel lines id label).lines =
          (Box.openers lines).set k { o with label := Text.trim label } ↔
        (Text.trim label).head? ≠ some '-') := by
  obtain ⟨hfree, k, o, ho, hid, hplaces, hlines⟩ := Edit.setBoxLabel_done hdone
  refine ⟨k, o, ho, hid, ?_⟩
  rw [hlines] at hplaces ⊢
  obtain ⟨raw, old, bracket, hraw, hcontent, -, -, hk, hold⟩ := Box.Scanner.opened_at ho
  have hi := (List.getElem?_eq_some_iff.mp hraw).1
  have hdepth : 2 ≤ o.depth := (Line.contentOf_eq_marker_iff.mp hcontent).1
  have htight := Text.tight_trim label
  have hsign' := Text.hasPart_trim hsign
  rw [Text.getD_of_getElem? hraw] at hplaces ⊢
  -- The editor has checked that the new line opens the same box.
  obtain ⟨o', ho', hplace⟩ : ∃ o', (Box.openers (lines.set o.lineIndex
      (Line.relabelled raw o.depth (Text.trim label))))[k]? = some o' ∧
      o'.lineIndex = o.lineIndex := by
    have hget := congrArg (·[k]?) hplaces
    simp only [Edit.openerPlaces, List.getElem?_map, ho, Option.map_some,
      Option.map_eq_some_iff] at hget
    obtain ⟨o', ho', hpair⟩ := hget
    exact ⟨o', ho', (Prod.mk.inj hpair).2⟩
  obtain ⟨raw', label', bracket', hraw', hcontent', -, -, -, hnew⟩ := Box.Scanner.opened_at ho'
  rw [hplace, List.getElem?_set_self hi] at hraw'
  cases hraw'
  constructor
  · intro hset hdash
    have hdeeper := Line.deeper_relabelled (by omega) htight hsign' hdash hcontent'
    rw [hset, List.getElem?_set_self (List.getElem?_eq_some_iff.mp ho).1] at ho'
    cases ho'
    exact Nat.lt_irrefl _ hdeeper
  · intro hdash
    obtain ⟨bracket'', hrelabelled, hbracket⟩ :=
      Line.content_relabelled hcontent htight hsign' hdash hfree
    obtain ⟨hsame, rfl, rfl⟩ := Content.marker.inj (hrelabelled.symm.trans hcontent')
    rw [hplace, ← hsame, hbracket, List.take_set_of_le (Nat.le_refl _)] at hnew
    have hcomment : (Line.ofText (Line.relabelled raw o.depth (Text.trim label))).comment =
        (Line.ofText raw).comment := (Line.strip_relabelled (by omega) htight hsign').2
    rw [hcomment] at hnew
    have hscan := Box.Scanner.scan_relabelled hi hold hnew
    rw [← hk] at hscan
    unfold Box.openers at ho ⊢
    rw [hscan]
    exact Box.Scanner.openers_relabel ho (Text.trim label)

/-- The marker of a nested box keeps bracket and comment, and the number sign in
the label is escaped. -/
theorem setBoxLabel_openers_of_nested :
    Text.hasPart "\\#" " D # 1 " = false ∧
      (Edit.setBoxLabel
        (Document.split "--P\n  ----C[colour=red]# c\nX:: 1\n----\n----E") "cluster_1"
        " D # 1 ").patch.success = true ∧
      ∃ (k : Nat) (o : Box.Opener),
        (Box.openers (Document.split "--P\n  ----C[colour=red]# c\nX:: 1\n----\n----E"))[k]? =
          some o ∧
        Box.idOf k = "cluster_1".toList ∧
        (Box.openers (Edit.setBoxLabel
            (Document.split "--P\n  ----C[colour=red]# c\nX:: 1\n----\n----E") "cluster_1"
            " D # 1 ").lines =
            (Box.openers (Document.split "--P\n  ----C[colour=red]# c\nX:: 1\n----\n----E")).set k
              { o with label := Text.trim " D # 1 " } ↔
          (Text.trim " D # 1 ").head? ≠ some '-') := by
  have hsign : Text.hasPart "\\#" " D # 1 " = false := by decide
  have hdone : (Edit.setBoxLabel (Document.split "--P\n  ----C[colour=red]# c\nX:: 1\n----\n----E")
      "cluster_1" " D # 1 ").patch.success = true := by decide +kernel
  exact ⟨hsign, hdone, setBoxLabel_openers hsign hdone⟩

/-- A label that starts with two dashes is written, and the box is one level
deeper then. -/
theorem setBoxLabel_deepens :
    ¬ ∀ lines id label, Text.hasPart "\\#" label = false →
      (Edit.setBoxLabel lines id label).patch.success = true →
      ∃ (k : Nat) (o : Box.Opener), (Box.openers lines)[k]? = some o ∧ Box.idOf k = id ∧
        Box.openers (Edit.setBoxLabel lines id label).lines =
          (Box.openers lines).set k { o with label := Text.trim label } := by
  intro hall
  obtain ⟨k, o, ho, hid, hset⟩ :=
    hall ["--A", "X:: 1"] "cluster_0" "--B" (by decide) (by decide +kernel)
  have hk : k = 0 := Box.idOf_injective hid
  subst hk
  have hbefore : (Box.openers ["--A", "X:: 1"])[0]?.map (·.depth) = some 2 := by decide +kernel
  have hafter : (Box.openers (Edit.setBoxLabel ["--A", "X:: 1"] "cluster_0" "--B").lines)[0]?.map
      (·.depth) = some 4 := by decide +kernel
  rw [hset, List.getElem?_set_self (List.getElem?_eq_some_iff.mp ho).1] at hafter
  rw [ho] at hbefore
  have hdepth : o.depth = 2 := Option.some.inj hbefore
  have hdepth' : o.depth = 4 := Option.some.inj hafter
  omega

end LineDiagram
