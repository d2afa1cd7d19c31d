import LineDiagram.Compilation
import LineDiagram.Edit.Node
import LineDiagram.Proofs.Addresses
import LineDiagram.Proofs.DefinitionCut
import LineDiagram.Proofs.Document
import LineDiagram.Proofs.LineParts

/-!
# Changing the label of a node

An editor keeps what stands before the label of a definition, up to its first
two colons, and writes the new label behind it.  The bracket and the comment
stay.  When the line is read again with the token that was kept, its label is
the new one: it is escaped on the way in and unescaped on the way out, and it
cannot run into the bracket.

An editor keeps the first two colons, but a line is cut at the last ones that
its token can reach.  So a label with colons of its own can move the cut, when
no blank stands between token and label.  Whether it does can be told from the
old line and the label.

The first definition of a node is edited, and the last label that is written for
a node counts.  So the drawing shows the new label unless a later line writes
another one; then it shows what it did before.

* `definitionHead?_eq_some` — what an editor keeps of a definition;
* `definesBy_relabelled_iff` — when the new line is read with the token that was
  kept;
* `label_of_relabelled` — the label that is read from it then;
* `setNodeLabel_label` — the labels and nodes of the whole document.
-/

namespace LineDiagram

open Comment

/-! ## What is kept -/

/-- What the search for two colons finds: a place in the text where they stand,
counted from the given position on and not at the start. -/
private theorem colonsInside?_eq_some {position n : Nat} {t : Text}
    (h : colonsInside? position t = some n) :
    ∃ a b, t = a ++ ':' :: ':' :: b ∧ n = position + a.length ∧ 0 < n := by
  induction t generalizing position with
  | nil => simp [colonsInside?] at h
  | cons c rest ih =>
      unfold colonsInside? at h
      split at h
      · rename_i hhere
        cases h
        simp only [Bool.and_eq_true, decide_eq_true_eq, beq_iff_eq] at hhere
        obtain ⟨⟨hpos, rfl⟩, hhead⟩ := hhere
        obtain ⟨b, rfl⟩ := List.head?_eq_some_iff.mp hhead
        exact ⟨[], b, rfl, rfl, hpos⟩
      · obtain ⟨a, b, rfl, hn, hpos⟩ := ih h
        exact ⟨c :: a, b, rfl, by rw [hn, List.length_cons]; omega, hpos⟩

/-- What an editor keeps in front of a label. -/
structure KeptHead (head margin word gap blanks : Text) : Prop where
  /-- Put together it is a margin, a token, two colons and blanks around
  them. -/
  head_eq : head = margin ++ (word ++ (gap ++ ':' :: ':' :: blanks))
  /-- The margin is blank. -/
  margin_blank : Text.AllBlank margin
  /-- The token is not empty. -/
  word_ne : word ≠ []
  /-- There are no blanks in the token. -/
  word_solid : ∀ c ∈ word, Text.isBlank c = false
  /-- What stands before the colons is blank. -/
  gap_blank : Text.AllBlank gap
  /-- What stands behind them is blank. -/
  blanks_blank : Text.AllBlank blanks

/-- **The part of a definition that an editor keeps** is a margin, a token, and
two colons with the blanks around them; the label and the bracket follow. -/
theorem definitionHead?_eq_some {before head : Text} (h : definitionHead? before = some head) :
    ∃ margin word gap blanks rest, KeptHead head margin word gap blanks ∧
    before = head ++ rest := by
  have hbefore : before = Text.margin before ++ Text.trimStart before :=
    (Text.margin_append_trimStart before).symm
  have hsolid : ∀ c ∈ (Text.trimStart before).takeWhile (fun c => !Text.isBlank c),
      Text.isBlank c = false := by
    intro c hc
    simpa using List.mem_takeWhile_imp hc
  have hcut : (Text.trimStart before).takeWhile (fun c => !Text.isBlank c) ++
      (Text.trimStart before).dropWhile (fun c => !Text.isBlank c) = Text.trimStart before :=
    List.takeWhile_append_dropWhile
  have hmargin := Text.allBlank_margin before
  unfold definitionHead? at h
  simp only [show before.drop (Text.margin before).length = Text.trimStart before from
    Text.drop_length_takeWhile _ before, Text.drop_length_takeWhile] at h
  generalize Text.trimStart before = code at h hbefore hsolid hcut
  generalize code.takeWhile (fun c => !Text.isBlank c) = word at h hsolid hcut
  generalize code.dropWhile (fun c => !Text.isBlank c) = after at h hcut
  split at h
  · rename_i n hinside
    obtain ⟨a, b, rfl, hn, hpos⟩ := colonsInside?_eq_some hinside
    have hlength : n + 2 = (a ++ [':', ':']).length := by
      simp [hn]
    have hcode : code = (a ++ [':', ':']) ++ (b ++ after) := by
      rw [← hcut]
      simp
    rw [hlength, hcode, List.take_left, List.drop_left, Option.some_inj] at h
    refine ⟨Text.margin before, a, [], Text.margin (b ++ after), Text.trimStart (b ++ after),
      ⟨?_, hmargin, ?_, ?_, Text.allBlank_nil, Text.allBlank_margin _⟩, ?_⟩
    · rw [← h]
      simp
    · rintro rfl
      simp at hn
      omega
    · intro c hc
      exact hsolid c (List.mem_append_left _ hc)
    · rw [← h, List.append_assoc, Text.margin_append_trimStart, List.append_assoc, ← hcode]
      exact hbefore
  · split at h
    · rename_i tail hafter
      split at h
      · cases h
      · rename_i hword
        rw [Option.some_inj] at h
        refine ⟨Text.margin before, word, Text.margin after, Text.margin tail, Text.trimStart tail,
          ⟨?_, hmargin, by simpa using hword, hsolid, Text.allBlank_margin _,
            Text.allBlank_margin _⟩, ?_⟩
        · rw [← h]
          simp
        · have hdrop : after.drop (Text.margin after).length = Text.trimStart after :=
            Text.drop_length_takeWhile _ after
          rw [hdrop] at hafter
          have hwhole : after = Text.margin after ++ ':' :: ':' :: tail := by
            rw [← hafter, Text.margin_append_trimStart]
          calc before = Text.margin before ++ (word ++ after) := by rw [hcut, ← hbefore]
            _ = Text.margin before ++ (word ++ (Text.margin after ++ ':' :: ':' :: tail)) := by
                rw [← hwhole]
            _ = head ++ Text.trimStart tail := by
                rw [← h, List.append_assoc, Text.margin_append_trimStart]
                simp
    · cases h

namespace KeptHead

variable {head margin word gap blanks : Text}

/-- What is kept ends in colons or blanks, and so in no backslash: a number sign
that is written behind it is not escaped by it. -/
theorem last_ne (h : KeptHead head margin word gap blanks) : head.getLast? ≠ some '\\' := by
  rw [h.head_eq]
  intro hlast
  rcases List.eq_nil_or_concat blanks with rfl | ⟨init, c, rfl⟩
  · simp [List.getLast?_append] at hlast
  · rw [List.concat_eq_append] at hlast h
    have hc : c = '\\' := by
      simpa [List.getLast?_append, List.getLast?_cons] using hlast
    have hblank : Text.isBlank c = true := h.blanks_blank c (by simp)
    rw [hc] at hblank
    exact absurd hblank (by decide)

/-- The token without backslashes still holds no blanks. -/
theorem unescaped_solid (h : KeptHead head margin word gap blanks) :
    ∀ c ∈ unescape word, Text.isBlank c = false := by
  intro c hc
  by_cases hback : c = '\\'
  · rw [hback]
    decide
  · exact h.word_solid c ((mem_unescape hback).mp hc)

/-- Only the token in what is kept can hold a backslash before a number sign. -/
theorem unescape_eq (h : KeptHead head margin word gap blanks) :
    unescape head = margin ++ (unescape word ++ (gap ++ ':' :: ':' :: blanks)) := by
  have hnone : '#' ∉ gap ++ ':' :: ':' :: blanks := by
    simp [h.gap_blank.not_mem (c := '#') (by decide), h.blanks_blank.not_mem (c := '#') (by decide)]
  have hstart : (gap ++ ':' :: ':' :: blanks).head? ≠ some '#' := by
    intro hhead
    exact hnone (List.mem_of_mem_head? hhead)
  rw [h.head_eq, unescape_blank_append h.margin_blank, unescape_append (fun _ => hstart),
    unescape_of_not_mem hnone]

/-- The code of what is kept, without the margin and the blanks at its end: the
token, the gap and two colons. -/
theorem trim_unescape_eq (h : KeptHead head margin word gap blanks) :
    Text.trim (unescape head) = unescape word ++ gap ++ [':', ':'] := by
  have hword : unescape word ≠ [] := fun hnil => h.word_ne (unescape_eq_nil.mp hnil)
  have htight : Text.Tight (unescape word ++ (gap ++ [':', ':'])) := by
    refine ⟨?_, ?_⟩
    · intro c hc
      rw [List.head?_append_of_ne_nil _ hword] at hc
      exact h.unescaped_solid c (List.mem_of_mem_head? hc)
    · intro c hc
      have hcolon : ':' = c := by
        simpa [List.getLast?_append] using hc
      rw [← hcolon]
      decide
  have haround := Text.trim_of_blanks_around h.margin_blank h.blanks_blank
    (unescape word ++ (gap ++ [':', ':']))
  rw [Text.trim_of_tight htight] at haround
  rw [h.unescape_eq, List.append_assoc (unescape word), ← haround]
  congr 1
  simp

/-- The blanks behind the colons are those at the end. -/
theorem drop_trimEnd (h : KeptHead head margin word gap blanks) :
    head.drop (Text.trimEnd head).length = blanks := by
  have hsplit : head = (margin ++ word ++ gap ++ [':', ':']) ++ blanks := by
    rw [h.head_eq]
    simp
  have hfront : Text.trimEnd (margin ++ word ++ gap ++ [':', ':']) =
      margin ++ word ++ gap ++ [':', ':'] := by
    apply Text.trimEnd_eq_self
    intro c hc
    have hcolon : ':' = c := by simpa [List.getLast?_append] using hc
    rw [← hcolon]
    decide
  rw [hsplit, Text.trimEnd_append_blank h.blanks_blank, hfront, List.drop_left]

end KeptHead

/-! ## The new line -/

/-- The token before the first two colons of a definition, which an editor
keeps. -/
def keptToken? (raw : Text) : Option Text :=
  (definitionHead? (LineParts.ofText raw).before).map fun head =>
    Text.trimEnd (Comment.strip head).dropLast.dropLast

/-- A definition with another label behind what is kept of it. -/
def relabelled (old head label : Text) : Text :=
  (LineParts.ofText old).assemble (LineParts.ofText old).inner
    (some ((LineParts.ofText old).spaced (head ++ escape (Text.trim label))))

/-- The bracket that follows a label: none, or one that holds no other. -/
def IsTail (tail : Text) : Prop :=
  tail = [] ∨ ∃ inside, '[' ∉ inside ∧ tail = ' ' :: '[' :: (inside ++ [']'])

/-- A label with its bracket behind starts and ends with no blank. -/
private theorem tight_label_tail {label tail : Text} (hlabel : Text.Tight label) (hne : label ≠ [])
    (htail : IsTail tail) : Text.Tight (label ++ tail) := by
  apply hlabel.append hne
  intro c hc
  rcases htail with rfl | ⟨inside, -, rfl⟩
  · cases hc
  · have hclose : ']' = c := by
      simpa [List.getLast?_cons, List.getLast?_append] using hc
    rw [← hclose]
    decide

/-- A label in front of a bracket is found again, if no bracket opens in it. -/
theorem label_of_tail {label tail : Text} (hlabel : Text.Tight label) (hne : label ≠ [])
    (hopen : '[' ∉ label) (htail : IsTail tail) :
    Text.trim (Bracket.splitTrailing (Text.trim (label ++ tail))).1 = label := by
  rw [Text.trim_of_tight (tight_label_tail hlabel hne htail)]
  rcases htail with rfl | ⟨inside, hinside, rfl⟩
  · rw [List.append_nil, Bracket.splitTrailing_of_not_mem hopen,
      Text.trimEnd_eq_self hlabel.stop, Text.trim_of_tight hlabel]
  · have hspace : Text.trimEnd (label ++ [' ']) = label := by
      rw [Text.trimEnd_concat_blank (by decide), Text.trimEnd_eq_self hlabel.stop]
    have hsplit := Bracket.splitTrailing_bracketed (label ++ [' ']) hinside
    rw [List.append_assoc, List.singleton_append] at hsplit
    rw [hsplit, hspace, Text.trim_of_tight hlabel]

/-- The bracket of a line with the backslashes taken away. -/
private theorem isTail_unescape {tail : Text} (h : IsTail tail) : IsTail (unescape tail) := by
  rcases h with rfl | ⟨inside, hinside, rfl⟩
  · exact Or.inl rfl
  · refine Or.inr ⟨unescape inside, ?_, ?_⟩
    · rwa [mem_unescape (by decide)]
    · rw [unescape_cons (by simp), unescape_cons (by simp), unescape_append (by simp)]
      rfl

/-- The code of a definition with another label: what is kept, the label and the
bracket. -/
private theorem newCode_relabelled (old head : Text) {written : Text}
    (hwritten : Text.Tight written) (hne : written ≠ []) :
    ∃ tail, IsTail tail ∧ Plain tail ∧ (tail = [] ↔ (LineParts.ofText old).inner.getD [] = []) ∧
      (LineParts.ofText old).newCode ((LineParts.ofText old).inner.getD [])
        ((LineParts.ofText old).spaced (head ++ written)) = head ++ (written ++ tail) := by
  have hparts := LineParts.ofText_spec old
  generalize LineParts.ofText old = parts at hparts ⊢
  have hend : Text.trimEnd (head ++ written) = head ++ written := by
    apply Text.trimEnd_eq_self
    intro c hc
    rw [List.getLast?_append_of_ne_nil _ hne] at hc
    exact hwritten.stop c hc
  unfold LineParts.newCode LineParts.spaced
  cases hparts.shape with
  | bare hbody hinner hlast =>
      exact ⟨[], Or.inl rfl, trivial, by simp [hinner], by simpa [hinner] using hend⟩
  | bracketed inside hbody hopen hinner =>
      obtain ⟨-, hplain, hopen'⟩ := hparts.inner_spec
      rw [hinner, Option.getD_some] at hplain hopen'
      by_cases hblank : Text.trim inside = []
      · refine ⟨[], Or.inl rfl, trivial, by simp [hinner, hblank], ?_⟩
        have hspace := Text.trimEnd_concat_blank (c := ' ') (by decide) (head ++ written)
        rw [hend, List.append_assoc] at hspace
        simpa [hinner, hblank] using hspace
      · refine ⟨' ' :: '[' :: (Text.trim inside ++ [']']), Or.inr ⟨_, hopen', rfl⟩, ?_, ?_, ?_⟩
        · have hpair : Plain [' ', '['] := plain_of_not_mem (by decide)
          exact hpair.append (hplain.append (plain_of_not_mem (by decide)))
        · simp [hinner, hblank]
        · simp [hinner, hblank]

/-- No comment opens in what is kept. -/
private theorem plain_head {old head : Text}
    (hhead : definitionHead? (LineParts.ofText old).before = some head) : Plain head := by
  obtain ⟨-, -, -, -, rest, -, hbefore⟩ := definitionHead?_eq_some hhead
  have hplain := (LineParts.ofText_spec old).before_plain
  rw [hbefore] at hplain
  exact hplain.left

/-- The code of the new line, read from left to right: what is kept, the new
label and the bracket, if there is one. -/
theorem strip_relabelled {old head label margin word gap blanks : Text}
    (hhead : definitionHead? (LineParts.ofText old).before = some head)
    (hkept : KeptHead head margin word gap blanks) (hlabel : Text.trim label ≠ [])
    (hescape : Text.hasPart "\\#" (Text.trim label) = false) :
    ∃ tail, IsTail tail ∧ (tail = [] ↔ (LineParts.ofText old).inner.getD [] = []) ∧
      Comment.strip (relabelled old head label) =
        unescape word ++ gap ++ ':' :: ':' :: (blanks ++ (Text.trim label ++ tail)) := by
  have hparts := LineParts.ofText_spec old
  have htight : Text.Tight (Text.trim label) := Text.tight_trim label
  have hne : escape (Text.trim label) ≠ [] := fun hnil => hlabel (escape_eq_nil.mp hnil)
  obtain ⟨tail, htail, hplainTail, hnone, hcode⟩ :=
    newCode_relabelled old head (tight_escape htight) hne
  have hplainHead : Plain head := plain_head hhead
  have hplain : Plain (head ++ (escape (Text.trim label) ++ tail)) :=
    hplainHead.append ((plain_escape _).append hplainTail)
  have hstart : tail.head? ≠ some '#' := by
    rcases htail with rfl | ⟨inside, -, rfl⟩ <;> simp
  have hunescape : unescape (head ++ (escape (Text.trim label) ++ tail)) =
      margin ++ (unescape word ++ gap ++ ':' :: ':' ::
        (blanks ++ (Text.trim label ++ unescape tail))) := by
    rw [unescape_append (fun hlast => absurd hlast hkept.last_ne),
      unescape_append (fun _ => hstart), unescape_escape hescape, hkept.unescape_eq]
    simp
  refine ⟨unescape tail, isTail_unescape htail, unescape_eq_nil.trans hnone, ?_⟩
  unfold relabelled
  rw [LineParts.strip_assemble hparts (by rw [Option.getD_some, hcode]; exact hplain),
    Option.getD_some, hcode, hunescape]
  have hword : unescape word ≠ [] := fun hnil => hkept.word_ne (unescape_eq_nil.mp hnil)
  have hend := tight_label_tail htight hlabel (isTail_unescape htail)
  have hwhole : Text.Tight (unescape word ++ gap ++ ':' :: ':' ::
      (blanks ++ (Text.trim label ++ unescape tail))) := by
    refine ⟨?_, ?_⟩
    · intro c hc
      rw [List.append_assoc, List.head?_append_of_ne_nil _ hword] at hc
      exact hkept.unescaped_solid c (List.mem_of_mem_head? hc)
    · intro c hc
      have hsplit : unescape word ++ gap ++ ':' :: ':' ::
          (blanks ++ (Text.trim label ++ unescape tail)) =
            (unescape word ++ gap ++ ':' :: ':' :: blanks) ++
              (Text.trim label ++ unescape tail) := by
        simp
      rw [hsplit, List.getLast?_append_of_ne_nil _ (by simp [hlabel])] at hc
      exact hend.stop c hc
  have haround := Text.trim_of_blanks_around hkept.margin_blank Text.allBlank_nil
    (unescape word ++ gap ++ ':' :: ':' :: (blanks ++ (Text.trim label ++ unescape tail)))
  rw [List.append_nil] at haround
  rw [haround, Text.trim_of_tight hwhole]

/-- The code of what is kept is the token and two colons, perhaps with blanks
between them. -/
private theorem strip_head {old head margin word gap blanks : Text}
    (hhead : definitionHead? (LineParts.ofText old).before = some head)
    (hkept : KeptHead head margin word gap blanks) :
    Comment.strip head = unescape word ++ gap ++ [':', ':'] := by
  rw [strip_of_plain (plain_head hhead), hkept.trim_unescape_eq]

/-- The token that is kept is what stands before the colons, without
backslashes. -/
private theorem keptToken?_eq {old head margin word gap blanks : Text}
    (hhead : definitionHead? (LineParts.ofText old).before = some head)
    (hkept : KeptHead head margin word gap blanks) : keptToken? old = some (unescape word) := by
  have hsolid : Text.trimEnd (unescape word) = unescape word := by
    apply Text.trimEnd_eq_self
    intro c hc
    exact hkept.unescaped_solid c (List.mem_of_getLast? hc)
  have hdrop : (unescape word ++ gap ++ [':', ':']).dropLast.dropLast = unescape word ++ gap := by
    simp
  unfold keptToken?
  rw [hhead, Option.map_some, strip_head hhead hkept, hdrop,
    Text.trimEnd_append_blank hkept.gap_blank, hsolid]

/-- A line is read as a definition with a given token. -/
def DefinesBy (token raw : Text) : Prop :=
  ∃ label bracket, Line.contentOfRaw raw = .node token label bracket

/-- The code of a definition from its token to its new label: what an editor
keeps, and the label. -/
def relabelledCode (head label : Text) : Text :=
  Comment.strip head ++ head.drop (Text.trimEnd head).length ++ Text.trim label

/-- The colons that an editor keeps of a line stay the last ones that its token
can reach when a label is written behind them.  Colons further behind do not
count when nothing follows them: they end the label, and the line has no
bracket. -/
def KeepsColons (old label : Text) : Prop :=
  ∀ head ∈ definitionHead? (LineParts.ofText old).before,
    ∀ i, (Comment.strip head).length < i + 2 → Line.ColonsAt (relabelledCode head label) i →
      i + 2 = (relabelledCode head label).length ∧ (LineParts.ofText old).inner.getD [] = []

instance (old label : Text) : Decidable (KeepsColons old label) :=
  decidable_of_iff (((definitionHead? (LineParts.ofText old).before).all fun head =>
      (List.range (relabelledCode head label).length).all fun i =>
        !decide ((Comment.strip head).length < i + 2) ||
          (!decide (Line.ColonsAt (relabelledCode head label) i) ||
            (i + 2 == (relabelledCode head label).length &&
              ((LineParts.ofText old).inner.getD []).isEmpty))) = true)
    (by
      simp only [KeepsColons, Option.all_eq_true, List.all_eq_true, List.mem_range, Bool.or_eq_true,
        Bool.not_eq_true', decide_eq_false_iff_not, Bool.and_eq_true, beq_iff_eq, List.isEmpty_iff,
        ← imp_iff_not_or, Option.mem_def]
      constructor
      · intro hall head hhead i hbehind hcolons
        have hle := hcolons.le_length
        exact hall head hhead i (by omega) hbehind hcolons
      · intro hall head hhead i _
        exact hall head hhead i)

/-- The old line starts like what is kept of it, so the new line has the same
dashes at its start. -/
private theorem dashes_of_kept {old head margin word gap blanks : Text}
    (hhead : definitionHead? (LineParts.ofText old).before = some head)
    (hkept : KeptHead head margin word gap blanks) :
    (Comment.strip old).takeWhile (· == '-') = (unescape word ++ gap).takeWhile (· == '-') := by
  obtain ⟨-, -, -, -, rest, -, hbefore⟩ := definitionHead?_eq_some hhead
  obtain ⟨more, hbody⟩ : ∃ more, LineParts.body old = head ++ more := by
    cases (LineParts.ofText_spec old).shape with
    | bare hbody _ _ => exact ⟨rest, by rw [hbody, hbefore]⟩
    | bracketed inside hbody _ _ =>
      exact ⟨rest ++ '[' :: (inside ++ [']']), by rw [hbody, hbefore]; simp⟩
  have hword : unescape word ≠ [] := fun hnil => hkept.word_ne (unescape_eq_nil.mp hnil)
  obtain ⟨c, start, hstart⟩ := List.exists_cons_of_ne_nil hword
  have hc : Text.isBlank c = false :=
    hkept.unescaped_solid c (by rw [hstart]; exact List.mem_cons_self)
  have hcode : Text.trimStart (unescape (LineParts.body old)) =
      (unescape word ++ gap) ++ ':' :: ((':' :: blanks) ++ unescape more) := by
    rw [hbody, unescape_append (fun hlast => absurd hlast hkept.last_ne), hkept.unescape_eq,
      List.append_assoc, Text.trimStart_of_blank_append hkept.margin_blank,
      hstart, List.cons_append,
      List.cons_append, Text.trimStart_of_head hc]
    simp
  rw [LineParts.strip_eq_body, Text.trim, Line.dashes_trimEnd, hcode,
    Line.dashes_append (by decide)]

/-- The new code up to its label, cut behind what was kept. -/
private theorem relabelledCode_eq {old head margin word gap blanks : Text}
    (hhead : definitionHead? (LineParts.ofText old).before = some head)
    (hkept : KeptHead head margin word gap blanks) (label : Text) :
    relabelledCode head label =
      unescape word ++ gap ++ ':' :: ':' :: (blanks ++ Text.trim label) := by
  rw [relabelledCode, strip_head hhead hkept, hkept.drop_trimEnd]
  simp

/-- The colons that were kept are a place to cut the new code. -/
private theorem cut_relabelledCode {old head margin word gap blanks : Text}
    (hhead : definitionHead? (LineParts.ofText old).before = some head)
    (hkept : KeptHead head margin word gap blanks) (label : Text) :
    Line.Cut (relabelledCode head label) (unescape word) (blanks ++ Text.trim label) :=
  ⟨fun hnil => hkept.word_ne (unescape_eq_nil.mp hnil), hkept.unescaped_solid, gap,
    relabelledCode_eq hhead hkept label, hkept.gap_blank⟩

/-- A line that is no marker is read with a token exactly if its code is cut
behind this token, at whatever place one knows of with this token. -/
private theorem definesBy_iff_definedAt {raw code token rest : Text} (hfree : '\n' ∉ raw)
    (hcode : Comment.strip raw = code) (hdashes : (code.takeWhile (· == '-')).length < 2)
    (hcut : Line.Cut code token rest) : DefinesBy token raw ↔ Line.DefinedAt code token rest := by
  have hcodeFree : '\n' ∉ Comment.strip raw :=
    fun hmem => hfree (mem_of_mem_strip (by decide) hmem)
  subst hcode
  constructor
  · rintro ⟨read, bracket, hcontent⟩
    obtain ⟨-, found, hfound, -⟩ := (Line.contentOf_eq_node_iff_definedAt hcodeFree).mp hcontent
    rwa [hfound.toCut.rest_eq hcut] at hfound
  · intro hdefined
    exact ⟨_, _, (Line.contentOf_eq_node_iff_definedAt hcodeFree).mpr
      ⟨hdashes, _, hdefined, rfl, rfl⟩⟩

/-- **When the new line is read with the token that was kept**: exactly if the
colons that were kept are still the last ones in reach. -/
theorem definesBy_relabelled_iff {old head token label : Text}
    (hfree : '\n' ∉ relabelled old head label)
    (hhead : definitionHead? (LineParts.ofText old).before = some head)
    (hlabel : Text.trim label ≠ []) (hescape : Text.hasPart "\\#" (Text.trim label) = false)
    (htoken : keptToken? old = some token)
    (hdashes : ((Comment.strip old).takeWhile (· == '-')).length < 2) :
    DefinesBy token (relabelled old head label) ↔ KeepsColons old label := by
  obtain ⟨margin, word, gap, blanks, rest, hkept, -⟩ := definitionHead?_eq_some hhead
  obtain ⟨tail, htail, hnone, hcode⟩ := strip_relabelled hhead hkept hlabel hescape
  rw [keptToken?_eq hhead hkept, Option.some_inj] at htoken
  subst htoken
  have hupTo := relabelledCode_eq hhead hkept label
  have hcut := cut_relabelledCode hhead hkept label
  have hwhole : Comment.strip (relabelled old head label) = relabelledCode head label ++ tail := by
    rw [hcode, hupTo]
    simp
  have hstart : ((relabelledCode head label ++ tail).takeWhile (· == '-')).length < 2 := by
    rwa [← hwhole, hcode, Line.dashes_append (by decide), ← dashes_of_kept hhead hkept]
  have hstop : ∀ c, (relabelledCode head label).getLast? = some c → Text.isBlank c = false := by
    intro c hc
    rw [relabelledCode, List.getLast?_append_of_ne_nil _ hlabel] at hc
    exact (Text.tight_trim label).stop c hc
  have hfilled : ¬ Text.AllBlank (blanks ++ Text.trim label) := by
    rw [Text.allBlank_append]
    rintro ⟨-, hblank⟩
    exact hlabel (by rw [← Text.trim_trim, Text.trim_eq_nil.mpr hblank])
  have hbracket : tail = [] ∨ ∃ z, tail = ' ' :: '[' :: z := by
    rcases htail with rfl | ⟨inside, -, rfl⟩
    · exact Or.inl rfl
    · exact Or.inr ⟨_, rfl⟩
  have hlength : (relabelledCode head label).length =
      (Comment.strip head).length + (blanks ++ Text.trim label).length := by
    rw [hupTo, strip_head hhead hkept]
    simp only [List.length_append, List.length_cons, List.length_nil]
    omega
  rw [definesBy_iff_definedAt hfree hwhole hstart (hcut.append tail),
    Line.definedAt_iff_colonsAt hcut hstop hfilled hbracket, hnone]
  unfold KeepsColons
  rw [hhead]
  simp only [Option.mem_def, Option.some_inj, forall_eq']
  constructor
  · intro hall i hbehind
    exact hall i (by omega)
  · intro hall i hbehind
    exact hall i (by omega)

/-- **The label of the new line.**  If it is read with the token that was kept,
its label is the new one. -/
theorem label_of_relabelled {old head token label read : Text} {bracket : Option Text}
    (hhead : definitionHead? (LineParts.ofText old).before = some head)
    (hlabel : Text.trim label ≠ []) (hescape : Text.hasPart "\\#" (Text.trim label) = false)
    (hopen : '[' ∉ Text.trim label) (htoken : keptToken? old = some token)
    (hread : Line.contentOfRaw (relabelled old head label) = .node token read bracket) :
    read = Text.trim label := by
  obtain ⟨margin, word, gap, blanks, rest, hkept, -⟩ := definitionHead?_eq_some hhead
  obtain ⟨tail, htail, -, hcode⟩ := strip_relabelled hhead hkept hlabel hescape
  rw [keptToken?_eq hhead hkept, Option.some_inj] at htoken
  have hend := tight_label_tail (Text.tight_trim label) hlabel htail
  obtain ⟨-, -, found, value, hparts, hword, hvalue, -⟩ := Line.contentOf_eq_node_iff.mp hread
  rw [hcode] at hparts
  have hdefines := Line.definitionParts?_defines hparts
  have hfound : found = unescape word := by
    have hsolid : Text.Tight found :=
      ⟨fun c hc => hdefines.token_solid c (List.mem_of_mem_head? hc),
        fun c hc => hdefines.token_solid c (List.mem_of_getLast? hc)⟩
    rw [htoken, hword, Text.trim_of_tight hsolid]
  rw [hfound] at hdefines
  have hnew : Line.Defines
      (unescape word ++ gap ++ ':' :: ':' :: (blanks ++ (Text.trim label ++ tail)))
      (unescape word) (Text.trim label ++ tail) :=
    ⟨hdefines.token_ne, hkept.unescaped_solid, hend.start, gap, blanks, rfl, hkept.gap_blank,
      hkept.blanks_blank⟩
  rw [hvalue, Line.value_of_token hdefines hnew]
  exact label_of_tail (Text.tight_trim label) hlabel hopen htail

/-! ## The whole document -/

/-- A line writes the label of a node. -/
def Content.WritesLabel (content : Content) (id : Text) : Prop :=
  id ∈ content.labelWrites.map (·.1)

instance (content : Content) (id : Text) : Decidable (content.WritesLabel id) :=
  inferInstanceAs (Decidable (id ∈ content.labelWrites.map (·.1)))

/-- A line that defines a node is read as a definition with a token that stands
for it. -/
private theorem definedNode?_eq_some {raw id : Text}
    (h : (Line.ofText raw).definedNode? = some id) :
    ∃ token label bracket, Line.contentOfRaw raw = .node token label bracket ∧
      Identifier.ofToken token = id := by
  have hcontent : (Line.ofText raw).content = Line.contentOfRaw raw := rfl
  unfold Line.definedNode? at h
  rw [hcontent] at h
  split at h
  · rename_i token label bracket heq
    exact ⟨token, label, bracket, heq, Option.some.inj h⟩
  · cases h

/-- A definition is no marker. -/
private theorem dashes_of_node {raw token label : Text} {bracket : Option Text} (hraw : '\n' ∉ raw)
    (h : Line.contentOfRaw raw = .node token label bracket) :
    ((Comment.strip raw).takeWhile (· == '-')).length < 2 :=
  ((Line.contentOf_eq_node_iff_definedAt fun hmem =>
    hraw (mem_of_mem_strip (by decide) hmem)).mp h).1

/-- What is done when the label of a node is changed: its first definition is
replaced, and the new one keeps what stands up to the colons. -/
private theorem setNodeLabel_done {lines : List Text} {id label : Text} {out : Outcome}
    (hlabel : Text.trim label ≠ []) (hout : Edit.setNodeLabel lines id label = out)
    (hdone : out.patch.success = true) :
    ∃ index old head, lines[index]? = some old ∧
      (Line.ofText old).definedNode? = some (Text.trim id) ∧
      (∀ c ∈ Text.trim label, Text.isBracketBreaker c = false) ∧
      definitionHead? (LineParts.ofText old).before = some head ∧
      out.patch.lineIndex = some index ∧ out.patch.before = some old ∧
      out.lines = lines.set index (relabelled old head label) := by
  have hrefuse : ∀ refusal, Outcome.refuse lines .setNodeLabel id refusal ≠ out := by
    rintro refusal rfl
    exact absurd (hdone : false = true) Bool.false_ne_true
  have hne : (escape (Text.trim label)).isEmpty = false := by
    cases hempty : (escape (Text.trim label)).isEmpty with
    | false => rfl
    | true => exact absurd (escape_eq_nil.mp (List.isEmpty_iff.mp hempty)) hlabel
  unfold Edit.setNodeLabel at hout
  split at hout
  · exact absurd hout (hrefuse _)
  · rename_i index hindex
    obtain ⟨old, hold, hdefines⟩ := findDefinition?_eq_some hindex
    have hget : lines.getD index [] = old := Text.getD_of_getElem? hold
    simp only [hne, Bool.false_eq_true, if_false, hget] at hout
    split at hout
    · exact absurd hout (hrefuse _)
    · rename_i hbreak
      split at hout
      · exact absurd hout (hrefuse _)
      · rename_i head hhead
        refine ⟨index, old, head, hold, hdefines, ?_, hhead, ?_⟩
        · intro c hc
          by_cases hback : c = '\\'
          · rw [hback]
            decide
          · have hmem := (mem_escape hback).mpr hc
            simp only [List.any_eq_true, not_exists, not_and, Bool.not_eq_true] at hbreak
            exact hbreak c hmem
        · rw [← hout]
          exact ⟨rfl, congrArg some hget, rfl⟩

/-- No line feed gets into the new line. -/
private theorem lineFeed_not_mem_relabelled {old head label : Text} (hold : '\n' ∉ old)
    (hlabel : '\n' ∉ Text.trim label)
    (hhead : definitionHead? (LineParts.ofText old).before = some head) :
    '\n' ∉ relabelled old head label := by
  have hparts := LineParts.ofText_spec old
  obtain ⟨hbefore, hinner⟩ := hparts.subset
  obtain ⟨-, -, -, -, rest, -, hsplit⟩ := definitionHead?_eq_some hhead
  have hkept : '\n' ∉ head := by
    intro hmem
    apply hold
    apply hbefore
    rw [hsplit]
    exact List.mem_append_left _ hmem
  have hwritten : '\n' ∉ escape (Text.trim label) := by
    rwa [mem_escape (by decide)]
  apply LineParts.lineFeed_not_mem_assemble hparts hold
  · exact fun hmem => hold (hinner hmem)
  · rw [Option.getD_some]
    unfold LineParts.spaced
    split
    · simp [hkept, hwritten]
    · simp [hkept, hwritten]

/-- The label of a node at the end of a document, from its label after one of
the lines. -/
private theorem label?_ofLines_at {font raw v label : Text} {lines : List Text} {index : Nat}
    (hraw : lines[index]? = some raw)
    (hlabel : ((Draft.ofLines font (lines.take index)).addLine font index
      (.ofText raw)).graph.label? v = some label) :
    (Draft.ofLines font lines).graph.label? v = some (Graph.lastWrite v label
      ((lines.drop (index + 1)).flatMap fun raw => (Line.contentOfRaw raw).labelWrites)) := by
  rw [Draft.ofLines_at font hraw]
  exact Draft.label?_addLines font hlabel (index + 1) _

/-- A list of lines with one of them replaced by a line of the same value. -/
private theorem map_set_self {β : Type} (f : Text → β) {lines : List Text} {index : Nat}
    {old new : Text} (hold : lines[index]? = some old) (h : f new = f old) :
    (lines.set index new).map f = lines.map f := by
  obtain ⟨hlt, rfl⟩ := List.getElem?_eq_some_iff.mp hold
  rw [List.map_set, h]
  apply List.ext_getElem
  · simp
  · intro i hi _
    rw [List.getElem_set]
    split
    · rename_i heq
      subst heq
      simp
    · rfl

/-- Functions of what the lines say are the same for lines that say the same. -/
private theorem map_of_contents {β : Type} (f : Content → β) {first second : List Text}
    (h : first.map Line.contentOfRaw = second.map Line.contentOfRaw) :
    (first.map fun raw => f (Line.contentOfRaw raw)) =
      second.map fun raw => f (Line.contentOfRaw raw) := by
  have hmap := congrArg (List.map f) h
  rwa [List.map_map, List.map_map] at hmap

section Replaced

variable (font : Text) {old new token oldLabel newLabel : Text}
  {oldBracket newBracket : Option Text} {lines : List Text} {index : Nat}

/-- The nodes of a document are the same when a definition is replaced by
another one of the same node. -/
private theorem ids_replaced {oldToken : Text} (hfree : ∀ raw ∈ lines, '\n' ∉ raw)
    (hnewFree : '\n' ∉ new) (hline : lines[index]? = some old)
    (hold : Line.contentOfRaw old = .node oldToken oldLabel oldBracket)
    (hnew : Line.contentOfRaw new = .node token newLabel newBracket)
    (hsame : Identifier.ofToken token = Identifier.ofToken oldToken) :
    (Draft.ofLines font (Document.split (Document.join (lines.set index new)))).graph.ids =
      (Draft.ofLines font lines).graph.ids := by
  apply Draft.ids_ofLines_congr
  rw [map_of_contents (fun content => content.mentions.map Identifier.ofToken)
    (Document.contents_replaced hfree hnewFree hline)]
  apply map_set_self _ hline
  rw [hold, hnew]
  simp only [Content.mentions, List.map_cons, List.map_nil, hsame]

/-- The label of the node that a replaced definition defines is the new one,
unless a later line writes another. -/
private theorem label?_replaced (hfree : ∀ raw ∈ lines, '\n' ∉ raw) (hnewFree : '\n' ∉ new)
    (hline : lines[index]? = some old)
    (hnew : Line.contentOfRaw new = .node token newLabel newBracket) (hne : newLabel ≠ []) :
    (Draft.ofLines font (Document.split (Document.join (lines.set index new)))).graph.label?
        (Identifier.ofToken token) =
      some (Graph.lastWrite (Identifier.ofToken token) newLabel
        ((lines.drop (index + 1)).flatMap fun raw => (Line.contentOfRaw raw).labelWrites)) := by
  have hcontents := Document.contents_replaced hfree hnewFree hline
  obtain ⟨raw, hraw, hcontent⟩ := Document.content_replaced hfree hnewFree hline
  rw [hnew] at hcontent
  generalize Document.split (Document.join (lines.set index new)) = again at hcontents hraw ⊢
  have hlater : (again.drop (index + 1)).flatMap (fun raw => (Line.contentOfRaw raw).labelWrites) =
      (lines.drop (index + 1)).flatMap fun raw => (Line.contentOfRaw raw).labelWrites := by
    have hdrop : (again.drop (index + 1)).map Line.contentOfRaw =
        (lines.drop (index + 1)).map Line.contentOfRaw := by
      rw [List.map_drop, hcontents, ← List.map_drop, List.drop_set_of_lt (Nat.lt_succ_self index)]
    rw [List.flatMap_def, List.flatMap_def, map_of_contents Content.labelWrites hdrop]
  rw [← hlater]
  exact label?_ofLines_at hraw (Draft.label?_addLine_node font _ index hcontent hne)

/-- A node that a line defines is there, with some label that later lines may
overwrite. -/
private theorem label?_defined (hline : lines[index]? = some old)
    (hold : Line.contentOfRaw old = .node token oldLabel oldBracket) :
    ∃ label, (Draft.ofLines font lines).graph.label? (Identifier.ofToken token) =
      some (Graph.lastWrite (Identifier.ofToken token) label
        ((lines.drop (index + 1)).flatMap fun raw => (Line.contentOfRaw raw).labelWrites)) := by
  have hthere : ((Draft.ofLines font (lines.take index)).addLine font index
      (.ofText old)).graph.label? (Identifier.ofToken token) ≠ none := by
    rw [ne_eq, Graph.label?_eq_none, not_not, Draft.ids_addLine]
    have hcontent : (Line.ofText old).content = .node token oldLabel oldBracket := hold
    rw [hcontent]
    simp only [Content.mentions, List.map_cons, List.map_nil, List.foldl_cons, List.foldl_nil,
      Graph.addId]
    split
    · assumption
    · simp
  obtain ⟨label, hlabel⟩ := Option.ne_none_iff_exists'.mp hthere
  exact ⟨label, label?_ofLines_at hline hlabel⟩

end Replaced

/-- **The label of a node after an edit.**  The nodes are the same.  The label
is the new one, unless a line after the definition writes the label of the node;
then it is what it was.  The text before the first two colons of the old line
has to stand for the node, and with the label behind them these colons have to
stay the last ones in reach. -/
theorem setNodeLabel_label (t : Text) (font : Option Text) (id label old : Text) {out : Outcome}
    (hlabel : Text.trim label ≠ []) (hescape : Text.hasPart "\\#" label = false)
    (hout : Edit.setNodeLabel (Document.split t) id label = out) (hdone : out.patch.success = true)
    (hbefore : out.patch.before = some old)
    (htoken : (keptToken? old).map Identifier.ofToken = some (Text.trim id))
    (hcolons : KeepsColons old label) :
    ∃ g g' index n n', (compile t font).graph = some g ∧
      (compile (Document.join out.lines) font).graph = some g' ∧ g'.ids = g.ids ∧
      out.patch.lineIndex = some index ∧ g.node? (Text.trim id) = some n ∧
      g'.node? (Text.trim id) = some n' ∧
      ((∀ raw ∈ (Document.split t).drop (index + 1),
          ¬ (Line.contentOfRaw raw).WritesLabel (Text.trim id)) →
        n'.label = Text.trim label) ∧
      ((∃ raw ∈ (Document.split t).drop (index + 1),
          (Line.contentOfRaw raw).WritesLabel (Text.trim id)) →
        n'.label = n.label) := by
  obtain ⟨index, found, head, hline, hdefined, hbreak, hhead, hindex, hfound, hlines⟩ :=
    setNodeLabel_done hlabel hout hdone
  obtain rfl : found = old := Option.some.inj (hfound.symm.trans hbefore)
  obtain ⟨token, hkept, hid⟩ := Option.map_eq_some_iff.mp htoken
  obtain ⟨oldToken, oldLabel, oldBracket, hold, holdId⟩ := definedNode?_eq_some hdefined
  have hfree : ∀ raw ∈ Document.split t, '\n' ∉ raw := fun raw hraw => Document.not_mem_split hraw
  have hfoundFree : '\n' ∉ found := hfree found (List.mem_of_getElem? hline)
  have hnewFree : '\n' ∉ relabelled found head label :=
    lineFeed_not_mem_relabelled hfoundFree (fun hmem => absurd (hbreak '\n' hmem) (by decide)) hhead
  obtain ⟨newLabel, newBracket, hnew⟩ :=
    (definesBy_relabelled_iff hnewFree hhead hlabel (Text.hasPart_trim hescape) hkept
      (dashes_of_node hfoundFree hold)).mpr hcolons
  obtain rfl : newLabel = Text.trim label :=
    label_of_relabelled hhead hlabel (Text.hasPart_trim hescape)
      (fun hmem => absurd (hbreak '[' hmem) (by decide)) hkept hnew
  rw [graph_compile, graph_compile]
  generalize (filled? font).getD Label.defaultFont = font
  have hids := ids_replaced font hfree hnewFree hline hold hnew (hid.trans holdId.symm)
  have hafterLabel := label?_replaced font hfree hnewFree hline hnew hlabel
  obtain ⟨before, hbeforeLabel⟩ := label?_defined font hline hold
  rw [hid] at hafterLabel
  rw [holdId] at hbeforeLabel
  rw [← hlines] at hids hafterLabel
  obtain ⟨n, hn, hnLabel⟩ := Option.map_eq_some_iff.mp hbeforeLabel
  obtain ⟨n', hn', hnLabel'⟩ := Option.map_eq_some_iff.mp hafterLabel
  refine ⟨_, _, index, n, n', rfl, rfl, hids, hindex, hn, hn', ?_, ?_⟩
  · intro hnone
    rw [hnLabel']
    apply Graph.lastWrite_of_none
    rintro ⟨written, text⟩ hwrite rfl
    obtain ⟨raw, hraw, hmem⟩ := List.mem_flatMap.mp hwrite
    exact hnone raw hraw (List.mem_map_of_mem hmem)
  · rintro ⟨raw, hraw, hwrites⟩
    obtain ⟨write, hmem, hwrite⟩ := List.mem_map.mp hwrites
    rw [hnLabel', hnLabel]
    apply Graph.lastWrite_of_some
    exact ⟨write, List.mem_flatMap.mpr ⟨raw, hraw, hmem⟩, hwrite⟩

/-- A label may hold two colons, also when the old line has no blank before its
own, and a bracket and a comment stay behind it. -/
theorem setNodeLabel_label_with_colons :
    ∃ g n, (compile (Document.join (Edit.setNodeLabel
        (Document.split "A:: x [colour=red] # first\nB -> A") "A" " see z::w ").lines)).graph =
          some g ∧ g.node? "A" = some n ∧ n.label = "see z::w".toList := by
  obtain ⟨-, g, index, -, n, -, hg, -, hindex, -, hn, hshown, -⟩ :=
    setNodeLabel_label "A:: x [colour=red] # first\nB -> A" none "A" " see z::w "
      "A:: x [colour=red] # first" (by decide) (by decide) rfl (by decide) (by decide) (by decide)
      (by decide)
  obtain rfl : 0 = index := Option.some.inj (Eq.trans (by decide) hindex)
  exact ⟨g, n, hg, hn, hshown (by decide)⟩

/-- Colons in reach take the place of the ones that are kept: the new line
defines another node. -/
example : ¬ KeepsColons "A::x" "y::z" ∧
    (Edit.setNodeLabel ["A::x".toList] "A" "y::z").lines = ["A::y::z".toList] ∧
    Line.contentOfRaw "A::y::z" = .node "A::y" "z" none := by
  decide

/-- A later definition of the node keeps its own label, and the drawing shows
that one. -/
theorem setNodeLabel_not_shown :
    ¬ ∀ t id label : Text, Text.trim label ≠ [] → Text.hasPart "\\#" label = false →
      (Edit.setNodeLabel (Document.split t) id label).patch.success = true →
      ∃ g g' n, (compile t).graph = some g ∧
        (compile (Document.join (Edit.setNodeLabel (Document.split t) id label).lines)).graph =
          some g' ∧
        g'.node? (Text.trim id) = some n ∧ n.label = Text.trim label ∧
        ∀ v, v ∈ g'.ids ↔ v ∈ g.ids := by
  intro hall
  obtain ⟨-, g', n, -, hg', hn, hlabel, -⟩ :=
    hall "A:: x\nA:: y" "A" "z" (by decide) (by decide) (by decide)
  have hshown : ((compile (Document.join (Edit.setNodeLabel
      (Document.split "A:: x\nA:: y") "A" "z").lines)).graph.bind fun g => g.label? "A") =
        some "y".toList := by
    decide
  rw [hg', Option.bind_some] at hshown
  have hread : g'.label? (Text.trim "A".toList) = some (Text.trim "z".toList) := by
    unfold Graph.label?
    rw [hn, Option.map_some, hlabel]
  exact absurd (hread.symm.trans hshown) (by decide)

end LineDiagram
