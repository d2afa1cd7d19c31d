import LineDiagram.Line.Comment
import LineDiagram.Proofs.Text

/-!
# Laws of comments

Code is plain when each number sign in it has a backslash right before it.  A
raw line is plain code followed by nothing or by a comment, in exactly one way.

* `split_eq_iff` — what the cut at the comment gives, in both directions;
* `unescape_append`, `trim_unescape` — taking the backslashes away respects
  putting together and trimming;
* `exists_pieces` — the text between the escaped number signs, and what is left
  without their backslashes;
* `escape_eq_self_iff`, `unescape_escape_eq` — escaping adds the backslashes
  that are missing, and taking all of them away afterwards is taking away those
  that were there;
* `escape_reads_back` — text that was escaped opens no comment and is read back.
-/

namespace LineDiagram.Comment

/-- No comment opens in a text that follows the character `last`: each number
sign has a backslash right before it. -/
def PlainAfter (last : Option Char) : Text → Prop
  | [] => True
  | c :: rest => (c = '#' → last = some '\\') ∧ PlainAfter (some c) rest

/-- No comment opens in a text. -/
abbrev Plain (t : Text) : Prop := PlainAfter none t

/-- The end of a raw line that may follow plain code: nothing, or a comment,
which does not stand right after a backslash. -/
def EndsCode (code comment : Text) : Prop :=
  comment = [] ∨ (∃ rest, comment = '#' :: rest) ∧ code.getLast? ≠ some '\\'

/-- No comment opens in two texts, one after the other, if none opens in the
first and none in the second when it follows the last character of the first. -/
theorem plainAfter_append {last : Option Char} {a b : Text} :
    PlainAfter last (a ++ b) ↔ PlainAfter last a ∧ PlainAfter (a.getLast?.or last) b := by
  induction a generalizing last with
  | nil => simp [PlainAfter]
  | cons c a ih =>
      have hlast : (c :: a).getLast?.or last = a.getLast?.or (some c) := by
        rw [List.getLast?_cons]
        cases a.getLast? <;> rfl
      simp only [List.cons_append, PlainAfter, ih, hlast, and_assoc]

/-- Text that is plain on its own is plain after anything.  On its own it does
not start with a number sign, and after that the character before it does not
count. -/
theorem Plain.after {t : Text} (h : Plain t) (last : Option Char) : PlainAfter last t := by
  cases t with
  | nil => trivial
  | cons c rest => exact ⟨fun hc => absurd (h.1 hc) (by simp), h.2⟩

/-- Text that is plain after something else than a backslash is plain on its
own. -/
theorem PlainAfter.plain {last : Option Char} {t : Text} (h : PlainAfter last t)
    (hlast : last ≠ some '\\') : Plain t := by
  cases t with
  | nil => trivial
  | cons c rest => exact ⟨fun hc => absurd (h.1 hc) hlast, h.2⟩

/-- Two texts in which no comment opens make one in which no comment opens. -/
theorem Plain.append {a b : Text} (ha : Plain a) (hb : Plain b) : Plain (a ++ b) :=
  plainAfter_append.mpr ⟨ha, hb.after _⟩

theorem Plain.left {a b : Text} (h : Plain (a ++ b)) : Plain a := (plainAfter_append.mp h).1

/-- What follows a character that is no backslash in plain text is plain, as if
the text started there. -/
theorem Plain.right {a b : Text} {c : Char} (h : Plain (a ++ c :: b)) (hc : c ≠ '\\') :
    Plain b := by
  have hcons : PlainAfter (a.getLast?.or none) (c :: b) := (plainAfter_append.mp h).2
  exact PlainAfter.plain hcons.2 (by simpa using hc)

/-- Text without a number sign is plain. -/
theorem plain_of_not_mem {t : Text} (h : '#' ∉ t) : Plain t := by
  suffices hall : ∀ last, PlainAfter last t from hall none
  induction t with
  | nil => exact fun _ => trivial
  | cons c rest ih =>
      intro last
      rw [List.mem_cons, not_or] at h
      exact ⟨fun hc => absurd hc.symm h.1, ih h.2 _⟩

/-! ## The cut at the comment -/

/-- Plain text is passed over: the search for a comment goes on behind it, with
the text on the pile of what it has passed. -/
private theorem splitFrom_append (before : Text) {a : Text} (h : PlainAfter before.head? a)
    (b : Text) : splitFrom before (a ++ b) = splitFrom (a.reverse ++ before) b := by
  induction a generalizing before with
  | nil => rfl
  | cons c a ih =>
      have hpass : ¬ (c == '#' && before.head? != some '\\') = true := by
        intro hopen
        simp only [Bool.and_eq_true, beq_iff_eq, bne_iff_ne] at hopen
        exact hopen.2 (h.1 hopen.1)
      rw [List.cons_append, splitFrom, if_neg hpass, ih (c :: before) h.2]
      simp

/-- Every raw text is plain code and what ends it, which is nothing or a
comment.  A number sign opens the comment where no backslash is before it. -/
private theorem exists_code (last : Option Char) (raw : Text) :
    ∃ code comment, raw = code ++ comment ∧ PlainAfter last code ∧
      (comment = [] ∨ (∃ rest, comment = '#' :: rest) ∧ code.getLast?.or last ≠ some '\\') := by
  induction raw generalizing last with
  | nil => exact ⟨[], [], rfl, trivial, Or.inl rfl⟩
  | cons c raw ih =>
      by_cases hopen : c = '#' ∧ last ≠ some '\\'
      · refine ⟨[], c :: raw, rfl, trivial, Or.inr ⟨⟨raw, by rw [hopen.1]⟩, ?_⟩⟩
        simpa using hopen.2
      · obtain ⟨code, comment, hraw, hplain, hend⟩ := ih (some c)
        refine ⟨c :: code, comment, by rw [hraw, List.cons_append], ⟨?_, hplain⟩, ?_⟩
        · intro hc
          by_contra hlast
          exact hopen ⟨hc, hlast⟩
        · rcases hend with hnil | ⟨hrest, hback⟩
          · exact Or.inl hnil
          · refine Or.inr ⟨hrest, ?_⟩
            rw [List.getLast?_cons]
            cases hlast : code.getLast? <;> simpa [hlast] using hback

/-- **The cut at the comment.**  It gives the one way to write a raw line as
plain code and what ends the code. -/
theorem split_eq_iff {raw code comment : Text} :
    split raw = (code, comment) ↔ raw = code ++ comment ∧ Plain code ∧ EndsCode code comment := by
  have hcut : ∀ {code comment : Text}, Plain code → EndsCode code comment →
      split (code ++ comment) = (code, comment) := by
    intro code comment hplain hend
    unfold split
    rw [splitFrom_append [] hplain]
    rcases hend with rfl | ⟨⟨rest, rfl⟩, hback⟩
    · simp [splitFrom]
    · have hopen : ('#' == '#' && (code.reverse ++ []).head? != some '\\') = true := by
        simpa using hback
      rw [splitFrom, if_pos hopen]
      simp
  constructor
  · intro h
    obtain ⟨a, b, rfl, hplain, hend⟩ := exists_code none raw
    have hend' : EndsCode a b := by simpa [EndsCode] using hend
    rw [hcut hplain hend'] at h
    obtain ⟨rfl, rfl⟩ := Prod.mk.inj h
    exact ⟨rfl, hplain, hend'⟩
  · rintro ⟨rfl, hplain, hend⟩
    exact hcut hplain hend

theorem split_of_plain {t : Text} (h : Plain t) : split t = (t, []) :=
  split_eq_iff.mpr ⟨by simp, h, Or.inl rfl⟩

/-! ## Taking the backslashes away -/

/-- The result so far is put in front and has no say in what follows.  This
takes the accumulator out of every other statement about backslashes. -/
private theorem unescapeFrom_eq (done t : Text) :
    unescapeFrom done t = done.reverse ++ unescape t := by
  have hall : ∀ done more, unescapeFrom (done ++ more) t = more.reverse ++ unescapeFrom done t := by
    intro done
    induction done, t using unescapeFrom.induct with
    | case1 done => simp [unescapeFrom]
    | case2 done rest ih =>
        intro more
        exact ih more
    | case3 done c rest hpair ih =>
        intro more
        rw [unescapeFrom, unescapeFrom]
        · exact ih more
        · exact hpair
        · exact hpair
  have h := hall [] done
  simpa [unescape] using h

@[simp] theorem unescape_nil : unescape [] = [] := rfl

@[simp] theorem unescape_pair (rest : Text) :
    unescape ('\\' :: '#' :: rest) = '#' :: unescape rest := by
  show unescapeFrom ['#'] rest = _
  rw [unescapeFrom_eq]
  rfl

/-- Any other character stays: only a backslash goes, and only where a number
sign follows it. -/
theorem unescape_cons {c : Char} {rest : Text} (h : c = '\\' → rest.head? ≠ some '#') :
    unescape (c :: rest) = c :: unescape rest := by
  unfold unescape
  rw [unescapeFrom, unescapeFrom_eq]
  · rfl
  · rintro more rfl rfl
    exact h rfl rfl

theorem unescape_sign (rest : Text) : unescape ('#' :: rest) = '#' :: unescape rest :=
  unescape_cons fun heq => absurd heq (by decide)

/-- Induction along the escaped number signs of a text: a pair of backslash and
number sign, or one character that does not start such a pair. -/
private theorem unescape_induction {P : Text → Prop} (nil : P [])
    (pair : ∀ rest, P rest → P ('\\' :: '#' :: rest))
    (cons : ∀ c rest, (c = '\\' → rest.head? ≠ some '#') → P rest → P (c :: rest)) (t : Text) :
    P t := by
  have hall : ∀ done t : Text, P t := by
    intro done t
    induction done, t using unescapeFrom.induct with
    | case1 done => exact nil
    | case2 done rest ih => exact pair rest ih
    | case3 done c rest hpair ih =>
        refine cons c rest ?_ ih
        intro hc hrest
        obtain ⟨more, rfl⟩ := List.head?_eq_some_iff.mp hrest
        exact hpair more hc rfl
  exact hall [] t

/-- Two texts are unescaped apart, unless a backslash and a number sign meet
between them. -/
theorem unescape_append {a b : Text} (h : a.getLast? = some '\\' → b.head? ≠ some '#') :
    unescape (a ++ b) = unescape a ++ unescape b := by
  induction a using unescape_induction with
  | nil => rfl
  | pair rest ih =>
      have hrest : rest.getLast? = some '\\' → b.head? ≠ some '#' := by
        intro hlast
        apply h
        simp [List.getLast?_cons, hlast]
      simp only [List.cons_append, unescape_pair, ih hrest]
  | cons c rest hc ih =>
      have hrest : rest.getLast? = some '\\' → b.head? ≠ some '#' := by
        intro hlast
        apply h
        simp [List.getLast?_cons, hlast]
      have happ : c = '\\' → (rest ++ b).head? ≠ some '#' := by
        intro hback
        cases rest with
        | nil => exact h (by rw [hback]; rfl)
        | cons d more => exact hc hback
      rw [List.cons_append, unescape_cons happ, unescape_cons hc, ih hrest, List.cons_append]

/-- Text without a number sign stays as it is. -/
theorem unescape_of_not_mem {t : Text} (h : '#' ∉ t) : unescape t = t := by
  induction t with
  | nil => rfl
  | cons c rest ih =>
      rw [List.mem_cons, not_or] at h
      rw [unescape_cons, ih h.2]
      intro _ hrest
      exact h.2 (List.mem_of_mem_head? hrest)

/-- Text is as it is without its backslashes exactly if it holds no escaped
number sign. -/
theorem unescape_eq_self_iff {t : Text} : unescape t = t ↔ Text.hasPart "\\#" t = false := by
  induction t using unescape_induction with
  | nil => simp [Text.hasPart]
  | pair rest _ => simp [Text.hasPart]
  | cons c rest hc ih =>
      have hstart : ("\\#".toList.isPrefixOf (c :: rest)) = false := by
        by_contra hprefix
        rw [Bool.not_eq_false, List.isPrefixOf_iff_prefix] at hprefix
        obtain ⟨tail, heq⟩ := hprefix
        cases heq
        exact hc rfl rfl
      rw [unescape_cons hc, List.cons.injEq, ih, Text.hasPart, hstart]
      simp

/-- **The text between the escaped number signs** of a text is what stays when
their backslashes are taken away. -/
theorem exists_pieces (t : Text) : ∃ pieces, t = Text.join "\\#" pieces ∧
    (∀ piece ∈ pieces, Text.hasPart "\\#" piece = false) ∧ unescape t = Text.join "#" pieces := by
  suffices hall : ∃ first others, t = Text.join "\\#" (first :: others) ∧
      (∀ piece ∈ first :: others, unescape piece = piece) ∧
      unescape t = Text.join "#" (first :: others) by
    obtain ⟨first, others, ht, hpieces, hread⟩ := hall
    exact ⟨first :: others, ht,
      fun piece hpiece => unescape_eq_self_iff.mp (hpieces piece hpiece), hread⟩
  induction t using unescape_induction with
  | nil => exact ⟨[], [], rfl, by simp, rfl⟩
  | pair rest ih =>
      obtain ⟨first, others, rfl, hpieces, hread⟩ := ih
      refine ⟨[], first :: others, rfl, List.forall_mem_cons.mpr ⟨rfl, hpieces⟩, ?_⟩
      rw [unescape_pair, hread]
      rfl
  | cons c rest hc ih =>
      obtain ⟨first, others, rfl, hpieces, hread⟩ := ih
      obtain ⟨hfirst, hothers⟩ := List.forall_mem_cons.mp hpieces
      have hhead : c = '\\' → first.head? ≠ some '#' := by
        intro hback hsign
        obtain ⟨more, rfl⟩ := List.head?_eq_some_iff.mp hsign
        exact hc hback (by cases others <;> rfl)
      have hcons : ∀ separator, Text.join separator ((c :: first) :: others) =
          c :: Text.join separator (first :: others) := by
        intro separator
        cases others <;> rfl
      refine ⟨c :: first, others, (hcons _).symm, List.forall_mem_cons.mpr ⟨?_, hothers⟩, ?_⟩
      · rw [unescape_cons hhead, hfirst]
      · rw [unescape_cons hc, hread, hcons]

/-- Text is unescaped apart on both sides of another character, for no pair
reaches over it. -/
theorem unescape_cut {c : Char} (hback : c ≠ '\\') (hsign : c ≠ '#') (a b : Text) :
    unescape (a ++ c :: b) = unescape a ++ c :: unescape b := by
  rw [unescape_append (by simpa using fun _ => hsign), unescape_cons (fun heq => absurd heq hback)]

/-- Only backslashes are lost: any other character is in a text exactly if it is
in it without its backslashes. -/
theorem mem_unescape {c : Char} (hc : c ≠ '\\') {t : Text} : c ∈ unescape t ↔ c ∈ t := by
  induction t using unescape_induction with
  | nil => rfl
  | pair rest ih => simp [ih, hc]
  | cons d rest hd ih => rw [unescape_cons hd, List.mem_cons, List.mem_cons, ih]

/-- Only characters of a line get into its code, and none but backslashes can be
lost on the way. -/
theorem mem_of_mem_strip {raw : Text} {c : Char} (hc : c ≠ '\\') (h : c ∈ strip raw) : c ∈ raw := by
  obtain ⟨code, comment, hsplit⟩ : ∃ code comment, split raw = (code, comment) := ⟨_, _, rfl⟩
  obtain ⟨rfl, -, -⟩ := split_eq_iff.mp hsplit
  unfold strip at h
  rw [hsplit] at h
  exact List.mem_append_left comment ((mem_unescape hc).mp (Text.mem_of_mem_trim h))

/-- Taking backslashes away empties no text, for the number sign behind each of
them stays. -/
theorem unescape_eq_nil {t : Text} : unescape t = [] ↔ t = [] := by
  induction t using unescape_induction with
  | nil => rfl
  | pair rest _ => simp
  | cons d rest hd _ => simp [unescape_cons hd]

/-- The first character is kept, or it was the backslash of a number sign. -/
theorem head_unescape {t : Text} {c : Char} (h : (unescape t).head? = some c) :
    t.head? = some c ∨ c = '#' := by
  induction t using unescape_induction with
  | nil => simp at h
  | pair rest _ => exact Or.inr (by simpa using h.symm)
  | cons d rest hd _ => exact Or.inl (by simpa [unescape_cons hd] using h)

/-- The last character is kept. -/
theorem last_unescape (t : Text) : (unescape t).getLast? = t.getLast? := by
  induction t using unescape_induction with
  | nil => rfl
  | pair rest ih => simp [List.getLast?_cons, ih]
  | cons d rest hd ih => simp [unescape_cons hd, List.getLast?_cons, ih]

/-- A blank end has no backslash at its end. -/
private theorem last_ne_backslash {b : Text} (hb : Text.AllBlank b) : b.getLast? ≠ some '\\' := by
  intro hlast
  exact hb.not_mem (c := '\\') (by decide) (List.mem_of_getLast? hlast)

/-- Blanks around plain text may be left out. -/
theorem Plain.trim {t : Text} (h : Plain t) : Plain (Text.trim t) := by
  obtain ⟨a, b, ht, ha, -⟩ := Text.exists_trim t
  rw [ht, List.append_assoc] at h
  have hafter := (plainAfter_append.mp h).2
  rw [Option.or_none] at hafter
  exact Plain.left (hafter.plain (last_ne_backslash ha))

/-- Blanks in front of a text stay in front of it when its backslashes are taken
away. -/
theorem unescape_blank_append {b : Text} (hb : Text.AllBlank b) (t : Text) :
    unescape (b ++ t) = b ++ unescape t := by
  rw [unescape_append (fun hlast => absurd hlast (last_ne_backslash hb)),
    unescape_of_not_mem (hb.not_mem (by decide))]

/-- So do blanks behind it: a blank at the end ends no pair. -/
theorem unescape_append_blank {b : Text} (hb : Text.AllBlank b) (t : Text) :
    unescape (t ++ b) = unescape t ++ b := by
  have hhead : b.head? ≠ some '#' := by
    intro hhead
    exact hb.not_mem (c := '#') (by decide) (List.mem_of_mem_head? hhead)
  rw [unescape_append (fun _ => hhead), unescape_of_not_mem (hb.not_mem (by decide))]

/-- A text that neither starts nor ends with a blank keeps that. -/
theorem tight_unescape {t : Text} (h : Text.Tight t) : Text.Tight (unescape t) := by
  constructor
  · intro c hc
    rcases head_unescape hc with hhead | rfl
    · exact h.start c hhead
    · decide
  · intro c hc
    rw [last_unescape] at hc
    exact h.stop c hc

/-- Blanks around a text stay around it, and what is between them is unescaped
by itself. -/
private theorem unescape_around (t : Text) : ∃ a b, Text.AllBlank a ∧ Text.AllBlank b ∧
    t = a ++ Text.trim t ++ b ∧ unescape t = a ++ unescape (Text.trim t) ++ b := by
  obtain ⟨a, b, ht, ha, hb⟩ := Text.exists_trim t
  refine ⟨a, b, ha, hb, ht, ?_⟩
  conv_lhs => rw [ht]
  rw [unescape_append_blank hb, unescape_blank_append ha]

/-- Trimming before or after the backslashes are taken away is the same, so the
compiler and the editors may do it in different orders. -/
theorem trim_unescape (t : Text) : Text.trim (unescape t) = unescape (Text.trim t) := by
  obtain ⟨a, b, ha, hb, -, hcore⟩ := unescape_around t
  rw [hcore, Text.trim_of_blanks_around ha hb,
    Text.trim_of_tight (tight_unescape (Text.tight_trim t))]

/-- Trimmed or not, a text holds the same escaped number signs. -/
theorem unescape_trim_eq_self_iff {t : Text} : unescape (Text.trim t) = Text.trim t ↔
    unescape t = t := by
  obtain ⟨a, b, -, -, ht, hcore⟩ := unescape_around t
  constructor
  · intro h
    rw [hcore, h, ← ht]
  · intro h
    rw [hcore] at h
    exact List.append_cancel_left (List.append_cancel_right (h.trans ht))

/-- Pieces between separators are unescaped one by one, since a separator is in
no pair. -/
theorem splitOn_unescape {c : Char} (hback : c ≠ '\\') (hsign : c ≠ '#') (t : Text) :
    (unescape t).splitOn c = (t.splitOn c).map unescape := by
  have hpieces : ∀ pieces : List Text, unescape ([c].intercalate pieces) =
      [c].intercalate (pieces.map unescape) := by
    intro pieces
    induction pieces with
    | nil => rfl
    | cons piece pieces ih =>
        cases pieces with
        | nil => simp
        | cons next pieces =>
            rw [List.intercalate_cons_cons, List.map_cons, List.map_cons,
              List.intercalate_cons_cons,
              ← List.map_cons, ← ih, List.append_assoc, List.append_assoc, List.singleton_append,
              List.singleton_append, unescape_cut hback hsign]
  have hwhole : [c].intercalate (t.splitOn c) = t := List.intercalate_splitOn c
  conv_lhs => rw [← hwhole, hpieces]
  apply List.splitOn_intercalate
  · intro piece hpiece
    obtain ⟨old, hold, rfl⟩ := List.mem_map.mp hpiece
    rw [mem_unescape hback]
    exact Text.not_mem_splitOn hold
  · simp [List.splitOn_ne_nil]

/-- Words are unescaped one by one: blanks are neither backslashes nor number
signs. -/
theorem words_unescape (t : Text) : Text.words (unescape t) = (Text.words t).map unescape := by
  induction hlength : t.length using Nat.strong_induction_on generalizing t with
  | _ n ih =>
    subst hlength
    by_cases hblank : ∃ c ∈ t, Text.isBlank c = true
    · obtain ⟨c, hc, hisBlank⟩ := hblank
      obtain ⟨a, b, rfl⟩ := List.append_of_mem hc
      have hback : c ≠ '\\' := by rintro rfl; exact absurd hisBlank (by decide)
      have hsign : c ≠ '#' := by rintro rfl; exact absurd hisBlank (by decide)
      rw [unescape_cut hback hsign, Text.words_append_cons hisBlank,
        Text.words_append_cons hisBlank,
        ih a.length (by simp) a rfl, ih b.length (by simp; omega) b rfl, List.map_append]
    · simp only [not_exists, not_and, Bool.not_eq_true] at hblank
      by_cases hne : t = []
      · subst hne
        rfl
      · have hsolid : ∀ c ∈ unescape t, Text.isBlank c = false := by
          intro c hc
          by_cases hback : c = '\\'
          · subst hback
            decide
          · exact hblank c ((mem_unescape hback).mp hc)
        rw [Text.words_of_solid hne hblank,
          Text.words_of_solid (fun hnil => hne (unescape_eq_nil.mp hnil)) hsolid]
        rfl

/-! ## The code of a line -/

/-- The code of a text in which no comment opens is all of it, without its
backslashes and the blanks around it. -/
theorem strip_of_plain {code : Text} (h : Plain code) : strip code = Text.trim (unescape code) := by
  unfold strip
  rw [split_of_plain h]

/-- A line without a number sign and without blanks around it is all code. -/
theorem strip_of_not_mem {code : Text} (htight : Text.Tight code) (hsigns : '#' ∉ code) :
    strip code = code := by
  rw [strip_of_plain (plain_of_not_mem hsigns), unescape_of_not_mem hsigns,
    Text.trim_of_tight htight]

/-- Blanks part code from the comment behind it.  With a gap between them the
code cannot end in a backslash that would escape the number sign. -/
theorem split_of_gap {code gap comment : Text} (hcode : Plain code) (hgap : Text.AllBlank gap)
    (hend : comment = [] ∨ (∃ rest, comment = '#' :: rest) ∧ gap ≠ []) :
    split (code ++ gap ++ comment) = (code ++ gap, comment) := by
  have hplain : Plain (code ++ gap) :=
    hcode.append (plain_of_not_mem (hgap.not_mem (by decide)))
  refine split_eq_iff.mpr ⟨rfl, hplain, hend.imp id ?_⟩
  rintro ⟨hcomment, hne⟩
  refine ⟨hcomment, ?_⟩
  rw [List.getLast?_append_of_ne_nil _ hne]
  exact last_ne_backslash hgap

/-- Blanks at the end of a raw line do not change its code. -/
theorem strip_append_blank {b : Text} (hb : Text.AllBlank b) (raw : Text) :
    strip (raw ++ b) = strip raw := by
  obtain ⟨code, comment, hsplit⟩ : ∃ code comment, split raw = (code, comment) := ⟨_, _, rfl⟩
  obtain ⟨rfl, hplain, hend⟩ := split_eq_iff.mp hsplit
  rcases hend with rfl | ⟨⟨rest, rfl⟩, hlast⟩
  · have hall : Plain (code ++ b) := hplain.append (plain_of_not_mem (hb.not_mem (by decide)))
    rw [List.append_nil, strip_of_plain hall, strip_of_plain hplain, unescape_append_blank hb,
      Text.trim_append_blank hb]
  · have hmore : split (code ++ '#' :: rest ++ b) = (code, '#' :: (rest ++ b)) :=
      split_eq_iff.mpr ⟨by simp, hplain, Or.inr ⟨⟨rest ++ b, rfl⟩, hlast⟩⟩
    unfold strip
    rw [hsplit, hmore]

/-- Blanks at the start of a raw line do not change its code either. -/
theorem strip_blank_append {b : Text} (hb : Text.AllBlank b) (raw : Text) :
    strip (b ++ raw) = strip raw := by
  obtain ⟨code, comment, hsplit⟩ : ∃ code comment, split raw = (code, comment) := ⟨_, _, rfl⟩
  obtain ⟨hraw, hplain, hend⟩ := split_eq_iff.mp hsplit
  have hmore : split (b ++ raw) = (b ++ code, comment) := by
    refine split_eq_iff.mpr ⟨by rw [hraw, List.append_assoc],
      (plain_of_not_mem (hb.not_mem (by decide))).append hplain, ?_⟩
    rcases hend with rfl | ⟨hcomment, hlast⟩
    · exact Or.inl rfl
    · refine Or.inr ⟨hcomment, ?_⟩
      rw [List.getLast?_append]
      cases hcode : code.getLast? with
      | none => simpa using last_ne_backslash hb
      | some c => simpa [hcode] using hlast
  unfold strip
  rw [hsplit, hmore]
  simpa [unescape_blank_append hb] using
    Text.trim_of_blanks_around hb Text.allBlank_nil (unescape code)

theorem strip_trim (raw : Text) : strip (Text.trim raw) = strip raw := by
  obtain ⟨a, b, hraw, ha, hb⟩ := Text.exists_trim raw
  conv_rhs => rw [hraw]
  rw [strip_append_blank hb, strip_blank_append ha]

/-! ## Putting the backslashes in -/

/-- The result so far is put in front and has no say in what follows; only the
last character has. -/
private theorem escapeFrom_eq (last : Option Char) (done t : Text) :
    escapeFrom last done t = done.reverse ++ escapeFrom last [] t := by
  induction t generalizing last done with
  | nil => simp [escapeFrom]
  | cons c rest ih =>
      unfold escapeFrom
      split
      · rw [ih, ih _ ['#', '\\']]
        simp
      · rw [ih, ih _ [c]]
        simp

private theorem escapeFrom_sign {last : Option Char} (hlast : last ≠ some '\\') (rest : Text) :
    escapeFrom last [] ('#' :: rest) = '\\' :: '#' :: escapeFrom (some '#') [] rest := by
  have hopen : ('#' == '#' && last != some '\\') = true := by simpa using hlast
  rw [escapeFrom, if_pos hopen, escapeFrom_eq]
  rfl

/-- Every other character is written as it is, and so is a number sign with a
backslash before it. -/
private theorem escapeFrom_cons {last : Option Char} {c : Char}
    (h : c = '#' → last = some '\\') (rest : Text) :
    escapeFrom last [] (c :: rest) = c :: escapeFrom (some c) [] rest := by
  have hpass : ¬ (c == '#' && last != some '\\') = true := by
    intro hopen
    simp only [Bool.and_eq_true, beq_iff_eq, bne_iff_ne] at hopen
    exact hopen.2 (h hopen.1)
  rw [escapeFrom, if_neg hpass, escapeFrom_eq]
  rfl

/-- At the start of a text, a character that is neither a backslash nor a number
sign is written as it is, and has no effect on what follows. -/
theorem escape_cons {c : Char} (hback : c ≠ '\\') (hsign : c ≠ '#') (rest : Text) :
    escape (c :: rest) = c :: escape rest := by
  have hlast : some c ≠ some '\\' := fun heq => hback (Option.some.inj heq)
  have hrest : escapeFrom (some c) [] rest = escapeFrom none [] rest := by
    cases rest with
    | nil => rfl
    | cons d rest =>
        by_cases hd : d = '#'
        · rw [hd, escapeFrom_sign hlast, escapeFrom_sign (by decide)]
        · rw [escapeFrom_cons (fun heq => absurd heq hd),
            escapeFrom_cons (fun heq => absurd heq hd)]
  unfold escape
  rw [escapeFrom_cons (fun heq => absurd heq hsign), hrest]

/-- Induction along the number signs that get a backslash.  What comes before a
character is carried along, since it decides whether a number sign is escaped
already. -/
private theorem escape_induction {P : Option Char → Text → Prop} (nil : ∀ last, P last [])
    (sign : ∀ last rest, last ≠ some '\\' → P (some '#') rest → P last ('#' :: rest))
    (cons : ∀ last c rest, (c = '#' → last = some '\\') → P (some c) rest → P last (c :: rest))
    (last : Option Char) (t : Text) : P last t := by
  induction t generalizing last with
  | nil => exact nil last
  | cons c rest ih =>
      by_cases hopen : c = '#' ∧ last ≠ some '\\'
      · obtain ⟨rfl, hlast⟩ := hopen
        exact sign last rest hlast (ih _)
      · refine cons last c rest ?_ (ih _)
        intro hc
        by_contra hlast
        exact hopen ⟨hc, hlast⟩

/-- Escaped text opens no comment: each number sign in it has a backslash before
it, an old one or a new one. -/
theorem plain_escape (t : Text) : Plain (escape t) := by
  have hall : ∀ last, PlainAfter last (escapeFrom last [] t) := by
    intro last
    induction last, t using escape_induction with
    | nil last => trivial
    | sign last rest hlast ih =>
        rw [escapeFrom_sign hlast]
        exact ⟨fun hc => absurd hc (by decide), fun _ => rfl, ih⟩
    | cons last c rest hc ih =>
        rw [escapeFrom_cons hc]
        exact ⟨hc, ih⟩
  exact hall none

/-- **Plain text needs no backslashes**, and text that gets none is plain: the
escaper adds one at each number sign that would open a comment and nowhere
else. -/
theorem escape_eq_self_iff {t : Text} : escape t = t ↔ Plain t := by
  refine ⟨fun h => h ▸ plain_escape t, ?_⟩
  suffices hall : ∀ last, PlainAfter last t → escapeFrom last [] t = t from hall none
  intro last
  induction last, t using escape_induction with
  | nil last => exact fun _ => rfl
  | sign last rest hlast ih => exact fun h => absurd (h.1 rfl) hlast
  | cons last c rest hc ih =>
      intro h
      rw [escapeFrom_cons hc, ih h.2]

/-- **Escaping adds nothing that is read**: without all backslashes a text is as
it was without those that it had.  The induction carries the character before
the text along, because a backslash there belongs to a number sign at the
start. -/
theorem unescape_escape_eq (t : Text) : unescape (escape t) = unescape t := by
  suffices hall : ∀ last : Option Char,
      unescape (last.toList ++ escapeFrom last [] t) = unescape (last.toList ++ t) from hall none
  intro last
  induction last, t using escape_induction with
  | nil last => rfl
  | sign last rest hlast ih =>
      have hback : ∀ b : Text, last.toList.getLast? = some '\\' → b.head? ≠ some '#' := by
        intro b hb
        cases last with
        | none => cases hb
        | some c => exact absurd hb hlast
      rw [escapeFrom_sign hlast, unescape_append (hback _),
        unescape_append (hback _), unescape_pair, ← unescape_sign]
      exact congrArg _ ih
  | cons last c rest hc ih =>
      rw [escapeFrom_cons hc]
      by_cases hsign : c = '#'
      · cases hc hsign
        subst hsign
        change unescape ('\\' :: '#' :: _) = unescape ('\\' :: '#' :: _)
        rw [unescape_pair, unescape_pair, ← unescape_sign, ← unescape_sign]
        exact ih
      · have hnext : ∀ rest : Text, last.toList.getLast? = some '\\' →
            (c :: rest).head? ≠ some '#' :=
          fun rest _ heq => hsign (Option.some.inj heq)
        rw [unescape_append (hnext _), unescape_append (hnext _)]
        exact congrArg _ ih

/-- Escaped text is read back, unless it held a backslash before a number
sign. -/
theorem unescape_escape {t : Text} (h : Text.hasPart "\\#" t = false) :
    unescape (escape t) = t := by
  rw [unescape_escape_eq, unescape_eq_self_iff.mpr h]

/-- **Reading back what was escaped** gives the text without its backslashes and
the blanks around it: the escaped text opens no comment. -/
theorem strip_escape (t : Text) : strip (escape t) = Text.trim (unescape t) := by
  rw [strip_of_plain (plain_escape t), unescape_escape_eq]

/-- Escaping adds backslashes and nothing else. -/
theorem mem_escape {c : Char} (hc : c ≠ '\\') {t : Text} : c ∈ escape t ↔ c ∈ t := by
  have hall : ∀ last, c ∈ escapeFrom last [] t ↔ c ∈ t := by
    intro last
    induction last, t using escape_induction with
    | nil last => rfl
    | sign last rest hlast ih => simp [escapeFrom_sign hlast, ih, hc]
    | cons last d rest hd ih => simp [escapeFrom_cons hd, ih]
  exact hall none

/-- The last character is kept. -/
theorem last_escape (t : Text) : (escape t).getLast? = t.getLast? := by
  have hall : ∀ last, (escapeFrom last [] t).getLast? = t.getLast? := by
    intro last
    induction last, t using escape_induction with
    | nil last => rfl
    | sign last rest hlast ih => simp [escapeFrom_sign hlast, List.getLast?_cons, ih]
    | cons last d rest hd ih => simp [escapeFrom_cons hd, List.getLast?_cons, ih]
  exact hall none

/-- The first character is kept, or a backslash comes before it. -/
theorem head_escape {t : Text} {c : Char} (h : (escape t).head? = some c) :
    t.head? = some c ∨ c = '\\' := by
  cases t with
  | nil => exact Or.inl h
  | cons d rest =>
      by_cases hd : d = '#'
      · subst hd
        unfold escape at h
        rw [escapeFrom_sign (by simp)] at h
        exact Or.inr (by simpa using h.symm)
      · unfold escape at h
        rw [escapeFrom_cons (fun hc => absurd hc hd)] at h
        exact Or.inl h

theorem escape_eq_nil {t : Text} : escape t = [] ↔ t = [] := by
  rw [← List.getLast?_eq_none_iff, last_escape, List.getLast?_eq_none_iff]

/-- A text that starts and ends with no blank still does when it is escaped. -/
theorem tight_escape {t : Text} (h : Text.Tight t) : Text.Tight (escape t) := by
  constructor
  · intro c hc
    rcases head_escape hc with hhead | rfl
    · exact h.start c hhead
    · decide
  · intro c hc
    rw [last_escape] at hc
    exact h.stop c hc

/-- **Escaped text is read back.**  It opens no comment, and escaping it again
changes nothing.  As code it is the trimmed text in which each escaped number
sign has lost its backslash; so it is the trimmed text exactly if there was
none. -/
theorem escape_reads_back (t : Text) :
    split (escape t) = (escape t, []) ∧ escape (escape t) = escape t ∧
    (∃ pieces, t = Text.join "\\#" pieces ∧ (∀ piece ∈ pieces, Text.hasPart "\\#" piece = false) ∧
      strip (escape t) = Text.trim (Text.join "#" pieces)) ∧
    (strip (escape t) = Text.trim t ↔ Text.hasPart "\\#" t = false) := by
  refine ⟨split_of_plain (plain_escape t), escape_eq_self_iff.mpr (plain_escape t), ?_, ?_⟩
  · obtain ⟨pieces, ht, hpieces, hread⟩ := exists_pieces t
    exact ⟨pieces, ht, hpieces, by rw [strip_escape, hread]⟩
  · rw [strip_escape, trim_unescape, unescape_trim_eq_self_iff, unescape_eq_self_iff]

end LineDiagram.Comment
