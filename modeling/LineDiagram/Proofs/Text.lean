import LineDiagram.Text.Blank
import Mathlib.Data.List.DropRight

/-!
# Laws of trimming and cutting

A text is blanks, a core that neither starts nor ends with a blank, and blanks
again; trimming gives the core.  A text that holds a character falls apart at
the last one in exactly one way.

* `trimStart_append` and `trimEnd_append` — trimming a text that is put together
  trims one end of it;
* `trim_of_tight`, `tight_trim` — the trimmed texts are the tight ones;
* `cutLast?_eq_some_iff`, `cutLast?_eq_none_iff` — the cut at the last
  occurrence, in both directions;
* `words_join`, `tight_join`, `join_flatten` — texts with blanks between them,
  and their words.
-/

namespace LineDiagram.Text

/-- A text of blanks only. -/
def AllBlank (t : Text) : Prop := ∀ c ∈ t, isBlank c = true

/-- A text that neither starts nor ends with a blank. -/
structure Tight (t : Text) : Prop where
  /-- Its first character is no blank. -/
  start : ∀ c, t.head? = some c → isBlank c = false
  /-- Its last character is no blank. -/
  stop : ∀ c, t.getLast? = some c → isBlank c = false

@[simp] theorem allBlank_nil : AllBlank [] := by simp [AllBlank]

/-- A text is blank exactly if its first character is a blank and the rest is
blank. -/
@[simp] theorem allBlank_cons {c : Char} {t : Text} :
    AllBlank (c :: t) ↔ isBlank c = true ∧ AllBlank t := by
  simp [AllBlank]

@[simp] theorem allBlank_append {a b : Text} : AllBlank (a ++ b) ↔ AllBlank a ∧ AllBlank b := by
  simp [AllBlank, or_imp, forall_and]

theorem allBlank_singleton {c : Char} (h : isBlank c = true) : AllBlank [c] :=
  allBlank_cons.mpr ⟨h, allBlank_nil⟩

/-- A blank text does not hold a character that is no blank. -/
theorem AllBlank.not_mem {t : Text} (h : AllBlank t) {c : Char} (hc : isBlank c = false) :
    c ∉ t := by
  intro hmem
  rw [h c hmem] at hc
  exact Bool.noConfusion hc

/-- The blanks. -/
def blanks : Text :=
  [0x09, 0x0A, 0x0B, 0x0C, 0x0D, 0x1C, 0x1D, 0x1E, 0x1F, 0x20, 0x85, 0xA0, 0x1680,
    0x2000, 0x2001, 0x2002,
    0x2003, 0x2004, 0x2005, 0x2006, 0x2007, 0x2008, 0x2009, 0x200A, 0x2028, 0x2029, 0x202F, 0x205F,
    0x3000].map Char.ofNat

/-- The list of blanks is complete, so what is true of each of them is true of
every blank. -/
theorem mem_blanks {c : Char} (h : isBlank c = true) : c ∈ blanks := by
  rw [← Char.ofNat_toNat c]
  apply List.mem_map_of_mem
  simp only [isBlank, Bool.or_eq_true, Bool.and_eq_true, decide_eq_true_eq, beq_iff_eq] at h
  simp only [List.mem_cons, List.not_mem_nil, or_false]
  omega

/-! ## Trimming the start -/

theorem margin_append_trimStart (t : Text) : margin t ++ trimStart t = t :=
  List.takeWhile_append_dropWhile

/-- What follows the start of a text for which a test holds. -/
theorem drop_length_takeWhile (p : Char → Bool) (t : Text) :
    t.drop (t.takeWhile p).length = t.dropWhile p := by
  induction t with
  | nil => rfl
  | cons c rest ih =>
      by_cases hc : p c = true
      · simp [hc, ih]
      · simp [hc]

theorem allBlank_margin (t : Text) : AllBlank (margin t) :=
  fun _ hc => List.mem_takeWhile_imp hc

theorem trimStart_of_blank_append {b : Text} (hb : AllBlank b) (t : Text) :
    trimStart (b ++ t) = trimStart t :=
  List.dropWhile_append_of_pos hb

theorem trimStart_eq_nil {t : Text} : trimStart t = [] ↔ AllBlank t :=
  List.dropWhile_eq_nil_iff

/-- A text that starts with no blank stays as it is when the front is
trimmed. -/
theorem trimStart_of_head {c : Char} {t : Text} (hc : isBlank c = false) :
    trimStart (c :: t) = c :: t :=
  List.dropWhile_cons_of_neg (by simp [hc])

/-- What is left when the start is trimmed starts with no blank. -/
theorem head_trimStart {t : Text} {c : Char} (h : (trimStart t).head? = some c) :
    isBlank c = false := by
  have hne : trimStart t ≠ [] := by
    intro hnil
    simp [hnil] at h
  have hhead := List.head_dropWhile_not isBlank (l := t) hne
  rw [List.head?_eq_some_head hne] at h
  rw [← Option.some.inj h]
  exact hhead

/-- A text that starts with no blank is its own trimmed start. -/
theorem trimStart_eq_self {t : Text} (h : ∀ c, t.head? = some c → isBlank c = false) :
    trimStart t = t := by
  cases t with
  | nil => rfl
  | cons c rest => exact trimStart_of_head (h c rfl)

/-- Trimming the start of two texts one after the other trims the first of them,
unless that is blank. -/
theorem trimStart_append {a : Text} (h : ¬ AllBlank a) (b : Text) :
    trimStart (a ++ b) = trimStart a ++ b := by
  have hne : trimStart a ≠ [] := fun hnil => h (trimStart_eq_nil.mp hnil)
  unfold trimStart at hne ⊢
  rw [List.dropWhile_append, if_neg (by simpa using hne)]

/-! ## Trimming the end -/

theorem trimEnd_concat_blank {c : Char} (hc : isBlank c = true) (t : Text) :
    trimEnd (t ++ [c]) = trimEnd t :=
  List.rdropWhile_concat_pos _ _ _ hc

/-- A text that ends with no blank stays as it is when the end is trimmed. -/
theorem trimEnd_concat {c : Char} (hc : isBlank c = false) (t : Text) :
    trimEnd (t ++ [c]) = t ++ [c] :=
  List.rdropWhile_concat_neg _ _ _ (by simp [hc])

theorem trimEnd_eq_nil {t : Text} : trimEnd t = [] ↔ AllBlank t :=
  List.rdropWhile_eq_nil_iff

/-- The end that trimming removes is blank. -/
theorem exists_trimEnd (t : Text) : ∃ b, t = trimEnd t ++ b ∧ AllBlank b := by
  refine ⟨t.rtakeWhile isBlank, ?_, fun _ hc => List.mem_rtakeWhile_imp hc⟩
  exact List.rdropWhile_append_rtakeWhile.symm

/-- What is left when an end is removed does not end with a character of that
kind. -/
theorem last_dropEndWhile {p : Char → Bool} {t : Text} {c : Char}
    (h : (dropEndWhile p t).getLast? = some c) :
    p c = false := by
  have hne : dropEndWhile p t ≠ [] := by
    intro hnil
    simp [hnil] at h
  have hlast := List.rdropWhile_last_not p t hne
  rw [List.getLast?_eq_some_getLast hne] at h
  rw [← Option.some.inj h]
  exact Bool.not_eq_true _ ▸ hlast

/-- What is left when the end is trimmed ends with no blank. -/
theorem last_trimEnd {t : Text} {c : Char} (h : (trimEnd t).getLast? = some c) :
    isBlank c = false := last_dropEndWhile h

/-- A text that does not end with a character of the kind to be removed stays as
it is. -/
theorem dropEndWhile_eq_self {p : Char → Bool} {t : Text}
    (h : ∀ c, t.getLast? = some c → p c = false) :
    dropEndWhile p t = t := by
  rcases List.eq_nil_or_concat t with rfl | ⟨rest, c, rfl⟩
  · rfl
  · rw [List.concat_eq_append] at h ⊢
    exact List.rdropWhile_concat_neg _ _ _ (by simp [h c (by simp)])

/-- A text that ends with no blank is its own trimmed end. -/
theorem trimEnd_eq_self {t : Text} (h : ∀ c, t.getLast? = some c → isBlank c = false) :
    trimEnd t = t := dropEndWhile_eq_self h

/-- Several blanks at the end make no difference either. -/
theorem trimEnd_append_blank {b : Text} (hb : AllBlank b) (t : Text) :
    trimEnd (t ++ b) = trimEnd t := by
  induction b using List.reverseRecOn with
  | nil => rw [List.append_nil]
  | append_singleton b c ih =>
      rw [allBlank_append, allBlank_cons] at hb
      rw [← List.append_assoc, trimEnd_concat_blank hb.2.1, ih hb.1]

theorem trimEnd_trimEnd (t : Text) : trimEnd (trimEnd t) = trimEnd t :=
  trimEnd_eq_self fun _ hlast => last_trimEnd hlast

theorem trimEnd_append_trimEnd (a t : Text) : trimEnd (a ++ trimEnd t) = trimEnd (a ++ t) := by
  obtain ⟨b, ht, hb⟩ := exists_trimEnd t
  conv_rhs => rw [ht, ← List.append_assoc, trimEnd_append_blank hb]

/-- A text without blanks at its start has none there when its end is
trimmed. -/
theorem trimStart_trimEnd {t : Text} (h : trimStart t = t) : trimStart (trimEnd t) = trimEnd t := by
  apply trimStart_eq_self
  intro c hc
  obtain ⟨b, hb, -⟩ := exists_trimEnd t
  have hhead : t.head? = some c := by
    rw [hb, List.head?_append, hc]
    rfl
  exact head_trimStart (h.symm ▸ hhead)

/-- Trimming the end of two texts one after the other trims the second of them,
unless that is blank. -/
theorem trimEnd_append {b : Text} (h : ¬ AllBlank b) (a : Text) :
    trimEnd (a ++ b) = a ++ trimEnd b := by
  obtain ⟨blanks, hb, hblank⟩ := exists_trimEnd b
  have hne : trimEnd b ≠ [] := fun hnil => h (trimEnd_eq_nil.mp hnil)
  have hself : trimEnd (a ++ trimEnd b) = a ++ trimEnd b := by
    apply trimEnd_eq_self
    intro c hc
    rw [List.getLast?_append_of_ne_nil _ hne] at hc
    exact last_trimEnd hc
  calc trimEnd (a ++ b)
      = trimEnd ((a ++ trimEnd b) ++ blanks) := by rw [List.append_assoc, ← hb]
    _ = trimEnd (a ++ trimEnd b) := trimEnd_append_blank hblank _
    _ = a ++ trimEnd b := hself

/-! ## Trimming both ends -/

@[simp] theorem trim_nil : trim [] = [] := rfl

theorem trim_of_tight {t : Text} (h : Tight t) : trim t = t := by
  unfold trim
  rw [trimStart_eq_self h.start, trimEnd_eq_self h.stop]

/-- A trimmed text starts and ends with no blank. -/
theorem tight_trim (t : Text) : Tight (trim t) := by
  constructor
  · intro c hc
    obtain ⟨blanks, hb, -⟩ := exists_trimEnd (trimStart t)
    have hhead : (trimStart t).head? = some c := by
      rw [hb, List.head?_append]
      simp [show (trimEnd (trimStart t)).head? = some c from hc]
    exact head_trimStart hhead
  · intro c hc
    exact last_trimEnd hc

@[simp] theorem trim_trim (t : Text) : trim (trim t) = trim t := trim_of_tight (tight_trim t)

/-- A text without blanks starts and ends with none. -/
theorem tight_of_solid {t : Text} (h : ∀ c ∈ t, isBlank c = false) : Tight t :=
  ⟨fun c hc => h c (List.mem_of_head? hc), fun c hc => h c (List.mem_of_getLast? hc)⟩

/-- The same as a test, for the words the program writes itself. -/
theorem tight_of_all {t : Text} (h : t.all (fun c => !isBlank c) = true) : Tight t :=
  tight_of_solid fun c hc => by simpa using List.all_eq_true.mp h c hc

/-- The ends of a text can be tested. -/
theorem tight_of_ends {t : Text} (hstart : t.head?.all (fun c => !isBlank c) = true)
    (hstop : t.getLast?.all (fun c => !isBlank c) = true) : Tight t := by
  constructor
  · intro c hc
    simpa [hc] using hstart
  · intro c hc
    simpa [hc] using hstop

/-- Trimming leaves nothing exactly of a blank text. -/
theorem trim_eq_nil {t : Text} : trim t = [] ↔ AllBlank t := by
  unfold trim
  rw [trimEnd_eq_nil, ← trimStart_eq_nil (t := t)]
  constructor
  · intro h
    cases hs : trimStart t with
    | nil => rfl
    | cons c rest =>
        rw [hs, allBlank_cons] at h
        have hc : isBlank c = false := head_trimStart (t := t) (by simp [hs])
        rw [h.1] at hc
        exact Bool.noConfusion hc
  · intro h
    simp [h]

/-- Blanks around a text do not change what trimming leaves of it. -/
theorem trim_of_blanks_around {a b : Text} (ha : AllBlank a) (hb : AllBlank b) (t : Text) :
    trim (a ++ t ++ b) = trim t := by
  unfold trim
  rw [List.append_assoc, trimStart_of_blank_append ha]
  by_cases ht : AllBlank t
  · have hall : trimStart (t ++ b) = [] := trimStart_eq_nil.mpr (allBlank_append.mpr ⟨ht, hb⟩)
    rw [hall, trimStart_eq_nil.mpr ht]
  · rw [trimStart_append ht, trimEnd_append_blank hb]

/-- A text is its trimmed core between blanks. -/
theorem exists_trim (t : Text) : ∃ a b, t = a ++ trim t ++ b ∧ AllBlank a ∧ AllBlank b := by
  obtain ⟨b, hb, hblank⟩ := exists_trimEnd (trimStart t)
  refine ⟨margin t, b, ?_, allBlank_margin t, hblank⟩
  calc t = margin t ++ trimStart t := (margin_append_trimStart t).symm
    _ = margin t ++ (trim t ++ b) := congrArg _ hb
    _ = margin t ++ trim t ++ b := (List.append_assoc _ _ _).symm

theorem mem_of_mem_trimStart {t : Text} {c : Char} (h : c ∈ trimStart t) : c ∈ t := by
  rw [← margin_append_trimStart t]
  exact List.mem_append_right _ h

theorem mem_of_mem_dropEndWhile {p : Char → Bool} {t : Text} {c : Char}
    (h : c ∈ dropEndWhile p t) : c ∈ t := by
  unfold dropEndWhile at h
  rw [List.mem_reverse] at h
  exact List.mem_reverse.mp ((List.dropWhile_sublist _).subset h)

/-- A character that is not dropped is still there. -/
theorem mem_dropEndWhile {p : Char → Bool} {t : Text} {c : Char} (hc : p c = false) (h : c ∈ t) :
    c ∈ dropEndWhile p t := by
  unfold dropEndWhile
  rw [List.mem_reverse]
  rw [← List.mem_reverse, ← List.takeWhile_append_dropWhile (p := p) (l := t.reverse),
    List.mem_append] at h
  rcases h with hgone | hkept
  · rw [List.mem_takeWhile_imp hgone] at hc
    cases hc
  · exact hkept

theorem mem_of_mem_trimEnd {t : Text} {c : Char} (h : c ∈ trimEnd t) : c ∈ t :=
  mem_of_mem_dropEndWhile h

theorem mem_of_mem_trim {t : Text} {c : Char} (h : c ∈ trim t) : c ∈ t := by
  obtain ⟨a, b, ht, -⟩ := exists_trim t
  rw [ht]
  exact List.mem_append_left _ (List.mem_append_right _ h)

/-- Trimming takes away no character that is no blank. -/
theorem mem_trim {t : Text} {c : Char} (hc : isBlank c = false) (h : c ∈ t) : c ∈ trim t := by
  obtain ⟨a, b, ht, ha, hb⟩ := exists_trim t
  rw [ht, List.mem_append, List.mem_append] at h
  rcases h with (hstart | hcore) | hstop
  · exact absurd hstart (ha.not_mem hc)
  · exact hcore
  · exact absurd hstop (hb.not_mem hc)

theorem trim_append_blank {b : Text} (hb : AllBlank b) (t : Text) : trim (t ++ b) = trim t :=
  trim_of_blanks_around allBlank_nil hb t

theorem trim_trimEnd (t : Text) : trim (trimEnd t) = trim t := by
  obtain ⟨b, ht, hblank⟩ := exists_trimEnd t
  conv_rhs => rw [ht, trim_append_blank hblank]

theorem trim_trimStart (t : Text) : trim (trimStart t) = trim t := by
  unfold trim trimStart
  rw [List.dropWhile_idempotent]

/-- Trimming a text with something solid at its end and before that only takes
the blanks off its start. -/
theorem trim_append_solid {c d : Char} (hc : isBlank c = false)
    (hd : isBlank d = false) (a b : Text) :
    trim (a ++ c :: (b ++ [d])) = trimStart a ++ c :: (b ++ [d]) := by
  have hstart : trimStart (a ++ c :: (b ++ [d])) = trimStart a ++ c :: (b ++ [d]) := by
    by_cases hblank : AllBlank a
    · rw [trimStart_of_blank_append hblank, trimStart_of_head hc, trimStart_eq_nil.mpr hblank,
        List.nil_append]
    · exact trimStart_append hblank _
  unfold trim
  rw [hstart, ← List.cons_append, ← List.append_assoc]
  exact trimEnd_concat hd _

/-- A tight text before a text that ends with no blank is tight together with
it. -/
theorem Tight.append {a b : Text} (ha : Tight a) (hne : a ≠ [])
    (hb : ∀ c, b.getLast? = some c → isBlank c = false) : Tight (a ++ b) := by
  constructor
  · intro c hc
    rw [List.head?_append_of_ne_nil _ hne] at hc
    exact ha.start c hc
  · intro c hc
    rw [List.getLast?_append] at hc
    cases hlast : b.getLast? with
    | none => exact ha.stop c (by simpa [hlast] using hc)
    | some d => exact hb c (by simpa [hlast] using hc)

/-! ## Cutting at the last occurrence of a character -/

/-- The cut at the last `c` puts a text together again, and no `c` stands after
it. -/
theorem cutLast?_eq_some_iff {c : Char} {t a b : Text} :
    cutLast? c t = some (a, b) ↔ t = a ++ c :: b ∧ c ∉ b := by
  constructor
  · intro h
    unfold cutLast? at h
    cases hdrop : t.reverse.dropWhile (· != c) with
    | nil => simp [hdrop] at h
    | cons d before =>
        rw [hdrop] at h
        obtain ⟨rfl, rfl⟩ := Prod.mk.inj (Option.some.inj h)
        have hd : d = c := by
          have hhead := List.head_dropWhile_not (· != c) (l := t.reverse) (by simp [hdrop])
          simpa [hdrop] using hhead
        have hwhole : t.reverse = t.reverse.takeWhile (· != c) ++ d :: before := by
          rw [← hdrop, List.takeWhile_append_dropWhile]
        constructor
        · have := congrArg List.reverse hwhole
          simpa [hd] using this
        · intro hmem
          have := List.mem_takeWhile_imp (List.mem_reverse.mp hmem)
          simp at this
  · rintro ⟨rfl, hb⟩
    have hall : ∀ d ∈ b.reverse, (d != c) = true := by
      intro d hd
      have : d ≠ c := fun heq => hb (heq ▸ List.mem_reverse.mp hd)
      simpa using this
    unfold cutLast?
    simp only [List.reverse_append, List.reverse_cons, List.append_assoc]
    rw [List.dropWhile_append_of_pos hall, List.takeWhile_append_of_pos hall]
    simp

/-- There is no cut exactly when the character does not occur. -/
theorem cutLast?_eq_none_iff {c : Char} {t : Text} : cutLast? c t = none ↔ c ∉ t := by
  unfold cutLast?
  cases hdrop : t.reverse.dropWhile (· != c) with
  | nil =>
      have hall := List.dropWhile_eq_nil_iff.mp hdrop
      simp only [true_iff]
      intro hmem
      have := hall c (List.mem_reverse.mpr hmem)
      simp at this
  | cons d before =>
      have hd : d = c := by
        have hhead := List.head_dropWhile_not (· != c) (l := t.reverse) (by simp [hdrop])
        simpa [hdrop] using hhead
      have hmem : d ∈ t.reverse :=
        (List.dropWhile_suffix (· != c)).subset (by simp [hdrop])
      simp only [reduceCtorEq, false_iff, not_not]
      exact hd ▸ List.mem_reverse.mp hmem

/-! ## Parts of a text -/

theorem dropStart?_append (start t : Text) : dropStart? start (start ++ t) = some t := by
  simp [dropStart?]

/-- A part occurs in a text exactly when it stands there between two others. -/
theorem hasPart_iff {part t : Text} : hasPart part t = true ↔ part <:+: t := by
  induction t with
  | nil => simp [hasPart, List.isEmpty_iff]
  | cons c rest ih => simp [hasPart, ih, List.infix_cons_iff]

/-- What does not occur in a text does not occur in its core. -/
theorem hasPart_trim {part t : Text} (h : hasPart part t = false) :
    hasPart part (trim t) = false := by
  obtain ⟨a, b, ht, -⟩ := exists_trim t
  have hcore : trim t <:+: t := ⟨a, b, ht.symm⟩
  cases hpart : hasPart part (trim t) with
  | false => rfl
  | true =>
      rw [hasPart_iff.mpr ((hasPart_iff.mp hpart).trans hcore)] at h
      exact h

/-! ## Parts between separators -/

/-- A list around one of its positions. -/
theorem eq_take_cons_drop {α : Type} {l : List α} {i : Nat} {a : α} (h : l[i]? = some a) :
    l = l.take i ++ a :: l.drop (i + 1) := by
  obtain ⟨hlt, rfl⟩ := List.getElem?_eq_some_iff.mp h
  rw [List.getElem_cons_drop, List.take_append_drop]

theorem getD_of_getElem? {texts : List Text} {i : Nat} {t : Text} (h : texts[i]? = some t) :
    texts.getD i [] = t := by
  rw [List.getD_eq_getElem?_getD, h, Option.getD_some]

/-- A piece between separators holds none, and one stands right before it unless
it comes first. -/
theorem mem_splitOn {c : Char} {t piece : Text} (h : piece ∈ t.splitOn c) :
    c ∉ piece ∧ ∃ a b, t = a ++ piece ++ b ∧ (a = [] ∨ ∃ a', a = a' ++ [c]) := by
  induction hlength : t.length using Nat.strong_induction_on generalizing t with
  | _ n ih =>
      by_cases hc : c ∈ t
      · obtain ⟨first, rest, rfl, hfirst⟩ := List.eq_append_cons_of_mem hc
        rw [List.splitOn_append_cons_self, List.splitOn_eq_singleton hfirst] at h
        rcases List.mem_cons.mp h with rfl | hrest
        · exact ⟨hfirst, [], c :: rest, rfl, Or.inl rfl⟩
        · have hshort : rest.length < n := by
            rw [← hlength, List.length_append, List.length_cons]
            omega
          obtain ⟨hpiece, a, b, rfl, hstart⟩ := ih _ hshort hrest rfl
          refine ⟨hpiece, first ++ c :: a, b, by simp, Or.inr ?_⟩
          rcases hstart with rfl | ⟨a', rfl⟩
          · exact ⟨first, rfl⟩
          · exact ⟨first ++ c :: a', by simp⟩
      · rw [List.splitOn_eq_singleton hc, List.mem_singleton] at h
        rw [h]
        exact ⟨hc, [], [], by simp, Or.inl rfl⟩

theorem not_mem_splitOn {c : Char} {t piece : Text} (h : piece ∈ t.splitOn c) : c ∉ piece :=
  (mem_splitOn h).1

/-- A part starts and ends with no blank, is not empty and holds no
separator. -/
theorem mem_parts {c : Char} {t part : Text} (h : part ∈ parts c t) :
    Tight part ∧ part ≠ [] ∧ c ∉ part := by
  obtain ⟨hmem, hne⟩ := List.mem_filter.mp h
  obtain ⟨piece, hpiece, rfl⟩ := List.mem_map.mp hmem
  exact ⟨tight_trim piece, by simpa using hne,
    fun hc => not_mem_splitOn hpiece (mem_of_mem_trim hc)⟩

theorem subset_of_mem_parts {c : Char} {t part : Text} (h : part ∈ parts c t) : part ⊆ t := by
  obtain ⟨piece, hpiece, rfl⟩ := List.mem_map.mp (List.mem_filter.mp h).1
  obtain ⟨-, a, b, rfl, -⟩ := mem_splitOn hpiece
  intro d hd
  simp [mem_of_mem_trim hd]

/-- The characters of a word are no blanks, and characters of the text. -/
theorem mem_of_mem_words {t word : Text} (h : word ∈ words t) {c : Char} (hc : c ∈ word) :
    isBlank c = false ∧ c ∈ t := by
  have hpieces : ∀ t : Text, ∀ w ∈ t.splitOnP isBlank, ∀ c ∈ w, isBlank c = false ∧ c ∈ t := by
    intro t
    induction t with
    | nil =>
        intro w hw c hc
        simp only [List.splitOnP_nil, List.mem_singleton] at hw
        simp [hw] at hc
    | cons d t ih =>
        have hlater : ∀ {c}, (isBlank c = false ∧ c ∈ t) → isBlank c = false ∧ c ∈ d :: t :=
          fun hc => ⟨hc.1, List.mem_cons_of_mem d hc.2⟩
        intro w hw c hc
        rw [List.splitOnP_cons_eq_if_modifyHead] at hw
        split at hw
        · rcases List.mem_cons.mp hw with rfl | hw
          · cases hc
          · exact hlater (ih w hw c hc)
        · rename_i hd
          cases hrest : t.splitOnP isBlank with
          | nil => simp [hrest] at hw
          | cons first rest =>
              rw [hrest] at ih
              rw [hrest, List.modifyHead_cons, List.mem_cons] at hw
              rcases hw with rfl | hw
              · rcases List.mem_cons.mp hc with rfl | hc
                · exact ⟨by simpa using hd, List.mem_cons_self⟩
                · exact hlater (ih first List.mem_cons_self c hc)
              · exact hlater (ih w (List.mem_cons_of_mem _ hw) c hc)
  exact hpieces t word (List.mem_filter.mp h).1 c hc

/-- A character of joined texts stands in one of them or in the separator. -/
theorem not_mem_join {c : Char} {separator : Text} (hsep : c ∉ separator) {texts : List Text}
    (h : ∀ t ∈ texts, c ∉ t) : c ∉ join separator texts := by
  unfold join
  induction texts with
  | nil => simp
  | cons first rest ih =>
      cases rest with
      | nil => simpa using h first List.mem_cons_self
      | cons second rest =>
          rw [List.intercalate_cons_cons, List.mem_append, List.mem_append, not_or, not_or]
          exact ⟨⟨h first List.mem_cons_self, hsep⟩,
            ih (fun t ht => h t (List.mem_cons_of_mem _ ht))⟩

/-- The parts of two texts with a separator between them are those of the first,
and then those of the second. -/
theorem parts_append (c : Char) (a b : Text) : parts c (a ++ c :: b) = parts c a ++ parts c b := by
  unfold parts
  rw [List.splitOn_append_cons_self, List.map_append, List.filter_append]

/-- A text without separators is at most one part. -/
theorem parts_of_not_mem {c : Char} {t : Text} (h : c ∉ t) (hne : trim t ≠ []) :
    parts c t = [trim t] := by
  unfold parts
  rw [List.splitOn_eq_singleton h]
  simp [hne]

/-- A blank in front does not change the parts. -/
theorem parts_cons_blank {c d : Char} (hd : isBlank d = true) (hc : isBlank c = false) (t : Text) :
    parts c (d :: t) = parts c t := by
  have hne : ¬ (d == c) = true := by
    intro heq
    rw [beq_iff_eq.mp heq, hc] at hd
    exact Bool.noConfusion hd
  unfold parts
  rw [List.splitOn_cons_eq_if_modifyHead, if_neg hne]
  cases hpieces : t.splitOn c with
  | nil => rfl
  | cons first pieces =>
      have htrim : trim (d :: first) = trim first := by
        have hblank : AllBlank [d] := allBlank_cons.mpr ⟨hd, allBlank_nil⟩
        simpa using trim_of_blanks_around hblank allBlank_nil first
      rw [List.modifyHead_cons, List.map_cons, List.map_cons, htrim]

/-- A text without separators is a part, unless it is blank. -/
private theorem parts_of_free {c : Char} {t : Text} (h : c ∉ t) :
    parts c t = [trim t].filter fun p => !p.isEmpty := by
  unfold parts
  rw [List.splitOn_eq_singleton h, List.map_singleton]

/-- Blanks at the end do not change the parts. -/
theorem parts_append_blank {c : Char} (hc : isBlank c = false) {b : Text}
    (hb : AllBlank b) (t : Text) :
    parts c (t ++ b) = parts c t := by
  have hfree : ∀ last : Text, c ∉ last → parts c (last ++ b) = parts c last := by
    intro last hlast
    have hwhole : c ∉ last ++ b := by
      rw [List.mem_append, not_or]
      exact ⟨hlast, hb.not_mem hc⟩
    rw [parts_of_free hlast, parts_of_free hwhole, trim_append_blank hb]
  -- Only the text after the last separator is concerned.
  by_cases hmem : c ∈ t
  · obtain ⟨⟨before, last⟩, hcut⟩ :=
      Option.ne_none_iff_exists'.mp fun hnone => cutLast?_eq_none_iff.mp hnone hmem
    obtain ⟨rfl, hlast⟩ := cutLast?_eq_some_iff.mp hcut
    rw [List.append_assoc, List.cons_append, parts_append, parts_append, hfree last hlast]
  · exact hfree t hmem

/-- Blanks around a text do not change its parts. -/
theorem parts_trim {c : Char} (hc : isBlank c = false) (t : Text) :
    parts c (trim t) = parts c t := by
  have hfront : ∀ a rest : Text, AllBlank a → parts c (a ++ rest) = parts c rest := by
    intro a rest ha
    induction a with
    | nil => rfl
    | cons d a ih =>
        rw [allBlank_cons] at ha
        rw [List.cons_append, parts_cons_blank ha.1 hc, ih ha.2]
  obtain ⟨a, b, ht, ha, hb⟩ := exists_trim t
  conv_rhs => rw [ht, parts_append_blank hc hb, hfront a _ ha]

/-- A blank divides the words. -/
theorem words_append_cons {c : Char} (hc : isBlank c = true) (a b : Text) :
    words (a ++ c :: b) = words a ++ words b := by
  unfold words
  rw [List.splitOnP_append_cons a b hc, List.filter_append]

/-- A text without blanks is one word. -/
theorem words_of_solid {t : Text} (hne : t ≠ []) (h : ∀ c ∈ t, isBlank c = false) :
    words t = [t] := by
  unfold words
  rw [List.splitOnP_eq_singleton h]
  simp [hne]

/-- Blanks in front make no difference to the words of a text. -/
theorem words_blank_append {b : Text} (hb : AllBlank b) (t : Text) : words (b ++ t) = words t := by
  induction b with
  | nil => rfl
  | cons c b ih =>
      rw [allBlank_cons] at hb
      rw [List.cons_append, ← List.nil_append (c :: _), words_append_cons hb.1, ih hb.2]
      rfl

/-- Nor do blanks behind. -/
theorem words_append_blank {b : Text} (hb : AllBlank b) (t : Text) : words (t ++ b) = words t := by
  cases b with
  | nil => rw [List.append_nil]
  | cons c b =>
      rw [allBlank_cons] at hb
      have hnone : words b = [] := (congrArg words (List.append_nil b)).symm.trans
        (words_blank_append hb.2 [])
      rw [words_append_cons hb.1, hnone, List.append_nil]

/-- Blanks around a text do not change its words. -/
theorem words_trim (t : Text) : words (trim t) = words t := by
  obtain ⟨a, b, ht, ha, hb⟩ := exists_trim t
  conv_rhs => rw [ht]
  rw [words_append_blank hb, words_blank_append ha]

theorem join_singleton (separator t : Text) : join separator [t] = t := by simp [join]

theorem join_space_cons (first second : Text) (rest : List Text) :
    join " " (first :: second :: rest) = first ++ ' ' :: join " " (second :: rest) := by
  unfold join
  rw [List.intercalate_cons_cons, List.append_assoc]
  rfl

/-- The words of texts with blanks between them. -/
theorem words_join (texts : List Text) : words (join " " texts) = texts.flatMap words := by
  induction texts with
  | nil => rfl
  | cons first rest ih =>
      cases rest with
      | nil => simp [join]
      | cons second rest =>
          rw [join_space_cons, words_append_cons (by decide), ih]
          rfl

/-- Texts that are not empty are joined to one that is not. -/
theorem join_ne_nil {texts : List Text} (hne : texts ≠ []) (h : ∀ t ∈ texts, t ≠ []) :
    join " " texts ≠ [] := by
  cases texts with
  | nil => exact absurd rfl hne
  | cons first rest =>
      have hfirst := h first List.mem_cons_self
      cases rest with
      | nil => simpa [join] using hfirst
      | cons second rest =>
          rw [join_space_cons]
          simp

/-- Tight texts with blanks between them are tight. -/
theorem tight_join {texts : List Text} (h : ∀ t ∈ texts, Tight t ∧ t ≠ []) :
    Tight (join " " texts) := by
  induction texts with
  | nil => exact tight_of_solid (by simp [join])
  | cons first rest ih =>
      obtain ⟨hfirst, hne⟩ := h first List.mem_cons_self
      have hlater : ∀ t ∈ rest, Tight t ∧ t ≠ [] := fun t ht => h t (List.mem_cons_of_mem _ ht)
      cases rest with
      | nil => simpa [join] using hfirst
      | cons second rest =>
          have hjoined := join_ne_nil (by simp) fun t ht => (hlater t ht).2
          rw [join_space_cons]
          apply hfirst.append hne
          intro c hc
          rw [← List.singleton_append, List.getLast?_append_of_ne_nil _ hjoined] at hc
          exact (ih hlater).stop c hc

/-- Each of the texts is a piece of what they are joined to. -/
theorem infix_join {t : Text} {texts : List Text} (h : t ∈ texts) : t <:+: join " " texts := by
  induction texts with
  | nil => cases h
  | cons first rest ih =>
      cases rest with
      | nil =>
          rw [List.mem_singleton.mp h]
          simp [join]
      | cons second rest =>
          rw [join_space_cons]
          rcases List.mem_cons.mp h with rfl | hlater
          · exact (List.prefix_append _ _).isInfix
          · exact (ih hlater).trans ((List.suffix_cons _ _).trans (List.suffix_append _ _)).isInfix

/-- Two groups of texts, neither of them empty, are joined with a blank between
them. -/
theorem join_space_append {first rest : List Text} (hfirst : first ≠ []) (hrest : rest ≠ []) :
    join " " (first ++ rest) = join " " first ++ ' ' :: join " " rest := by
  induction first with
  | nil => exact absurd rfl hfirst
  | cons t more ih =>
      cases more with
      | nil =>
          cases rest with
          | nil => exact absurd rfl hrest
          | cons u rest => simp [join]
      | cons u more =>
          rw [List.cons_append, List.cons_append, join_space_cons, ← List.cons_append, ih (by simp),
            join_space_cons, List.append_assoc, List.cons_append]

/-- Texts that are joined in groups are joined all together. -/
theorem join_flatten {groups : List (List Text)} (h : ∀ g ∈ groups, g ≠ []) :
    join " " (groups.map (join " ")) = join " " groups.flatten := by
  induction groups with
  | nil => rfl
  | cons g groups ih =>
      have hlater : ∀ g ∈ groups, g ≠ [] := fun g hg => h g (List.mem_cons_of_mem _ hg)
      cases groups with
      | nil => simp [join]
      | cons g' groups =>
          have hrest : (g' :: groups).flatten ≠ [] := by
            rw [List.flatten_cons]
            exact List.append_ne_nil_of_left_ne_nil (hlater g' List.mem_cons_self) _
          rw [List.map_cons, List.map_cons, join_space_cons, ← List.map_cons, ih hlater,
            ← join_space_append (h g List.mem_cons_self) hrest, List.flatten_cons (l := g)]

/-- A text is cut at its first blank in one way only, so a word is told from
what follows it. -/
theorem cut_unique {a b a' b' : Text} {c c' : Char} (ha : ∀ x ∈ a, isBlank x = false)
    (ha' : ∀ x ∈ a', isBlank x = false) (hc : isBlank c = true) (hc' : isBlank c' = true)
    (h : a ++ c :: b = a' ++ c' :: b') : a = a' ∧ c :: b = c' :: b' := by
  have htake : ∀ {a b : Text} {c : Char}, (∀ x ∈ a, isBlank x = false) → isBlank c = true →
      (a ++ c :: b).takeWhile (fun x => !isBlank x) = a := by
    intro a b c ha hc
    rw [List.takeWhile_append_of_pos fun x hx => by simp [ha x hx],
      List.takeWhile_cons_of_neg (by simp [hc]), List.append_nil]
  have hsame : a = a' := by rw [← htake (b := b) ha hc, h, htake ha' hc']
  subst hsame
  exact ⟨rfl, List.append_cancel_left h⟩

/-- A text that starts without blanks starts its first word, which may go on
behind it. -/
theorem exists_word {a : Text} (hne : a ≠ []) (ha : ∀ x ∈ a, isBlank x = false) (b : Text) :
    ∃ more others, words (a ++ b) = (a ++ more) :: others := by
  by_cases hblank : ∃ c ∈ b, isBlank c = true
  · have hsplit := List.takeWhile_append_dropWhile (p := fun x => !isBlank x) (l := b)
    cases hdrop : b.dropWhile fun x => !isBlank x with
    | nil =>
        obtain ⟨c, hc, hisBlank⟩ := hblank
        have hsolid := List.dropWhile_eq_nil_iff.mp hdrop c hc
        simp [hisBlank] at hsolid
    | cons c rest =>
        have hc : isBlank c = true := by
          have hfirst := List.head?_dropWhile_not (fun x => !isBlank x) b
          rw [hdrop] at hfirst
          simpa using hfirst
        have hsolid : ∀ x ∈ a ++ b.takeWhile (fun x => !isBlank x), isBlank x = false := by
          intro x hx
          rcases List.mem_append.mp hx with hx | hx
          · exact ha x hx
          · simpa using List.mem_takeWhile_imp hx
        refine ⟨b.takeWhile fun x => !isBlank x, words rest, ?_⟩
        conv_lhs => rw [← hsplit, hdrop, ← List.append_assoc]
        rw [words_append_cons hc, words_of_solid (by simp [hne]) hsolid]
        rfl
  · simp only [not_exists, not_and, Bool.not_eq_true] at hblank
    refine ⟨b, [], words_of_solid (by simp [hne]) fun x hx => ?_⟩
    rcases List.mem_append.mp hx with hx | hx
    · exact ha x hx
    · exact hblank x hx

/-- A text of more than blanks has a word. -/
theorem words_ne_nil {t : Text} (h : ¬ AllBlank t) : words t ≠ [] := by
  rw [← words_trim]
  cases hcore : trim t with
  | nil => exact absurd (trim_eq_nil.mp hcore) h
  | cons c rest =>
      have hc : isBlank c = false := (tight_trim t).start c (by rw [hcore]; rfl)
      obtain ⟨more, others, hwords⟩ := exists_word (List.cons_ne_nil c []) (by simpa using hc) rest
      rw [List.singleton_append] at hwords
      rw [hwords]
      exact List.cons_ne_nil _ _

/-- Where runs are written as underscores, nothing is left but underscores and
the characters that are kept. -/
theorem mem_underscoreRuns {keep : Char → Bool} {t : Text} {c : Char}
    (h : c ∈ underscoreRuns keep t) :
    keep c = true ∨ c = '_' := by
  unfold underscoreRuns at h
  induction t with
  | nil => simp at h
  | cons d rest ih =>
      rw [List.foldr_cons] at h
      split at h
      · rename_i hd
        rcases List.mem_cons.mp h with rfl | hrest
        · exact Or.inl hd
        · exact ih hrest
      · split at h
        · exact ih h
        · rcases List.mem_cons.mp h with rfl | hrest
          · exact Or.inr rfl
          · exact ih hrest

/-- Decimal digits are not blank. -/
theorem not_blank_of_mem_ofNat {n : Nat} {c : Char} (h : c ∈ ofNat n) :
    isBlank c = false := by
  have hdigit := Nat.isDigit_of_mem_toDigits (by decide) (by decide) h
  simp only [Char.isDigit, Bool.and_eq_true, decide_eq_true_eq] at hdigit
  have hlow : 48 ≤ c.toNat := hdigit.1
  have hhigh : c.toNat ≤ 57 := hdigit.2
  unfold isBlank
  simp only [Bool.or_eq_false_iff, Bool.and_eq_false_iff, decide_eq_false_iff_not,
    beq_eq_false_iff_ne]
  omega

end LineDiagram.Text
