import LineDiagram.Proofs.Text
import LineDiagram.Text.Lower

/-!
# Lower case

A text is brought to lower case one character at a time, and a few characters
look at their neighbours.  So what a text in lower case holds is known from its
characters alone: those that have no case are still there, none of them is new,
and only letters of ASCII become letters of ASCII, but for the Kelvin sign.

* `mem_lower` — the characters of a text in lower case;
* `lower_of_ascii` — in ASCII each character is its own lower case or that of a
  capital;
* `ascii_of_lower` — what is a word of ASCII in lower case was one before;
* `of_splitWordAnyCase?`, `splitWordAnyCase?_of_lower` — a word at the start of
  a text in any case.
-/

namespace LineDiagram.Text

/-! ## Characters -/

/-- **The characters of a text in lower case** are those of its characters, each
of them between what stands before and after it. -/
theorem mem_lower {x : Char} {t : Text} :
    x ∈ lower t ↔ ∃ a c b, t = a ++ c :: b ∧ x ∈ lowerBetween a.reverse c b := by
  have hall : ∀ t before done : Text, x ∈ lowerFrom before done t ↔
      x ∈ done ∨ ∃ a c b, t = a ++ c :: b ∧ x ∈ lowerBetween (a.reverse ++ before) c b := by
    intro t
    induction t with
    | nil => simp [lowerFrom]
    | cons d rest ih =>
        intro before done
        rw [lowerFrom, ih, List.mem_append, List.mem_reverse]
        constructor
        · rintro ((hnew | hdone) | ⟨a, c, b, rfl, hx⟩)
          · exact Or.inr ⟨[], d, rest, rfl, hnew⟩
          · exact Or.inl hdone
          · exact Or.inr ⟨d :: a, c, b, rfl, by simpa using hx⟩
        · rintro (hdone | ⟨a, c, b, heq, hx⟩)
          · exact Or.inl (Or.inr hdone)
          · cases a with
            | nil =>
                cases heq
                exact Or.inl (Or.inl hx)
            | cons e a =>
                cases heq
                exact Or.inr ⟨a, c, b, rfl, by simpa using hx⟩
  simpa [lower] using hall t [] []

/-- All characters but the dotted capital I and the capital sigma are put into
lower case one by one, whatever stands around them. -/
theorem lowerBetween_eq {c : Char} (hdotted : c.toNat ≠ 0x130) (hsigma : c.toNat ≠ 0x3A3)
    (before after : Text) : lowerBetween before c after = [lowerChar c] := by
  simp [lowerBetween, hdotted, hsigma]

/-- So a text of ASCII is put into lower case character by character. -/
theorem lower_of_ascii {t : Text} (h : ∀ c ∈ t, c.toNat < 0x80) : lower t = t.map lowerChar := by
  suffices hall : ∀ before done, lowerFrom before done t = done.reverse ++ t.map lowerChar from
    hall [] []
  induction t with
  | nil => simp [lowerFrom]
  | cons c rest ih =>
      intro before done
      have hc := h c List.mem_cons_self
      rw [lowerFrom, lowerBetween_eq (by omega) (by omega),
        ih fun d hd => h d (List.mem_cons_of_mem _ hd)]
      simp

/-! ## Characters without case -/

/-- A character that stays as it is wherever it stands. -/
def Caseless (c : Char) : Prop := ∀ before after, lowerBetween before c after = [c]

/-- A character without case is still there in lower case. -/
theorem Caseless.mem_lower {c : Char} (hc : Caseless c) {t : Text} (h : c ∈ t) : c ∈ lower t := by
  obtain ⟨a, b, rfl⟩ := List.append_of_mem h
  exact Text.mem_lower.mpr ⟨a, c, b, rfl, by rw [hc]; exact List.mem_singleton_self c⟩

/-- Blanks have no case. -/
theorem caseless_of_isBlank {c : Char} (h : isBlank c = true) : Caseless c := by
  have hall : (blanks.all fun c =>
      c.toNat != 0x130 && c.toNat != 0x3A3 && lowerChar c == c) = true := by decide +kernel
  have hblank := List.all_eq_true.mp hall c (mem_blanks h)
  simp only [Bool.and_eq_true, bne_iff_ne, beq_iff_eq] at hblank
  obtain ⟨⟨hdotted, hsigma⟩, hlower⟩ := hblank
  intro before after
  rw [lowerBetween_eq hdotted hsigma, hlower]

/-- The runs of capitals begin no lower than the small letters of ASCII, when
they are put into lower case. -/
private theorem offset_capitalRuns :
    ∀ run ∈ capitalRuns, 0x61 ≤ (run.first : Int) + run.offset := by decide +kernel

/-- Lower-casing makes no character below the letters, so signs and digits come
from themselves only. -/
private theorem eq_of_lowerChar {c x : Char} (hzero : 0 < x.toNat) (hx : x.toNat < 0x41)
    (h : lowerChar c = x) : c = x := by
  have hofNat : ∀ k : Nat, 0x41 ≤ k → Char.ofNat k ≠ x := by
    rintro k hk rfl
    unfold Char.ofNat at hzero hx
    by_cases hvalid : k.isValidChar
    · rw [dif_pos hvalid] at hx
      exact absurd hk (Nat.not_le.mpr hx)
    · rw [dif_neg hvalid] at hzero
      exact absurd hzero (Nat.lt_irrefl 0)
  unfold lowerChar at h
  dsimp only at h
  split at h
  · split at h
    · rename_i hcapital
      simp only [Bool.and_eq_true, decide_eq_true_eq] at hcapital
      have hfirst : 0x41 ≤ c.toNat := hcapital.1
      exact absurd h (hofNat _ (by omega))
    · exact h
  · split at h
    · rename_i run hrun
      have hoffset := offset_capitalRuns run (List.mem_of_find?_eq_some hrun)
      have hcovers := List.find?_some hrun
      simp only [CaseRun.covers, Bool.and_eq_true, decide_eq_true_eq] at hcovers
      exact absurd h (hofNat _ (by omega))
    · exact h

/-- A character before the capitals of ASCII, such as a sign or a digit, is in a
text in lower case only if it was in the text. -/
theorem mem_of_mem_lower {x : Char} (hzero : 0 < x.toNat) (hx : x.toNat < 0x41) {t : Text}
    (h : x ∈ lower t) : x ∈ t := by
  obtain ⟨a, c, b, rfl, hmem⟩ := mem_lower.mp h
  suffices hc : c = x by simp [hc]
  unfold lowerBetween at hmem
  split at hmem
  · simp only [List.mem_cons, List.not_mem_nil, or_false] at hmem
    rcases hmem with rfl | rfl <;> exact absurd hx (by decide)
  · split at hmem
    · rw [List.mem_singleton] at hmem
      subst hmem
      split at hx <;> exact absurd hx (by decide)
    · exact eq_of_lowerChar hzero hx (List.mem_singleton.mp hmem).symm

/-! ## Words of ASCII -/

/-- The small letters of ASCII. -/
def smallLetters : Text := "abcdefghijklmnopqrstuvwxyz"

/-- What counts as a letter of ASCII when case is ignored. -/
def anyCaseLetters : Text :=
  smallLetters ++ "ABCDEFGHIJKLMNOPQRSTUVWXYZ" ++ [0x17F, 0x212A, 0x130, 0x131].map Char.ofNat

/-- Capitals beyond ASCII, the Kelvin sign apart, have lower-case forms beyond
ASCII. -/
private theorem range_capitalRuns :
    ∀ run ∈ capitalRuns, (run.first = 0x212A ∧ run.last = 0x212A ∧ run.offset = -0x20BF) ∨
      (0x80 ≤ (run.first : Int) + run.offset ∧
        ((run.last : Int) + run.offset < 0xD800 ∨
          0xE000 ≤ (run.first : Int) + run.offset ∧ (run.last : Int) + run.offset < 0x110000)) := by
  decide +kernel

/-- A character beyond ASCII stays beyond it in lower case, the Kelvin sign
apart, which becomes a k. -/
private theorem lowerChar_of_high {c : Char} (h : 0x80 ≤ c.toNat) :
    lowerChar c = 'k' ∨ 0x80 ≤ (lowerChar c).toNat := by
  unfold lowerChar
  dsimp only
  rw [if_neg (by omega)]
  split
  · rename_i run hrun
    have hcovers := List.find?_some hrun
    simp only [CaseRun.covers, Bool.and_eq_true, decide_eq_true_eq] at hcovers
    rcases range_capitalRuns run (List.mem_of_find?_eq_some hrun) with ⟨hfirst, hlast, hoffset⟩ |
        ⟨hlow, hhigh⟩
    · left
      rw [hoffset, show c.toNat = 0x212A by omega]
      rfl
    · right
      have hvalid : ((c.toNat : Int) + run.offset).toNat.isValidChar := by
        unfold Nat.isValidChar
        omega
      rw [Char.ofNat, dif_pos hvalid]
      change 0x80 ≤ ((c.toNat : Int) + run.offset).toNat
      omega
  · exact Or.inr h

/-- **What is in ASCII in lower case was in ASCII before**, unless it holds a
Kelvin sign. -/
theorem ascii_of_lower {t : Text} (h : ∀ x ∈ lower t, x.toNat < 0x80 ∧ x ≠ 'k') :
    ∀ c ∈ t, c.toNat < 0x80 := by
  intro c hc
  by_contra hhigh
  obtain ⟨a, b, rfl⟩ := List.append_of_mem hc
  have hbetween : ∀ x ∈ lowerBetween a.reverse c b, x.toNat < 0x80 ∧ x ≠ 'k' :=
    fun x hx => h x (mem_lower.mpr ⟨a, c, b, rfl, hx⟩)
  unfold lowerBetween at hbetween
  split at hbetween
  · exact absurd (hbetween (Char.ofNat 0x307) (by simp)).1 (by decide)
  · split at hbetween
    · have hsigma := (hbetween _ (List.mem_singleton_self _)).1
      split at hsigma <;> exact absurd hsigma (by decide)
    · obtain ⟨hlow, hkelvin⟩ := hbetween _ (List.mem_singleton_self _)
      rcases lowerChar_of_high (Nat.le_of_not_lt hhigh) with heq | hhigh
      · exact hkelvin heq
      · omega

/-- A letter in any case. -/
theorem mem_anyCaseLetters {letter x : Char} (hletter : letter ∈ smallLetters)
    (h : isLetterAnyCase letter x = true) : x ∈ anyCaseLetters := by
  have hascii : ∀ n < 0x80, lowerChar (Char.ofNat n) ∈ smallLetters →
      Char.ofNat n ∈ anyCaseLetters := by decide +kernel
  have hspecial : ∀ n ∈ [0x17F, 0x212A, 0x130, 0x131], Char.ofNat n ∈ anyCaseLetters := by decide
  have hx := Char.ofNat_toNat x
  simp only [isLetterAnyCase, Bool.or_eq_true, Bool.and_eq_true, beq_iff_eq, decide_eq_true_eq] at h
  rcases h with (((rfl | ⟨hlow, rfl⟩) | ⟨-, hs⟩) | ⟨-, hk⟩) | ⟨-, hi | hi⟩
  · exact List.mem_append_left _ (List.mem_append_left _ hletter)
  · rw [← hx] at hletter ⊢
    exact hascii _ hlow hletter
  · exact hx ▸ hs ▸ hspecial _ (by simp)
  · exact hx ▸ hk ▸ hspecial _ (by simp)
  · exact hx ▸ hi ▸ hspecial _ (by simp)
  · exact hx ▸ hi ▸ hspecial _ (by simp)

/-- **A word at the start of a text** is made of letters, and what follows it
does not matter. -/
theorem of_splitWordAnyCase? {word t written rest : Text} (hword : word ⊆ smallLetters)
    (h : splitWordAnyCase? word t = some (written, rest)) :
    t = written ++ rest ∧ written.length = word.length ∧ written ⊆ anyCaseLetters ∧
      ∀ other, splitWordAnyCase? word (written ++ other) = some (written, other) := by
  unfold splitWordAnyCase? at h
  dsimp only at h
  split at h
  · rename_i hmatch
    simp only [Option.some.injEq, Prod.mk.injEq] at h
    obtain ⟨hstart, rfl⟩ := h
    rw [hstart, Bool.and_eq_true, beq_iff_eq] at hmatch
    obtain ⟨hlength, hletters⟩ := hmatch
    refine ⟨by rw [← hstart, List.take_append_drop], hlength, ?_, ?_⟩
    · intro x hx
      obtain ⟨i, hi, rfl⟩ := List.getElem_of_mem hx
      have hpair : (word[i], written[i]) ∈ word.zip written := by
        rw [← List.getElem_zip (h := by rw [List.length_zip]; omega)]
        exact List.getElem_mem _
      exact mem_anyCaseLetters (hword (List.getElem_mem _)) (List.all_eq_true.mp hletters _ hpair)
    · intro other
      unfold splitWordAnyCase?
      rw [List.take_left' hlength, List.drop_left' hlength]
      simp [hlength, hletters]
  · cases h

/-- Letters are a word in lower case, too: none of them becomes a blank, and
none is lost. -/
theorem solid_lower {t : Text} (hne : t ≠ []) (h : t ⊆ anyCaseLetters) :
    lower t ≠ [] ∧ ∀ x ∈ lower t, isBlank x = false := by
  have hall : (anyCaseLetters.all fun c => !isBlank (lowerChar c)) = true := by decide +kernel
  have hsolid : ∀ before c after, c ∈ anyCaseLetters →
      ∀ x ∈ lowerBetween before c after, isBlank x = false := by
    intro before c after hc x hx
    unfold lowerBetween at hx
    split at hx
    · simp only [List.mem_cons, List.not_mem_nil, or_false] at hx
      rcases hx with rfl | rfl <;> decide
    · split at hx
      · rw [List.mem_singleton] at hx
        rw [hx]
        split <;> decide
      · rw [List.mem_singleton] at hx
        rw [hx]
        simpa using List.all_eq_true.mp hall c hc
  constructor
  · cases t with
    | nil => exact absurd rfl hne
    | cons c rest =>
        have hbetween : lowerBetween [] c rest ≠ [] := by
          unfold lowerBetween
          split
          · exact List.cons_ne_nil _ _
          · split <;> exact List.cons_ne_nil _ _
        obtain ⟨x, hx⟩ := List.exists_mem_of_ne_nil _ hbetween
        exact List.ne_nil_of_mem (mem_lower.mpr ⟨[], c, rest, rfl, hx⟩)
  · intro x hx
    obtain ⟨a, c, b, rfl, hbetween⟩ := mem_lower.mp hx
    exact hsolid _ c _ (h (by simp)) x hbetween

/-- A text that is a word in lower case is found at the start of a text, in
whatever case it is written. -/
theorem splitWordAnyCase?_of_lower {word t : Text} (hlower : lower t = word)
    (hword : ∀ x ∈ word, x.toNat < 0x80 ∧ x ≠ 'k') (rest : Text) :
    splitWordAnyCase? word (t ++ rest) = some (t, rest) := by
  have hascii := ascii_of_lower (hlower ▸ hword)
  have hmap : word = t.map lowerChar := by rw [← hlower, lower_of_ascii hascii]
  have hlength : t.length = word.length := by rw [hmap, List.length_map]
  have hletters : ∀ p ∈ word.zip t, isLetterAnyCase p.1 p.2 = true := by
    intro p hp
    have hsame : p.1 = lowerChar p.2 := by
      rw [hmap, List.zip_map_left] at hp
      obtain ⟨q, hq, rfl⟩ := List.mem_map.mp hp
      rw [List.zip_eq_zipWith, List.zipWith_self, List.mem_map] at hq
      obtain ⟨c, -, rfl⟩ := hq
      rfl
    have hlow := hascii p.2 (List.of_mem_zip hp).2
    simp [isLetterAnyCase, hsame, hlow]
  unfold splitWordAnyCase?
  rw [List.take_left' hlength, List.drop_left' hlength]
  simp [hlength, List.all_eq_true.mpr hletters]

end LineDiagram.Text
