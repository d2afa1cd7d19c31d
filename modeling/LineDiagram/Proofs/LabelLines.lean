import LineDiagram.Label
import LineDiagram.Proofs.Text
import Mathlib.Algebra.Order.Field.Power
import Mathlib.Algebra.Order.Field.Rat
import Mathlib.Data.List.Chain
import Mathlib.Tactic.NormNum

/-!
# The lines of a label

A label is wrapped line by line: each line takes up words as long as it stays
within the limit.  The loop that does so keeps a line that is not finished, and
what it has written so far is filled at every step.

* `le_iff`, `lt_iff` — numbers compare as their values do;
* `Filled.longer`, `Filled.next` — one more word, on the same line or on a new
  one;
* `fillLines_filled` — all the words of a label;
* `Filled.unique` — words can be filled in one way only;
* `wrap_filled` — a wrapped label is filled.
-/

namespace LineDiagram

/-! ## Values of numbers -/

namespace Binary64

/-- The value of a number that has one. -/
def toRat? : Binary64 → Option ℚ
  | .finite negative m e => some ((if negative then -(m : ℚ) else m) * 2 ^ e)
  | _ => none

/-- A mantissa in smaller units has the same value, so numbers with different
exponents can be brought to one. -/
theorem signedAt_mul (negative : Bool) (m : Nat) {e k : Int} (h : k ≤ e) :
    (signedAt negative m e k : ℚ) * 2 ^ k = (if negative then -(m : ℚ) else m) * 2 ^ e := by
  have hunits : (2 : ℚ) ^ (e - k).toNat * 2 ^ k = 2 ^ e := by
    rw [← zpow_natCast, ← zpow_add₀ (by norm_num)]
    congr 1
    omega
  unfold signedAt
  cases negative with
  | false => simp [mul_assoc, hunits]
  | true => simp [mul_assoc, hunits]

section Compare

variable {x y : Binary64} {a b : ℚ} (hx : x.toRat? = some a) (hy : y.toRat? = some b)

include hx hy

/-- Two numbers with values are compared in common units, as whole numbers. -/
theorem exists_compare? :
    ∃ (i j k : Int), compare? x y = some (compare i j) ∧ a = i * 2 ^ k ∧ b = j * 2 ^ k := by
  cases x with
  | finite s m e =>
      cases y with
      | finite s' m' e' =>
          refine ⟨signedAt s m e (min e e'), signedAt s' m' e' (min e e'), min e e', rfl, ?_, ?_⟩
          · rw [signedAt_mul s m (min_le_left e e')]
            exact (Option.some.inj hx).symm
          · rw [signedAt_mul s' m' (min_le_right e e')]
            exact (Option.some.inj hy).symm
      | infinite s' => cases hy
      | nan => cases hy
  | infinite s => cases hx
  | nan => cases hx

/-- Numbers with values are in order as their values are. -/
theorem lt_iff : x.lt y = true ↔ a < b := by
  obtain ⟨i, j, k, hcompare, rfl, rfl⟩ := exists_compare? hx hy
  have hunit : (0 : ℚ) < 2 ^ k := zpow_pos (by norm_num) k
  unfold lt
  rw [hcompare, mul_lt_mul_iff_of_pos_right hunit, Int.cast_lt]
  simp [compare_lt_iff_lt]

/-- They are in order, or equal, as their values are. -/
theorem le_iff : x.le y = true ↔ a ≤ b := by
  obtain ⟨i, j, k, hcompare, rfl, rfl⟩ := exists_compare? hx hy
  have hunit : (0 : ℚ) < 2 ^ k := zpow_pos (by norm_num) k
  unfold le
  rw [hcompare, mul_le_mul_iff_of_pos_right hunit, Int.cast_le]
  simp [compare_lt_iff_lt, le_iff_lt_or_eq]

end Compare

section Value

variable {x : Binary64} {a : ℚ} (hx : x.toRat? = some a)

include hx

theorem isFinite_of_toRat? : x.isFinite = true := by
  cases x with
  | finite => rfl
  | infinite => cases hx
  | nan => cases hx

theorem isPositive_iff : x.isPositive = true ↔ 0 < a := by
  have hzero : (ofInt 0).toRat? = some 0 := by simp [ofInt, ofRatio, toRat?]
  exact lt_iff hzero hx

end Value

end Binary64

namespace Label

/-- A length fits a limit with a value exactly if it is at most that value. -/
theorem fits_iff {limit : Binary64} {m : ℚ} (hlimit : limit.toRat? = some m) (length : Nat) :
    fits limit length = true ↔ (length : ℚ) ≤ m :=
  Binary64.le_iff (by simp [Binary64.toRat?]) hlimit

/-! ## Filled lines -/

/-- Words that are put on lines, as many on each line as fit. -/
structure Filled (limit : ℚ) (words : List Text) (lines : List (List Text)) : Prop where
  /-- The lines hold the words, in order. -/
  flatten : lines.flatten = words
  /-- Every line has a word. -/
  ne_nil : ∀ line ∈ lines, line ≠ []
  /-- A line is within the limit, unless it is one word. -/
  within : ∀ line ∈ lines, ((Text.join " " line).length : ℚ) ≤ limit ∨ ∃ word, line = [word]
  /-- The first word of a line does not fit on the line before it. -/
  full : lines.IsChain fun line next =>
    ∀ word ∈ next.head?, limit < ((Text.join " " line ++ ' ' :: word).length : ℚ)

section Filled

variable {limit : ℚ} {words line : List Text} {lines : List (List Text)} {word : Text}

theorem join_concat (hne : line ≠ []) :
    Text.join " " (line ++ [word]) = Text.join " " line ++ ' ' :: word := by
  rw [Text.join_space_append hne (by simp), Text.join_singleton]

/-- A word that fits stands on the last line, behind a blank. -/
theorem Filled.longer (h : Filled limit words (lines ++ [line]))
    (hfits : ((Text.join " " line ++ ' ' :: word).length : ℚ) ≤ limit) :
    Filled limit (words ++ [word]) (lines ++ [line ++ [word]]) := by
  have hne : line ≠ [] := h.ne_nil line (by simp)
  obtain ⟨hlines, -, hlast⟩ := List.isChain_append.mp h.full
  refine ⟨?_, ?_, ?_, ?_⟩
  · rw [← h.flatten]
    simp
  · intro other hother
    rcases List.mem_append.mp hother with hother | hother
    · exact h.ne_nil other (List.mem_append_left _ hother)
    · rw [List.mem_singleton.mp hother]
      simp
  · intro other hother
    rcases List.mem_append.mp hother with hother | hother
    · exact h.within other (List.mem_append_left _ hother)
    · rw [List.mem_singleton.mp hother, join_concat hne]
      exact .inl hfits
  · -- the line starts with the same word as before
    refine List.isChain_append.mpr ⟨hlines, List.isChain_singleton _, ?_⟩
    intro before hbefore other hother first hfirst
    refine hlast before hbefore line (by simp) first ?_
    rw [List.head?_cons, Option.mem_some_iff] at hother
    rwa [← hother, List.head?_append_of_ne_nil _ hne] at hfirst

/-- A word that does not fit starts a line, and the line before it is full. -/
theorem Filled.next (h : Filled limit words (lines ++ [line]))
    (hfull : limit < ((Text.join " " line ++ ' ' :: word).length : ℚ)) :
    Filled limit (words ++ [word]) (lines ++ [line] ++ [[word]]) := by
  refine ⟨?_, ?_, ?_, ?_⟩
  · rw [List.flatten_append, h.flatten]
    simp
  · intro other hother
    rcases List.mem_append.mp hother with hother | hother
    · exact h.ne_nil other hother
    · rw [List.mem_singleton.mp hother]
      simp
  · intro other hother
    rcases List.mem_append.mp hother with hother | hother
    · exact h.within other hother
    · exact .inr ⟨word, List.mem_singleton.mp hother⟩
  · refine List.isChain_append.mpr ⟨h.full, List.isChain_singleton _, ?_⟩
    intro before hbefore other hother first hfirst
    rw [List.getLast?_concat, Option.mem_some_iff] at hbefore
    rw [List.head?_cons, Option.mem_some_iff] at hother
    rw [← hother, List.head?_cons, Option.mem_some_iff] at hfirst
    rwa [← hbefore, ← hfirst]

/-- **All the words of a label.**  Lines that are filled are filled to the
end. -/
theorem fillLines_filled {number : Binary64}
    (hnumber : number.toRat? = some limit) (rest : List Text)
    (h : Filled limit words (lines ++ [line])) :
    ∃ all, Filled limit (words ++ rest) all ∧
      fillLines number (lines.map (Text.join " ")).reverse (Text.join " " line) rest =
        all.map (Text.join " ") := by
  -- the induction is on the words that are left; `lines` are finished, and `line` may still grow
  induction rest generalizing words lines line with
  | nil => exact ⟨lines ++ [line], by rwa [List.append_nil], by simp [fillLines]⟩
  | cons word rest ih =>
      have hlonger :
          Text.join " " line ++ [' '] ++ word = Text.join " " line ++ ' ' :: word := by simp
      have hwords : words ++ word :: rest = (words ++ [word]) ++ rest := by simp
      rw [fillLines, hlonger, hwords]
      split
      · rename_i hfits
        rw [← join_concat (h.ne_nil line (by simp))]
        exact ih (h.longer ((fits_iff hnumber _).mp hfits))
      · rename_i hfits
        rw [fits_iff hnumber, not_le] at hfits
        have hnext := ih (h.next hfits)
        rwa [List.map_append, List.reverse_append, Text.join_singleton] at hnext

/-! ## One way only -/

/-- Without its first line a filled text is still filled, with the words that
are left. -/
theorem Filled.tail (h : Filled limit words (line :: lines)) : Filled limit lines.flatten lines :=
  ⟨rfl, fun other hother => h.ne_nil other (List.mem_cons_of_mem _ hother),
    fun other hother => h.within other (List.mem_cons_of_mem _ hother), h.full.tail⟩

/-- A first line that is filled has no longer one beside it: the next word did
not fit. -/
theorem Filled.no_longer_first {more : List Text} {others : List (List Text)}
    (h : Filled limit words (line :: lines)) (hword : ∃ rest, lines.flatten = word :: rest)
    (hother : Filled limit words ((line ++ word :: more) :: others)) : False := by
  have hne : line ≠ [] := h.ne_nil line List.mem_cons_self
  have hfull : limit < ((Text.join " " line ++ ' ' :: word).length : ℚ) := by
    obtain ⟨rest, hrest⟩ := hword
    cases lines with
    | nil => cases hrest
    | cons second lines =>
        obtain ⟨first, others, rfl⟩ := List.exists_cons_of_ne_nil (h.ne_nil second (by simp))
        obtain rfl : first = word := (List.cons.inj hrest).1
        exact (List.isChain_cons_cons.mp h.full).1 first rfl
  rcases hother.within _ List.mem_cons_self with hwithin | ⟨single, hsingle⟩
  · have hjoin : Text.join " " (line ++ word :: more) =
        Text.join " " line ++ ' ' :: Text.join " " (word :: more) :=
          Text.join_space_append hne (by simp)
    have hlength : (Text.join " " line ++ ' ' :: word).length ≤
        (Text.join " " (line ++ word :: more)).length := by
      have hword : word.length ≤ (Text.join " " (word :: more)).length :=
        (Text.infix_join List.mem_cons_self).length_le
      rw [hjoin, List.length_append, List.length_append, List.length_cons, List.length_cons]
      omega
    exact absurd (hfull.trans_le (Nat.cast_le.mpr hlength)) (not_lt.mpr hwithin)
  · -- such a line has two words
    have hlength := congrArg List.length hsingle
    have hpos := List.length_pos_iff.mpr hne
    rw [List.length_append, List.length_cons, List.length_singleton] at hlength
    omega

/-- Two ways to fill words agree on the first line, since neither of the two
lines can be longer. -/
theorem Filled.first_eq {other : List Text} {others : List (List Text)}
    (h : Filled limit words (line :: lines)) (hother : Filled limit words (other :: others)) :
    other = line := by
  have hsame : line ++ lines.flatten = other ++ others.flatten := by
    rw [← List.flatten_cons, ← List.flatten_cons, h.flatten, hother.flatten]
  rcases List.append_eq_append_iff.mp hsame with ⟨more, rfl, hrest⟩ | ⟨more, rfl, hrest⟩
  · cases more with
    | nil => exact List.append_nil line
    | cons word more => exact (h.no_longer_first ⟨_, hrest⟩ hother).elim
  · cases more with
    | nil => exact (List.append_nil other).symm
    | cons word more => exact (hother.no_longer_first ⟨_, hrest⟩ h).elim

/-- Without words there are no lines. -/
theorem Filled.eq_nil (h : Filled limit [] lines) : lines = [] := by
  cases lines with
  | nil => rfl
  | cons line lines =>
      have hnil := h.flatten
      rw [List.flatten_cons, List.append_eq_nil_iff] at hnil
      exact absurd hnil.1 (h.ne_nil line List.mem_cons_self)

/-- **Words can be filled in one way only.**  So wrapping is determined by
saying that each line takes as many words as fit. -/
theorem Filled.unique {others : List (List Text)} (h : Filled limit words lines)
    (hother : Filled limit words others) : others = lines := by
  induction lines generalizing words others with
  | nil =>
      obtain rfl : words = [] := h.flatten.symm
      exact hother.eq_nil
  | cons line lines ih =>
      cases others with
      | nil =>
          obtain rfl : words = [] := hother.flatten.symm
          exact h.eq_nil.symm
      | cons other others =>
          obtain rfl : other = line := h.first_eq hother
          have hsame := hother.flatten.trans h.flatten.symm
          rw [List.flatten_cons, List.flatten_cons] at hsame
          have hrest := hother.tail
          rw [List.append_cancel_left hsame] at hrest
          rw [ih h.tail hrest]

end Filled

/-! ## Wrapped labels -/

/-- **A wrapped label is filled.**  It is written as lines of its words with
single blanks between them; a line that is longer than the limit is one word,
and a line ends only where the next word does not fit.  There is no other way to
do so. -/
theorem wrap_filled {label : Text} {number : Binary64} {limit : ℚ}
    (hnumber : number.toRat? = some limit)
    (hpositive : 0 < limit) (hwords : Text.words label ≠ []) :
    ∃ lines, Filled limit (Text.words label) lines ∧
      wrap label (some number) = Text.join "\\n" (lines.map (Text.join " ")) ∧
      ∀ others, Filled limit (Text.words label) others → others = lines := by
  obtain ⟨word, rest, hcons⟩ := List.exists_cons_of_ne_nil hwords
  have hcheck : (number.isFinite && number.isPositive) = true := by
    rw [Binary64.isFinite_of_toRat? hnumber,
      (Binary64.isPositive_iff hnumber).mpr hpositive, Bool.and_self]
  have hfirst : Filled limit [word] ([] ++ [[word]]) :=
    ⟨rfl, by simp, fun line hline => .inr ⟨word, List.mem_singleton.mp hline⟩,
      List.isChain_singleton _⟩
  obtain ⟨lines, hfilled, hfill⟩ := fillLines_filled hnumber rest hfirst
  rw [hcons]
  refine ⟨lines, hfilled, ?_, fun others hothers => hfilled.unique hothers⟩
  rw [Text.join_singleton] at hfill
  unfold wrap
  dsimp only
  rw [if_pos hcheck, hcons]
  exact congrArg (Text.join "\\n") hfill

/-- A word that is too long for any line stands on one of its own. -/
theorem wrap_filled_past_long_word :
    Binary64.toRat? (.finite false 11 (-1)) = some (11 / 2) ∧
      wrap "ab  cd efghij k\tl" (some (.finite false 11 (-1))) = "ab cd\\nefghij\\nk l" ∧
      ∃ lines, Filled (11 / 2) (Text.words "ab  cd efghij k\tl") lines ∧
        wrap "ab  cd efghij k\tl" (some (.finite false 11 (-1))) =
          Text.join "\\n" (lines.map (Text.join " ")) ∧
        ∀ others, Filled (11 / 2) (Text.words "ab  cd efghij k\tl") others → others = lines := by
  have hnumber : Binary64.toRat? (.finite false 11 (-1)) = some (11 / 2) := by
    norm_num [Binary64.toRat?]
  exact ⟨hnumber, by decide +kernel, wrap_filled hnumber (by norm_num) (by decide)⟩

end Label

end LineDiagram
