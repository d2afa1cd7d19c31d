import LineDiagram.Binary64.Format
import LineDiagram.Proofs.Text

/-!
# The characters of number texts

However a number is written, the text is made of digits, a point, signs and a
few letters.  So it opens no comment and no bracket, and stays on one line.

* `NumberText` — texts of these characters;
* `numberText_ofInt`, `numberText_fixed`, `numberText_compactText`,
  `numberText_plainText` — the ways to write a number.
-/

namespace LineDiagram

/-- Whether a character may stand in a number text. -/
def isNumberChar (c : Char) : Bool := c.isDigit || ".-+einfa".toList.contains c

/-- A text with the characters of number texts only. -/
def NumberText (t : Text) : Prop := ∀ c ∈ t, isNumberChar c = true

instance (t : Text) : Decidable (NumberText t) :=
  decidable_of_iff (t.all isNumberChar = true) List.all_eq_true

theorem NumberText.not_mem {t : Text} (h : NumberText t) {c : Char} (hc : isNumberChar c = false) :
    c ∉ t := by
  intro hmem
  rw [h c hmem] at hc
  cases hc

theorem NumberText.of_subset {s t : Text} (h : NumberText t) (hs : s ⊆ t) : NumberText s :=
  fun c hc => h c (hs hc)

@[simp] theorem numberText_append {a b : Text} :
    NumberText (a ++ b) ↔ NumberText a ∧ NumberText b := List.forall_mem_append

/-- A run of one such character is a number text; this is how zeros are
padded. -/
theorem numberText_replicate {c : Char} (hc : isNumberChar c = true) (n : Nat) :
    NumberText (List.replicate n c) := by
  intro d hd
  rwa [List.eq_of_mem_replicate hd]

@[simp] theorem numberText_ofNat (n : Nat) : NumberText (Text.ofNat n) := by
  intro c hc
  have hdigit := Nat.isDigit_of_mem_toDigits (by decide) (by decide) hc
  unfold isNumberChar
  rw [hdigit, Bool.true_or]

@[simp] theorem numberText_ofInt (n : Int) : NumberText (Text.ofInt n) := by
  cases n with
  | ofNat m => exact numberText_ofNat m
  | negSucc m => exact List.forall_mem_cons.mpr ⟨by decide, numberText_ofNat (m + 1)⟩

theorem numberText_dropEndWhile {t : Text} (h : NumberText t) (p : Char → Bool) :
    NumberText (Text.dropEndWhile p t) :=
  h.of_subset fun _ hc => Text.mem_of_mem_dropEndWhile hc

namespace Binary64

/-- The sign of a number is a number text, the missing one too. -/
theorem numberText_signText (negative : Bool) : NumberText (signText negative) := by
  cases negative with
  | false => decide
  | true => decide

/-- So are digits with a point among them. -/
theorem numberText_withPoint (places n : Nat) : NumberText (withPoint places n) := by
  have hdigits :
      NumberText (List.replicate (places + 1 - (Text.ofNat n).length) '0' ++ Text.ofNat n) :=
    numberText_append.mpr ⟨numberText_replicate (by decide) _, numberText_ofNat n⟩
  unfold withPoint
  rw [numberText_append, numberText_append]
  exact ⟨⟨hdigits.of_subset (List.take_subset _ _), by decide⟩,
    hdigits.of_subset (List.drop_subset _ _)⟩

/-- A number with a given number of places is written as a number text, even if
it is not finite. -/
@[simp] theorem numberText_fixed (places : Nat) (x : Binary64) : NumberText (x.fixed places) := by
  cases x with
  | finite s m e => exact numberText_append.mpr ⟨numberText_signText s, numberText_withPoint _ _⟩
  | infinite s => exact numberText_append.mpr ⟨numberText_signText s, by decide⟩
  | nan => exact (by decide : NumberText "nan".toList)

/-- So is a number without needless zeros. -/
@[simp] theorem numberText_compactText (x : Binary64) : NumberText x.compactText := by
  unfold compactText
  dsimp only
  split
  · decide
  · exact numberText_dropEndWhile (numberText_dropEndWhile (numberText_fixed 4 x) _) _

/-- So are digits with the point where an exponent has it. -/
private theorem numberText_positional {digits : Text} (h : NumberText digits) (point : Int) :
    NumberText (positional digits point) := by
  have hzeros : ∀ n, NumberText (List.replicate n '0') := numberText_replicate (by decide)
  unfold positional
  dsimp only
  split
  · rw [numberText_append, numberText_append]
    exact ⟨⟨by decide, hzeros _⟩, h⟩
  · split
    · rw [numberText_append, numberText_append, numberText_append]
      refine ⟨⟨⟨h.of_subset (List.take_subset _ _), hzeros _⟩, by decide⟩, ?_⟩
      split
      · decide
      · exact h.of_subset (List.drop_subset _ _)
    · simp only [numberText_append]
      refine ⟨⟨⟨⟨⟨h.of_subset (List.take_subset _ _), ?_⟩, by decide⟩, ?_⟩, hzeros _⟩,
        numberText_ofNat _⟩
      · split
        · decide
        · exact numberText_append.mpr ⟨by decide, h.of_subset (List.drop_subset _ _)⟩
      · split <;> decide

/-- **A number as it is drawn** is a number text, in each of its forms. -/
@[simp] theorem numberText_plainText (x : Binary64) : NumberText x.plainText := by
  cases x with
  | finite s m e =>
      rw [plainText]
      split
      · exact numberText_append.mpr ⟨numberText_signText s, by decide⟩
      · have hdigits : NumberText (shortestDigits m e).1 :=
          numberText_dropEndWhile (numberText_ofNat _) _
        exact numberText_append.mpr ⟨numberText_signText s, numberText_positional hdigits _⟩
  | infinite s => exact numberText_append.mpr ⟨numberText_signText s, by decide⟩
  | nan => exact (by decide : NumberText "nan".toList)

end Binary64

end LineDiagram
