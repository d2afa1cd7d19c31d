import Mathlib.Data.List.Basic
import Mathlib.Tactic.Positivity
import Mathlib.Tactic.Ring
import LineDiagram.Binary64.Decimal
import LineDiagram.Proofs.Text

/-!
# Whole numbers

A whole number of at most 53 bits is a binary64 number.  It comes back from its
decimal digits, and up to `2 ^ 52` also when one half is added and the floor is
taken; beyond that the sum with one half is rounded to a neighbour.

* `ofRatio_dyadic` — a fraction with few bits is held as it is;
* `roundHalfUp_ofInt` — a whole number is its own nearest one;
* `leadingNumber?_ofInt` — the digits of a whole number are read as that number.
-/

namespace LineDiagram

namespace Binary64

/-! ## Fractions with few bits -/

theorem roundDiv_mul {x d : Nat} (hd : 0 < d) : roundDiv (x * d) d = x := by
  unfold roundDiv
  simp [Nat.mul_div_cancel _ hd, hd]

/-- A multiple of the unit is a whole number of units: nothing is left over that
would have to be rounded. -/
theorem inUnits_dyadic (m j k : Nat) {e : Int} (h : e + k ≤ j) :
    ∃ d, 0 < d ∧ inUnits (m * 2 ^ j) (2 ^ k) e = (m * 2 ^ (j - k - e).toNat * d, d) := by
  unfold inUnits
  by_cases he : 0 ≤ e
  · rw [if_pos he]
    refine ⟨2 ^ k * Nat.pow 2 e.toNat, Nat.mul_pos (Nat.two_pow_pos _) (Nat.two_pow_pos _), ?_⟩
    have hpow : (2 : Nat) ^ j = 2 ^ (j - k - e).toNat * (2 ^ k * 2 ^ e.toNat) := by
      rw [← Nat.pow_add, ← Nat.pow_add]
      congr 1
      omega
    rw [hpow, Nat.mul_assoc]
    rfl
  · rw [if_neg he]
    refine ⟨2 ^ k, Nat.two_pow_pos _, ?_⟩
    have hpow : (2 : Nat) ^ j * Nat.pow 2 (-e).toNat = 2 ^ (j - k - e).toNat * 2 ^ k := by
      show (2 : Nat) ^ j * 2 ^ (-e).toNat = _
      rw [← Nat.pow_add, ← Nat.pow_add]
      congr 1
      omega
    rw [Nat.mul_assoc, hpow, Nat.mul_assoc]

/-- Shifting by some bits adds these bits to the length of a number. -/
theorem log2_mul_pow {m : Nat} (hm : m ≠ 0) (j : Nat) : (m * 2 ^ j).log2 = m.log2 + j := by
  have hpos : m * 2 ^ j ≠ 0 := Nat.mul_ne_zero hm (Nat.two_pow_pos j).ne'
  rw [Nat.log2_eq_iff hpos]
  constructor
  · rw [Nat.pow_add]
    exact Nat.mul_le_mul_right _ (Nat.log2_self_le hm)
  · have hlt : m < 2 ^ (m.log2 + 1) := Nat.lt_log2_self
    have hmul : m * 2 ^ j < 2 ^ (m.log2 + 1) * 2 ^ j :=
      Nat.mul_lt_mul_of_pos_right hlt (Nat.two_pow_pos j)
    rw [← Nat.pow_add] at hmul
    have hexp : m.log2 + 1 + j = m.log2 + j + 1 := by omega
    rwa [hexp] at hmul

/-- A mantissa brought to 53 bits by shifting it, which changes its exponent and
not its value. -/
theorem normal_bounds {m : Nat} (hm : m ≠ 0) (hbits : m.log2 ≤ 52) :
    2 ^ 52 ≤ m * 2 ^ (52 - m.log2) ∧ m * 2 ^ (52 - m.log2) < 2 ^ 53 := by
  have hlow : 2 ^ m.log2 * 2 ^ (52 - m.log2) ≤ m * 2 ^ (52 - m.log2) :=
    Nat.mul_le_mul_right _ (Nat.log2_self_le hm)
  have hhigh : m * 2 ^ (52 - m.log2) < 2 ^ (m.log2 + 1) * 2 ^ (52 - m.log2) :=
    Nat.mul_lt_mul_of_pos_right Nat.lt_log2_self (Nat.two_pow_pos _)
  rw [← Nat.pow_add] at hlow hhigh
  have hfirst : m.log2 + (52 - m.log2) = 52 := by omega
  have hsecond : m.log2 + 1 + (52 - m.log2) = 53 := by omega
  rw [hfirst] at hlow
  rw [hsecond] at hhigh
  exact ⟨hlow, hhigh⟩

/-- The exponent at which a number of at most 53 bits has exactly 53, unless it
is too small for that. -/
theorem exponentOf_dyadic {m j k : Nat} (hm : m ≠ 0) (hbits : m.log2 ≤ 52)
    (hleast : minExponent ≤ (m.log2 : Int) + j - k - 53) :
    exponentOf (m * 2 ^ j) (2 ^ k) = (m.log2 : Int) + j - k - 52 := by
  have hmax : max (((m * 2 ^ j).log2 : Int) - ((2 ^ k).log2 : Int) - 53) minExponent =
      (m.log2 : Int) + j - k - 53 := by
    rw [log2_mul_pow hm, Nat.log2_two_pow]
    omega
  obtain ⟨d, hd, hunits⟩ := inUnits_dyadic m j k (e := (m.log2 : Int) + j - k - 53) (by omega)
  have hexp : ((j : Int) - k - ((m.log2 : Int) + j - k - 53)).toNat = 52 - m.log2 + 1 := by omega
  have hlimit : mantissaLimit ≤ m * 2 ^ (52 - m.log2 + 1) := by
    have hlow := (normal_bounds hm hbits).1
    rw [Nat.pow_succ, ← Nat.mul_assoc]
    show 2 ^ 53 ≤ _
    omega
  unfold exponentOf
  simp only [hmax, hunits, hexp, Nat.mul_div_cancel _ hd, if_pos hlimit]
  omega

/-- **A fraction with few bits is held as it is.**  The mantissa is shifted
until it has 53 bits, the exponent makes up for it, and nothing is rounded. -/
theorem ofRatio_dyadic (negative : Bool) {m j k : Nat} (hm : m ≠ 0) (hbits : m.log2 ≤ 52)
    (hleast : minExponent ≤ (m.log2 : Int) + j - k - 53)
    (hgreatest : (m.log2 : Int) + j - k - 52 ≤ maxExponent) :
    ofRatio negative (m * 2 ^ j) (2 ^ k) =
      .finite negative (m * 2 ^ (52 - m.log2)) ((m.log2 : Int) + j - k - 52) := by
  have hnum : (m * 2 ^ j == 0) = false := by
    rw [beq_eq_false_iff_ne]
    exact Nat.mul_ne_zero hm (Nat.two_pow_pos j).ne'
  obtain ⟨d, hd, hunits⟩ := inUnits_dyadic m j k (e := (m.log2 : Int) + j - k - 52) (by omega)
  have hexp : ((j : Int) - k - ((m.log2 : Int) + j - k - 52)).toNat = 52 - m.log2 := by omega
  have hlimit : (m * 2 ^ (52 - m.log2) == mantissaLimit) = false := by
    rw [beq_eq_false_iff_ne]
    exact (normal_bounds hm hbits).2.ne
  unfold ofRatio
  simp only [hnum, Bool.false_eq_true, if_false, exponentOf_dyadic hm hbits hleast, hunits, hexp,
    roundDiv_mul hd, hlimit]
  rw [if_neg (by omega)]

/-- A whole number of at most 53 bits, as sign, mantissa of 53 bits and
exponent. -/
theorem ofInt_eq {n : Int} (hn : n ≠ 0) (hbits : n.natAbs < 2 ^ 53) :
    ofInt n = .finite (decide (n < 0)) (n.natAbs * 2 ^ (52 - n.natAbs.log2))
      ((n.natAbs.log2 : Int) - 52) := by
  have habs : n.natAbs ≠ 0 := by omega
  have hlog : n.natAbs.log2 < 53 := (Nat.log2_lt habs).mpr hbits
  have hexact := ofRatio_dyadic (decide (n < 0)) (j := 0) (k := 0) habs (by omega)
    (by unfold minExponent; omega) (by unfold maxExponent; omega)
  unfold ofInt
  simpa using hexact

/-! ## The nearest whole number -/

theorem half_eq : half = .finite false (2 ^ 52) (-53) := by decide

/-- A magnitude with its sign. -/
private theorem signed_natAbs {n x : Int} (hsign : n < 0 ↔ x < 0) (c : Nat) :
    (if decide (n < 0) = true then -((x.natAbs * c : Nat) : Int)
      else ((x.natAbs * c : Nat) : Int)) =
      c * x := by
  rw [Nat.cast_mul]
  by_cases hneg : n < 0
  · have habs : (x.natAbs : Int) = -x := by omega
    rw [if_pos (decide_eq_true hneg), habs]
    ring
  · have habs : (x.natAbs : Int) = x := by omega
    rw [if_neg (by simpa using hneg), habs]
    ring

/-- A whole number in units of `2 ^ -53`. -/
theorem signedAt_ofInt {n : Int} (hbits : n.natAbs.log2 ≤ 52) :
    signedAt (decide (n < 0)) (n.natAbs * 2 ^ (52 - n.natAbs.log2))
    ((n.natAbs.log2 : Int) - 52) (-53) =
      n * 2 ^ 53 := by
  have hexp : ((n.natAbs.log2 : Int) - 52 - -53).toNat = n.natAbs.log2 + 1 := by omega
  have hpow : n.natAbs * 2 ^ (52 - n.natAbs.log2) * Nat.pow 2 (n.natAbs.log2 + 1) =
      n.natAbs * 2 ^ 53 := by
    rw [Nat.pow_eq, Nat.mul_assoc, ← Nat.pow_add]
    congr 2
    omega
  unfold signedAt
  rw [hexp, hpow]
  exact (signed_natAbs Iff.rfl _).trans (by omega)

/-- A whole number and a half, as a fraction that is then rounded.  This is the
sum that rounding to a whole number starts from. -/
theorem add_half_ofInt {n : Int} (hn : n ≠ 0) (hbits : n.natAbs < 2 ^ 53) :
    add (ofInt n) half = ofRatio (decide (n < 0)) ((2 * n + 1).natAbs * 2 ^ 52) (2 ^ 53) := by
  have habs : n.natAbs ≠ 0 := by omega
  have hlog : n.natAbs.log2 < 53 := (Nat.log2_lt habs).mpr hbits
  have hmin : min ((n.natAbs.log2 : Int) - 52) (-53) = -53 := by omega
  have hsum : n * 2 ^ 53 + 2 ^ 52 = (2 * n + 1) * 2 ^ 52 := by omega
  have hhalf : signedAt false (2 ^ 52) (-53) (-53) = 2 ^ 52 := by decide
  have hne : ((2 * n + 1) * 2 ^ 52 == 0) = false := by
    rw [beq_eq_false_iff_ne]
    omega
  have hsign : decide ((2 * n + 1) * 2 ^ 52 < 0) = decide (n < 0) := by
    rw [decide_eq_decide]
    omega
  have hnat : ((2 * n + 1) * 2 ^ 52).natAbs = (2 * n + 1).natAbs * 2 ^ 52 := by
    simp [Int.natAbs_mul]
  rw [ofInt_eq hn hbits, half_eq]
  simp only [add, hmin, signedAt_ofInt (by omega : n.natAbs.log2 ≤ 52), hhalf, hsum, ofScaled, hne,
    hsign, hnat, ofDyadic]
  have hden : Nat.pow 2 (-(-53 : Int)).toNat = 2 ^ 53 := by decide
  have hexp : ¬ (0 : Int) ≤ -53 := by decide
  simp only [Bool.false_eq_true, if_false, if_neg hexp, hden]

/-- **A whole number is its own nearest one**, as long as one half can be added
to it. -/
theorem roundHalfUp_ofInt {n : Int} (hn : n.natAbs ≤ 2 ^ 52) : roundHalfUp (ofInt n) = .ok n := by
  by_cases hzero : n = 0
  · subst hzero
    decide +kernel
  by_cases hlast : n = 2 ^ 52
  · -- here the sum with one half is a tie, which goes to the even neighbour
    subst hlast
    decide +kernel
  have hodd : (2 * n + 1).natAbs ≠ 0 := by omega
  have hbits : (2 * n + 1).natAbs < 2 ^ 53 := by omega
  have hlog : (2 * n + 1).natAbs.log2 < 53 := (Nat.log2_lt hodd).mpr hbits
  have hexact := ofRatio_dyadic (decide (n < 0)) (j := 52) (k := 53) hodd (by omega)
    (by unfold minExponent; omega) (by unfold maxExponent; omega)
  generalize hscale : (2 * n + 1).natAbs.log2 = scale at hexact hlog
  unfold roundHalfUp
  rw [add_half_ofInt hzero (by omega), hexact]
  have hsigned := signed_natAbs (n := n) (x := 2 * n + 1) (by omega) (2 ^ (52 - scale))
  have hden :
      ((Nat.pow 2 (-((scale : Int) + ((52 : Nat) : Int) - ((53 : Nat) : Int) - 52)).toNat : Nat) :
      Int) = ((2 ^ (52 - scale) : Nat) : Int) * 2 := by
    have hexp : (-((scale : Int) + ((52 : Nat) : Int) - ((53 : Nat) : Int) - 52)).toNat =
        52 - scale + 1 := by omega
    rw [hexp, Nat.pow_eq, Nat.pow_succ, Nat.cast_mul]
    rfl
  have hexp : ¬ 0 ≤ (scale : Int) + ((52 : Nat) : Int) - ((53 : Nat) : Int) - 52 := by omega
  simp only [floor, hsigned, if_neg hexp]
  rw [hden, Int.mul_fdiv_mul_of_pos _ _ (by positivity), Int.fdiv_eq_ediv_of_nonneg _ (by decide)]
  congr 1
  omega

end Binary64

/-! ## Decimal digits -/

namespace Text

/-- A digit of ASCII has the value that its code point says. -/
theorem digitValue?_of_isDigit {c : Char} (h : c.isDigit = true) :
    digitValue? c = some (c.toNat - '0'.toNat) := by
  have hrange := Char.isDigit_iff_toNat.mp h
  have hsmall : c.toNat < 0x80 := Nat.lt_of_le_of_lt hrange.2 (by decide)
  have hascii : isAsciiDigit c = true := by
    unfold isAsciiDigit
    rw [Bool.and_eq_true, decide_eq_true_eq, decide_eq_true_eq]
    exact hrange
  unfold digitValue?
  rw [if_pos hsmall, if_pos hascii]
  rfl

theorem isDigit_of_mem_ofNat {n : Nat} {c : Char} (h : c ∈ ofNat n) : isDigit c = true := by
  unfold isDigit
  rw [digitValue?_of_isDigit (Nat.isDigit_of_mem_toDigits (by decide) (by decide) h)]
  rfl

theorem not_mem_ofNat {n : Nat} {c : Char} (hc : isDigit c = false) : c ∉ ofNat n := by
  intro hmem
  rw [isDigit_of_mem_ofNat hmem] at hc
  cases hc

/-- In the text of a whole number there may be a minus besides. -/
theorem not_mem_ofInt {n : Int} {c : Char} (hc : isDigit c = false)
    (hsign : c ≠ '-') : c ∉ ofInt n := by
  cases n with
  | ofNat m => exact not_mem_ofNat hc
  | negSucc m =>
      intro hmem
      rcases List.mem_cons.mp hmem with heq | hin
      · exact hsign heq
      · exact not_mem_ofNat hc hin

theorem takeWhile_isDigit_ofNat (n : Nat) : (ofNat n).takeWhile isDigit = ofNat n := by
  rw [List.takeWhile_eq_self_iff]
  exact fun c hc => isDigit_of_mem_ofNat hc

theorem dropWhile_isDigit_ofNat (n : Nat) : (ofNat n).dropWhile isDigit = [] := by
  rw [List.dropWhile_eq_nil_iff]
  exact fun c hc => isDigit_of_mem_ofNat hc

/-- **Reading a natural number that was written** gives the number. -/
theorem digitsValue_ofNat (n : Nat) : digitsValue (ofNat n) = n := by
  calc digitsValue (ofNat n) = Nat.ofDigitChars 10 (Nat.toDigits 10 n) 0 := by
        rw [Nat.ofDigitChars_eq_foldl]
        apply List.foldl_ext
        intro value c hc
        rw [digitValue?_of_isDigit (Nat.isDigit_of_mem_toDigits (by decide) (by decide) hc)]
        rfl
    _ = n := Nat.ofDigitChars_toDigits (by decide) (by decide)

/-- A whole number is written with no blanks around it. -/
theorem tight_ofInt (n : Int) : Tight (ofInt n) := by
  have hdigit : ∀ m : Nat, ∀ c ∈ ofNat m, isBlank c = false :=
    fun m c hc => not_blank_of_mem_ofNat hc
  cases n with
  | ofNat m =>
      exact ⟨fun c hc => hdigit m c (List.mem_of_mem_head? hc),
        fun c hc => hdigit m c (List.mem_of_getLast? hc)⟩
  | negSucc m =>
      refine ⟨fun c hc => ?_, fun c hc => ?_⟩
      · cases hc
        decide
      · rcases List.mem_cons.mp (List.mem_of_getLast? hc) with rfl | hmem
        · decide
        · exact hdigit _ c hmem

end Text

/-- The number that the digits of a whole number stand for. -/
theorem Binary64.ofDecimal_ofInt {n : Int} (hn : n.natAbs < 2 ^ 53) :
    ofDecimal (decide (n < 0)) n.natAbs 0 = ofInt n := by
  have hplaces : (Text.ofNat n.natAbs).length ≤ 20 :=
    (Nat.length_toDigits_le_iff (by decide) (by decide)).mpr (by omega)
  unfold ofDecimal
  dsimp only
  by_cases hzero : n = 0
  · subst hzero
    decide
  · have hne : (n.natAbs == 0) = false := by
      rw [beq_eq_false_iff_ne]
      omega
    rw [hne, Bool.false_or, if_neg (by simp), if_neg (by omega), if_pos (by decide)]
    unfold ofInt
    simp

/-- A whole number of at most 53 bits is finite. -/
theorem Binary64.isFinite_ofInt {n : Int} (hn : n.natAbs < 2 ^ 53) : (ofInt n).isFinite = true := by
  by_cases hzero : n = 0
  · subst hzero
    decide
  · rw [ofInt_eq hzero hn]
    rfl

namespace Numeral

/-- The numeral that the digits of a natural number make up. -/
theorem ofText?_ofNat (n : Nat) : ofText? (Text.ofNat n) = some ⟨false, Text.ofNat n, [], 0⟩ := by
  have hsign : sign (Text.ofNat n) = (false, Text.ofNat n) := by
    unfold sign
    split
    · rename_i rest heq
      exact absurd (Text.isDigit_of_mem_ofNat (heq ▸ List.mem_cons_self)) (by decide)
    · rename_i rest heq
      exact absurd (Text.isDigit_of_mem_ofNat (heq ▸ List.mem_cons_self)) (by decide)
    · rfl
  have hne : (Text.ofNat n).isEmpty = false := by
    rw [List.isEmpty_eq_false_iff]
    exact Nat.toDigits_ne_nil
  unfold ofText?
  simp [hsign, Text.takeWhile_isDigit_ofNat, Text.dropWhile_isDigit_ofNat, hne, exponent?]

/-- The numeral that a whole number starts with is all of it, so nothing is left
to read. -/
theorem leading?_ofInt (n : Int) :
    leading? (Text.ofInt n) = some ⟨decide (n < 0), Text.ofNat n.natAbs, [], 0⟩ := by
  have hne : ∀ m, (Text.ofNat m).isEmpty = false := by
    intro m
    rw [List.isEmpty_eq_false_iff]
    exact Nat.toDigits_ne_nil
  cases n with
  | ofNat m =>
      have hsign : ∀ rest, Text.ofNat m ≠ '-' :: rest := by
        intro rest heq
        exact absurd (Text.isDigit_of_mem_ofNat (heq ▸ List.mem_cons_self)) (by decide)
      unfold leading? Text.ofInt
      simp [Text.takeWhile_isDigit_ofNat, Text.dropWhile_isDigit_ofNat, hne]
  | negSucc m =>
      unfold leading? Text.ofInt
      simp [Text.takeWhile_isDigit_ofNat, Text.dropWhile_isDigit_ofNat, hne]

/-- The value of the digits of a whole number. -/
theorem value_ofInt {n : Int} (hn : n.natAbs < 2 ^ 53) :
    value ⟨decide (n < 0), Text.ofNat n.natAbs, [], 0⟩ = .ofInt n := by
  unfold value
  rw [List.append_nil, Text.digitsValue_ofNat]
  exact Binary64.ofDecimal_ofInt hn

end Numeral

/-- **The digits of a whole number are read as that number**, as long as 53 bits
are enough for it. -/
theorem Text.leadingNumber?_ofInt {n : Int} (hn : n.natAbs < 2 ^ 53) :
    leadingNumber? (ofInt n) = some (.ofInt n) := by
  unfold leadingNumber?
  rw [trim_of_tight (tight_ofInt n), Numeral.leading?_ofInt]
  simp only [Numeral.value_ofInt hn, Binary64.isFinite_ofInt hn, if_true]

/-- A natural number of at most 53 bits is read exactly.  Beyond these bits the
nearest one is read. -/
theorem Text.number?_ofNat {n : Nat} (hn : n < 2 ^ 53) : number? (ofNat n) = some (.ofInt n) := by
  have hvalue := Numeral.value_ofInt (n := n) (by simpa using hn)
  have hfinite := Binary64.isFinite_ofInt (n := n) (by simpa using hn)
  have hsign : decide ((n : Int) < 0) = false := by simp
  rw [hsign, Int.natAbs_natCast] at hvalue
  have htight : Tight (ofNat n) := tight_ofInt n
  unfold number?
  rw [trim_of_tight htight, Numeral.ofText?_ofNat]
  simp only [hvalue, hfinite, if_true]

end LineDiagram
