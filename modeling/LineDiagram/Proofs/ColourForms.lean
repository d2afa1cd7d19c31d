import Mathlib.Tactic.IntervalCases
import LineDiagram.Colour.Basic
import LineDiagram.Proofs.LetterCase
import LineDiagram.Proofs.WholeNumbers

/-!
# The forms of a colour

A hexadecimal colour has three or more digits of either case; in the form used
for drawing it has six lower-case ones.  In a diagram's source it is spelled as
`rgb(...)` with three bytes.  All of them are the same colour.

* `expandHex?_eq_some` — a hexadecimal colour and its bytes say the same;
* `ofRgbFunction?_rgbText` — bytes that are spelled as `rgb(...)` are read
  again;
* `normalize_cases` — the form used for drawing is six digits of the bytes, or
  the trimmed text;
* `normalize_sourceToken` — a colour that is written into a source is drawn as
  before;
* `resolve?_normalize` — a colour in the form used for drawing is the same
  colour;
* `forms_agree` — all forms of a text that may be a colour agree;
* `spelled_of_resolve?` — a colour is a function, or a word without blanks and
  brackets.
-/

namespace LineDiagram

namespace Colour

/-! ## Hexadecimal digits -/

/-- The hexadecimal digits in lower case. -/
def lowHexDigits : Text := "0123456789abcdef"

/-- The code points of the hexadecimal digits: those of the ten digits, and
those of six letters in lower and in upper case. -/
theorem toNat_of_isHexDigit {c : Char} (h : isHexDigit c = true) :
    (48 ≤ c.toNat ∧ c.toNat ≤ 57) ∨ (97 ≤ c.toNat ∧ c.toNat ≤ 102) ∨
      (65 ≤ c.toNat ∧ c.toNat ≤ 70) := by
  unfold isHexDigit Text.isAsciiDigit at h
  simp only [Bool.or_eq_true, Bool.and_eq_true, decide_eq_true_eq] at h
  rcases h with (h | h) | h
  · exact Or.inl h
  · exact Or.inr (Or.inl h)
  · exact Or.inr (Or.inr h)

/-- A hexadecimal digit in lower case is one of the sixteen. -/
theorem lowerChar_of_isHexDigit {c : Char} (h : isHexDigit c = true) :
    Text.lowerChar c ∈ lowHexDigits := by
  have hrange := toNat_of_isHexDigit h
  rw [← Char.ofNat_toNat c]
  generalize c.toNat = n at hrange
  rcases hrange with ⟨hlow, hhigh⟩ | ⟨hlow, hhigh⟩ | ⟨hlow, hhigh⟩ <;> interval_cases n <;> decide

/-- So are all characters of a hexadecimal text in lower case. -/
theorem lower_hex {digits : Text} (h : digits.all isHexDigit = true) :
    ∀ c ∈ Text.lower digits, c ∈ lowHexDigits := by
  have hdigits := List.all_eq_true.mp h
  have hascii : ∀ c ∈ digits, c.toNat < 0x80 := by
    intro c hc
    have := toNat_of_isHexDigit (hdigits c hc)
    omega
  intro c hc
  rw [Text.lower_of_ascii hascii] at hc
  obtain ⟨d, hd, rfl⟩ := List.mem_map.mp hc
  exact lowerChar_of_isHexDigit (hdigits d hd)

/-- The digits that a hexadecimal colour stands for are six, and each of them is
one of those that are written. -/
theorem sixDigits?_eq_some {digits six : Text} (h : sixDigits? digits = some six) :
    six.length = 6 ∧ six ⊆ digits := by
  unfold sixDigits? at h
  split at h
  · rename_i hlength
    cases h
    simp only [Bool.or_eq_true, beq_iff_eq] at hlength
    refine ⟨?_, ?_⟩
    · simp only [List.length_flatMap, List.length_cons, List.length_nil, List.map_const',
        List.sum_replicate, List.length_take, Nat.nsmul_eq_mul]
      omega
    · intro c hc
      obtain ⟨d, hd, hmem⟩ := List.mem_flatMap.mp hc
      simp only [List.mem_cons, List.not_mem_nil, or_false, or_self] at hmem
      exact List.mem_of_mem_take (hmem ▸ hd)
  · split at h
    · rename_i hlength
      cases h
      exact ⟨by simpa using hlength, fun _ hc => hc⟩
    · split at h
      · rename_i hlength
        cases h
        simp only [beq_iff_eq] at hlength
        exact ⟨by rw [List.length_take]; omega, List.take_subset _ _⟩
      · cases h

/-- Two digits are the digits of the byte that they spell, so no zero in front
is lost. -/
private theorem hexDigits_pair {a b : Char} (ha : a ∈ lowHexDigits) (hb : b ∈ lowHexDigits) :
    Text.hexDigits 2 (16 * hexDigitValue a + hexDigitValue b) = [a, b] := by
  have hall : (lowHexDigits.all fun a => lowHexDigits.all fun b =>
      Text.hexDigits 2 (16 * hexDigitValue a + hexDigitValue b) == [a, b]) = true := by decide
  simpa using List.all_eq_true.mp (List.all_eq_true.mp hall a ha) b hb

/-- The value of a hexadecimal digit is below sixteen, so two digits make a
byte. -/
private theorem hexDigitValue_lt {a : Char} (ha : a ∈ lowHexDigits) : hexDigitValue a < 16 := by
  have hall : (lowHexDigits.all fun a => hexDigitValue a < 16) = true := by decide
  simpa using List.all_eq_true.mp hall a ha

/-- A colour with three bytes. -/
def Bytes (c : Rgb) : Prop := c.red ≤ 255 ∧ c.green ≤ 255 ∧ c.blue ≤ 255

/-- **A hexadecimal colour and its bytes say the same.**  Where the text stands
for six digits, they are the digits of the three bytes that are read from it. -/
theorem expandHex?_eq_some {t six : Text} (h : expandHex? t = some six) :
    ∃ c, ofHex? t = some c ∧ hexText c = six ∧ Bytes c := by
  have hexpand := h
  unfold expandHex? at h
  dsimp only at h
  split at h
  · rename_i hdigits
    rw [Bool.and_eq_true] at hdigits
    obtain ⟨found, hfound, rfl⟩ := Option.map_eq_some_iff.mp h
    obtain ⟨hlength, hsubset⟩ := sixDigits?_eq_some hfound
    have hlow : ∀ x ∈ found, x ∈ lowHexDigits := fun x hx => lower_hex hdigits.2 x (hsubset hx)
    match found, hlength with
    | [a, b, c, d, e, f], _ =>
        simp only [List.mem_cons, List.not_mem_nil, or_false, forall_eq_or_imp, forall_eq] at hlow
        obtain ⟨ha, hb, hc, hd, he, hf⟩ := hlow
        refine ⟨⟨16 * hexDigitValue a + hexDigitValue b, 16 * hexDigitValue c + hexDigitValue d,
          16 * hexDigitValue e + hexDigitValue f⟩, ?_, ?_, ?_⟩
        · unfold ofHex?
          rw [hexpand]
          rfl
        · unfold hexText
          simp only [hexDigits_pair ha hb, hexDigits_pair hc hd, hexDigits_pair he hf]
          rfl
        · have hbyte : ∀ {x y : Char}, x ∈ lowHexDigits → y ∈ lowHexDigits →
              16 * hexDigitValue x + hexDigitValue y ≤ 255 := by
            intro x y hx hy
            have hhigh := hexDigitValue_lt hx
            have hlow := hexDigitValue_lt hy
            omega
          exact ⟨hbyte ha hb, hbyte hc hd, hbyte he hf⟩
  · cases h

theorem ofHex?_of_none {t : Text} (h : expandHex? t = none) : ofHex? t = none := by
  unfold ofHex?
  rw [h]

/-! ## Functions -/

/-- What stands before a closing bracket at the end, where no other bracket
closes and something stands before it. -/
private theorem inside_eq_some_iff {body inner : Text} :
    (if !(body.takeWhile (· != ')')).isEmpty &&
        body.drop (body.takeWhile (· != ')')).length == [')'] then some (body.takeWhile (· != ')'))
      else none) = some inner ↔ body = inner ++ [')'] ∧ inner ≠ [] ∧ ')' ∉ inner := by
  rw [Text.drop_length_takeWhile, Option.ite_none_right_eq_some, Bool.and_eq_true, beq_iff_eq]
  constructor
  · rintro ⟨⟨hne, hclosed⟩, hinner⟩
    cases hinner
    refine ⟨?_, by simpa using hne, fun hmem => by simpa using List.mem_takeWhile_imp hmem⟩
    rw [← hclosed, List.takeWhile_append_dropWhile]
  · rintro ⟨rfl, hne, hclose⟩
    have hpos : ∀ x ∈ inner, (x != ')') = true :=
      fun x hx => bne_iff_ne.mpr (by rintro rfl; exact hclose hx)
    have htake : (inner ++ [')']).takeWhile (· != ')') = inner := by
      rw [List.takeWhile_append_of_pos hpos]
      simp
    have hdrop : (inner ++ [')']).dropWhile (· != ')') = [')'] := by
      rw [List.dropWhile_append_of_pos hpos]
      simp
    rw [htake, hdrop]
    simp [hne]

/-- **The text between the brackets of a function** that closes at the end.  The
name may be in any case and have an `a` behind it, and no other bracket may
close inside. -/
theorem argument?_eq_some_iff {name raw inner : Text} :
    argument? name raw = some inner ↔
      ∃ word mark, Text.splitWordAnyCase? name raw = some (word, mark ++ '(' :: (inner ++ [')'])) ∧
        (mark = [] ∨ mark = ['a'] ∨ mark = ['A']) ∧ inner ≠ [] ∧ ')' ∉ inner := by
  unfold argument?
  cases Text.splitWordAnyCase? name raw with
  | none => simp
  | some found =>
      obtain ⟨word, rest⟩ := found
      simp only [Option.some.injEq, Prod.mk.injEq]
      constructor
      · intro h
        split at h
        · rename_i body hbody
          obtain ⟨rfl, hne, hclose⟩ := inside_eq_some_iff.mp h
          split at hbody
          · rename_i c more
            split at hbody
            · rename_i hmark
              subst hbody
              refine ⟨word, [c], ⟨rfl, rfl⟩, Or.inr ?_, hne, hclose⟩
              simpa using hmark
            · exact ⟨word, [], ⟨rfl, hbody⟩, Or.inl rfl, hne, hclose⟩
          · cases hbody
        · cases h
      · rintro ⟨-, mark, ⟨-, rfl⟩, hmark, hinner⟩
        have hfound := inside_eq_some_iff.mpr ⟨rfl, hinner⟩
        rcases hmark with rfl | rfl | rfl <;> exact hfound

/-! ## Bytes -/

theorem clampByte_ofNat {n : Nat} (h : n ≤ 255) : clampByte (.ofInt n) = n := by
  unfold clampByte
  rw [Binary64.roundHalfUp_ofInt (by simp only [Int.natAbs_natCast]; omega)]
  dsimp only
  omega

/-- A byte in decimal digits is read as a channel with this value. -/
theorem channel?_ofNat {n : Nat} (h : n ≤ 255) : channel? (Text.ofNat n) = some (.ofInt n) := by
  have htight : Text.Tight (Text.ofNat n) := Text.tight_ofInt n
  unfold channel?
  rw [Text.trim_of_tight htight]
  split
  · -- a digit stands at the end, no percent sign
    rename_i before hreverse
    have hmem : '%' ∈ Text.ofNat n := by
      rw [← List.mem_reverse, hreverse]
      exact List.mem_cons_self
    exact absurd (Text.isDigit_of_mem_ofNat hmem) (by decide)
  · exact Text.number?_ofNat (by omega)

/-- The bytes between the brackets. -/
theorem argument?_rgbText (c : Rgb) : argument? "rgb" (rgbText c) =
    some (Text.ofNat c.red ++ ',' :: (Text.ofNat c.green ++ ',' :: Text.ofNat c.blue)) := by
  have htext : rgbText c = 'r' :: 'g' :: 'b' :: '(' ::
      (Text.ofNat c.red ++ ',' :: (Text.ofNat c.green ++ ',' :: Text.ofNat c.blue) ++ [')']) := by
    unfold rgbText
    simp
  have hdigit : ∀ n, ')' ∉ Text.ofNat n := fun n => Text.not_mem_ofNat (by decide)
  rw [htext, argument?_eq_some_iff]
  exact ⟨['r', 'g', 'b'], [], rfl, Or.inl rfl, by simp, by simp [hdigit]⟩

/-- **Bytes that are spelled as `rgb(...)` are read again.**  A byte is a whole
number that is held exactly, and it is nearest to itself. -/
theorem ofRgbFunction?_rgbText {c : Rgb} (h : Bytes c) : ofRgbFunction? (rgbText c) = some c := by
  have hcut :
      (Text.ofNat c.red ++ ',' :: (Text.ofNat c.green ++ ',' :: Text.ofNat c.blue)).splitOn ',' =
      [Text.ofNat c.red, Text.ofNat c.green, Text.ofNat c.blue] := by
    have hbytes :
        ∀ part ∈ [Text.ofNat c.red, Text.ofNat c.green, Text.ofNat c.blue], ',' ∉ part := by
      intro part hpart
      simp only [List.mem_cons, List.not_mem_nil, or_false] at hpart
      rcases hpart with rfl | rfl | rfl <;> exact Text.not_mem_ofNat (by decide)
    have hjoin := List.splitOn_intercalate ',' hbytes (by simp)
    rw [← hjoin]
    congr 1
    simp [List.intercalate]
  have hparts :
      threeParts? (Text.ofNat c.red ++ ',' :: (Text.ofNat c.green ++ ',' :: Text.ofNat c.blue)) =
      some (Text.ofNat c.red, Text.ofNat c.green, Text.ofNat c.blue) := by
    unfold threeParts?
    rw [hcut]
  simp only [ofRgbFunction?, argument?_rgbText, hparts, channel?_ofNat h.1, channel?_ofNat h.2.1,
    channel?_ofNat h.2.2, clampByte_ofNat h.1, clampByte_ofNat h.2.1, clampByte_ofNat h.2.2,
    Option.bind_eq_bind, Option.bind_some]

/-- A colour as `rgb(...)` has no blanks around it. -/
theorem tight_rgbText (c : Rgb) : Text.Tight (rgbText c) := by
  refine ⟨?_, ?_⟩
  · intro x hx
    cases hx
    decide
  · intro x hx
    have hlast : (rgbText c).getLast? = some ')' := by
      unfold rgbText
      exact List.getLast?_concat
    rw [hlast] at hx
    cases hx
    decide

/-- A colour that is written as `rgb(...)` and one that is written in six digits
are drawn alike. -/
theorem normalize_rgbText {c : Rgb} (h : Bytes c) : normalize (rgbText c) = hexText c := by
  have hhead : ∀ rest, rgbText c ≠ '#' :: rest := by
    intro rest heq
    have hfirst := congrArg List.head? heq
    exact absurd hfirst (by unfold rgbText; simp)
  unfold normalize
  rw [Text.trim_of_tight (tight_rgbText c)]
  dsimp only
  rw [ofRgbFunction?_rgbText h]
  split
  · rename_i rest heq
    exact absurd heq (hhead rest)
  · rfl

/-- A colour is written into a source as its bytes, if it is hexadecimal, or as
it is. -/
theorem sourceToken_cases (t : Text) :
    (∃ c, Bytes c ∧ sourceToken t = rgbText c ∧ normalize t = hexText c) ∨
      sourceToken t = Text.trim t := by
  unfold sourceToken normalize
  dsimp only
  split
  · cases hhex : expandHex? (Text.trim t) with
    | none => exact Or.inr (by rw [ofHex?_of_none hhex])
    | some six =>
        obtain ⟨c, hc, htext, hbytes⟩ := expandHex?_eq_some hhex
        exact Or.inl ⟨c, hbytes, by rw [hc], by rw [Option.getD_some, htext]⟩
  · exact Or.inr rfl

/-- A colour as it is written into a document starts and ends with no blank. -/
theorem tight_sourceToken (v : Text) : Text.Tight (sourceToken v) := by
  rcases sourceToken_cases v with ⟨c, -, htoken, -⟩ | htoken
  · rw [htoken]
    exact tight_rgbText c
  · rw [htoken]
    exact Text.tight_trim v

@[simp] theorem normalize_trim (t : Text) : normalize (Text.trim t) = normalize t := by
  unfold normalize
  rw [Text.trim_trim]

/-- **A colour that is written into a source is drawn as before.**  Only a
hexadecimal colour is spelled in another way, and both spellings stand for the
same bytes. -/
theorem normalize_sourceToken (t : Text) : normalize (sourceToken t) = normalize t := by
  rcases sourceToken_cases t with ⟨c, hbytes, htoken, hcolour⟩ | htoken
  · rw [htoken, hcolour, normalize_rgbText hbytes]
  · rw [htoken, normalize_trim]

/-- The two digits of a byte, and the byte that they spell. -/
private theorem hexDigits_byte {n : Nat} (h : n ≤ 255) :
    ∃ a b, Text.hexDigits 2 n = [a, b] ∧ a ∈ lowHexDigits ∧ b ∈ lowHexDigits ∧
      16 * hexDigitValue a + hexDigitValue b = n := by
  have hall : ∀ m < 256, (Text.hexDigits 2 m).length = 2 ∧
      (Text.hexDigits 2 m).all lowHexDigits.contains = true ∧
      (Text.hexDigits 2 m).foldl (fun value c => 16 * value + hexDigitValue c) 0 = m := by
    decide +kernel
  obtain ⟨hlength, hdigits, hvalue⟩ := hall n (by omega)
  have hlow : ∀ c ∈ Text.hexDigits 2 n, c ∈ lowHexDigits :=
    fun c hc => List.contains_iff_mem.mp (List.all_eq_true.mp hdigits c hc)
  obtain ⟨a, b, hab⟩ := List.length_eq_two.mp hlength
  rw [hab] at hlow hvalue ⊢
  refine ⟨a, b, rfl, hlow a (by simp), hlow b (by simp), ?_⟩
  simpa using hvalue

/-- Digits in lower case are hexadecimal digits, and lower-casing leaves them as
they are. -/
private theorem lower_lowHexDigits {digits : Text} (h : ∀ c ∈ digits, c ∈ lowHexDigits) :
    digits.all isHexDigit = true ∧ Text.lower digits = digits := by
  have hall : (lowHexDigits.all fun c =>
      isHexDigit c && (Text.lowerChar c == c) && decide (c.toNat < 0x80)) = true := by decide
  have hdigit : ∀ c ∈ digits, isHexDigit c = true ∧ Text.lowerChar c = c ∧ c.toNat < 0x80 := by
    intro c hc
    have hfacts := List.all_eq_true.mp hall c (h c hc)
    simpa [and_assoc] using hfacts
  constructor
  · exact List.all_eq_true.mpr fun c hc => (hdigit c hc).1
  · rw [Text.lower_of_ascii fun c hc => (hdigit c hc).2.2]
    rw [List.map_congr_left fun c hc => (hdigit c hc).2.1, List.map_id']

/-- The digits of a colour. -/
private theorem exists_digits {c : Rgb} (h : Bytes c) :
    ∃ a b d e f g, hexText c = ['#', a, b, d, e, f, g] ∧
      (∀ x ∈ [a, b, d, e, f, g], x ∈ lowHexDigits) ∧
      (⟨16 * hexDigitValue a + hexDigitValue b, 16 * hexDigitValue d + hexDigitValue e,
        16 * hexDigitValue f + hexDigitValue g⟩ : Rgb) = c := by
  obtain ⟨a, b, hred, ha, hb, hr⟩ := hexDigits_byte h.1
  obtain ⟨d, e, hgreen, hd, he, hg⟩ := hexDigits_byte h.2.1
  obtain ⟨f, g, hblue, hf, hg', hb'⟩ := hexDigits_byte h.2.2
  refine ⟨a, b, d, e, f, g, ?_, ?_, ?_⟩
  · unfold hexText
    rw [hred, hgreen, hblue]
    rfl
  · simp only [List.mem_cons, List.not_mem_nil, or_false, forall_eq_or_imp, forall_eq]
    exact ⟨ha, hb, hd, he, hf, hg'⟩
  · rw [hr, hg, hb']

/-- After a number sign a colour is read as hexadecimal digits. -/
theorem resolve?_of_sign {t rest : Text} (h : Text.trim t = '#' :: rest) :
    resolve? t = ofHex? (Text.trim t) := by
  have hletter : Text.isLetterAnyCase 'r' '#' = false := by decide
  have hargument : argument? "rgb" ('#' :: rest) = none := by
    have hword : Text.splitWordAnyCase? "rgb" ('#' :: rest) = none :=
      if_neg (by simp [hletter])
    unfold argument?
    rw [hword]
  have hfunction : ofRgbFunction? ('#' :: rest) = none := by
    unfold ofRgbFunction?
    rw [hargument]
    rfl
  unfold resolve?
  rw [h]
  dsimp only
  simp only [hfunction]

/-- The six-digit form of a colour starts and ends with no blank. -/
theorem tight_hexText {c : Rgb} (h : Bytes c) : Text.Tight (hexText c) := by
  obtain ⟨a, b, d, e, f, g, htext, hlow, -⟩ := exists_digits h
  have hsolid : (('#' :: lowHexDigits).all fun x => !Text.isBlank x) = true := by decide
  rw [htext]
  apply Text.tight_of_solid
  intro x hx
  have hx : x ∈ '#' :: lowHexDigits := by
    rcases List.mem_cons.mp hx with rfl | hx
    · exact List.mem_cons_self
    · exact List.mem_cons_of_mem _ (hlow x hx)
  simpa using List.all_eq_true.mp hsolid x hx

/-- Six digits stand for themselves. -/
theorem expandHex?_hexText {c : Rgb} (h : Bytes c) : expandHex? (hexText c) = some (hexText c) := by
  have htight := tight_hexText h
  obtain ⟨a, b, d, e, f, g, htext, hlow, -⟩ := exists_digits h
  obtain ⟨hall, hlower⟩ := lower_lowHexDigits hlow
  have hsign : '#' ∉ lowHexDigits := by decide
  have ha : a ≠ '#' := fun heq => hsign (heq ▸ hlow a (by simp))
  rw [htext] at htight ⊢
  unfold expandHex?
  rw [Text.trim_of_tight htight, List.dropWhile_cons_of_pos (by decide),
    List.dropWhile_cons_of_neg (by simpa using ha)]
  simp [hall, hlower, sixDigits?]

/-- **Bytes that are written as hexadecimal digits are read again.**  Each byte
is two digits, and the value of these is the byte. -/
theorem resolve?_hexText {c : Rgb} (h : Bytes c) : resolve? (hexText c) = some c := by
  have hexpand := expandHex?_hexText h
  have htrim := Text.trim_of_tight (tight_hexText h)
  obtain ⟨a, b, d, e, f, g, htext, -, hbytes⟩ := exists_digits h
  rw [htext] at hexpand htrim ⊢
  rw [resolve?_of_sign htrim, htrim]
  unfold ofHex?
  rw [hexpand]
  exact congrArg some hbytes

/-- The six-digit form of a colour is already the form that is used for
drawing. -/
theorem normalize_hexText {c : Rgb} (h : Bytes c) : normalize (hexText c) = hexText c := by
  obtain ⟨rest, hrest⟩ : ∃ rest, hexText c = '#' :: rest := ⟨_, rfl⟩
  have hexpand := expandHex?_hexText h
  unfold normalize
  rw [Text.trim_of_tight (tight_hexText h)]
  rw [hrest] at hexpand ⊢
  dsimp only
  rw [hexpand, Option.getD_some]
  rfl

theorem clampByte_le (x : Binary64) : clampByte x ≤ 255 := by
  unfold clampByte
  split <;> omega

/-- A colour function gives bytes. -/
theorem bytes_ofRgbFunction? {t : Text} {c : Rgb} (h : ofRgbFunction? t = some c) : Bytes c := by
  simp only [ofRgbFunction?, Option.bind_eq_bind, Option.bind_eq_some_iff] at h
  obtain ⟨inner, -, parts, -, r, -, g, -, b, -, hc⟩ := h
  cases hc
  exact ⟨clampByte_le r, clampByte_le g, clampByte_le b⟩

/-- **The form used for drawing**: six digits of the bytes for a hexadecimal
colour or an `rgb(...)` function, the trimmed text for everything else. -/
theorem normalize_cases (t : Text) :
    (∃ c, Bytes c ∧ normalize t = hexText c ∧ resolve? t = some c) ∨ normalize t = Text.trim t := by
  unfold normalize
  dsimp only
  split
  · rename_i rest hsign
    cases hhex : expandHex? (Text.trim t) with
    | none => exact Or.inr rfl
    | some six =>
        obtain ⟨c, hc, rfl, hbytes⟩ := expandHex?_eq_some hhex
        exact Or.inl ⟨c, hbytes, rfl, by rw [resolve?_of_sign hsign, hc]⟩
  · cases hrgb : ofRgbFunction? (Text.trim t) with
    | none => exact Or.inr rfl
    | some c =>
        refine Or.inl ⟨c, bytes_ofRgbFunction? hrgb, rfl, ?_⟩
        unfold resolve?
        dsimp only
        rw [hrgb]

/-- **Putting a colour into the form for drawing twice** is the same as doing it
once. -/
theorem normalize_normalize (t : Text) : normalize (normalize t) = normalize t := by
  rcases normalize_cases t with ⟨c, hbytes, hform, -⟩ | hform
  · rw [hform, normalize_hexText hbytes]
  · rw [hform, normalize_trim, hform]

/-- **A colour in the form used for drawing is the same colour.**  Hexadecimal
colours and `rgb(...)` functions become six digits of the same bytes, and every
other text is only trimmed. -/
theorem resolve?_normalize (t : Text) : resolve? (normalize t) = resolve? t := by
  rcases normalize_cases t with ⟨c, hbytes, hform, hcolour⟩ | hform
  · rw [hform, resolve?_hexText hbytes, hcolour]
  · rw [hform]
    unfold resolve?
    rw [Text.trim_trim]

/-- A colour that is written with something is drawn with something. -/
theorem normalize_ne_nil {t : Text} (h : Text.trim t ≠ []) : normalize t ≠ [] := by
  rcases normalize_cases t with ⟨c, -, hform, -⟩ | hform
  · rw [hform]
    exact List.cons_ne_nil _ _
  · rwa [hform]

/-- A function is letters and one pair of brackets, and any other text between
the brackets would be found there as well. -/
theorem function_of_argument? {name raw inner : Text} (hname : name ⊆ Text.smallLetters)
    (h : argument? name raw = some inner) :
    ∃ head, raw = head ++ '(' :: (inner ++ [')']) ∧ head ⊆ Text.anyCaseLetters ∧ ')' ∉ inner ∧
      ∀ other : Text, other ≠ [] → ')' ∉ other →
        argument? name (head ++ '(' :: (other ++ [')'])) = some other := by
  obtain ⟨word, mark, hsplit, hmark, -, hclose⟩ := argument?_eq_some_iff.mp h
  obtain ⟨rfl, -, hword, hagain⟩ := Text.of_splitWordAnyCase? hname hsplit
  refine ⟨word ++ mark, by simp, ?_, hclose, fun other hne hother => ?_⟩
  · rw [List.append_subset]
    refine ⟨hword, ?_⟩
    rcases hmark with rfl | rfl | rfl <;> decide
  · rw [argument?_eq_some_iff, List.append_assoc]
    exact ⟨word, mark, hagain _, hmark, hne, hother⟩

/-! ## How a colour is spelled -/

/-- A text that is spelled as a function. -/
def IsFunction (t : Text) : Prop :=
  ∃ head inner, t = head ++ '(' :: (inner ++ [')']) ∧ head ⊆ Text.anyCaseLetters ∧ ')' ∉ inner

/-- A character of a colour that is no function. -/
def isWordChar (c : Char) : Bool := !Text.isBlank c && c != '(' && c != '\\'

/-- A character of a colour that is no function is no blank, so such a colour is
one word. -/
theorem not_blank_of_isWordChar {c : Char} (h : isWordChar c = true) : Text.isBlank c = false := by
  simp only [isWordChar, Bool.and_eq_true, Bool.not_eq_true'] at h
  exact h.1.1

/-- Digits and letters of ASCII, by their code points, may stand in a colour
that is no function. -/
private theorem isWordChar_of_ascii {c : Char}
    (h : (48 ≤ c.toNat ∧ c.toNat ≤ 57) ∨ (97 ≤ c.toNat ∧ c.toNat ≤ 122) ∨
      (65 ≤ c.toNat ∧ c.toNat ≤ 90)) : isWordChar c = true := by
  rw [← Char.ofNat_toNat c]
  generalize c.toNat = n at h
  rcases h with ⟨hlow, hhigh⟩ | ⟨hlow, hhigh⟩ | ⟨hlow, hhigh⟩ <;> interval_cases n <;> decide

/-- A hexadecimal colour with no blanks around it is made of such characters. -/
private theorem wordChars_of_hex {t : Text} (ht : Text.Tight t) (h : (ofHex? t).isSome) :
    ∀ c ∈ t, isWordChar c = true := by
  cases hhex : expandHex? t with
  | none =>
      rw [ofHex?_of_none hhex] at h
      cases h
  | some six =>
      unfold expandHex? at hhex
      rw [Text.trim_of_tight ht, Option.ite_none_right_eq_some, Bool.and_eq_true] at hhex
      intro c hc
      rw [← List.takeWhile_append_dropWhile (p := (· == '#')) (l := t), List.mem_append] at hc
      rcases hc with hsign | hdigit
      · have hc := List.mem_takeWhile_imp hsign
        rw [beq_iff_eq] at hc
        rw [hc]
        decide
      · have hrange := toNat_of_isHexDigit (List.all_eq_true.mp hhex.1.2 c hdigit)
        exact isWordChar_of_ascii (by omega)

/-- A name of a colour is a word of letters. -/
private theorem letters_named {name : Text} (h : (ofName? name).isSome) :
    name ≠ [] ∧ ∀ c ∈ name, Text.isAsciiLetter c = true := by
  have hall : (named.all fun entry =>
      !entry.1.toList.isEmpty && entry.1.toList.all Text.isAsciiLetter) = true := by decide +kernel
  unfold ofName? at h
  rw [Option.isSome_map, List.find?_isSome] at h
  obtain ⟨entry, hentry, hname⟩ := h
  have hletters := List.all_eq_true.mp hall entry hentry
  rw [eq_of_beq hname, Bool.and_eq_true] at hletters
  exact ⟨by simpa using hletters.1, List.all_eq_true.mp hletters.2⟩

/-- A text is a word if it is one in lower case. -/
theorem wordChars_of_lower {t : Text} (h : ∀ c ∈ Text.lower t, isWordChar c = true) :
    ∀ c ∈ t, isWordChar c = true := by
  intro c hc
  by_contra hno
  suffices hcase : Text.Caseless c from hno (h c (hcase.mem_lower hc))
  simp only [isWordChar, Bool.and_eq_true, Bool.not_eq_true', bne_iff_ne, not_and_or, not_not,
    Bool.not_eq_false] at hno
  rcases hno with (hblank | rfl) | rfl
  · exact Text.caseless_of_isBlank hblank
  · exact fun _ _ => rfl
  · exact fun _ _ => rfl

/-- So is the name of a colour, in any case of letters. -/
private theorem wordChars_of_name {t : Text} (h : (ofName? (Text.lower t)).isSome) :
    ∀ c ∈ t, isWordChar c = true := by
  apply wordChars_of_lower
  intro c hc
  have hletter := (letters_named h).2 c hc
  simp only [Text.isAsciiLetter, Bool.or_eq_true, Bool.and_eq_true, decide_eq_true_eq] at hletter
  exact isWordChar_of_ascii (Or.inr hletter)

/-- A text is no colour when it has none of the four forms: it is no `rgb(...)`
function, starts with no number sign, names no colour and is no `hsl(...)`
function. -/
theorem resolve?_eq_none {t : Text} (hrgb : ofRgbFunction? (Text.trim t) = none)
    (hsign : ∀ rest, Text.trim t ≠ '#' :: rest) (hname : ofName? (Text.lower (Text.trim t)) = none)
    (hhsl : ofHslFunction? (Text.trim t) = none) : resolve? t = none := by
  unfold resolve?
  dsimp only
  rw [hrgb]
  dsimp only
  split
  · rename_i rest heq
    exact absurd heq (hsign rest)
  · rw [hname]
    exact hhsl

/-- No colour is spelled with nothing. -/
theorem resolve?_nil : resolve? [] = none :=
  resolve?_eq_none rfl nofun
    (Option.not_isSome_iff_eq_none.mp fun h => (letters_named h).1 rfl) rfl

theorem resolveHex?_nil : resolveHex? [] = none := by
  unfold resolveHex?
  rw [resolve?_nil]
  rfl

theorem resolveHex?_normalize (t : Text) : resolveHex? (normalize t) = resolveHex? t := by
  unfold resolveHex?
  rw [resolve?_normalize]

theorem resolveHex?_sourceToken (t : Text) : resolveHex? (sourceToken t) = resolveHex? t := by
  rw [← resolveHex?_normalize, normalize_sourceToken, resolveHex?_normalize]

/-- A colour is a function or a word. -/
theorem cases_of_resolve? {t : Text} (ht : Text.Tight t) (h : (resolve? t).isSome) :
    (ofRgbFunction? t).isSome ∨ (ofHslFunction? t).isSome ∨ ∀ c ∈ t, isWordChar c = true := by
  unfold resolve? at h
  rw [Text.trim_of_tight ht] at h
  dsimp only at h
  split at h
  · rename_i c hrgb
    exact Or.inl (by rw [hrgb]; rfl)
  · split at h
    · exact Or.inr (Or.inr (wordChars_of_hex ht h))
    · split at h
      · rename_i c hname
        exact Or.inr (Or.inr (wordChars_of_name (by rw [hname]; rfl)))
      · exact Or.inr (Or.inl h)

/-- A colour of red, green and blue channels is spelled as a function: letters
in any case, and an inside in round brackets. -/
theorem isFunction_of_rgb {t : Text} (h : (ofRgbFunction? t).isSome) : IsFunction t := by
  obtain ⟨c, hc⟩ := Option.isSome_iff_exists.mp h
  simp only [ofRgbFunction?, Option.bind_eq_bind, Option.bind_eq_some_iff] at hc
  obtain ⟨inner, hinner, -⟩ := hc
  obtain ⟨head, heq, hhead, hclose, -⟩ := function_of_argument? (by decide) hinner
  exact ⟨head, inner, heq, hhead, hclose⟩

/-- So is a colour of hue, saturation and lightness. -/
theorem isFunction_of_hsl {t : Text} (h : (ofHslFunction? t).isSome) : IsFunction t := by
  obtain ⟨c, hc⟩ := Option.isSome_iff_exists.mp h
  simp only [ofHslFunction?, Option.bind_eq_bind, Option.bind_eq_some_iff] at hc
  obtain ⟨inner, hinner, -⟩ := hc
  obtain ⟨head, heq, hhead, hclose, -⟩ := function_of_argument? (by decide) hinner
  exact ⟨head, inner, heq, hhead, hclose⟩

/-- **How a colour is spelled.**  It is a function, which may hold blanks
between its brackets, or else it is one word. -/
theorem spelled_of_resolve? {t : Text} (ht : Text.Tight t) (h : (resolve? t).isSome) :
    IsFunction t ∨ ∀ c ∈ t, isWordChar c = true := by
  rcases cases_of_resolve? ht h with hrgb | hhsl | hword
  · exact Or.inl (isFunction_of_rgb hrgb)
  · exact Or.inl (isFunction_of_hsl hhsl)
  · exact Or.inr hword

/-- A text that is read as a function is a colour. -/
theorem isSome_resolve?_of_function {t : Text} (ht : Text.Tight t)
    (h : (ofRgbFunction? t).isSome ∨ (ofHslFunction? t).isSome) : (resolve? t).isSome := by
  unfold resolve?
  rw [Text.trim_of_tight ht]
  dsimp only
  cases hrgb : ofRgbFunction? t with
  | some c => rfl
  | none =>
      rw [hrgb] at h
      have hhsl := h.resolve_left nofun
      dsimp only
      split
      · -- a function starts with no number sign
        rename_i rest
        obtain ⟨head, inner, heq, hhead, -⟩ := isFunction_of_hsl hhsl
        cases head with
        | nil => cases heq
        | cons c head =>
            cases heq
            exact absurd (hhead List.mem_cons_self) (by decide)
      · split
        · rfl
        · exact hhsl

/-- A hexadecimal colour is written into a source as its bytes. -/
theorem sourceToken_of_hex {t rest : Text} {c : Rgb} (hsign : Text.trim t = '#' :: rest)
    (hhex : ofHex? t = some c) : sourceToken t = rgbText c := by
  have hcore : ofHex? (Text.trim t) = some c := by
    rw [← hhex]
    unfold ofHex? expandHex?
    rw [Text.trim_trim]
  unfold sourceToken
  rw [hsign] at hcore ⊢
  dsimp only
  rw [hcore]
  rfl

/-- **The forms of a colour agree**, for every text, whether it is a colour or
not.  The form used for drawing is its own such form and has the same bytes, and
the form used in a source has the same form for drawing.  So a hexadecimal
colour is written into a source as its bytes and drawn as before. -/
theorem forms_agree (v : Text) :
    normalize (normalize v) = normalize v ∧ resolveHex? (normalize v) = resolveHex? v ∧
    normalize (sourceToken v) = normalize v ∧
    ∀ rest c, Text.trim v = '#' :: rest → ofHex? v = some c →
      sourceToken v = rgbText c ∧ normalize (rgbText c) = normalize v := by
  refine ⟨normalize_normalize v, resolveHex?_normalize v, normalize_sourceToken v, ?_⟩
  intro rest c hsign hhex
  have htoken := sourceToken_of_hex hsign hhex
  exact ⟨htoken, htoken ▸ normalize_sourceToken v⟩

/-- Four digits of both cases after two number signs. -/
theorem forms_agree_of_four_digits :
    Text.trim " ##aF1c " = "##aF1c" ∧ ofHex? " ##aF1c " = some ⟨0xAA, 0xFF, 0x11⟩ ∧
      sourceToken " ##aF1c " = rgbText ⟨0xAA, 0xFF, 0x11⟩ ∧
      normalize (rgbText ⟨0xAA, 0xFF, 0x11⟩) = normalize " ##aF1c " := by
  have hsign : Text.trim " ##aF1c " = "##aF1c" := by decide
  have hhex : ofHex? " ##aF1c " = some ⟨0xAA, 0xFF, 0x11⟩ := by decide
  exact ⟨hsign, hhex, (forms_agree " ##aF1c ").2.2.2 _ _ hsign hhex⟩

end Colour

end LineDiagram
