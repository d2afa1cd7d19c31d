import LineDiagram.Proofs.Graph
import LineDiagram.Proofs.LetterCase
import LineDiagram.Proofs.UnderscoreRuns

/-!
# Slugs as tokens

An identifier is written into the source again wherever an edit adds an edge, so
it is read as a token.  A bare identifier stands for itself.  A slug is bare if
it starts with a letter; else a slug is made of it, and that changes nothing but
a last underscore.  A slug has one only where it was cut: the underscores at the
ends go before the cut, not after it.

* `IsSlug`, `isSlug_slug` — how slugs are spelled;
* `slug_of_isSlug` — the slug of a slug is the slug without a last underscore;
* `CutAtUnderscore` — an identifier that starts with a digit and ends with an
  underscore;
* `ofToken_ofToken_iff` — the identifiers that stand for themselves.
-/

namespace LineDiagram.Identifier

/-! ## How slugs are spelled -/

/-- How slugs are spelled. -/
structure IsSlug (id : Text) : Prop where
  /-- A slug is made of lower-case letters, digits and underscores. -/
  chars : ∀ c ∈ id, isSlugChar c = true ∨ c = '_'
  single : Text.SingleUnderscores id
  /-- It starts with a letter or a digit. -/
  start : ∃ c rest, id = c :: rest ∧ isSlugChar c = true
  short : id.length ≤ maxLength
  /-- It ends with an underscore only if it was cut. -/
  stop : id.getLast? = some '_' → id.length = maxLength

/-- **Every slug is spelled so**: in lower-case letters, digits and single
underscores. -/
theorem isSlug_slug (t : Text) : IsSlug (slug t) := by
  have hchars : ∀ c ∈ slug t, isSlugChar c = true ∨ c = '_' := fun c hc => mem_slug hc
  unfold slug at hchars ⊢
  dsimp only at hchars ⊢
  split
  · rename_i hcut
    rw [if_pos hcut] at hchars
    exact ⟨hchars, by decide, ⟨'n', "ode".toList, rfl, by decide⟩, by decide, by decide⟩
  · rename_i hcut
    rw [if_neg hcut] at hchars
    generalize hruns : Text.underscoreRuns isSlugChar (Text.lower (Text.trim t)) =
      runs at hcut hchars
    have hsingle : Text.SingleUnderscores runs :=
      hruns ▸ Text.singleUnderscores_underscoreRuns (by decide) _
    have htrimmed : Text.dropEndWhile (· == '_') (runs.dropWhile (· == '_')) <+:
        runs.dropWhile (· == '_') := List.rdropWhile_prefix _ _
    have hleft := (List.take_prefix maxLength _).trans htrimmed
    refine ⟨hchars, hsingle.of_part (hleft.isInfix.trans (List.dropWhile_suffix _).isInfix), ?_,
      List.length_take_le _ _, ?_⟩
    · obtain ⟨c, rest, hid⟩ := List.exists_cons_of_ne_nil (mt List.isEmpty_iff.mpr hcut)
      refine ⟨c, rest, hid, (hchars c (by rw [hid]; exact List.mem_cons_self)).resolve_right ?_⟩
      rw [hid] at hleft
      obtain ⟨after, hafter⟩ := hleft
      rintro rfl
      have hhead := List.head?_dropWhile_not (· == '_') runs
      rw [← hafter] at hhead
      exact absurd hhead (by simp)
    · -- what is not cut has lost the underscores at its end
      intro hlast
      apply List.length_take_of_le
      by_contra hshort
      rw [List.take_of_length_le (Nat.le_of_not_le hshort)] at hlast
      exact absurd (Text.last_dropEndWhile hlast) (by decide)

/-! ## The slug of a slug -/

section

variable {id : Text}

/-- A letter is no digit. -/
theorem not_digit_of_letter {c : Char} (h : Text.isAsciiLetter c = true) :
    Text.isAsciiDigit c = false := by
  rw [← Bool.not_eq_true]
  intro hdigit
  simp only [Text.isAsciiLetter, Text.isAsciiDigit, Bool.or_eq_true, Bool.and_eq_true,
    decide_eq_true_eq] at h hdigit
  change 97 ≤ c.toNat ∧ c.toNat ≤ 122 ∨ 65 ≤ c.toNat ∧ c.toNat ≤ 90 at h
  change 48 ≤ c.toNat ∧ c.toNat ≤ 57 at hdigit
  omega

/-- The characters of slugs are in lower case. -/
theorem lowerChar_of_slug {c : Char} (h : isSlugChar c = true ∨ c = '_') :
    c.toNat < 0x80 ∧ Text.lowerChar c = c := by
  have hrange : c.toNat < 0x80 ∧ ¬ ('A' ≤ c ∧ c ≤ 'Z') := by
    change c.toNat < 0x80 ∧ ¬ (65 ≤ c.toNat ∧ c.toNat ≤ 90)
    rcases h with hslug | rfl
    · simp only [isSlugChar, Text.isAsciiDigit, Bool.or_eq_true, Bool.and_eq_true,
        decide_eq_true_eq] at hslug
      change 97 ≤ c.toNat ∧ c.toNat ≤ 122 ∨ 48 ≤ c.toNat ∧ c.toNat ≤ 57 at hslug
      omega
    · decide
  refine ⟨hrange.1, ?_⟩
  unfold Text.lowerChar
  dsimp only
  rw [if_pos hrange.1, if_neg (by simpa using hrange.2)]

theorem lower_eq_self (h : ∀ c ∈ id, isSlugChar c = true ∨ c = '_') : Text.lower id = id := by
  rw [Text.lower_of_ascii fun c hc => (lowerChar_of_slug (h c hc)).1]
  conv_rhs => rw [← List.map_id id]
  exact List.map_congr_left fun c hc => (lowerChar_of_slug (h c hc)).2

theorem IsSlug.trim_eq (h : IsSlug id) : Text.trim id = id :=
  Text.trim_of_tight (Text.tight_of_solid fun c hc =>
    Text.not_blank_of_isWordChar (isWordChar_of_isSlugChar (h.chars c hc)))

/-- **The slug of a slug** is the slug without its last underscores.  Cutting a
slug to its greatest length may leave one at the end, so slugs are not always
their own slugs. -/
theorem slug_of_isSlug (h : IsSlug id) : slug id = Text.dropEndWhile (· == '_') id := by
  obtain ⟨c, rest, hid, hc⟩ := h.start
  have hfirst : (c == '_') = false := by
    rw [beq_eq_false_iff_ne]
    rintro rfl
    exact absurd hc (by decide)
  have hstart : id.dropWhile (· == '_') = id := by
    rw [hid, List.dropWhile_cons_of_neg (by simp [hfirst])]
  have hlength : (Text.dropEndWhile (· == '_') id).length ≤ maxLength :=
    (List.rdropWhile_prefix _ _).length_le.trans h.short
  have hsome : Text.dropEndWhile (· == '_') id ≠ [] := by
    intro hnil
    have hall := List.rdropWhile_eq_nil_iff.mp hnil c (by rw [hid]; exact List.mem_cons_self)
    rw [hfirst] at hall
    cases hall
  unfold slug
  dsimp only
  rw [h.trim_eq, lower_eq_self h.chars, Text.underscoreRuns_eq_self h.chars h.single, hstart,
    List.take_of_length_le hlength, if_neg (by simpa using hsome)]

/-- At most one underscore stands at the end where underscores are single, so
dropping them drops one or none. -/
theorem dropEndWhile_of_single (h : Text.SingleUnderscores id) :
    Text.dropEndWhile (· == '_') id = if id.getLast? = some '_' then id.dropLast else id := by
  have hself : ∀ t : Text, t.getLast? ≠ some '_' → Text.dropEndWhile (· == '_') t = t := by
    intro t ht
    apply Text.dropEndWhile_eq_self
    intro c hc
    rw [beq_eq_false_iff_ne]
    rintro rfl
    exact ht hc
  by_cases hlast : id.getLast? = some '_'
  · rw [if_pos hlast]
    obtain ⟨before, rfl⟩ := List.getLast?_eq_some_iff.mp hlast
    have hbefore : before.getLast? ≠ some '_' := by
      intro hpair
      obtain ⟨rest, rfl⟩ := List.getLast?_eq_some_iff.mp hpair
      exact h ⟨rest, [], by simp⟩
    calc Text.dropEndWhile (· == '_') (before ++ ['_'])
        = Text.dropEndWhile (· == '_') before := List.rdropWhile_concat_pos _ _ _ rfl
      _ = before := hself before hbefore
      _ = (before ++ ['_']).dropLast := List.dropLast_concat.symm
  · rw [if_neg hlast, hself id hlast]

/-! ## Identifiers as tokens -/

/-- An identifier starts with a digit and ends with an underscore. -/
def CutAtUnderscore (id : Text) : Prop :=
  (∃ c, id.head? = some c ∧ Text.isAsciiDigit c = true) ∧ id.getLast? = some '_'

/-- A text that starts with a letter is not cut at an underscore. -/
theorem not_cutAtUnderscore_of_letter {c : Char} (hc : Text.isAsciiLetter c = true) (rest : Text) :
    ¬ CutAtUnderscore (c :: rest) := by
  rintro ⟨⟨d, hd, hdigit⟩, -⟩
  obtain rfl : c = d := Option.some.inj hd
  rw [not_digit_of_letter hc] at hdigit
  cases hdigit

/-- **A slug as a token** stands for itself, unless it starts with a digit and
ends with an underscore, which is lost. -/
theorem ofToken_of_isSlug (h : IsSlug id) :
    (¬ CutAtUnderscore id → ofToken id = id) ∧ (CutAtUnderscore id → ofToken id = id.dropLast) := by
  obtain ⟨c, rest, rfl, hc⟩ := h.start
  cases hdigit : Text.isAsciiDigit c with
  | false =>
      have hletter : Text.isAsciiLetter c = true := by
        unfold isSlugChar at hc
        unfold Text.isAsciiLetter
        rw [hdigit, Bool.or_false] at hc
        rw [hc, Bool.true_or]
      have hself : ofToken (c :: rest) = c :: rest := ofToken_of_letter hletter fun d hd =>
        isWordChar_of_isSlugChar (h.chars d (List.mem_cons_of_mem c hd))
      exact ⟨fun _ => hself, fun hcut => absurd hcut (not_cutAtUnderscore_of_letter hletter rest)⟩
  | true =>
      -- no identifier starts with a digit, so a slug is made of it again
      have hbare : isBare (c :: rest) = false := by
        rw [← Bool.not_eq_true, isBare_iff, h.trim_eq]
        rintro ⟨first, after, heq, hletter, -⟩
        obtain ⟨rfl, -⟩ := List.cons.inj heq
        rw [not_digit_of_letter hletter] at hdigit
        cases hdigit
      have hread : ofToken (c :: rest) =
          if (c :: rest).getLast? = some '_' then (c :: rest).dropLast else c :: rest := by
        rw [← dropEndWhile_of_single h.single, ← slug_of_isSlug h,
          ofToken_of_not_bare hbare, h.trim_eq]
      constructor
      · intro hcut
        rw [hread, if_neg fun hlast => hcut ⟨⟨c, rfl, hdigit⟩, hlast⟩]
      · intro hcut
        rw [hread, if_pos hcut.2]

/-- An identifier is a word that starts with a letter, or a slug.  There is no
third form. -/
theorem letter_or_isSlug (token : Text) :
    (∃ c rest, ofToken token = c :: rest ∧ Text.isAsciiLetter c = true ∧
      ∀ d ∈ rest, Text.isWordChar d = true) ∨ IsSlug (ofToken token) := by
  cases hbare : isBare token with
  | true =>
      obtain ⟨c, rest, htrim, hletter, hrest⟩ := isBare_iff.mp hbare
      exact Or.inl ⟨c, rest, (ofToken_of_bare hbare).trans htrim, hletter, hrest⟩
  | false =>
      rw [ofToken_of_not_bare hbare]
      exact Or.inr (isSlug_slug _)

end

/-- **The identifiers that stand for themselves.**  The identifier of a token,
read as a token, is the same identifier, unless it starts with a digit and ends
with an underscore.  Then it has the full length, and without the underscore it
is another identifier. -/
theorem ofToken_ofToken_iff (token : Text) :
    (ofToken (ofToken token) = ofToken token ↔ ¬ CutAtUnderscore (ofToken token)) ∧
      (CutAtUnderscore (ofToken token) →
        (ofToken token).length = maxLength ∧
        ofToken (ofToken token) = (ofToken token).dropLast) := by
  rcases letter_or_isSlug token with ⟨c, rest, hid, hletter, hrest⟩ | hslug
  · have hwhole : ¬ CutAtUnderscore (ofToken token) :=
      hid ▸ not_cutAtUnderscore_of_letter hletter rest
    refine ⟨iff_of_true ?_ hwhole, fun hcut => absurd hcut hwhole⟩
    rw [hid, ofToken_of_letter hletter hrest]
  · obtain ⟨hself, hcutself⟩ := ofToken_of_isSlug hslug
    refine ⟨⟨fun hsame hcut => ?_, hself⟩, fun hcut => ⟨hslug.stop hcut.2, hcutself hcut⟩⟩
    have hlength := congrArg List.length ((hcutself hcut).symm.trans hsame)
    rw [List.length_dropLast, hslug.stop hcut.2] at hlength
    exact absurd hlength (by decide)

/-- A text whose slug is cut after an underscore has an identifier that stands
for another one. -/
theorem ofToken_ofToken_differs : ¬ ∀ token : Text, Text.trim token ≠ [] →
    ofToken (ofToken token) = ofToken token := by
  intro hall
  exact absurd (hall "1 xxxxxxxxxxxxxxxxxxxxxxxxxxxxxxxxxxxxx y" (by decide)) (by decide +kernel)

end LineDiagram.Identifier
