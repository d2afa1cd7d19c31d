import LineDiagram.Proofs.BorderText
import LineDiagram.Proofs.Comment

/-!
# Borders without backslashes

A number sign is written with a backslash in front of it.  Numbers, widths, line
styles and names of colours hold no number sign, and a colour that starts with
one holds no backslash.  So what is part of a border as it is written is part of
a border without its backslashes.  The converse is false: `\#f00` is a colour
only without the backslash.

* `Colour.isSome_resolve?_unescape` — a colour is a colour without its
  backslashes;
* `Border.isPart_unescape` — the same for the parts of a border.
-/

namespace LineDiagram

open Comment

/-! ## Numbers -/

/-- A number sign is no digit, so it is still there when the digits in front are
taken away. -/
private theorem sign_mem_dropWhile {t : Text} (h : '#' ∈ t) : '#' ∈ t.dropWhile Text.isDigit := by
  rw [← List.takeWhile_append_dropWhile (p := Text.isDigit) (l := t), List.mem_append] at h
  rcases h with hdigit | hrest
  · exact absurd (List.mem_takeWhile_imp hdigit) (by decide)
  · exact hrest

/-- It is no plus and no minus either, so it is still there behind the sign of a
number. -/
private theorem sign_mem_sign {t : Text} (h : '#' ∈ t) : '#' ∈ (Numeral.sign t).2 := by
  unfold Numeral.sign
  split
  · simpa using h
  · simpa using h
  · exact h

/-- No number sign stands in the exponent of a number. -/
private theorem sign_not_mem_exponent {t : Text} (h : (Numeral.exponent? t).isSome) : '#' ∉ t := by
  unfold Numeral.exponent? at h
  split at h
  · exact List.not_mem_nil
  · rename_i mark rest
    split at h
    · rename_i hmark
      dsimp only at h
      split at h
      · rename_i hdigits
        rw [Bool.and_eq_true] at hdigits
        intro hmem
        have hrest : '#' ∈ rest := by
          rcases List.mem_cons.mp hmem with rfl | hrest
          · exact absurd hmark (by decide)
          · exact hrest
        exact absurd (List.all_eq_true.mp hdigits.2 _ (sign_mem_sign hrest)) (by decide)
      · cases h
    · cases h

/-- No number sign stands in a number, so backslashes make no difference to
one. -/
private theorem sign_not_mem_numeral {t : Text} (h : (Numeral.ofText? t).isSome) : '#' ∉ t := by
  intro hmem
  have hbody := sign_mem_dropWhile (sign_mem_sign hmem)
  unfold Numeral.ofText? at h
  dsimp only at h
  split at h
  · rename_i rest hpoint
    dsimp only at h
    split at h
    · cases h
    · rw [Option.isSome_map] at h
      rw [hpoint] at hbody
      exact sign_not_mem_exponent h (sign_mem_dropWhile (by simpa using hbody))
  · dsimp only at h
    split at h
    · cases h
    · rw [Option.isSome_map] at h
      exact sign_not_mem_exponent h hbody

/-- A number holds no number sign. -/
theorem Text.sign_not_mem_number {t : Text} (h : (number? t).isSome) : '#' ∉ t := by
  intro hmem
  unfold number? at h
  split at h
  · rename_i n hn
    exact sign_not_mem_numeral (by rw [hn]; rfl) (mem_trim (by decide) hmem)
  · cases h

namespace Colour

/-- No number sign stands in a channel of a colour: the channel is read as a
number. -/
private theorem sign_not_mem_channel {part : Text} (h : (channel? part).isSome) : '#' ∉ part := by
  unfold channel? at h
  split at h
  · rename_i before hreverse
    rw [Option.isSome_map] at h
    intro hmem
    have htrim := List.mem_reverse.mpr (Text.mem_trim (by decide) hmem)
    rw [hreverse] at htrim
    exact Text.sign_not_mem_number h (List.mem_reverse.mpr (by simpa using htrim))
  · exact Text.sign_not_mem_number h

/-- The same of a number that is read after blanks and a unit were taken off, as
long as the unit is no number sign. -/
private theorem sign_not_mem_trimmed {p : Char → Bool} {part : Text} {n : Binary64}
    (h : Text.number? (Text.dropEndWhile p (Text.trim part)) = some n) (hp : p '#' = false) :
    '#' ∉ part := by
  intro hmem
  have hkept := Text.mem_dropEndWhile hp (Text.mem_trim (by decide) hmem)
  exact Text.sign_not_mem_number (Option.isSome_of_mem h) hkept

/-! ## Colours -/

/-- A text of word characters has no backslashes to lose.  A colour that is no
function is such a text. -/
theorem unescape_of_wordChars {t : Text} (h : ∀ c ∈ t, isWordChar c = true) : unescape t = t := by
  rw [unescape_eq_self_iff, ← Bool.not_eq_true, Text.hasPart_iff]
  intro hpart
  exact absurd (h '\\' (hpart.subset List.mem_cons_self)) (by decide)

/-- A function is read from the same arguments without its backslashes, if no
number sign is in the arguments. -/
private theorem arguments_unescape {name t inner a b c : Text} (hname : name ⊆ Text.smallLetters)
    (hinner : argument? name t = some inner) (hparts : threeParts? inner = some (a, b, c))
    (ha : '#' ∉ a) (hb : '#' ∉ b) (hc : '#' ∉ c) :
    ∃ inner', argument? name (unescape t) = some inner' ∧ threeParts? inner' = some (a, b, c) := by
  obtain ⟨head, rfl, hhead, hclose, hagain⟩ := function_of_argument? hname hinner
  have hsign : '#' ∉ head := fun hmem => absurd (hhead hmem) (by decide)
  have hne : inner ≠ [] := by
    rintro rfl
    cases hparts
  refine ⟨unescape inner, ?_, ?_⟩
  · rw [unescape_cut (by decide) (by decide), unescape_cut (by decide) (by decide),
      unescape_of_not_mem hsign]
    exact hagain _ (fun hnil => hne (unescape_eq_nil.mp hnil)) (by rwa [mem_unescape (by decide)])
  · unfold threeParts? at hparts ⊢
    rw [splitOn_unescape (by decide) (by decide)]
    split at hparts
    · rename_i a' b' c' more hpieces
      cases hparts
      rw [hpieces]
      simp only [List.map_cons, unescape_of_not_mem ha, unescape_of_not_mem hb,
        unescape_of_not_mem hc]
    · cases hparts

/-- A colour that is written as red, green and blue is the same without its
backslashes, for no number sign can be escaped in it. -/
private theorem ofRgbFunction?_unescape {t : Text} (h : (ofRgbFunction? t).isSome) :
    ofRgbFunction? (unescape t) = ofRgbFunction? t := by
  obtain ⟨colour, hcolour⟩ := Option.isSome_iff_exists.mp h
  have hread := hcolour
  simp only [ofRgbFunction?, Option.bind_eq_bind, Option.bind_eq_some_iff] at hread
  obtain ⟨inner, hinner, ⟨a, b, c⟩, hparts, r, hr, g, hg, b', hb, heq⟩ := hread
  obtain ⟨inner', hinner', hparts'⟩ := arguments_unescape (by decide) hinner hparts
    (sign_not_mem_channel (by rw [hr]; rfl)) (sign_not_mem_channel (by rw [hg]; rfl))
    (sign_not_mem_channel (by rw [hb]; rfl))
  rw [hcolour]
  simp only [ofRgbFunction?, hinner', hparts', hr, hg, hb, Option.bind_eq_bind,
    Option.bind_some, heq]

/-- So is a colour that is written as hue, saturation and lightness. -/
private theorem ofHslFunction?_unescape {t : Text} (h : (ofHslFunction? t).isSome) :
    ofHslFunction? (unescape t) = ofHslFunction? t := by
  obtain ⟨colour, hcolour⟩ := Option.isSome_iff_exists.mp h
  have hread := hcolour
  simp only [ofHslFunction?, Option.bind_eq_bind, Option.bind_eq_some_iff] at hread
  obtain ⟨inner, hinner, ⟨a, b, c⟩, hparts, hue, hhue, s, hs, l, hl, heq⟩ := hread
  obtain ⟨inner', hinner', hparts'⟩ := arguments_unescape (by decide) hinner hparts
    (sign_not_mem_trimmed hhue (by decide)) (sign_not_mem_trimmed hs (by decide))
    (sign_not_mem_trimmed hl (by decide))
  rw [hcolour]
  simp only [ofHslFunction?, hinner', hparts', hhue, hs, hl, Option.bind_eq_bind,
    Option.bind_some, heq]

/-- **A colour is a colour without its backslashes.**  In a function no number
sign can stand, a name has none, and a hexadecimal colour starts with one that
has no backslash before it. -/
theorem isSome_resolve?_unescape {t : Text} (ht : Text.Tight t) (h : (resolve? t).isSome) :
    (resolve? (unescape t)).isSome := by
  rcases cases_of_resolve? ht h with hrgb | hhsl | hword
  · apply isSome_resolve?_of_function (tight_unescape ht)
    rw [ofRgbFunction?_unescape hrgb]
    exact Or.inl hrgb
  · apply isSome_resolve?_of_function (tight_unescape ht)
    rw [ofHslFunction?_unescape hhsl]
    exact Or.inr hhsl
  · rwa [unescape_of_wordChars hword]

end Colour

namespace Border

/-- What may follow a line style may follow it without its backslashes too. -/
private theorem Follows.unescape {after : Text} (h : Follows after) : Follows (unescape after) := by
  refine ⟨?_, ?_, ?_⟩
  · obtain ⟨c, more, rfl, hc⟩ := h.blank
    refine ⟨c, Comment.unescape more, unescape_cons ?_, hc⟩
    rintro rfl
    exact absurd hc (by decide)
  · intro hall
    have hsign : '#' ∉ after := by
      rw [← mem_unescape (c := '#') (by decide)]
      exact hall.not_mem (by decide)
    rw [unescape_of_not_mem hsign] at hall
    exact h.filled hall
  · intro hmem
    rw [← Text.margin_append_trimStart after, unescape_blank_append (Text.allBlank_margin after),
      Text.trimStart_of_blank_append (Text.allBlank_margin after)] at hmem
    exact h.one_line ((mem_unescape (by decide)).mp (Text.mem_of_mem_trimStart hmem))

/-- A part that starts with a line style still does without its backslashes. -/
private theorem isSome_styleAndRest?_unescape {t : Text} (h : (styleAndRest? t).isSome) :
    (styleAndRest? (unescape t)).isSome := by
  obtain ⟨⟨style, rest⟩, hfound⟩ := Option.isSome_iff_exists.mp h
  obtain ⟨name, hname, written, after, hsplit, hfollows, -⟩ := styleAndRest?_eq_some hfound
  obtain ⟨rfl, -, hletters, hagain⟩ :=
    Text.of_splitWordAnyCase? (lineStyles_spec name hname).2.1 hsplit
  have hback : written.getLast? ≠ some '\\' :=
    fun hlast => absurd (hletters (List.mem_of_getLast? hlast)) (by decide)
  have hsign : '#' ∉ written := fun hmem => absurd (hletters hmem) (by decide)
  rw [unescape_append (fun hlast => absurd hlast hback), unescape_of_not_mem hsign]
  exact isSome_styleAndRest? hname (hagain _) hfollows.unescape

/-- **A part of a border is one without its backslashes.**  Widths and line
styles hold no number sign; a colour may, and it stays a colour. -/
theorem isPart_unescape {t : Text} (h : isPart t = true) : isPart (unescape t) = true := by
  rw [isPart_iff] at h ⊢
  rw [trim_unescape]
  have htight := Text.tight_trim t
  generalize Text.trim t = part at h htight
  rcases h with hfull | hwidth | hstyle | hrest | hcolour
  · left
    rw [full_iff] at hfull ⊢
    obtain ⟨width, style, rest, hwords, hwidth, hstyle⟩ := hfull
    refine ⟨width, style, rest.map unescape, ?_, hwidth, hstyle⟩
    rw [words_unescape, hwords, List.map_cons, List.map_cons,
      Colour.unescape_of_wordChars (of_width? hwidth).2,
      Colour.unescape_of_wordChars (of_lineStyle hstyle).2.2]
  · apply Or.inr ∘ Or.inl
    rwa [Colour.unescape_of_wordChars (of_width? hwidth).2]
  · apply Or.inr ∘ Or.inr ∘ Or.inl
    rwa [Colour.unescape_of_wordChars (of_lineStyle hstyle).2.2]
  · exact Or.inr (Or.inr (Or.inr (Or.inl (isSome_styleAndRest?_unescape hrest))))
  · exact Or.inr (Or.inr (Or.inr (Or.inr (Colour.isSome_resolve?_unescape htight hcolour))))

end Border

end LineDiagram
