import LineDiagram.Dot.Basic

/-!
# Quoted texts, read again

A quoted text is read up to the first quote that has no backslash in front of
it.  Backslashes have no other meaning, so a text is written between its quotes
as it is, but for the quotes in it.  One place is left where a backslash of the
text meets a quote that is not of the text: the end.  There it takes the closing
quote for its own, and the text runs on into what follows.

* `Dot.quoted?` — reads a quoted text;
* `untilQuote_escape_append` — a text is read as it was, unless it ends in a
  backslash before a quote;
* `quoted?_quote_append`, `quoted?_quote_of_backslash` — the two cases of a
  quoted text;
* `quote_read_iff` — which texts are read again.
-/

namespace LineDiagram.Dot

/-! ## Reading -/

/-- Reads up to the quote that ends a quoted text: the text, and what follows
the quote. -/
def untilQuote : Text → Option (Text × Text)
  | [] => none
  | '"' :: rest => some ([], rest)
  | '\\' :: '"' :: rest => (untilQuote rest).map fun (t, after) => ('"' :: t, after)
  | c :: rest => (untilQuote rest).map fun (t, after) => (c :: t, after)

/-- Reads a quoted text: the text, and what follows it. -/
def quoted? : Text → Option (Text × Text)
  | '"' :: rest => untilQuote rest
  | _ => none

theorem untilQuote_backslash_quote (t : Text) :
    untilQuote ('\\' :: '"' :: t) = (untilQuote t).map fun read => ('"' :: read.1, read.2) := rfl

/-- A character that is no quote stands for itself, unless it is a backslash
before a quote. -/
theorem untilQuote_cons {c : Char} {t : Text} (hc : c ≠ '"') (ht : c = '\\' → t.head? ≠ some '"') :
    untilQuote (c :: t) = (untilQuote t).map fun read => (c :: read.1, read.2) := by
  refine untilQuote.eq_4 c t hc ?_
  rintro rest rfl rfl
  exact ht rfl rfl

/-! ## Between the quotes -/

/-- What a text looks like between its quotes. -/
def escape (t : Text) : Text := t.flatMap fun c => if c == '"' then ['\\', '"'] else [c]

/-- A quoted text is what it looks like between its quotes, and the two
quotes. -/
theorem quote_eq (t : Text) : quote t = '"' :: (escape t ++ ['"']) := rfl

theorem escape_quote (t : Text) : escape ('"' :: t) = '\\' :: '"' :: escape t := rfl

/-- Every other character is written as it is, backslashes too. -/
theorem escape_cons {c : Char} (hc : c ≠ '"') (t : Text) : escape (c :: t) = c :: escape t := by
  simp [escape, hc]

/-- So a backslash at the end of a text stands right before the quote that
should end it. -/
theorem escape_concat_backslash (t : Text) : escape (t ++ ['\\']) = escape t ++ ['\\'] := by
  simp [escape]

/-- Between its quotes a text does not start with a quote. -/
theorem head?_escape_append {v : Text} (hv : v ≠ []) (t : Text) :
    (escape v ++ t).head? ≠ some '"' := by
  cases v with
  | nil => exact absurd rfl hv
  | cons c rest =>
      by_cases hc : c = '"'
      · subst hc
        simp [escape_quote]
      · simpa [escape_cons hc] using hc

/-- **A text is read as it was**, unless it ends in a backslash and a quote
follows. -/
theorem untilQuote_escape_append {v t : Text} (h : v.getLast? = some '\\' → t.head? ≠ some '"') :
    untilQuote (escape v ++ t) = (untilQuote t).map fun read => (v ++ read.1, read.2) := by
  induction v with
  | nil => simp [escape]
  | cons c rest ih =>
      have hrest : rest.getLast? = some '\\' → t.head? ≠ some '"' := by
        intro hlast
        apply h
        rw [List.getLast?_cons, hlast]
        rfl
      by_cases hquote : c = '"'
      · subst hquote
        rw [escape_quote, List.cons_append, List.cons_append, untilQuote_backslash_quote, ih hrest]
        simp [Function.comp_def]
      · -- what follows a backslash is the rest of the text or, at its end, what follows the text
        have hnext : c = '\\' → (escape rest ++ t).head? ≠ some '"' := by
          rintro rfl
          by_cases hend : rest = []
          · subst hend
            exact h rfl
          · exact head?_escape_append hend t
        rw [escape_cons hquote, List.cons_append, untilQuote_cons hquote hnext, ih hrest]
        simp [Function.comp_def]

/-! ## Quoted texts -/

/-- **A text that does not end in a backslash** is read again, whatever
follows. -/
theorem quoted?_quote_append {v : Text} (h : v.getLast? ≠ some '\\') (t : Text) :
    quoted? (quote v ++ t) = some (v, t) := by
  have hread := untilQuote_escape_append (t := '"' :: t) fun hlast => absurd hlast h
  rw [quote_eq, List.cons_append, List.append_assoc, List.singleton_append,
    quoted?, hread, untilQuote]
  simp

/-- **A backslash at the end** takes the closing quote for its own, and what
follows is read as part of the text. -/
theorem quoted?_quote_of_backslash (v t : Text) :
    quoted? (quote (v ++ ['\\']) ++ t) =
      (untilQuote t).map fun read => (v ++ '"' :: read.1, read.2) := by
  have hread := untilQuote_escape_append (v := v) (t := '\\' :: '"' :: t) fun _ => by simp
  rw [quote_eq, escape_concat_backslash, List.cons_append, List.append_assoc, List.append_assoc,
    List.singleton_append, List.singleton_append, quoted?, hread, untilQuote_backslash_quote]
  simp [Function.comp_def]

/-- **Which texts are read again.**  A quoted text is read to its last character
and stands for the text, exactly if the text does not end in a backslash.  If it
does, no quote closes the quoted text. -/
theorem quote_read_iff (v : Text) :
    (quoted? (quote v) = some (v, []) ↔ v.getLast? ≠ some '\\') ∧
      (quoted? (quote v) = none ↔ v.getLast? = some '\\') := by
  by_cases hlast : v.getLast? = some '\\'
  · obtain ⟨w, rfl⟩ := List.getLast?_eq_some_iff.mp hlast
    have hread := quoted?_quote_of_backslash w []
    rw [List.append_nil] at hread
    simp [hread, untilQuote]
  · have hread := quoted?_quote_append hlast []
    rw [List.append_nil] at hread
    simp [hread, hlast]

/-- A label that ends in a backslash is not closed, since the quote behind it is
read as an escaped one. -/
theorem quote_unclosed : ¬ ∀ v : Text, quoted? (quote v) = some (v, []) := by
  intro hall
  exact absurd (hall "x\\") (by decide)

end LineDiagram.Dot
