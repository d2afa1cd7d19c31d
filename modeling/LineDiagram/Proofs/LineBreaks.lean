import LineDiagram.Proofs.Document

/-!
# Line breaks

A document may end its lines in a line feed or in a carriage return and a line
feed; it is written with line feeds alone.  Only the carriage return right
before the line feed belongs to the break, so a line may end in one of its own,
and then it does not survive being written and read again.

* `split_line`, `unifyBreaks_line` — one line after the other, as it is read and
  as it is rewritten;
* `join_split` — a text that is read and written has line feeds for line breaks
  and is the same otherwise;
* `split_join_eq_iff` — which lines are written and read again as they were;
* `split_reassembles` — both.
-/

namespace LineDiagram.Document

/-- A text with a line feed in place of each carriage return and line feed. -/
def unifyBreaks : Text → Text
  | '\r' :: '\n' :: rest => '\n' :: unifyBreaks rest
  | c :: rest => c :: unifyBreaks rest
  | [] => []

/-- A character stays unless it is a carriage return before a line feed. -/
theorem unifyBreaks_cons {c : Char} {rest : Text} (h : rest.head? ≠ some '\n' ∨ c ≠ '\r') :
    unifyBreaks (c :: rest) = c :: unifyBreaks rest := by
  rw [unifyBreaks]
  rintro more rfl rfl
  exact h.elim (fun hhead => hhead rfl) fun hne => hne rfl

/-- A text without a line feed has no line break to unify. -/
theorem unifyBreaks_of_not_mem {t : Text} (h : '\n' ∉ t) : unifyBreaks t = t := by
  induction t with
  | nil => rfl
  | cons c rest ih =>
      rw [List.mem_cons, not_or] at h
      rw [unifyBreaks_cons (.inl fun hhead => h.2 (List.mem_of_mem_head? hhead)), ih h.2]

/-- A line stays as it is exactly if no carriage return ends it. -/
theorem dropReturn_eq_self_iff {raw : Text} : dropReturn raw = raw ↔ raw.getLast? ≠ some '\r' := by
  constructor
  · intro h hlast
    have hne : raw ≠ [] := by
      rintro rfl
      cases hlast
    have hlength := congrArg List.length h
    have hpos := List.length_pos_iff.mpr hne
    rw [dropReturn, if_pos (by simpa using hlast), List.length_dropLast] at hlength
    omega
  · intro h
    simp [dropReturn, h]

/-- Only the last character of a line can be dropped. -/
theorem dropReturn_cons_cons (c d : Char) (rest : Text) :
    dropReturn (c :: d :: rest) = c :: dropReturn (d :: rest) := by
  unfold dropReturn
  rw [List.getLast?_cons_cons, List.dropLast_cons_cons]
  split
  · rfl
  · rfl

/-- The carriage return at the end of a line goes with the line break; others in
the line stay. -/
theorem unifyBreaks_line {first : Text} (h : '\n' ∉ first) (rest : Text) :
    unifyBreaks (first ++ '\n' :: rest) = dropReturn first ++ '\n' :: unifyBreaks rest := by
  induction first with
  | nil => exact unifyBreaks_cons (.inr (by decide))
  | cons c first ih =>
      cases first with
      | nil =>
          by_cases hc : c = '\r'
          · subst hc
            rfl
          · have hkeep : dropReturn [c] = [c] := dropReturn_eq_self_iff.mpr (by simpa using hc)
            rw [hkeep, List.singleton_append, List.singleton_append, unifyBreaks_cons (.inr hc),
              unifyBreaks_cons (.inr (by decide))]
      | cons d first =>
          rw [List.mem_cons, not_or] at h
          have hd : d ≠ '\n' := fun heq => h.2 (heq ▸ List.mem_cons_self)
          rw [dropReturn_cons_cons, List.cons_append,
            unifyBreaks_cons (.inl (by simpa using hd)), ih h.2, List.cons_append]

/-- A text without a line feed is one line, even if a carriage return ends
it. -/
theorem split_of_not_mem {t : Text} (h : '\n' ∉ t) : split t = [t] := by
  unfold split
  rw [List.splitOn_eq_singleton h]
  rfl

/-- The first line of a text and the others.  Only a line with a break behind it
can lose a carriage return. -/
theorem split_line {first : Text} (h : '\n' ∉ first) (rest : Text) :
    split (first ++ '\n' :: rest) = dropReturn first :: split rest := by
  have hrest : rest.splitOn '\n' ≠ [] := List.splitOn_ne_nil _ _
  unfold split
  dsimp only
  rw [List.splitOn_append_cons_self, List.splitOn_eq_singleton h, List.singleton_append,
    List.dropLast_cons_of_ne_nil hrest, List.getLast?_cons_of_ne_nil hrest,
      List.map_cons, List.cons_append]

theorem split_ne_nil (t : Text) : split t ≠ [] := by
  induction t using lines_induction with
  | line t h => simp [split_of_not_mem h]
  | cons first rest h _ => simp [split_line h]

/-- **A text that is read and written** has line feeds for line breaks and is
the same otherwise. -/
theorem join_split (t : Text) : join (split t) = unifyBreaks t := by
  induction t using lines_induction with
  | line t h => rw [split_of_not_mem h, join_singleton, unifyBreaks_of_not_mem h]
  | cons first rest h ih =>
      rw [split_line h, unifyBreaks_line h, ← List.singleton_append,
        join_append (by simp) (split_ne_nil rest), join_singleton, ih]

example : join (split "a\r\r\nb\rc\r\n\r") = "a\r\nb\rc\n\r" := by decide

/-- **Lines that are written and read again as they were.**  Only the last of
them may end in a carriage return, for no line feed follows it. -/
theorem split_join_eq_iff (lines : List Text) :
    split (join lines) = lines ↔ lines ≠ [] ∧ (∀ raw ∈ lines, '\n' ∉ raw) ∧
      ∀ raw ∈ lines.dropLast, raw.getLast? ≠ some '\r' := by
  constructor
  · intro h
    have hne : lines ≠ [] := h ▸ split_ne_nil (join lines)
    have hlines : ∀ raw ∈ lines, '\n' ∉ raw := fun raw hraw => not_mem_split (h.symm ▸ hraw)
    refine ⟨hne, hlines, ?_⟩
    have hsame : lines.dropLast.map dropReturn = lines.dropLast :=
      List.append_cancel_right
        ((split_join hne hlines).symm.trans (h.trans (dropLast_append_last lines).symm))
    intro raw hraw
    rw [← dropReturn_eq_self_iff]
    exact List.map_inj_left.mp (hsame.trans (List.map_id _).symm) raw hraw
  · rintro ⟨hne, hlines, hends⟩
    rw [split_join hne hlines, map_dropReturn hends, dropLast_append_last]

/-- **Splitting and joining a document.**  Reading and writing a text rewrites
its line breaks and nothing else; writing and reading lines gives them back
exactly when there is a line, no line holds a line feed, and none but the last
ends in a carriage return. -/
theorem split_reassembles (t : Text) (lines : List Text) :
    join (split t) = unifyBreaks t ∧
      (split (join lines) = lines ↔ lines ≠ [] ∧ (∀ raw ∈ lines, '\n' ∉ raw) ∧
        ∀ raw ∈ lines.dropLast, raw.getLast? ≠ some '\r') :=
  ⟨join_split t, split_join_eq_iff lines⟩

end LineDiagram.Document
