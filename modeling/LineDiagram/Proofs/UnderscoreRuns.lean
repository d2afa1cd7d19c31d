import LineDiagram.Proofs.Text
import Mathlib.Logic.Relation

/-!
# Runs written as underscores

When each run of other characters is written as one underscore, no two
underscores are left next to each other, and a text in which this is so already
stays as it is.  A text of kept characters and underscores loses nothing by it
but the lengths of its runs of underscores.

* `SingleUnderscores` — no two underscores stand next to each other;
* `underscoreRuns_eq_self`, `singleUnderscores_underscoreRuns` — the texts that
  stay as they are, and that every text becomes one of them;
* `SameButRuns` — two texts are the same but for the lengths of their runs of
  underscores;
* `underscoreRuns_eq_iff` — when two texts become the same.
-/

namespace LineDiagram.Text

section

variable {keep : Char → Bool} {a b c t : Text}

/-! ## Single underscores -/

/-- No two underscores stand next to each other. -/
def SingleUnderscores (t : Text) : Prop := ¬ ['_', '_'] <:+: t

instance (t : Text) : Decidable (SingleUnderscores t) :=
  decidable_of_iff (hasPart "__" t = false)
    ((Bool.eq_false_iff (b := hasPart "__" t)).trans (not_congr hasPart_iff))

/-- Underscores are single exactly if they are in the rest, and the rest does
not start with one when the first character is one. -/
theorem singleUnderscores_cons {first : Char} {rest : Text} :
    SingleUnderscores (first :: rest) ↔
      (first = '_' → rest.head? ≠ some '_') ∧ SingleUnderscores rest := by
  have hstart : ['_', '_'] <+: first :: rest ↔ first = '_' ∧ rest.head? = some '_' := by
    cases rest <;> simp [List.cons_prefix_cons, eq_comm]
  unfold SingleUnderscores
  rw [List.infix_cons_iff, hstart, not_or, not_and]

theorem SingleUnderscores.of_part {s t : Text} (h : SingleUnderscores t) (hs : s <:+: t) :
    SingleUnderscores s := fun hin => h (hin.trans hs)

theorem underscoreRuns_cons_of_keep {first : Char} (h : keep first = true) (rest : Text) :
    underscoreRuns keep (first :: rest) = first :: underscoreRuns keep rest := by
  simp [underscoreRuns, h]

/-- A character that is not kept is one more underscore, or one with the
underscore after it. -/
theorem underscoreRuns_cons_of_not_keep {first : Char} (h : keep first = false) (rest : Text) :
    underscoreRuns keep (first :: rest) =
      if (underscoreRuns keep rest).head? = some '_' then underscoreRuns keep rest
      else '_' :: underscoreRuns keep rest := by
  simp [underscoreRuns, h]

/-- **No two underscores are left** next to each other, if underscores are not
kept themselves. -/
theorem singleUnderscores_underscoreRuns (hkeep : keep '_' = false) (t : Text) :
    SingleUnderscores (underscoreRuns keep t) := by
  induction t with
  | nil => exact fun hin => absurd (List.eq_nil_of_infix_nil hin) (List.cons_ne_nil _ _)
  | cons first rest ih =>
      cases hfirst : keep first with
      | true =>
          rw [underscoreRuns_cons_of_keep hfirst]
          refine singleUnderscores_cons.mpr ⟨?_, ih⟩
          rintro rfl
          exact absurd (hkeep.symm.trans hfirst) Bool.false_ne_true
      | false =>
          rw [underscoreRuns_cons_of_not_keep hfirst]
          split
          · exact ih
          · rename_i hhead
            exact singleUnderscores_cons.mpr ⟨fun _ => hhead, ih⟩

/-- **A text stays as it is** if it is made of kept characters and single
underscores. -/
theorem underscoreRuns_eq_self (hchars : ∀ x ∈ t, keep x = true ∨ x = '_')
    (h : SingleUnderscores t) :
    underscoreRuns keep t = t := by
  induction t with
  | nil => rfl
  | cons first rest ih =>
      obtain ⟨hnext, hsingle⟩ := singleUnderscores_cons.mp h
      have hrest := ih (fun x hx => hchars x (List.mem_cons_of_mem _ hx)) hsingle
      cases hfirst : keep first with
      | true => rw [underscoreRuns_cons_of_keep hfirst, hrest]
      | false =>
          have hunder : first = '_' :=
            (hchars first List.mem_cons_self).resolve_left (by simp [hfirst])
          rw [underscoreRuns_cons_of_not_keep hfirst, hrest, if_neg (hnext hunder), hunder]

/-! ## Texts that differ in their runs -/

/-- One of two underscores next to each other is left out. -/
inductive LeavesOutUnderscore : Text → Text → Prop
  | intro (before after : Text) :
      LeavesOutUnderscore (before ++ '_' :: '_' :: after) (before ++ '_' :: after)

/-- Two texts are the same but for the lengths of their runs of underscores. -/
def SameButRuns (a b : Text) : Prop := Relation.EqvGen LeavesOutUnderscore a b

theorem SameButRuns.refl (a : Text) : SameButRuns a a := Relation.EqvGen.refl a

/-- Being the same but for runs goes both ways. -/
theorem SameButRuns.symm (h : SameButRuns a b) : SameButRuns b a := Relation.EqvGen.symm a b h

/-- It is also handed on from one text to the next. -/
theorem SameButRuns.trans (h : SameButRuns a b) (h' : SameButRuns b c) : SameButRuns a c :=
  Relation.EqvGen.trans a b c h h'

/-- It stays when one character is put in front of both texts. -/
theorem SameButRuns.cons (h : SameButRuns a b) (first : Char) :
    SameButRuns (first :: a) (first :: b) := by
  induction h with
  | rel x y hxy =>
      cases hxy with
      | intro before after => exact .rel _ _ (.intro (first :: before) after)
  | refl x => exact .refl _
  | symm x y _ ih => exact ih.symm
  | trans x y z _ _ ih ih' => exact ih.trans ih'

/-- Leaving out an underscore next to another makes no difference, as both
belong to one run. -/
theorem underscoreRuns_pair (hkeep : keep '_' = false) (before after : Text) :
    underscoreRuns keep (before ++ '_' :: '_' :: after) =
      underscoreRuns keep (before ++ '_' :: after) := by
  have hhead : (underscoreRuns keep ('_' :: after)).head? = some '_' := by
    rw [underscoreRuns_cons_of_not_keep hkeep]
    split
    · assumption
    · rfl
  unfold underscoreRuns
  rw [List.foldr_append, List.foldr_append]
  congr 1
  change underscoreRuns keep ('_' :: '_' :: after) = underscoreRuns keep ('_' :: after)
  rw [underscoreRuns_cons_of_not_keep hkeep, if_pos hhead]

/-- A text of kept characters and underscores loses only lengths of runs, and no
run goes as a whole. -/
theorem sameButRuns_underscoreRuns (hchars : ∀ x ∈ t, keep x = true ∨ x = '_') :
    SameButRuns t (underscoreRuns keep t) := by
  induction t with
  | nil => exact .refl _
  | cons first rest ih =>
      have hrest := ih fun x hx => hchars x (List.mem_cons_of_mem _ hx)
      cases hfirst : keep first with
      | true =>
          rw [underscoreRuns_cons_of_keep hfirst]
          exact hrest.cons first
      | false =>
          obtain rfl : first = '_' :=
            (hchars first List.mem_cons_self).resolve_left (by simp [hfirst])
          rw [underscoreRuns_cons_of_not_keep hfirst]
          split
          · rename_i hhead
            -- the run goes on: what is left of the rest starts with an underscore already
            obtain ⟨after, hafter⟩ := List.head?_eq_some_iff.mp hhead
            rw [hafter] at hrest ⊢
            exact (hrest.cons '_').trans (.rel _ _ (.intro [] after))
          · exact hrest.cons '_'

/-- **When two texts become the same**: exactly if they differ in the lengths of
their runs of underscores only. -/
theorem underscoreRuns_eq_iff (hkeep : keep '_' = false) (ha : ∀ x ∈ a, keep x = true ∨ x = '_')
    (hb : ∀ x ∈ b, keep x = true ∨ x = '_') :
    underscoreRuns keep a = underscoreRuns keep b ↔ SameButRuns a b := by
  constructor
  · intro heq
    have hleft := sameButRuns_underscoreRuns ha
    rw [heq] at hleft
    exact hleft.trans (sameButRuns_underscoreRuns hb).symm
  · intro h
    clear ha hb
    induction h with
    | rel x y hxy =>
        cases hxy with
        | intro before after => exact underscoreRuns_pair hkeep before after
    | refl x => rfl
    | symm x y _ ih => exact ih.symm
    | trans x y z _ _ ih ih' => exact ih.trans ih'

end

end LineDiagram.Text
