import LineDiagram.Identifier
import LineDiagram.Proofs.Graph
import LineDiagram.Proofs.WholeNumbers
import Mathlib.Data.List.Perm.Subperm
import Mathlib.Order.Bounds.Defs

/-!
# Fresh identifiers

An identifier that is made of a label starts with `N_`.  When it is taken,
numbers are tried one after the other; there are more of them than identifiers
that are taken, so one is found.

* `Search.isLeast` — the number at which a search ends is the least one that is
  not taken;
* `search_freshFrom` — the tries that are allowed are enough for the search to
  end;
* `fresh_cases` — a fresh identifier is the stem of its label, or the stem with
  the number that is found;
* `fresh_not_mem`, `isName_fresh` — it is not taken, and how it is spelled;
* `nodup_freshAll`, `not_mem_of_mem_freshAll` — several fresh identifiers
  differ, and none is taken;
* `fresh_least` — all of this together.
-/

namespace LineDiagram.Identifier

/-! ## The search for a number -/

/-- What an identifier made of a label starts with. -/
def stem (label : Text) : Text := ("N_" ++ slug label).take maxLength

/-- An identifier with a number. -/
def numbered (base : Text) (n : Nat) : Text := base ++ "_" ++ Text.ofNat n

theorem numbered_injective (base : Text) : Function.Injective (numbered base) := by
  intro m n h
  have hdigits : Text.ofNat m = Text.ofNat n := List.append_cancel_left h
  rw [← Text.digitsValue_ofNat m, hdigits, Text.digitsValue_ofNat]

/-- A search through the numbers from `n` on, with no limit to the tries, ends
at `m`. -/
inductive Search (base : Text) (taken : List Text) : (n m : Nat) → Prop where
  /-- It ends at a number that is not taken. -/
  | found {n : Nat} (h : numbered base n ∉ taken) : Search base taken n n
  /-- It goes on to the next number after one that is taken. -/
  | next {n m : Nat} (h : numbered base n ∈ taken) (rest : Search base taken (n + 1) m) :
      Search base taken n m

section Search

variable {base : Text} {taken : List Text} {tries n m : Nat}

/-- **A search ends at the least number that is not taken.**  It goes through
the numbers one by one, so all that it passed are taken. -/
theorem Search.isLeast (h : Search base taken n m) :
    IsLeast {k | n ≤ k ∧ numbered base k ∉ taken} m := by
  induction h with
  | found hfree => exact ⟨⟨le_rfl, hfree⟩, fun k hk => hk.1⟩
  | @next n m htaken _ ih =>
      refine ⟨⟨Nat.le_of_succ_le ih.1.1, ih.1.2⟩, fun k hk => ih.2 ⟨?_, hk.2⟩⟩
      have hne : k ≠ n := by
        rintro rfl
        exact hk.2 htaken
      exact Nat.lt_of_le_of_ne hk.1 hne.symm

/-- A search that ends at an identifier which is taken has found all numbers
taken. -/
theorem numbered_mem_of_freshFrom (h : freshFrom base taken tries n ∈ taken) :
    ∀ m, n ≤ m → m ≤ n + tries → numbered base m ∈ taken := by
  induction tries generalizing n with
  | zero =>
      intro m hle hge
      obtain rfl : m = n := by omega
      exact h
  | succ tries ih =>
      rw [freshFrom] at h
      split at h
      · rename_i hcandidate
        intro m hle hge
        by_cases hm : m = n
        · subst hm
          exact List.contains_iff_mem.mp hcandidate
        · exact ih h m (by omega) (by omega)
      · rename_i hcandidate
        exact absurd (List.contains_iff_mem.mpr h) hcandidate

/-- One try more than there are identifiers is enough: if all of them were
taken, there would be more than there are. -/
theorem freshFrom_not_mem (base : Text) (taken : List Text) (n : Nat) :
    freshFrom base taken taken.length n ∉ taken := by
  intro hmem
  have hall := numbered_mem_of_freshFrom hmem
  -- one number more than there are identifiers would be taken
  have hsub : (List.range' n (taken.length + 1)).map (numbered base) ⊆ taken := by
    intro id hid
    obtain ⟨m, hm, rfl⟩ := List.mem_map.mp hid
    rw [List.mem_range'_1] at hm
    exact hall m hm.1 (by omega)
  have hnodup : ((List.range' n (taken.length + 1)).map (numbered base)).Nodup :=
    List.Nodup.map (numbered_injective _) (List.nodup_range' 1)
  have hlength := (List.subperm_of_subset hnodup hsub).length_le
  rw [List.length_map, List.length_range'] at hlength
  omega

/-- Tries that lead to an identifier which is not taken are a whole search, so
the bound on them has no effect on the result. -/
theorem search_freshFrom (h : freshFrom base taken tries n ∉ taken) :
    ∃ m, Search base taken n m ∧ freshFrom base taken tries n = numbered base m := by
  induction tries generalizing n with
  | zero => exact ⟨n, .found h, rfl⟩
  | succ tries ih =>
      rw [freshFrom] at h ⊢
      split at h
      · rename_i hcandidate
        obtain ⟨m, hsearch, hm⟩ := ih h
        rw [if_pos hcandidate]
        exact ⟨m, .next (List.contains_iff_mem.mp hcandidate) hsearch, hm⟩
      · rename_i hcandidate
        rw [if_neg hcandidate]
        exact ⟨n, .found h, rfl⟩

end Search

/-! ## One fresh identifier -/

/-- **A fresh identifier** is the stem of its label or, when that is taken, the
stem with the number at which the search from two on ends. -/
theorem fresh_cases (label : Text) (taken : List Text) :
    (stem label ∉ taken ∧ fresh label taken = stem label) ∨
      (stem label ∈ taken ∧
        ∃ n, Search (stem label) taken 2 n ∧ fresh label taken = numbered (stem label) n) := by
  by_cases hstem : stem label ∈ taken
  · have hfresh : fresh label taken = freshFrom (stem label) taken taken.length 2 :=
      if_pos (List.contains_iff_mem.mpr hstem)
    rw [hfresh]
    exact .inr ⟨hstem, search_freshFrom (freshFrom_not_mem _ _ _)⟩
  · exact .inl ⟨hstem, if_neg fun hmem => hstem (List.contains_iff_mem.mp hmem)⟩

/-- **A fresh identifier is not taken.**  There are more numbers to try than
identifiers that are taken, so the search finds one before its tries run out. -/
theorem fresh_not_mem (label : Text) (taken : List Text) : fresh label taken ∉ taken := by
  rcases fresh_cases label taken with ⟨hstem, heq⟩ | ⟨-, n, hsearch, heq⟩
  · rwa [heq]
  · rw [heq]
    exact hsearch.isLeast.1.2

/-- A name: `N_`, followed by letters, digits and underscores. -/
def IsName (id : Text) : Prop :=
  ∃ rest : Text, id = 'N' :: '_' :: rest ∧ ∀ c ∈ rest, Text.isWordChar c = true

/-- What an identifier made of a label starts with is a name, whatever is in the
label. -/
theorem isName_stem (label : Text) : IsName (stem label) :=
  ⟨(slug label).take 38, rfl, fun _ hc => isWordChar_of_mem_slug (List.mem_of_mem_take hc)⟩

/-- A name with a number is a name. -/
theorem IsName.numbered {id : Text} (h : IsName id) (n : Nat) : IsName (numbered id n) := by
  obtain ⟨rest, rfl, hrest⟩ := h
  refine ⟨rest ++ "_" ++ Text.ofNat n, rfl, ?_⟩
  intro c hc
  simp only [List.mem_append] at hc
  rcases hc with (hin | hin) | hin
  · exact hrest c hin
  · rw [List.mem_singleton.mp hin]
    decide
  · have hdigit := Nat.isDigit_of_mem_toDigits (by decide) (by decide) hin
    simp only [Char.isDigit, Bool.and_eq_true, decide_eq_true_eq] at hdigit
    have hascii : Text.isAsciiDigit c = true := by
      simpa [Text.isAsciiDigit, Char.le_def] using hdigit
    simp [Text.isWordChar, hascii]

/-- **How a fresh identifier is spelled.**  It is the stem of the label, or the
stem with a number behind it. -/
theorem isName_fresh (label : Text) (taken : List Text) : IsName (fresh label taken) := by
  rcases fresh_cases label taken with ⟨-, heq⟩ | ⟨-, n, -, heq⟩
  · rw [heq]
    exact isName_stem label
  · rw [heq]
    exact (isName_stem label).numbered n

/-! ## Several fresh identifiers -/

/-- Each label gets an identifier. -/
theorem length_freshAll (taken labels : List Text) :
    (freshAll taken labels).length = labels.length := by
  induction labels generalizing taken with
  | nil => rfl
  | cons label labels ih =>
      rw [freshAll, List.length_cons, List.length_cons, ih]

/-- Each identifier is made with those before it taken, as if the labels had
been added one by one. -/
theorem getElem?_freshAll (taken labels : List Text) (i : Nat) :
    (freshAll taken labels)[i]? =
      labels[i]?.map fun label => fresh label (taken ++ (freshAll taken labels).take i) := by
  induction labels generalizing taken i with
  | nil => rfl
  | cons label labels ih =>
      cases i with
      | zero => simp [freshAll]
      | succ i =>
          rw [freshAll, List.getElem?_cons_succ, List.getElem?_cons_succ, ih, List.take_succ_cons,
            List.append_assoc, List.singleton_append]

/-- No identifier is one of those that are taken. -/
theorem not_mem_of_mem_freshAll {taken labels : List Text} {id : Text}
    (h : id ∈ freshAll taken labels) :
    id ∉ taken := by
  induction labels generalizing taken with
  | nil => cases h
  | cons label labels ih =>
      rcases List.mem_cons.mp h with rfl | hrest
      · exact fresh_not_mem label taken
      · exact fun hmem => ih hrest (List.mem_append_left _ hmem)

/-- **Identifiers that are made together differ.**  Each one is made with those
before it among the taken ones. -/
theorem nodup_freshAll (taken labels : List Text) : (freshAll taken labels).Nodup := by
  induction labels generalizing taken with
  | nil => exact List.nodup_nil
  | cons label labels ih =>
      refine List.nodup_cons.mpr ⟨fun hmem => ?_, ih _⟩
      exact not_mem_of_mem_freshAll hmem (List.mem_append_right _ (List.mem_singleton_self _))

/-- Each identifier is a name. -/
theorem isName_of_mem_freshAll {taken labels : List Text} {id : Text}
    (h : id ∈ freshAll taken labels) :
    IsName id := by
  induction labels generalizing taken with
  | nil => cases h
  | cons label labels ih =>
      rcases List.mem_cons.mp h with rfl | hrest
      · exact isName_fresh label taken
      · exact ih hrest

/-! ## Names and slugs -/

/-- A name is made of letters, digits and underscores. -/
theorem IsName.isWordChar {id : Text} (h : IsName id) : ∀ c ∈ id, Text.isWordChar c = true := by
  obtain ⟨rest, rfl, hrest⟩ := h
  intro c hc
  rcases List.mem_cons.mp hc with rfl | hc
  · decide
  · rcases List.mem_cons.mp hc with rfl | hc
    · decide
    · exact hrest c hc

theorem IsName.trim_eq {id : Text} (h : IsName id) : Text.trim id = id :=
  Text.trim_of_tight
    (Text.tight_of_solid fun c hc => Text.not_blank_of_isWordChar (h.isWordChar c hc))

/-- A name is a bare identifier. -/
theorem IsName.isBare {id : Text} (h : IsName id) : isBare id = true := by
  have hword := h.isWordChar
  have htrim := h.trim_eq
  obtain ⟨rest, rfl, -⟩ := h
  exact isBare_iff.mpr ⟨'N', '_' :: rest, htrim, by decide,
    fun c hc => hword c (List.mem_cons_of_mem _ hc)⟩

/-- A name stands for itself. -/
theorem IsName.ofToken {id : Text} (h : IsName id) : ofToken id = id := by
  rw [ofToken_of_bare h.isBare, h.trim_eq]

/-- A slug is no name, because it has no capitals.  So new identifiers never
meet those that are made of labels. -/
theorem not_isName_slug (t : Text) : ¬ IsName (slug t) := by
  rintro ⟨rest, heq, -⟩
  rcases mem_slug (c := 'N') (by rw [heq]; exact List.mem_cons_self) with hslug | hunder
  · exact absurd hslug (by decide)
  · exact absurd hunder (by decide)

/-! ## All together -/

/-- **Fresh identifiers.**  One that is made of a label is a bare identifier
that is not taken.  It is the stem of the label if that is not taken; otherwise
the search through the numbers ends, and it is the stem with the least number
from two on that is not taken.  Those that are made of several labels, each
taken from then on, differ. -/
theorem fresh_least (label : Text) (taken labels : List Text) :
    isBare (fresh label taken) = true ∧ fresh label taken ∉ taken ∧
      ((stem label ∉ taken ∧ fresh label taken = stem label) ∨
        (stem label ∈ taken ∧ ∃ n, Search (stem label) taken 2 n ∧
          IsLeast {k | 2 ≤ k ∧ numbered (stem label) k ∉ taken} n ∧
          fresh label taken = numbered (stem label) n)) ∧
      (∀ i, (freshAll taken labels)[i]? =
        labels[i]?.map fun next => fresh next (taken ++ (freshAll taken labels).take i)) ∧
      (freshAll taken labels).Nodup := by
  refine ⟨(isName_fresh label taken).isBare, fresh_not_mem label taken, ?_,
    getElem?_freshAll taken labels, nodup_freshAll taken labels⟩
  rcases fresh_cases label taken with hfree | ⟨hstem, n, hsearch, heq⟩
  · exact .inl hfree
  · exact .inr ⟨hstem, n, hsearch, hsearch.isLeast, heq⟩

end LineDiagram.Identifier
