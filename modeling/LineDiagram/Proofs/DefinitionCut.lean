import LineDiagram.Proofs.Reading

/-!
# Where a definition is cut

Code can hold two colons behind a word at several places.  A definition is cut
at the one with the longest token that has a value behind it, and this is the
one with the shortest rest.  So the end of a line has a say in where it is cut:
what is written there can give a value to colons that had none, or bring new
ones.

* `Cut.length_le_iff` — a longer token leaves a shorter rest;
* `Cut.exists_colonsAt`, `ColonsAt.exists_cut` — the places to cut, by their
  positions;
* `definitionParts?_eq_some_iff` — a definition is cut where the rest is
  shortest;
* `contentOf_eq_node_iff_definedAt` — what a definition says;
* `definedAt_iff_colonsAt` — when code with a value is cut at given colons;
* `node_add_bracket_iff`, `node_rebracket_iff`, `node_drop_bracket_iff` — when a
  definition keeps token and label while its bracket comes, changes or goes.
-/

namespace LineDiagram.Line

/-! ## Places to cut -/

section Cut

variable {code token token' rest rest' : Text}

theorem Cut.token_prefix (h : Cut code token rest) : token <+: code := by
  obtain ⟨gap, rfl, -⟩ := h.code_eq
  exact ⟨gap ++ ':' :: ':' :: rest, by simp⟩

/-- The token fixes the rest: behind it there is one place for the two colons,
with nothing but blanks before them. -/
theorem Cut.rest_eq (h : Cut code token rest) (h' : Cut code token rest') : rest = rest' := by
  obtain ⟨gap, hcode, hgap⟩ := h.code_eq
  obtain ⟨gap', hcode', hgap'⟩ := h'.code_eq
  rw [hcode, List.append_assoc, List.append_assoc, List.append_cancel_left_eq] at hcode'
  have htrim := congrArg Text.trimStart hcode'
  rw [Text.trimStart_of_blank_append hgap, Text.trimStart_of_blank_append hgap',
    Text.trimStart_of_head (by decide), Text.trimStart_of_head (by decide)] at htrim
  simpa using htrim

/-- Of two cuts, the one with the longer token leaves the shorter rest. -/
private theorem Cut.rest_lt (h : Cut code token rest) (h' : Cut code token' rest')
    (hlt : token.length < token'.length) : rest'.length < rest.length := by
  obtain ⟨more, rfl⟩ := List.prefix_of_prefix_length_le h.token_prefix h'.token_prefix hlt.le
  obtain ⟨gap, hcode, hgap⟩ := h.code_eq
  obtain ⟨gap', hcode', -⟩ := h'.code_eq
  -- The longer token goes on where the shorter one ends, so there is no blank.
  have hnil : gap = [] := by
    cases gap with
    | nil => rfl
    | cons b gap =>
        cases more with
        | nil => simp at hlt
        | cons c more =>
            rw [hcode] at hcode'
            simp only [List.append_assoc, List.cons_append, List.append_cancel_left_eq,
              List.cons.injEq] at hcode'
            have hblank : Text.isBlank c = true := hcode'.1 ▸ hgap b List.mem_cons_self
            have hsolid := h'.token_solid c (by simp)
            exact absurd (hblank.symm.trans hsolid) (by decide)
  rw [hcode, hnil] at hcode'
  have hlength := congrArg List.length hcode'
  simp only [List.length_append, List.length_cons, List.length_nil] at hlength hlt
  omega

/-- **A longer token leaves a shorter rest.**  So the place with the shortest
rest is the one with the longest token, which is what the search looks for. -/
theorem Cut.length_le_iff (h : Cut code token rest) (h' : Cut code token' rest') :
    token'.length ≤ token.length ↔ rest.length ≤ rest'.length := by
  rcases Nat.lt_trichotomy token.length token'.length with hlt | heq | hgt
  · have := h.rest_lt h' hlt
    omega
  · obtain rfl : token = token' :=
      (List.prefix_of_prefix_length_le h.token_prefix h'.token_prefix heq.le).eq_of_length heq
    rw [h.rest_eq h']
    simp
  · have := h'.rest_lt h hgt
    omega

/-- Text at the end goes to the rest, so a place to cut stays one when a line
gets longer. -/
theorem Cut.append (h : Cut code token rest) (s : Text) : Cut (code ++ s) token (rest ++ s) := by
  obtain ⟨gap, rfl, hgap⟩ := h.code_eq
  exact ⟨h.token_ne, h.token_solid, gap, by simp, hgap⟩

end Cut

/-- Two colons that a token can reach: there is something before them, and none
of it is blank but what stands right in front of them. -/
def ColonsAt (code : Text) (i : Nat) : Prop :=
  0 < i ∧ (code.drop i).take 2 = [':', ':'] ∧
    ∀ c ∈ (code.take i).dropWhile fun c => !Text.isBlank c, Text.isBlank c = true

instance (code : Text) (i : Nat) : Decidable (ColonsAt code i) :=
  decidable_of_iff ((decide (0 < i) && ((code.drop i).take 2 == [':', ':'] &&
      ((code.take i).dropWhile fun c => !Text.isBlank c).all Text.isBlank)) = true)
    (by rw [Bool.and_eq_true, Bool.and_eq_true, decide_eq_true_iff, beq_iff_eq,
      List.all_eq_true]; rfl)

theorem ColonsAt.le_length {code : Text} {i : Nat} (h : ColonsAt code i) : i + 2 ≤ code.length := by
  have hlength := congrArg List.length h.2.1
  simp only [List.length_take, List.length_drop, List.length_cons, List.length_nil] at hlength
  omega

/-- Code that can be cut starts with its token, so it starts with no blank. -/
theorem Cut.start {code token rest : Text} (h : Cut code token rest) :
    ∀ c, code.head? = some c → Text.isBlank c = false := by
  intro c hc
  obtain ⟨gap, hcode, -⟩ := h.code_eq
  rw [hcode, List.append_assoc, List.head?_append_of_ne_nil _ h.token_ne] at hc
  exact h.token_solid c (List.mem_of_mem_head? hc)

/-- At a place to cut there are colons that the token reaches, and the rest is
what follows them. -/
theorem Cut.exists_colonsAt {code token rest : Text} (h : Cut code token rest) :
    ∃ i, ColonsAt code i ∧ code.drop (i + 2) = rest := by
  obtain ⟨gap, rfl, hgap⟩ := h.code_eq
  have hpos : 0 < token.length := List.length_pos_iff.mpr h.token_ne
  have hword : ∀ c ∈ token, (!Text.isBlank c) = true := by
    intro c hc
    rw [h.token_solid c hc]
    rfl
  refine ⟨(token ++ gap).length, ⟨?_, ?_, ?_⟩, ?_⟩
  · rw [List.length_append]
    omega
  · rw [List.drop_left]
    rfl
  · intro c hc
    rw [List.take_left, List.dropWhile_append_of_pos hword] at hc
    exact hgap c ((List.dropWhile_sublist _).subset hc)
  · rw [← List.drop_drop, List.drop_left]
    rfl

/-- Colons that a token can reach are a place to cut, if the code starts with no
blank.  The token is the first word before them. -/
theorem ColonsAt.exists_cut {code : Text} {i : Nat} (h : ColonsAt code i)
    (hstart : ∀ c, code.head? = some c → Text.isBlank c = false) :
    ∃ token, Cut code token (code.drop (i + 2)) := by
  have hle := h.le_length
  obtain ⟨hpos, hcolons, hgap⟩ := h
  have hdrop : code.drop i = ':' :: ':' :: code.drop (i + 2) := by
    conv_lhs => rw [← List.take_append_drop 2 (code.drop i), hcolons, List.drop_drop]
    rfl
  have hsplit : code = (code.take i).takeWhile (fun c => !Text.isBlank c) ++
      (code.take i).dropWhile (fun c => !Text.isBlank c) ++ ':' :: ':' :: code.drop (i + 2) := by
    rw [List.takeWhile_append_dropWhile, ← hdrop, List.take_append_drop]
  refine ⟨(code.take i).takeWhile fun c => !Text.isBlank c, ?_, ?_, _, hsplit, hgap⟩
  · cases code with
    | nil => simp at hle
    | cons c code =>
        obtain ⟨j, rfl⟩ := Nat.exists_eq_add_of_lt hpos
        have hsolid := hstart c rfl
        simp [hsolid]
  · intro c hc
    simpa using List.mem_takeWhile_imp hc

/-! ## The place that is taken -/

/-- The search inside the first word finds a definition at least as far to the
right as any place with a value that is left to search.  It goes from right to
left, so the first place it meets is the last one. -/
private theorem insideColons?_longest {rest reversed after token more : Text}
    (hsplit : reversed.reverse ++ after = token ++ ':' :: ':' :: more) (hne : token ≠ [])
    (hle : token.length ≤ reversed.length) (hvalue : (value? (more ++ rest)).isSome) :
    ∃ found value, insideColons? rest reversed after = some (found, value) ∧
      token.length ≤ found.length := by
  induction reversed generalizing after with
  | nil => exact absurd (List.length_eq_zero_iff.mp (Nat.le_zero.mp hle)) hne
  | cons c before ih =>
      unfold insideColons?
      dsimp only
      split
      · rename_i parts hfound
        split at hfound
        · obtain ⟨value, -, rfl⟩ := Option.map_eq_some_iff.mp hfound
          exact ⟨_, _, rfl, by rw [List.length_reverse]; exact hle⟩
        · cases hfound
      · rename_i hnone
        -- Nothing is found here, so the token is shorter than what stands before.
        apply ih (by simpa using hsplit)
        rcases Nat.lt_or_eq_of_le hle with hlt | heq
        · rw [List.length_cons] at hlt
          omega
        · obtain ⟨-, rfl⟩ := List.append_inj hsplit (by rw [List.length_reverse]; exact heq.symm)
          obtain ⟨value, hsome⟩ := Option.isSome_iff_exists.mp hvalue
          simp [hsome] at hnone

/-- Of the places with a value, none has a longer token than the one that is
taken. -/
private theorem definitionParts?_longest {code token rest : Text} (hcut : Cut code token rest)
    (hvalue : (value? rest).isSome) :
    ∃ found value, definitionParts? code = some (found, value) ∧ token.length ≤ found.length := by
  obtain ⟨gap, rfl, hgap⟩ := hcut.code_eq
  have hsolid : ∀ c ∈ token, (!Text.isBlank c) = true := by
    intro c hc
    rw [hcut.token_solid c hc]
    rfl
  have hcolon : (fun c => !Text.isBlank c) ':' = true := by decide
  unfold definitionParts?
  rw [List.append_assoc, List.takeWhile_append_of_pos hsolid, List.dropWhile_append_of_pos hsolid]
  have hne : (token ++ (gap ++ ':' :: ':' :: rest).takeWhile fun c => !Text.isBlank c).isEmpty =
      false := by
    simp [hcut.token_ne]
  dsimp only
  rw [if_neg (by simpa using hne)]
  cases gap with
  | nil =>
      rw [List.nil_append, List.takeWhile_cons_of_pos (p := fun c => !Text.isBlank c) hcolon,
        List.takeWhile_cons_of_pos (p := fun c => !Text.isBlank c) hcolon,
        List.dropWhile_cons_of_pos (p := fun c => !Text.isBlank c) hcolon,
        List.dropWhile_cons_of_pos (p := fun c => !Text.isBlank c) hcolon]
      split
      · rename_i parts hfound
        split at hfound
        · obtain ⟨value, -, rfl⟩ := Option.map_eq_some_iff.mp hfound
          exact ⟨_, _, rfl, by simp⟩
        · cases hfound
      · refine @insideColons?_longest _ _ _ _ (rest.takeWhile fun c => !Text.isBlank c) (by simp)
          hcut.token_ne
            (by rw [List.length_reverse, List.length_append]; exact Nat.le_add_right _ _) ?_
        rwa [List.takeWhile_append_dropWhile]
  | cons b gap =>
      have hb : Text.isBlank b = true := hgap b List.mem_cons_self
      obtain ⟨value, hsome⟩ := Option.isSome_iff_exists.mp hvalue
      rw [List.cons_append, List.takeWhile_cons_of_neg (by simp [hb]),
        List.dropWhile_cons_of_neg (by simp [hb]), ← List.cons_append,
        Text.trimStart_of_blank_append hgap, Text.trimStart_of_head (by decide)]
      simp [hsome]

/-- **The place where a definition is cut** is the one with the shortest rest,
of those with a value. -/
theorem definitionParts?_eq_some_iff {code token value : Text} :
    definitionParts? code = some (token, value) ↔
      ∃ rest, Cut code token rest ∧ value? rest = some value ∧
        ∀ other more, Cut code other more → (value? more).isSome → rest.length ≤ more.length := by
  constructor
  · intro h
    obtain ⟨rest, hcut, hvalue⟩ := definitionParts?_cut h
    refine ⟨rest, hcut, hvalue, ?_⟩
    intro other more hother hmore
    obtain ⟨found, _, hfound, hle⟩ := definitionParts?_longest hother hmore
    obtain ⟨rfl, -⟩ := Prod.mk.inj (Option.some.inj (hfound.symm.trans h))
    exact (hcut.length_le_iff hother).mp hle
  · rintro ⟨rest, hcut, hvalue, hleast⟩
    obtain ⟨found, value', hfound, hle⟩ := definitionParts?_longest hcut (by rw [hvalue]; rfl)
    obtain ⟨rest', hcut', hvalue'⟩ := definitionParts?_cut hfound
    have hge := (hcut.length_le_iff hcut').mpr (hleast found rest' hcut' (by rw [hvalue']; rfl))
    obtain rfl : token = found :=
      (List.prefix_of_prefix_length_le hcut.token_prefix hcut'.token_prefix hle).eq_of_length
        (Nat.le_antisymm hle hge)
    rw [← hcut.rest_eq hcut', hvalue] at hvalue'
    rw [hfound, ← Option.some.inj hvalue']

/-- Code is cut into a definition with a given token and rest. -/
structure DefinedAt (code token rest : Text) : Prop extends Cut code token rest where
  /-- There is a value. -/
  filled : ¬ Text.AllBlank rest
  /-- No other place with a value has a shorter rest. -/
  least : ∀ other more, Cut code other more → ¬ Text.AllBlank more → rest.length ≤ more.length

/-- On one line, a value follows exactly if something other than blanks does. -/
private theorem value?_isSome_iff {t : Text} (hfree : '\n' ∉ t) :
    (value? t).isSome ↔ ¬ Text.AllBlank t := by
  constructor
  · intro hsome hblank
    obtain ⟨value, hvalue⟩ := Option.isSome_iff_exists.mp hsome
    obtain ⟨rfl, hne⟩ := value?_eq_some hvalue
    exact hne (Text.trimStart_eq_nil.mpr hblank)
  · intro hblank
    rw [value?_of_not_blank hblank hfree]
    rfl

private theorem Cut.free {code token rest : Text} (h : Cut code token rest) (hfree : '\n' ∉ code) :
    '\n' ∉ rest := by
  obtain ⟨gap, rfl, -⟩ := h.code_eq
  simp only [List.mem_append, List.mem_cons, not_or] at hfree
  exact hfree.2.2.2

/-- **How code is cut into a definition**, without the search: at the one place
with a value whose rest is the shortest, and the value is that rest without the
blanks before it. -/
theorem definitionParts?_eq_some_iff_definedAt {code token value : Text} (hfree : '\n' ∉ code) :
    definitionParts? code = some (token, value) ↔
      ∃ rest, DefinedAt code token rest ∧ value = Text.trimStart rest := by
  rw [definitionParts?_eq_some_iff]
  constructor
  · rintro ⟨rest, hcut, hvalue, hleast⟩
    have hfilled := (value?_isSome_iff (hcut.free hfree)).mp (by rw [hvalue]; rfl)
    refine ⟨rest, ⟨hcut, hfilled, fun other more hother hmore => ?_⟩, (value?_eq_some hvalue).1⟩
    exact hleast other more hother ((value?_isSome_iff (hother.free hfree)).mpr hmore)
  · rintro ⟨rest, hrest, rfl⟩
    refine ⟨rest, hrest.toCut, value?_of_not_blank hrest.filled (hrest.toCut.free hfree), ?_⟩
    intro other more hother hmore
    exact hrest.least other more hother ((value?_isSome_iff (hother.free hfree)).mp hmore)

/-- Two colons make no settings line, so definitions are never taken for
settings. -/
theorem Cut.setting?_eq_none {code token rest : Text} (h : Cut code token rest) :
    setting? code = none := by
  obtain ⟨gap, hcode, -⟩ := h.code_eq
  have hpart : Text.hasPart "::" code = true := by
    rw [Text.hasPart_iff]
    exact ⟨token ++ gap, rest, by rw [hcode]; simp⟩
  unfold setting? settingParts?
  rw [hpart, Bool.or_true, if_pos rfl]
  rfl

/-- **What a definition says.**  Code on one line that is no marker is a
definition exactly where a token can be cut off with a value behind it; label
and bracket are cut out of that value. -/
theorem contentOf_eq_node_iff_definedAt {code token label : Text} {bracket : Option Text}
    (hfree : '\n' ∉ code) :
    contentOf code = .node token label bracket ↔
      (code.takeWhile (· == '-')).length < 2 ∧ ∃ rest, DefinedAt code token rest ∧
        label = Text.trim (Bracket.splitTrailing (Text.trim rest)).1 ∧
        bracket = (Bracket.splitTrailing (Text.trim rest)).2 := by
  have hself : ∀ {word rest : Text}, Cut code word rest → Text.trim word = word := by
    intro word rest hcut
    exact Text.trim_of_tight ⟨fun c hc => hcut.token_solid c (List.mem_of_head? hc),
      fun c hc => hcut.token_solid c (List.mem_of_getLast? hc)⟩
  rw [contentOf_eq_node_iff, marker?_eq_none_iff hfree]
  constructor
  · rintro ⟨hdashes, -, word, value, hparts, rfl, rfl, rfl⟩
    obtain ⟨rest, hrest, rfl⟩ := (definitionParts?_eq_some_iff_definedAt hfree).mp hparts
    rw [Text.trim_trimStart, hself hrest.toCut]
    exact ⟨hdashes, rest, hrest, rfl, rfl⟩
  · rintro ⟨hdashes, rest, hrest, rfl, rfl⟩
    refine ⟨hdashes, hrest.toCut.setting?_eq_none, token, Text.trimStart rest,
      (definitionParts?_eq_some_iff_definedAt hfree).mpr ⟨rest, hrest, rfl⟩,
      (hself hrest.toCut).symm, ?_⟩
    rw [Text.trim_trimStart]
    exact ⟨rfl, rfl⟩

/-! ## Brackets and places to cut -/

section Places

variable {b z token rest : Text}

/-- Two colons and blanks in front of them hold no `[`. -/
private theorem open_not_mem_colons {gap : Text} (hgap : Text.AllBlank gap) :
    '[' ∉ gap ++ [':', ':'] := by
  rw [List.mem_append, not_or]
  exact ⟨hgap.not_mem (by decide), by decide⟩

/-- A bracket after a blank brings no new place to cut.  A token cannot reach
over the blank, for behind it only blanks may come before the colons. -/
theorem cut_space_bracket (h : Cut (b ++ ' ' :: '[' :: z) token rest) :
    ∃ w, Cut b token w ∧ rest = w ++ ' ' :: '[' :: z := by
  obtain ⟨gap, hcode, hgap⟩ := h.code_eq
  rw [show token ++ gap ++ ':' :: ':' :: rest = (token ++ (gap ++ [':', ':'])) ++ rest by simp,
    List.append_eq_append_iff] at hcode
  rcases hcode with ⟨a, hpre, hrest⟩ | ⟨w, hb, hrest⟩
  · rcases List.cons_eq_append_iff.mp hrest with ⟨rfl, rfl⟩ | ⟨a, rfl, hnext⟩
    · exact ⟨[], ⟨h.token_ne, h.token_solid, gap, by simpa using hpre.symm, hgap⟩, rfl⟩
    · -- The blank is not in the token, and the `[` neither in the gap nor in the colons.
      exfalso
      rcases List.cons_eq_append_iff.mp hnext with ⟨rfl, -⟩ | ⟨a, rfl, -⟩
      · have hlast := congrArg List.getLast? hpre
        simp at hlast
      · rw [show b ++ ' ' :: '[' :: a = (b ++ [' ']) ++ '[' :: a by simp,
          List.append_eq_append_iff] at hpre
        rcases hpre with ⟨c, -, hcolons⟩ | ⟨c, htoken, -⟩
        · exact open_not_mem_colons hgap (by rw [hcolons]; simp)
        · have hblank := h.token_solid ' ' (by rw [htoken]; simp)
          exact absurd hblank (by decide)
  · exact ⟨w, ⟨h.token_ne, h.token_solid, gap, by simpa using hb, hgap⟩, hrest⟩

/-- Two colons stand behind the first word of a text, or in it. -/
def ReachesColons (t : Text) : Prop :=
  ∃ word gap rest, t = word ++ gap ++ ':' :: ':' :: rest ∧ (∀ c ∈ word, Text.isBlank c = false) ∧
    Text.AllBlank gap

/-- The places to cut in code with a bracket stand before the bracket or in
it. -/
private theorem cut_bracket (h : Cut (b ++ '[' :: z) token rest) :
    (∃ w, Cut b token w ∧ rest = w ++ '[' :: z) ∨
      ∃ word gap, token = b ++ '[' :: word ∧ z = word ++ gap ++ ':' :: ':' :: rest ∧
        Text.AllBlank gap := by
  obtain ⟨gap, hcode, hgap⟩ := h.code_eq
  rw [show token ++ gap ++ ':' :: ':' :: rest = (token ++ (gap ++ [':', ':'])) ++ rest by simp,
    List.append_eq_append_iff] at hcode
  rcases hcode with ⟨a, hpre, hrest⟩ | ⟨w, hb, hrest⟩
  · rcases List.cons_eq_append_iff.mp hrest with ⟨rfl, rfl⟩ | ⟨a, rfl, hz⟩
    · exact Or.inl ⟨[], ⟨h.token_ne, h.token_solid, gap, by simpa using hpre.symm, hgap⟩, rfl⟩
    · rw [List.append_eq_append_iff] at hpre
      rcases hpre with ⟨c, -, hcolons⟩ | ⟨c, htoken, hbracket⟩
      · exact absurd (by rw [hcolons]; simp) (open_not_mem_colons hgap)
      · rcases List.cons_eq_append_iff.mp hbracket with ⟨rfl, hcolons⟩ | ⟨word, rfl, hword⟩
        · exact absurd (by rw [hcolons]; simp) (open_not_mem_colons hgap)
        · exact Or.inr ⟨word, gap, htoken, by rw [hz, hword]; simp, hgap⟩
  · exact Or.inl ⟨w, ⟨h.token_ne, h.token_solid, gap, by simpa using hb, hgap⟩, hrest⟩

/-- A closing bracket at the end makes no difference to whether two colons can
be reached. -/
private theorem reachesColons_concat {u : Text} : ReachesColons (u ++ [']']) ↔ ReachesColons u := by
  constructor
  · rintro ⟨word, gap, rest, hu, hword, hgap⟩
    rcases List.eq_nil_or_concat rest with rfl | ⟨init, last, rfl⟩
    · have hlast := congrArg List.getLast? hu
      simp at hlast
    · refine ⟨word, gap, init, ?_, hword, hgap⟩
      have hsplit : u ++ [']'] = (word ++ gap ++ ':' :: ':' :: init) ++ [last] := by simpa using hu
      exact (List.append_inj' hsplit rfl).1
  · rintro ⟨word, gap, rest, rfl, hword, hgap⟩
    exact ⟨word, gap, rest ++ [']'], by simp, hword, hgap⟩

/-! ## Definitions while the label changes -/

variable {code w u u' : Text}

private theorem not_blank_of_open (a c : Text) : ¬ Text.AllBlank (a ++ '[' :: c) :=
  fun hblank => absurd (hblank '[' (by simp)) (by decide)

/-- Code that ends with no blank has no blank end but the empty one. -/
private theorem eq_length_of_blank_drop {n : Nat}
    (hstop : ∀ c, code.getLast? = some c → Text.isBlank c = false) (hle : n ≤ code.length)
    (hblank : Text.AllBlank (code.drop n)) : n = code.length := by
  rcases List.eq_nil_or_concat (code.drop n) with hnil | ⟨init, last, hlast⟩
  · have := List.drop_eq_nil_iff.mp hnil
    omega
  · rw [List.concat_eq_append] at hlast
    have hend : code.getLast? = some last := by
      rw [← List.take_append_drop n code, hlast, ← List.append_assoc, List.getLast?_concat]
    have hsolid := hstop last hend
    exact absurd ((hblank last (by rw [hlast]; simp)).symm.trans hsolid) (by decide)

/-- **Code with a value is cut at given colons** exactly if no colons further
behind are in reach of a token, or only such that end the code and are followed
by no bracket. -/
theorem definedAt_iff_colonsAt {tail : Text} (hcut : Cut code token rest)
    (hstop : ∀ c, code.getLast? = some c → Text.isBlank c = false) (hfilled : ¬ Text.AllBlank rest)
    (htail : tail = [] ∨ ∃ z, tail = ' ' :: '[' :: z) :
    DefinedAt (code ++ tail) token (rest ++ tail) ↔
      ∀ i, code.length < i + 2 + rest.length → ColonsAt code i →
      i + 2 = code.length ∧ tail = [] := by
  constructor
  · intro hnew i hbehind hcolons
    have hle := hcolons.le_length
    obtain ⟨other, hother⟩ := hcolons.exists_cut hcut.start
    -- colons further behind leave a shorter rest, so there is no value behind them
    have hblank : Text.AllBlank (code.drop (i + 2) ++ tail) := by
      by_contra hvalue
      have hleast := hnew.least other _ (hother.append tail) hvalue
      simp only [List.length_append, List.length_drop] at hleast
      omega
    rw [Text.allBlank_append] at hblank
    refine ⟨eq_length_of_blank_drop hstop hle hblank.1, ?_⟩
    rcases htail with hnil | ⟨z, rfl⟩
    · exact hnil
    · exact absurd hblank.2 (not_blank_of_open [' '] z)
  · intro hnone
    refine ⟨hcut.append tail, ?_, ?_⟩
    · rw [Text.allBlank_append]
      exact fun hblank => hfilled hblank.1
    · intro other more hother hvalue
      obtain ⟨v, hv, rfl⟩ : ∃ v, Cut code other v ∧ more = v ++ tail := by
        rcases htail with rfl | ⟨z, rfl⟩
        · rw [List.append_nil] at hother
          exact ⟨more, hother, (List.append_nil more).symm⟩
        · exact cut_space_bracket hother
      obtain ⟨i, hcolons, rfl⟩ := hv.exists_colonsAt
      by_contra hlt
      simp only [List.length_append, List.length_drop] at hlt
      have hle := hcolons.le_length
      obtain ⟨hend, rfl⟩ := hnone i (by omega) hcolons
      rw [hend, List.drop_length] at hvalue
      exact hvalue Text.allBlank_nil

/-! ## Definitions while the bracket changes -/

/-- Code that is a definition is still one, with the same token, when a bracket
is added behind it, unless it could be cut at its end: then the bracket would be
taken for the value. -/
private theorem definedAt_add_bracket (hstop : ∀ c, code.getLast? = some c → Text.isBlank c = false)
    (h : DefinedAt code token rest) :
    DefinedAt (code ++ ' ' :: '[' :: z) token (rest ++ ' ' :: '[' :: z) ↔
      ∀ word, ¬ Cut code word [] := by
  constructor
  · intro hnew word hword
    have hle := hnew.least word _ (hword.append (' ' :: '[' :: z))
      (by simpa using not_blank_of_open [' '] z)
    have hnil : rest = [] := by
      rw [List.length_append, List.nil_append] at hle
      exact List.length_eq_zero_iff.mp (by omega)
    exact h.filled (by rw [hnil]; exact Text.allBlank_nil)
  · intro hnone
    refine ⟨h.toCut.append _, by simpa using not_blank_of_open (rest ++ [' ']) z, ?_⟩
    intro other more hother _
    obtain ⟨v, hv, rfl⟩ := cut_space_bracket hother
    have hfilled : ¬ Text.AllBlank v := by
      intro hblank
      rcases List.eq_nil_or_concat v with rfl | ⟨init, last, rfl⟩
      · exact hnone other hv
      · obtain ⟨gap, hcode, -⟩ := hv.code_eq
        have hsplit : code = (other ++ gap ++ ':' :: ':' :: init) ++ [last] := by simpa using hcode
        have hsolid := hstop last (by rw [hsplit]; exact List.getLast?_concat)
        exact absurd ((hblank last (by simp)).symm.trans hsolid) (by decide)
    have hle := h.least other v hv hfilled
    simpa using hle

/-- Another bracket in the place of the first keeps the token of a definition,
unless the code before it is one word and two colons can be reached in the new
bracket: then the token would run into the bracket. -/
private theorem definedAt_rebracket (hcut : Cut b token w)
    (h : DefinedAt (b ++ '[' :: z) token (w ++ '[' :: z)) :
    DefinedAt (b ++ '[' :: (u' ++ [']'])) token (w ++ '[' :: (u' ++ [']'])) ↔
      ¬ ((∀ c ∈ b, Text.isBlank c = false) ∧ ReachesColons u') := by
  constructor
  · rintro hnew ⟨hsolid, word, gap, rest, rfl, hword, hgap⟩
    have hother : Cut (b ++ '[' :: (word ++ gap ++ ':' :: ':' :: rest ++ [']'])) (b ++ '[' :: word)
        (rest ++ [']']) := by
      refine ⟨by simp, ?_, gap, by simp, hgap⟩
      intro c hc
      rcases List.mem_append.mp hc with hc | hc
      · exact hsolid c hc
      · rcases List.mem_cons.mp hc with rfl | hc
        · decide
        · exact hword c hc
    have hle := hnew.least _ _ hother
      (fun hblank => absurd (hblank ']' (by simp)) (by decide))
    simp only [List.length_append, List.length_cons] at hle
    omega
  · intro hnone
    refine ⟨hcut.append _, not_blank_of_open _ _, ?_⟩
    intro other more hother _
    rcases cut_bracket hother with ⟨v, hv, rfl⟩ | ⟨word, gap, rfl, hword, hgap⟩
    · have hle := h.least other _ (hv.append ('[' :: z)) (not_blank_of_open _ _)
      simpa using hle
    · refine absurd ⟨fun c hc => ?_,
        reachesColons_concat.mp ⟨word, gap, more, hword, fun c hc => ?_, hgap⟩⟩
        hnone
      · exact hother.token_solid c (List.mem_append_left _ hc)
      · exact hother.token_solid c (by simp [hc])

/-- Without its bracket a definition is still one, with the same token, if a
value is left before the bracket. -/
private theorem definedAt_drop_bracket (hcut : Cut b token w)
    (h : DefinedAt (b ++ '[' :: z) token (w ++ '[' :: z)) (hfilled : ¬ Text.AllBlank w) :
    DefinedAt (Text.trimEnd b) token (Text.trimEnd w) := by
  obtain ⟨gap, hb, hgap⟩ := hcut.code_eq
  have hend : Text.trimEnd b = token ++ gap ++ ':' :: ':' :: Text.trimEnd w := by
    have hmore : ¬ Text.AllBlank (':' :: ':' :: w) :=
      fun hblank => absurd (hblank ':' (by simp)) (by decide)
    rw [hb, Text.trimEnd_append hmore]
    exact congrArg (token ++ gap ++ ·) (Text.trimEnd_append hfilled [':', ':'])
  refine ⟨⟨hcut.token_ne, hcut.token_solid, gap, hend, hgap⟩, ?_, ?_⟩
  · intro hblank
    obtain ⟨blanks, hw, hblanks⟩ := Text.exists_trimEnd w
    exact hfilled (by rw [hw, Text.allBlank_append]; exact ⟨hblank, hblanks⟩)
  · intro other more hother _
    obtain ⟨blanks, hw, -⟩ := Text.exists_trimEnd w
    have hwhole : b = Text.trimEnd b ++ blanks := by
      rw [hend, hb]
      conv_lhs => rw [hw]
      simp
    have hle := h.least other (more ++ blanks ++ '[' :: z)
      (by conv => arg 1; rw [hwhole]
          exact (hother.append blanks).append _) (not_blank_of_open _ _)
    have hlength := congrArg List.length hw
    simp only [List.length_append] at hle hlength
    omega

/-- The parts of a definition whose bracket is read: it is cut before the
bracket, and the label is what stands between. -/
private theorem definedAt_of_bracket {label : Text} {inner : Text}
    (hfree : '\n' ∉ b ++ '[' :: (u ++ [']']))
    (hu : '[' ∉ u) (h : contentOf (b ++ '[' :: (u ++ [']'])) = .node token label (some inner)) :
    ∃ w, Cut b token w ∧ DefinedAt (b ++ '[' :: (u ++ [']'])) token (w ++ '[' :: (u ++ [']'])) ∧
      (b.takeWhile (· == '-')).length < 2 ∧ label = Text.trim w := by
  obtain ⟨hdashes, rest, hrest, hlabel, hinner⟩ := (contentOf_eq_node_iff_definedAt hfree).mp h
  rw [dashes_append (by decide)] at hdashes
  rcases cut_bracket hrest.toCut with ⟨w, hw, rfl⟩ | ⟨word, gap, -, hword, -⟩
  · rw [Bracket.splitTrailing_trim w hu, Text.trim_trim] at hlabel
    exact ⟨w, hw, hrest, hdashes, hlabel⟩
  · have hopen : '[' ∉ Text.trim rest := by
      intro hmem
      have hin : '[' ∈ u ++ [']'] := by
        rw [hword]
        simp [Text.mem_of_mem_trim hmem]
      simp [hu] at hin
    rw [Bracket.splitTrailing_of_not_mem hopen] at hinner
    cases hinner

/-- The value of a definition whose code ends in no bracket ends in none, since
the value is the end of the code. -/
private theorem splitTrailing_bare_rest (htight : Text.Tight code)
    (hend : '[' ∈ code → code.getLast? ≠ some ']') (h : DefinedAt code token rest) :
    Bracket.splitTrailing (Text.trim rest) = (Text.trim rest, none) := by
  obtain ⟨gap, hcode, -⟩ := h.code_eq
  refine Bracket.splitTrailing_of_suffix ⟨token ++ gap ++ [':', ':'], ?_⟩ ?_ htight.stop hend
  · rw [hcode]
    simp
  · rintro rfl
    exact h.filled Text.allBlank_nil

/-- A definition whose code ends in no bracket has none. -/
theorem node_bare {label : Text} {bracket : Option Text} (hfree : '\n' ∉ code)
    (htight : Text.Tight code) (hend : '[' ∈ code → code.getLast? ≠ some ']')
    (h : contentOf code = .node token label bracket) : bracket = none := by
  obtain ⟨-, rest, hrest, -, hbracket⟩ := (contentOf_eq_node_iff_definedAt hfree).mp h
  rw [hbracket, splitTrailing_bare_rest htight hend hrest]

/-- **A bracket for a definition without one** leaves token and label alone,
unless the code ends in two colons that the bracket gives a value. -/
theorem node_add_bracket_iff {label : Text} {bracket : Option Text} (hfree : '\n' ∉ code)
    (htight : Text.Tight code) (hend : '[' ∈ code → code.getLast? ≠ some ']')
    (hu : '\n' ∉ u ∧ '[' ∉ u) (h : contentOf code = .node token label bracket) :
    (∃ new, contentOf (code ++ ' ' :: '[' :: (u ++ [']'])) = .node token label new) ↔
      ∀ word, ¬ Cut code word [] := by
  obtain ⟨hdashes, rest, hrest, hlabel, -⟩ := (contentOf_eq_node_iff_definedAt hfree).mp h
  have hnew : '\n' ∉ code ++ ' ' :: '[' :: (u ++ [']']) := by simp [hfree, hu.1]
  rw [← definedAt_add_bracket htight.stop hrest]
  constructor
  · rintro ⟨new, hcontent⟩
    obtain ⟨-, rest', hrest', -⟩ := (contentOf_eq_node_iff_definedAt hnew).mp hcontent
    rwa [← hrest'.toCut.rest_eq (hrest.toCut.append _)]
  · intro hdefined
    refine ⟨some (Text.trim u), (contentOf_eq_node_iff_definedAt hnew).mpr ⟨?_, _, hdefined, ?_⟩⟩
    · rwa [dashes_append (by decide)]
    · rw [show rest ++ ' ' :: '[' :: (u ++ [']']) = (rest ++ [' ']) ++ '[' :: (u ++ [']']) by simp,
        Bracket.splitTrailing_trim _ hu.2,
        Text.trim_append_blank (Text.allBlank_singleton (by decide)),
        Text.trim_trim, hlabel, splitTrailing_bare_rest htight hend hrest, Text.trim_trim]
      exact ⟨rfl, rfl⟩

/-- **Another bracket for a definition** leaves token and label alone, unless
the text up to the bracket is one word and two colons are reached in the
bracket. -/
theorem node_rebracket_iff {label inner : Text} (hfree : '\n' ∉ b) (hu : '\n' ∉ u ∧ '[' ∉ u)
    (hu' : '\n' ∉ u' ∧ '[' ∉ u')
    (h : contentOf (b ++ '[' :: (u ++ [']'])) = .node token label (some inner)) :
    (∃ new, contentOf (b ++ '[' :: (u' ++ [']'])) = .node token label new) ↔
      ¬ ((∀ c ∈ b, Text.isBlank c = false) ∧ ReachesColons u') := by
  obtain ⟨w, hw, hrest, hdashes, rfl⟩ := definedAt_of_bracket (by simp [hfree, hu.1]) hu.2 h
  have hnew : '\n' ∉ b ++ '[' :: (u' ++ [']']) := by simp [hfree, hu'.1]
  rw [← definedAt_rebracket hw hrest]
  constructor
  · rintro ⟨new, hcontent⟩
    obtain ⟨-, rest', hrest', -⟩ := (contentOf_eq_node_iff_definedAt hnew).mp hcontent
    rwa [← hrest'.toCut.rest_eq (hw.append _)]
  · intro hdefined
    refine ⟨some (Text.trim u'), (contentOf_eq_node_iff_definedAt hnew).mpr ⟨?_, _, hdefined, ?_⟩⟩
    · rwa [dashes_append (by decide)]
    · rw [Bracket.splitTrailing_trim _ hu'.2, Text.trim_trim]
      exact ⟨rfl, rfl⟩

/-- **A definition that loses its bracket** keeps token and label, unless the
label is empty or itself ends in a bracket. -/
theorem node_drop_bracket_iff {label inner : Text} (hfree : '\n' ∉ b) (hu : '\n' ∉ u ∧ '[' ∉ u)
    (h : contentOf (b ++ '[' :: (u ++ [']'])) = .node token label (some inner)) :
    (∃ new, contentOf (Text.trimEnd b) = .node token label new) ↔
      label ≠ [] ∧ (Bracket.splitTrailing label).2 = none := by
  obtain ⟨w, hw, hrest, hdashes, rfl⟩ := definedAt_of_bracket (by simp [hfree, hu.1]) hu.2 h
  have hnew : '\n' ∉ Text.trimEnd b := fun hmem => hfree (Text.mem_of_mem_trimEnd hmem)
  obtain ⟨blanks, hb, hblanks⟩ := Text.exists_trimEnd b
  rw [ne_eq, Text.trim_eq_nil]
  constructor
  · rintro ⟨new, hcontent⟩
    obtain ⟨-, rest', hrest', hlabel, -⟩ := (contentOf_eq_node_iff_definedAt hnew).mp hcontent
    have hsame : w = rest' ++ blanks :=
      hw.rest_eq (by conv => arg 1; rw [hb]
                     exact hrest'.toCut.append blanks)
    refine ⟨fun hblank => hrest'.filled ?_, ?_⟩
    · rw [hsame, Text.allBlank_append] at hblank
      exact hblank.1
    · rw [hsame, Text.trim_append_blank hblanks] at hlabel ⊢
      cases hcase : (Bracket.splitTrailing (Text.trim rest')).2 with
      | none => rfl
      | some inner' =>
          have hlt := Bracket.length_of_splitTrailing hcase
          rw [← hlabel] at hlt
          omega
  · rintro ⟨hfilled, hnone⟩
    have hdefined := definedAt_drop_bracket hw hrest hfilled
    refine ⟨none, (contentOf_eq_node_iff_definedAt hnew).mpr ⟨?_, _, hdefined, ?_⟩⟩
    · rwa [dashes_trimEnd]
    · rw [Text.trim_trimEnd, hnone, Bracket.splitTrailing_of_none hnone,
        Text.trim_trimEnd, Text.trim_trim]
      exact ⟨rfl, rfl⟩

/-- A bracket that is not read, because the definition is cut in it, is not read
whatever it holds, and the token goes with it. -/
theorem node_hidden_bracket {label : Text} (hfree : '\n' ∉ b) (hu : '\n' ∉ u ∧ '[' ∉ u)
    (hu' : '\n' ∉ u' ∧ '[' ∉ u') (h : contentOf (b ++ '[' :: (u ++ [']'])) = .node token label none)
    (label' : Text) (bracket' : Option Text) :
    (contentOf (b ++ '[' :: (u' ++ [']'])) = .node token label' bracket' → bracket' = none) ∧
      contentOf (Text.trimEnd b) ≠ .node token label' bracket' := by
  obtain ⟨-, rest, hrest, -, hnone⟩ :=
    (contentOf_eq_node_iff_definedAt (by simp [hfree, hu.1])).mp h
  obtain ⟨word, rfl⟩ : ∃ word, token = b ++ '[' :: word := by
    rcases cut_bracket hrest.toCut with ⟨w, -, rfl⟩ | ⟨word, -, htoken, -⟩
    · rw [Bracket.splitTrailing_trim w hu.2] at hnone
      cases hnone
    · exact ⟨word, htoken⟩
  constructor
  · intro hcontent
    obtain ⟨-, rest', hrest', -, rfl⟩ :=
      (contentOf_eq_node_iff_definedAt (by simp [hfree, hu'.1])).mp hcontent
    rcases cut_bracket hrest'.toCut with ⟨w, hw, -⟩ | ⟨_, gap, -, hsplit, -⟩
    · have hle := hw.token_prefix.length_le
      simp only [List.length_append, List.length_cons] at hle
      omega
    · have hopen : '[' ∉ Text.trim rest' := by
        intro hmem
        have hin : '[' ∈ u' ++ [']'] := by
          rw [hsplit]
          simp [Text.mem_of_mem_trim hmem]
        simp [hu'.2] at hin
      rw [Bracket.splitTrailing_of_not_mem hopen]
  · intro hcontent
    have hnew : '\n' ∉ Text.trimEnd b := fun hmem => hfree (Text.mem_of_mem_trimEnd hmem)
    obtain ⟨-, rest', hrest', -⟩ := (contentOf_eq_node_iff_definedAt hnew).mp hcontent
    obtain ⟨blanks, hb, -⟩ := Text.exists_trimEnd b
    have hle := hrest'.toCut.token_prefix.length_le
    have hlength := congrArg List.length hb
    simp only [List.length_append, List.length_cons] at hle hlength
    omega

end Places

end LineDiagram.Line
