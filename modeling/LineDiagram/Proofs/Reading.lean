import LineDiagram.Line.Basic
import LineDiagram.Proofs.Text

/-!
# How code is read

The rules for code are tried in order, and what a line says tells which of them
fitted.  A definition is a token without blanks, two colons and a value, and the
token alone fixes where the value starts.  An edge is cut at its first arrow;
where that is found does not depend on what follows the arrow, as long as there
is something.

* `contentOf_eq_node_iff`, `contentOf_eq_edge_iff` — which rule has fitted;
* `splitTrailing_bracketed`, `splitTrailing_bare` — the bracket at the end of a
  text;
* `value_of_token` — the value of a definition, from its token;
* `arrowParts?_append`, `arrowParts?_suffix` — the first arrow when text is
  added at the end;
* `contentOf_rebracket`, `contentOf_add_bracket` — an edge with another bracket.
-/

namespace LineDiagram

namespace Bracket

/-- A bracket at the end of a text, opened by its last `[`.  Any `[` before that
belongs to what stands in front. -/
theorem splitTrailing_bracketed (before : Text) {inside : Text} (h : '[' ∉ inside) :
    splitTrailing (before ++ '[' :: (inside ++ [']'])) =
      (Text.trimEnd before, some (Text.trim inside)) := by
  have hcut : Text.cutLast? '[' (before ++ '[' :: (inside ++ [']'])) =
      some (before, inside ++ [']']) :=
    Text.cutLast?_eq_some_iff.mpr ⟨rfl, by simpa using h⟩
  have htrim : Text.trimEnd (inside ++ [']']) = inside ++ [']'] :=
    Text.trimEnd_concat (by decide) inside
  unfold splitTrailing
  simp [hcut, htrim]

/-- A text that does not end in `]` ends in no bracket. -/
theorem splitTrailing_bare {t : Text} (h : (Text.trimEnd t).getLast? ≠ some ']') :
    splitTrailing t = (Text.trimEnd t, none) := by
  unfold splitTrailing
  split
  · rename_i before inside hcut
    obtain ⟨rfl, -⟩ := Text.cutLast?_eq_some_iff.mp hcut
    split
    · rename_i inner hrev
      have hinside : Text.trimEnd inside = inner.reverse ++ [']'] := by
        have := congrArg List.reverse hrev
        simpa using this
      have hne : ¬ Text.AllBlank inside := by
        intro hblank
        rw [Text.trimEnd_eq_nil.mpr hblank] at hinside
        simp at hinside
      have hwhole : Text.trimEnd (before ++ '[' :: inside) =
          before ++ '[' :: Text.trimEnd inside := by
        rw [← List.singleton_append, ← List.append_assoc, Text.trimEnd_append hne]
        simp
      have hlast : (Text.trimEnd (before ++ '[' :: inside)).getLast? = some ']' := by
        rw [hwhole, hinside, ← List.cons_append, ← List.append_assoc, List.getLast?_concat]
      exact absurd hlast h
    · rfl
  · rfl

/-- A text without `[` has no bracket. -/
theorem splitTrailing_of_not_mem {t : Text} (h : '[' ∉ t) :
    splitTrailing t = (Text.trimEnd t, none) := by
  unfold splitTrailing
  rw [Text.cutLast?_eq_none_iff.mpr h]

/-- Where no bracket is found the text stays whole, but for the blanks at its
end. -/
theorem splitTrailing_of_none {t : Text} (h : (splitTrailing t).2 = none) :
    (splitTrailing t).1 = Text.trimEnd t := by
  unfold splitTrailing at h ⊢
  split
  · split
    · rename_i hcut _ inner hrev
      simp [hcut, hrev] at h
    · rfl
  · rfl

/-- A text that ends in a bracket is longer than what stands before it, by the
two brackets at least. -/
theorem length_of_splitTrailing {t inner : Text} (h : (splitTrailing t).2 = some inner) :
    (Text.trim (splitTrailing t).1).length < t.length := by
  have hshort : ∀ before : Text, (Text.trim (Text.trimEnd before)).length ≤ before.length := by
    intro before
    obtain ⟨a, b, hbefore, -⟩ := Text.exists_trim before
    rw [Text.trim_trimEnd]
    conv_rhs => rw [hbefore]
    simp only [List.length_append]
    omega
  unfold splitTrailing at h ⊢
  split at h
  · rename_i before inside hcut
    obtain ⟨rfl, -⟩ := Text.cutLast?_eq_some_iff.mp hcut
    split at h
    · simp only [List.length_append, List.length_cons]
      have := hshort before
      omega
    · cases h
  · cases h

/-- A value with a bracket at its end. -/
theorem splitTrailing_trim (w : Text) {u : Text} (hu : '[' ∉ u) :
    splitTrailing (Text.trim (w ++ '[' :: (u ++ [']']))) = (Text.trim w, some (Text.trim u)) := by
  rw [Text.trim_append_solid (by decide) (by decide), splitTrailing_bracketed _ hu]
  rfl

/-- Code that ends in no bracket has no value that does, because a value goes up
to the end of the code. -/
theorem splitTrailing_of_suffix {code value : Text} (hsuffix : value <:+ code) (hne : value ≠ [])
    (hstop : ∀ c, code.getLast? = some c → Text.isBlank c = false)
    (hend : '[' ∈ code → code.getLast? ≠ some ']') :
    splitTrailing (Text.trim value) = (Text.trim value, none) := by
  have hlast : value.getLast? = code.getLast? := by
    obtain ⟨pre, rfl⟩ := hsuffix
    exact (List.getLast?_append_of_ne_nil pre hne).symm
  have hself : Text.trimEnd (Text.trim value) = Text.trim value :=
    Text.trimEnd_eq_self (Text.tight_trim value).stop
  by_cases hopen : '[' ∈ Text.trim value
  · have htrim : (Text.trim value).getLast? = value.getLast? := by
      obtain ⟨a, b, hvalue, -, hblank⟩ := Text.exists_trim value
      rcases List.eq_nil_or_concat b with rfl | ⟨init, last, rfl⟩
      · conv_rhs => rw [hvalue, List.append_nil, List.getLast?_append_of_ne_nil a
          (List.ne_nil_of_mem hopen)]
      · have hsolid := hstop last (by rw [← hlast, hvalue]; simp)
        have hspace : Text.isBlank last = true := hblank last (by simp)
        exact absurd (hspace.symm.trans hsolid) (by decide)
    rw [splitTrailing_bare
      (by rw [hself, htrim, hlast]; exact hend (hsuffix.subset (Text.mem_of_mem_trim hopen))),
      hself]
  · rw [splitTrailing_of_not_mem hopen, hself]

end Bracket

namespace Line

/-! ## Which rule fitted -/

/-- What is read as a marker is a marker. -/
private theorem marker?_eq_some {code : Text} {content : Content}
    (h : marker? code = some content) :
    ∃ depth label bracket, content = .marker depth label bracket := by
  unfold marker? at h
  dsimp only at h
  split at h
  · cases h
    exact ⟨_, _, _, rfl⟩
  · cases h

/-- What is read as a settings line is one, with a phrase that is known. -/
private theorem setting?_eq_some {code : Text} {content : Content}
    (h : setting? code = some content) :
    ∃ phrase known value, content = .setting phrase known value := by
  unfold setting? at h
  obtain ⟨parts, -, rfl⟩ := Option.map_eq_some_iff.mp h
  exact ⟨_, _, _, rfl⟩

/-- What is read as a definition is the token before the colons, and the value
behind them, cut into a label and a bracket. -/
private theorem node?_eq_some {code : Text} {content : Content} (h : node? code = some content) :
    ∃ word value, definitionParts? code = some (word, value) ∧
      content = .node (Text.trim word) (Text.trim (Bracket.splitTrailing (Text.trim value)).1)
        (Bracket.splitTrailing (Text.trim value)).2 := by
  unfold node? at h
  obtain ⟨⟨word, value⟩, hparts, rfl⟩ := Option.map_eq_some_iff.mp h
  exact ⟨word, value, hparts, rfl⟩

/-- What is read as an edge is the side before the arrow, and what is behind it,
cut into a side and a bracket. -/
private theorem edge?_eq_some {code : Text} {content : Content} (h : edge? code = some content) :
    ∃ sources value, arrowParts? [] code = some (sources, value) ∧
      content = .edge (Text.trim sources) (Text.trim (Bracket.splitTrailing (Text.trim value)).1)
        (Bracket.splitTrailing (Text.trim value)).2 := by
  unfold edge? at h
  obtain ⟨⟨sources, value⟩, hparts, rfl⟩ := Option.map_eq_some_iff.mp h
  exact ⟨sources, value, hparts, rfl⟩

/-- The first rule that fits, if code is not blank and one does.  The rules
before it do not fit, in the order marker, setting, node, edge. -/
private theorem contentOf_cases {code : Text} {content : Content} (h : contentOf code = content)
    (hblank : content ≠ .blank) (hknown : content ≠ .unrecognised) :
    code ≠ [] ∧ (marker? code = some content ∨
      marker? code = none ∧ (setting? code = some content ∨
        setting? code = none ∧ (node? code = some content ∨
          node? code = none ∧ edge? code = some content))) := by
  unfold contentOf at h
  split at h
  · exact absurd h.symm hblank
  · rename_i hcode
    refine ⟨by simpa using hcode, ?_⟩
    cases hmarker : marker? code with
    | some found => simp_all
    | none =>
        cases hsetting : setting? code with
        | some found => simp_all
        | none =>
            cases hnode : node? code with
            | some found => simp_all
            | none =>
                cases hedge : edge? code with
                | some found => simp_all
                | none =>
                  exact absurd (by simpa [hmarker, hsetting, hnode, hedge] using h.symm) hknown

/-- Code is a marker when two dashes or more stand in front of one line.  What
follows them is the label, and a bracket at its end. -/
theorem contentOf_eq_marker_iff {code label : Text} {depth : Nat} {bracket : Option Text} :
    contentOf code = .marker depth label bracket ↔
      2 ≤ depth ∧ (code.takeWhile (· == '-')).length = depth ∧ '\n' ∉ code.dropWhile (· == '-') ∧
      Text.trim (Bracket.splitTrailing (Text.trim (code.dropWhile (· == '-')))).1 = label ∧
      (Bracket.splitTrailing (Text.trim (code.dropWhile (· == '-')))).2 = bracket := by
  constructor
  · intro h
    have hmarker : marker? code = some (.marker depth label bracket) := by
      obtain ⟨-, hmarker | ⟨-, hsetting | ⟨-, hnode | ⟨-, hedge⟩⟩⟩⟩ :=
        contentOf_cases h (by simp) (by simp)
      · exact hmarker
      · obtain ⟨_, _, _, hcontent⟩ := setting?_eq_some hsetting
        cases hcontent
      · obtain ⟨_, _, _, hcontent⟩ := node?_eq_some hnode
        cases hcontent
      · obtain ⟨_, _, _, hcontent⟩ := edge?_eq_some hedge
        cases hcontent
    unfold marker? at hmarker
    dsimp only at hmarker
    split at hmarker
    · rename_i hdashes
      cases hmarker
      simp only [Bool.and_eq_true, decide_eq_true_eq, Bool.not_eq_true',
        List.contains_eq_mem, decide_eq_false_iff_not] at hdashes
      exact ⟨hdashes.1, rfl, hdashes.2, rfl, rfl⟩
    · cases hmarker
  · rintro ⟨hdepth, rfl, hfree, rfl, rfl⟩
    have hcode : code ≠ [] := by
      rintro rfl
      simp at hdepth
    unfold contentOf marker?
    simp [hcode, hdepth, hfree]

/-- A phrase is read whatever its case, with any blanks around it. -/
theorem settingPhrase?_eq_some_iff {t : Text} {phrase : { t : Text // isSettingPhrase t = true }} :
    settingPhrase? t = some phrase ↔ phrase.1 = Text.lower (Text.trim t) := by
  unfold settingPhrase?
  dsimp only
  split
  · rw [Option.some_inj, Subtype.ext_iff]
    exact eq_comm
  · rename_i hunknown
    constructor
    · intro h
      cases h
    · intro h
      exact absurd (h ▸ phrase.2) hunknown

/-- A settings line is a known phrase, a colon and something for a value,
without arrow and double colon. -/
theorem settingParts?_eq_some_iff {code rest : Text}
    {phrase : { t : Text // isSettingPhrase t = true }} :
    settingParts? code = some (phrase, rest) ↔
      ∃ written, code = written ++ ':' :: rest ∧ ':' ∉ written ∧ Text.hasPart "->" code = false ∧
        Text.hasPart "::" code = false ∧ hasValue rest = true ∧
        phrase.1 = Text.lower (Text.trim written) := by
  have hcode : code.takeWhile (· != ':') ++ code.dropWhile (· != ':') = code :=
    List.takeWhile_append_dropWhile
  unfold settingParts?
  constructor
  · intro h
    split at h
    · cases h
    · rename_i hparts
      simp only [Bool.or_eq_true, not_or, Bool.not_eq_true] at hparts
      split at h
      · rename_i tail hdrop
        split at h
        · rename_i hvalue
          obtain ⟨found, hphrase, heq⟩ := Option.map_eq_some_iff.mp h
          cases heq
          rw [hdrop] at hcode
          refine ⟨_, hcode.symm, ?_, hparts.1, hparts.2, hvalue,
            settingPhrase?_eq_some_iff.mp hphrase⟩
          intro hmem
          simpa using List.mem_takeWhile_imp hmem
        · cases h
      · cases h
  · rintro ⟨written, rfl, hcolon, harrow, hcolons, hvalue, hphrase⟩
    have hall : ∀ c ∈ written, (c != ':') = true := by
      intro c hc
      simpa using fun heq : c = ':' => hcolon (heq ▸ hc)
    rw [harrow, hcolons, List.takeWhile_append_of_pos hall, List.dropWhile_append_of_pos hall]
    simp [hvalue, settingPhrase?_eq_some_iff.mpr hphrase]

/-- Code says a setting when it is a settings line and no marker.  The value is
what follows the first colon, without the blanks around it. -/
theorem contentOf_eq_setting_iff {code phrase value : Text}
    {known : isSettingPhrase phrase = true} :
    contentOf code = .setting phrase known value ↔
      marker? code = none ∧ ∃ rest, settingParts? code = some (⟨phrase, known⟩, rest) ∧
        value = Text.trim rest := by
  constructor
  · intro h
    obtain ⟨-, hmarker | ⟨hmarker, hsetting | ⟨-, hnode | ⟨-, hedge⟩⟩⟩⟩ :=
      contentOf_cases h (by simp) (by simp)
    · obtain ⟨_, _, _, hcontent⟩ := marker?_eq_some hmarker
      cases hcontent
    · obtain ⟨⟨found, rest⟩, hparts, hcontent⟩ := Option.map_eq_some_iff.mp hsetting
      cases hcontent
      exact ⟨hmarker, rest, hparts, rfl⟩
    · obtain ⟨_, _, _, hcontent⟩ := node?_eq_some hnode
      cases hcontent
    · obtain ⟨_, _, _, hcontent⟩ := edge?_eq_some hedge
      cases hcontent
  · rintro ⟨hmarker, rest, hparts, rfl⟩
    have hcode : code ≠ [] := by
      obtain ⟨written, hcode, -⟩ := settingParts?_eq_some_iff.mp hparts
      simp [hcode]
    unfold contentOf setting?
    simp [hcode, hmarker, hparts]

/-- Code says a definition exactly when it is cut into one, and neither a marker
nor a settings line. -/
theorem contentOf_eq_node_iff {code token label : Text} {bracket : Option Text} :
    contentOf code = .node token label bracket ↔
      marker? code = none ∧ setting? code = none ∧
        ∃ word value, definitionParts? code = some (word, value) ∧ token = Text.trim word ∧
          label = Text.trim (Bracket.splitTrailing (Text.trim value)).1 ∧
          bracket = (Bracket.splitTrailing (Text.trim value)).2 := by
  constructor
  · intro h
    obtain ⟨-, hmarker | ⟨hmarker, hsetting | ⟨hsetting, hnode | ⟨-, hedge⟩⟩⟩⟩ :=
      contentOf_cases h (by simp) (by simp)
    · obtain ⟨_, _, _, hcontent⟩ := marker?_eq_some hmarker
      cases hcontent
    · obtain ⟨_, _, _, hcontent⟩ := setting?_eq_some hsetting
      cases hcontent
    · obtain ⟨word, value, hparts, hcontent⟩ := node?_eq_some hnode
      cases hcontent
      exact ⟨hmarker, hsetting, word, value, hparts, rfl, rfl, rfl⟩
    · obtain ⟨_, _, _, hcontent⟩ := edge?_eq_some hedge
      cases hcontent
  · rintro ⟨hmarker, hsetting, word, value, hparts, rfl, rfl, rfl⟩
    have hcode : code ≠ [] := by
      rintro rfl
      simp [definitionParts?] at hparts
    simp [contentOf, hcode, hmarker, hsetting, node?, hparts]

/-- Code says an edge exactly when it has an arrow and no earlier rule fits; the
sides are what stands before and behind the arrow. -/
theorem contentOf_eq_edge_iff {code sources targets : Text} {bracket : Option Text} :
    contentOf code = .edge sources targets bracket ↔
      marker? code = none ∧ setting? code = none ∧ node? code = none ∧
        ∃ side value, arrowParts? [] code = some (side, value) ∧ sources = Text.trim side ∧
          targets = Text.trim (Bracket.splitTrailing (Text.trim value)).1 ∧
          bracket = (Bracket.splitTrailing (Text.trim value)).2 := by
  constructor
  · intro h
    obtain ⟨-, hmarker | ⟨hmarker, hsetting | ⟨hsetting, hnode | ⟨hnode, hedge⟩⟩⟩⟩ :=
      contentOf_cases h (by simp) (by simp)
    · obtain ⟨_, _, _, hcontent⟩ := marker?_eq_some hmarker
      cases hcontent
    · obtain ⟨_, _, _, hcontent⟩ := setting?_eq_some hsetting
      cases hcontent
    · obtain ⟨_, _, _, hcontent⟩ := node?_eq_some hnode
      cases hcontent
    · obtain ⟨side, value, hparts, hcontent⟩ := edge?_eq_some hedge
      cases hcontent
      exact ⟨hmarker, hsetting, hnode, side, value, hparts, rfl, rfl, rfl⟩
  · rintro ⟨hmarker, hsetting, hnode, side, value, hparts, rfl, rfl, rfl⟩
    have hcode : code ≠ [] := by
      rintro rfl
      simp [arrowParts?] at hparts
    have hedge : edge? code = some (.edge (Text.trim side)
        (Text.trim (Bracket.splitTrailing (Text.trim value)).1)
        (Bracket.splitTrailing (Text.trim value)).2) := by
      simp [edge?, hparts]
    simp [contentOf, hcode, hmarker, hsetting, hnode, hedge]

/-- A line defines no node exactly if it is read as no definition. -/
theorem definedNode?_eq_none_iff {raw : Text} :
    (ofText raw).definedNode? = none ↔
      ∀ token label bracket, contentOfRaw raw ≠ .node token label bracket := by
  have hcontent : (ofText raw).content = contentOfRaw raw := rfl
  unfold definedNode?
  rw [hcontent]
  cases contentOfRaw raw <;> simp

/-! ## Definitions -/

/-- A value is what follows the blanks, and it is not empty. -/
theorem value?_eq_some {t value : Text} (h : value? t = some value) :
    value = Text.trimStart t ∧ value ≠ [] := by
  unfold value? at h
  dsimp only at h
  split at h
  · cases h
  · rename_i hvalue
    cases h
    simp only [Bool.or_eq_true, not_or, List.isEmpty_iff] at hvalue
    exact ⟨rfl, hvalue.1⟩

/-- A place where code may be cut into a definition: a token without blanks, two
colons, perhaps after blanks, and the rest. -/
structure Cut (code token rest : Text) : Prop where
  /-- The token is not empty. -/
  token_ne : token ≠ []
  /-- There are no blanks in the token. -/
  token_solid : ∀ c ∈ token, Text.isBlank c = false
  /-- Put together they are the code. -/
  code_eq : ∃ gap, code = token ++ gap ++ ':' :: ':' :: rest ∧ Text.AllBlank gap

/-- The parts of a definition: a token without blanks, two colons, perhaps
between blanks, and a value that starts with no blank. -/
structure Defines (code token value : Text) : Prop where
  /-- The token is not empty. -/
  token_ne : token ≠ []
  /-- There are no blanks in the token. -/
  token_solid : ∀ c ∈ token, Text.isBlank c = false
  /-- The value starts with no blank. -/
  value_start : ∀ c, value.head? = some c → Text.isBlank c = false
  /-- Put together they are the code. -/
  code_eq : ∃ gap blanks, code = token ++ gap ++ ':' :: ':' :: (blanks ++ value) ∧
    Text.AllBlank gap ∧ Text.AllBlank blanks

/-- The text after two colons, as blanks and a value. -/
private theorem exists_blanks {t value : Text} (h : value? t = some value) :
    ∃ blanks, t = blanks ++ value ∧ Text.AllBlank blanks := by
  obtain ⟨rfl, -⟩ := value?_eq_some h
  exact ⟨Text.margin t, (Text.margin_append_trimStart t).symm, Text.allBlank_margin t⟩

private theorem value_start {t value : Text} (h : value? t = some value) :
    ∀ c, value.head? = some c → Text.isBlank c = false := by
  obtain ⟨rfl, -⟩ := value?_eq_some h
  exact fun c hc => Text.head_trimStart hc

/-- What the search inside the first word finds: a token that is not empty, two
colons behind it in the word, and a value behind those. -/
private theorem insideColons?_eq_some {rest reversed after token value : Text}
    (h : insideColons? rest reversed after = some (token, value)) :
    token ≠ [] ∧ ∃ more, reversed.reverse ++ after = token ++ ':' :: ':' :: more ∧
      value? (more ++ rest) = some value := by
  induction reversed generalizing after with
  | nil => simp [insideColons?] at h
  | cons c before ih =>
      -- The colons stand right here, or the search goes on one character to the left.
      have hleft : insideColons? rest before (c :: after) = some (token, value) →
          token ≠ [] ∧ ∃ more, (c :: before).reverse ++ after = token ++ ':' :: ':' :: more ∧
            value? (more ++ rest) = some value := by
        intro hfound
        obtain ⟨hne, more, hword, hvalue⟩ := ih hfound
        exact ⟨hne, more, by simpa using hword, hvalue⟩
      unfold insideColons? at h
      dsimp only at h
      split at h
      · rename_i parts hfound
        cases h
        split at hfound
        · rename_i more
          obtain ⟨found, hvalue, heq⟩ := Option.map_eq_some_iff.mp hfound
          cases heq
          exact ⟨by simp, more, rfl, hvalue⟩
        · cases hfound
      · exact hleft h

/-- A definition is cut at one of the places where a value follows. -/
theorem definitionParts?_cut {code token value : Text}
    (h : definitionParts? code = some (token, value)) :
    ∃ rest, Cut code token rest ∧ value? rest = some value := by
  have hcode : code.takeWhile (fun c => !Text.isBlank c) ++
      code.dropWhile (fun c => !Text.isBlank c) = code := List.takeWhile_append_dropWhile
  have hword : ∀ c ∈ code.takeWhile (fun c => !Text.isBlank c), Text.isBlank c = false := by
    intro c hc
    simpa using List.mem_takeWhile_imp hc
  unfold definitionParts? at h
  dsimp only at h
  generalize code.takeWhile (fun c => !Text.isBlank c) = word at h hcode hword
  generalize code.dropWhile (fun c => !Text.isBlank c) = rest at h hcode
  split at h
  · cases h
  · rename_i hne
    split at h
    · rename_i parts hfound
      cases h
      split at hfound
      · rename_i more hrest
        obtain ⟨found, hvalue, heq⟩ := Option.map_eq_some_iff.mp hfound
        cases heq
        refine ⟨more,
          ⟨by simpa using hne, hword, Text.margin rest, ?_, Text.allBlank_margin rest⟩, hvalue⟩
        rw [← hcode, List.append_assoc, ← hrest, Text.margin_append_trimStart]
      · cases hfound
    · obtain ⟨htoken, more, hsplit, hvalue⟩ := insideColons?_eq_some h
      rw [List.reverse_reverse, List.append_nil] at hsplit
      refine ⟨more ++ rest, ⟨htoken, ?_, [], ?_, Text.allBlank_nil⟩, hvalue⟩
      · intro c hc
        exact hword c (by rw [hsplit]; exact List.mem_append_left _ hc)
      · rw [← hcode, hsplit]
        simp

/-- **The parts of a definition** as the reader cuts them: a token without
blanks, two colons, and a value that starts with no blank. -/
theorem definitionParts?_defines {code token value : Text}
    (h : definitionParts? code = some (token, value)) : Defines code token value := by
  obtain ⟨rest, hcut, hvalue⟩ := definitionParts?_cut h
  obtain ⟨gap, hcode, hgap⟩ := hcut.code_eq
  obtain ⟨blanks, rfl, hblanks⟩ := exists_blanks hvalue
  exact ⟨hcut.token_ne, hcut.token_solid, value_start hvalue, gap, blanks, hcode, hgap, hblanks⟩

/-- Blanks in front of texts that start with none are the same when the whole
is. -/
private theorem blanks_unique {a b s t : Text} (ha : Text.AllBlank a) (hb : Text.AllBlank b)
    (hs : ∀ c, s.head? = some c → Text.isBlank c = false)
    (ht : ∀ c, t.head? = some c → Text.isBlank c = false) (h : a ++ s = b ++ t) : s = t := by
  have htrim := congrArg Text.trimStart h
  rwa [Text.trimStart_of_blank_append ha, Text.trimStart_of_blank_append hb,
    Text.trimStart_eq_self hs, Text.trimStart_eq_self ht] at htrim

/-- The token of a definition fixes its value, since the cut is made right
behind it. -/
theorem value_of_token {code token v w : Text} (hv : Defines code token v)
    (hw : Defines code token w) : v = w := by
  obtain ⟨gap, blanks, hcode, hgap, hblanks⟩ := hv.code_eq
  obtain ⟨gap', blanks', hcode', hgap', hblanks'⟩ := hw.code_eq
  have hcolon : ∀ rest : Text, ∀ c, (':' :: rest).head? = some c → Text.isBlank c = false := by
    intro rest c hc
    cases hc
    decide
  rw [hcode, List.append_assoc, List.append_assoc, List.append_cancel_left_eq] at hcode'
  have hrest := blanks_unique hgap hgap' (hcolon _) (hcolon _) hcode'
  rw [List.cons.injEq, List.cons.injEq] at hrest
  exact blanks_unique hblanks hblanks' hv.value_start hw.value_start hrest.2.2

/-! ## Arrows -/

/-- An arrow with text on both sides starts a text; `before` is what precedes
it, reversed. -/
inductive ArrowHere (before : Text) : Text → Prop
  | intro (more : Text) (hbefore : ¬ Text.AllBlank before) (hmore : ¬ Text.AllBlank more) :
      ArrowHere before ('-' :: '>' :: more)

/-- On one line, anything other than blanks is a value. -/
theorem value?_of_not_blank {t : Text} (h : ¬ Text.AllBlank t) (hfree : '\n' ∉ t) :
    value? t = some (Text.trimStart t) := by
  have hne : Text.trimStart t ≠ [] := fun hnil => h (Text.trimStart_eq_nil.mp hnil)
  have hline : '\n' ∉ Text.trimStart t := fun hmem => hfree (Text.mem_of_mem_trimStart hmem)
  unfold value?
  simp [hne, hline]

/-- An edge is cut at an arrow that has text on both sides.  What stands before
it is kept in reverse during the search. -/
theorem arrowParts?_here {before more : Text} (hbefore : ¬ Text.AllBlank before)
    (hmore : ¬ Text.AllBlank more) (hfree : '\n' ∉ before) (hfree' : '\n' ∉ more) :
    arrowParts? before ('-' :: '>' :: more) =
      some ((Text.trimStart before).reverse, Text.trimStart more) := by
  have hne : Text.trimStart before ≠ [] := fun hnil => hbefore (Text.trimStart_eq_nil.mp hnil)
  have hline : '\n' ∉ Text.trimStart before := fun hmem => hfree (Text.mem_of_mem_trimStart hmem)
  rw [arrowParts?]
  simp [hne, hline, value?_of_not_blank hmore hfree']

/-- Where there is no arrow the search goes on. -/
theorem arrowParts?_skip {before rest : Text} {c : Char} (h : ¬ ArrowHere before (c :: rest)) :
    arrowParts? before (c :: rest) = arrowParts? (c :: before) rest := by
  by_cases hshape : ∃ more, c = '-' ∧ rest = '>' :: more
  · obtain ⟨more, rfl, rfl⟩ := hshape
    rw [arrowParts?]
    split
    · rename_i parts hfound
      split at hfound
      · cases hfound
      · rename_i hhead
        obtain ⟨value, hvalue, -⟩ := Option.map_eq_some_iff.mp hfound
        obtain ⟨rfl, hne⟩ := value?_eq_some hvalue
        simp only [Bool.or_eq_true, not_or, List.isEmpty_iff] at hhead
        refine absurd (ArrowHere.intro more ?_ ?_) h
        · exact fun hblank => hhead.1 (Text.trimStart_eq_nil.mpr hblank)
        · exact fun hblank => hne (Text.trimStart_eq_nil.mpr hblank)
    · rfl
  · rw [arrowParts?]
    exact fun more hc hrest => hshape ⟨more, hc, hrest⟩

/-- The arrow that was found, with what stands before and after it; both sides
are more than blanks. -/
theorem arrowParts?_cut {before t side value : Text} (hbefore : '\n' ∉ before) (hfree : '\n' ∉ t)
    (h : arrowParts? before t = some (side, value)) :
    ∃ pre more, t = pre ++ '-' :: '>' :: more ∧ ¬ Text.AllBlank (before.reverse ++ pre) ∧
      ¬ Text.AllBlank more ∧ side = Text.trimEnd (before.reverse ++ pre) ∧
      value = Text.trimStart more := by
  induction t generalizing before with
  | nil => simp [arrowParts?] at h
  | cons c rest ih =>
      simp only [List.mem_cons, not_or] at hfree
      by_cases hhere : ArrowHere before (c :: rest)
      · obtain ⟨more, hblank, hmore⟩ := hhere
        simp only [List.mem_cons, not_or] at hfree
        rw [arrowParts?_here hblank hmore hbefore hfree.2.2] at h
        cases h
        refine ⟨[], more, rfl, ?_, hmore, ?_, rfl⟩
        · intro hall
          exact hblank (fun d hd => hall d (by simpa using hd))
        · simp [Text.trimEnd, Text.dropEndWhile, Text.trimStart]
      · rw [arrowParts?_skip hhere] at h
        obtain ⟨pre, more, rfl, hblank, hmore, hside, hvalue⟩ :=
          ih (by simpa using ⟨hfree.1, hbefore⟩) hfree.2 h
        rw [List.reverse_cons, List.append_assoc, List.singleton_append] at hblank hside
        exact ⟨c :: pre, more, rfl, hblank, hmore, hside, hvalue⟩

/-- The arrow that was found, and the value after it. -/
theorem arrowParts?_eq_some {before t side value : Text}
    (hbefore : '\n' ∉ before) (hfree : '\n' ∉ t) (h : arrowParts? before t = some (side, value)) :
    ∃ pre more, t = pre ++ '-' :: '>' :: more ∧ ¬ Text.AllBlank more ∧
      value = Text.trimStart more := by
  obtain ⟨pre, more, ht, -, hmore, -, hvalue⟩ := arrowParts?_cut hbefore hfree h
  exact ⟨pre, more, ht, hmore, hvalue⟩

theorem value_suffix {before t side value : Text} (hbefore : '\n' ∉ before) (hfree : '\n' ∉ t)
    (h : arrowParts? before t = some (side, value)) : value <:+ t := by
  obtain ⟨pre, more, rfl, -, rfl⟩ := arrowParts?_eq_some hbefore hfree h
  refine ⟨pre ++ '-' :: '>' :: Text.margin more, ?_⟩
  rw [List.append_assoc, List.cons_append, List.cons_append, Text.margin_append_trimStart]

/-- **Text that is added at the end** belongs to the value after the arrow: the
first arrow that fits is still the first. -/
theorem arrowParts?_append {before t side value : Text} (hbefore : '\n' ∉ before) (hfree : '\n' ∉ t)
    (h : arrowParts? before t = some (side, value)) {u : Text} (hu : '\n' ∉ u) :
    arrowParts? before (t ++ u) = some (side, value ++ u) := by
  induction t generalizing before with
  | nil => simp [arrowParts?] at h
  | cons c rest ih =>
      have hrest : '\n' ∉ rest := fun hmem => hfree (List.mem_cons_of_mem _ hmem)
      have hnext : '\n' ∉ c :: before := by
        simp only [List.mem_cons, not_or] at hfree ⊢
        exact ⟨hfree.1, hbefore⟩
      by_cases hhere : ArrowHere before (c :: rest)
      · obtain ⟨more, hblank, hmore⟩ := hhere
        have hmoreFree : '\n' ∉ more := fun hmem => hrest (List.mem_cons_of_mem _ hmem)
        rw [arrowParts?_here hblank hmore hbefore hmoreFree] at h
        cases h
        rw [List.cons_append, List.cons_append, arrowParts?_here hblank _ hbefore,
          Text.trimStart_append hmore]
        · simp [hmoreFree, hu]
        · exact fun hall => hmore (Text.allBlank_append.mp hall).1
      · rw [arrowParts?_skip hhere] at h
        rw [List.cons_append, arrowParts?_skip, ih hnext hrest h]
        -- An arrow here would have a later one after it, so it was one before, too.
        intro harrow
        obtain ⟨pre, more, rfl, -, -⟩ := arrowParts?_eq_some hnext hrest h
        cases pre with
        | nil =>
            generalize hwhole : c :: ([] ++ '-' :: '>' :: more ++ u) = whole at harrow
            obtain ⟨after, -, -⟩ := harrow
            simp at hwhole
        | cons d pre =>
            generalize hwhole : c :: (d :: pre ++ '-' :: '>' :: more ++ u) = whole at harrow
            obtain ⟨after, hblank, -⟩ := harrow
            simp only [List.cons_append, List.cons.injEq] at hwhole
            obtain ⟨rfl, rfl, -⟩ := hwhole
            refine hhere (.intro _ hblank fun hall => ?_)
            exact hall.not_mem (c := '-') (by decide) (by simp)

/-- The first arrow after the last `[` has no `[` in its value, so its edge has
no bracket there. -/
theorem arrowParts?_suffix {before stem u side value : Text} (hbefore : '\n' ∉ before)
    (hstem : '\n' ∉ stem) (hu : '\n' ∉ u) (hnone : arrowParts? before (stem ++ ['[']) = none)
    (h : arrowParts? before (stem ++ '[' :: u) = some (side, value)) : value <:+ u := by
  induction stem generalizing before with
  | nil =>
      have hskip : ¬ ArrowHere before ('[' :: u) := by
        rintro ⟨⟩
      rw [List.nil_append, arrowParts?_skip hskip] at h
      exact value_suffix (by simp [hbefore]) hu h
  | cons c rest ih =>
      have hrest : '\n' ∉ rest := fun hmem => hstem (List.mem_cons_of_mem _ hmem)
      have hnext : '\n' ∉ c :: before := by
        simp only [List.mem_cons, not_or] at hstem ⊢
        exact ⟨hstem.1, hbefore⟩
      -- The `[` is no blank, so an arrow before it has a value whatever follows.
      have hskip : ∀ z, ¬ ArrowHere before (c :: (rest ++ '[' :: z)) := by
        intro z harrow
        generalize hwhole : c :: (rest ++ '[' :: z) = whole at harrow
        obtain ⟨after, hblank, -⟩ := harrow
        cases rest with
        | nil => simp at hwhole
        | cons d rest =>
            simp only [List.cons_append, List.cons.injEq] at hwhole
            obtain ⟨rfl, rfl, -⟩ := hwhole
            have hmore : ¬ Text.AllBlank (rest ++ ['[']) :=
              fun hall => hall.not_mem (c := '[') (by decide) (by simp)
            have hmoreFree : '\n' ∉ rest ++ ['['] := by
              simpa using hrest
            rw [List.cons_append, List.cons_append,
              arrowParts?_here hblank hmore hbefore hmoreFree] at hnone
            cases hnone
      rw [List.cons_append, arrowParts?_skip (hskip _)] at h hnone
      exact ih hnext hrest hnone h

/-! ## The bracket of an edge -/

/-- Code on one line is no marker exactly if it starts with fewer than two
dashes. -/
theorem marker?_eq_none_iff {code : Text} (hfree : '\n' ∉ code) :
    marker? code = none ↔ (code.takeWhile (· == '-')).length < 2 := by
  have hrest : '\n' ∉ code.dropWhile (· == '-') := fun hmem =>
    hfree ((List.dropWhile_sublist _).subset hmem)
  unfold marker?
  simp [hrest]

/-- A character that is no dash ends the dashes in front. -/
theorem dashes_append {c : Char} (hc : c ≠ '-') (a z : Text) :
    (a ++ c :: z).takeWhile (· == '-') = a.takeWhile (· == '-') := by
  induction a with
  | nil => simp [hc]
  | cons d a ih =>
      rw [List.cons_append, List.takeWhile_cons, List.takeWhile_cons, ih]

/-- Blanks at the end make no difference to the dashes at the start. -/
theorem dashes_trimEnd (t : Text) :
    (Text.trimEnd t).takeWhile (· == '-') = t.takeWhile (· == '-') := by
  obtain ⟨blanks, ht, hblanks⟩ := Text.exists_trimEnd t
  cases blanks with
  | nil =>
      conv_rhs => rw [ht]
      rw [List.append_nil]
  | cons c blanks =>
      have hc : c ≠ '-' := by
        rintro rfl
        exact absurd (hblanks '-' List.mem_cons_self) (by decide)
      conv_rhs => rw [ht, dashes_append hc]

/-- What follows the dashes goes on to the end of the text, if something else
than a dash ends them. -/
theorem after_dashes_append {c : Char} (hc : c ≠ '-') (a z : Text) :
    (a ++ c :: z).dropWhile (· == '-') = a.dropWhile (· == '-') ++ c :: z := by
  induction a with
  | nil => simp [hc]
  | cons d a ih =>
      rw [List.cons_append, List.dropWhile_cons, List.dropWhile_cons, ih]
      split
      · rfl
      · rfl

/-- Code with an arrow in it is no settings line, whatever else it holds; it may
still be an edge. -/
theorem setting?_of_arrow {code pre more : Text} (h : code = pre ++ '-' :: '>' :: more) :
    setting? code = none := by
  have hpart : Text.hasPart "->" code = true :=
    Text.hasPart_iff.mpr ⟨pre, more, by simp [h]⟩
  unfold setting? settingParts?
  rw [hpart, Bool.true_or, if_pos rfl, Option.map_none]

/-- Code that defines no node, and that no earlier rule fits, has no
definition. -/
theorem node?_eq_none {code : Text} (hmarker : marker? code = none)
    (hsetting : setting? code = none)
    (h : ∀ token label bracket, contentOf code ≠ .node token label bracket) :
    node? code = none := by
  cases hnode : node? code with
  | none => rfl
  | some content =>
      obtain ⟨word, value, -, rfl⟩ := node?_eq_some hnode
      have hcode : code ≠ [] := by
        rintro rfl
        simp [node?, definitionParts?] at hnode
      have hcontent := h (Text.trim word) (Text.trim (Bracket.splitTrailing (Text.trim value)).1)
        (Bracket.splitTrailing (Text.trim value)).2
      unfold contentOf at hcontent
      rw [hmarker, hsetting, hnode, if_neg (by simpa using hcode)] at hcontent
      exact absurd rfl hcontent

/-- Code that defines no node and has an arrow and a bracket at its end says an
edge. -/
private theorem contentOf_of_arrow {code side w u : Text} (hfree : '\n' ∉ code)
    (hdashes : (code.takeWhile (· == '-')).length < 2)
    (harrow : arrowParts? [] code = some (side, w ++ '[' :: (u ++ [']']))) (hu : '[' ∉ u)
    (hnode : ∀ token label b, contentOf code ≠ .node token label b) :
    contentOf code = .edge (Text.trim side) (Text.trim w) (some (Text.trim u)) := by
  have hmarker := (marker?_eq_none_iff hfree).mpr hdashes
  obtain ⟨pre, more, hcode, -⟩ := arrowParts?_eq_some (by simp) hfree harrow
  have hsetting := setting?_of_arrow hcode
  refine contentOf_eq_edge_iff.mpr
    ⟨hmarker, hsetting, node?_eq_none hmarker hsetting hnode, side, _, harrow, rfl, ?_, ?_⟩
  · rw [Bracket.splitTrailing_trim w hu, Text.trim_trim]
  · rw [Bracket.splitTrailing_trim w hu]

/-- **Another bracket in place of the old one.**  Where the compiler takes what
follows the last `[` for the bracket of an edge, it does so whatever stands
there, unless the line comes to be a definition.  Where it does not, there never
is a bracket. -/
theorem contentOf_rebracket {stem u u' sources targets : Text} {bracket : Option Text}
    (hstem : '\n' ∉ stem) (hu : '\n' ∉ u ∧ '[' ∉ u) (hu' : '\n' ∉ u' ∧ '[' ∉ u')
    (h : contentOf (stem ++ '[' :: (u ++ [']'])) = .edge sources targets bracket) :
    bracket = some (Text.trim u) ∧
        ((∀ token label b, contentOf (stem ++ '[' :: (u' ++ [']'])) ≠ .node token label b) →
          contentOf (stem ++ '[' :: (u' ++ [']'])) = .edge sources targets (some (Text.trim u'))) ∨
      bracket = none ∧
        ∀ s t b, contentOf (stem ++ '[' :: (u' ++ [']'])) = .edge s t b → b = none := by
  cases hcut : arrowParts? [] (stem ++ ['[']) with
  | none =>
      -- The arrow stands inside the bracket, and no `[` after it.
      have hnone : ∀ v s t b, '\n' ∉ v → '[' ∉ v →
          contentOf (stem ++ '[' :: (v ++ [']'])) = .edge s t b → b = none := by
        intro v s t b hv hopen hedge
        obtain ⟨-, -, -, side, value, harrow, -, -, rfl⟩ := contentOf_eq_edge_iff.mp hedge
        have hsuffix := arrowParts?_suffix (by simp) hstem (by simp [hv]) hcut harrow
        have hvalue : '[' ∉ Text.trim value := by
          intro hmem
          have hin := hsuffix.subset (Text.mem_of_mem_trim hmem)
          simp [hopen] at hin
        rw [Bracket.splitTrailing_of_not_mem hvalue]
      exact Or.inr ⟨hnone u _ _ _ hu.1 hu.2 h, fun s t b => hnone u' s t b hu'.1 hu'.2⟩
  | some parts =>
      obtain ⟨side, value⟩ := parts
      have hstem' : '\n' ∉ stem ++ ['['] := by simpa using hstem
      obtain ⟨-, more, -, hmore, hvalue⟩ := arrowParts?_eq_some (by simp) hstem' hcut
      obtain ⟨w, rfl⟩ : ∃ w, value = w ++ ['['] := by
        rcases List.suffix_concat_iff.mp (value_suffix (by simp) hstem' hcut) with hnil | ⟨w, hw, -⟩
        · exact absurd (Text.trimStart_eq_nil.mp (hvalue.symm.trans hnil)) hmore
        · exact ⟨w, hw⟩
      have harrow : ∀ v, '\n' ∉ v → arrowParts? [] (stem ++ '[' :: (v ++ [']'])) =
          some (side, w ++ '[' :: (v ++ [']'])) := by
        intro v hv
        have happend := arrowParts?_append (by simp) hstem' hcut (u := v ++ [']']) (by simp [hv])
        simpa using happend
      obtain ⟨hmarker, -, -, side', value', harrow', rfl, rfl, rfl⟩ := contentOf_eq_edge_iff.mp h
      obtain ⟨rfl, rfl⟩ := Prod.mk.inj (Option.some.inj (harrow'.symm.trans (harrow u hu.1)))
      rw [Bracket.splitTrailing_trim w hu.2]
      refine Or.inl ⟨rfl, fun hnode => ?_⟩
      have hfree : ∀ v, '\n' ∉ v → '\n' ∉ stem ++ '[' :: (v ++ [']']) := by
        intro v hv
        simp [hstem, hv]
      have hdashes := (marker?_eq_none_iff (hfree u hu.1)).mp hmarker
      rw [dashes_append (by decide)] at hdashes
      rw [Text.trim_trim]
      apply contentOf_of_arrow (hfree u' hu'.1) _ (harrow u' hu'.1) hu'.2 hnode
      rw [dashes_append (by decide)]
      exact hdashes

/-- **A bracket after code without one.**  The edge gets the bracket, unless the
bracket makes the line a definition, for definitions are tried before edges. -/
theorem contentOf_add_bracket {code u sources targets : Text} {bracket : Option Text}
    (hfree : '\n' ∉ code) (htight : Text.Tight code) (hend : '[' ∈ code → code.getLast? ≠ some ']')
    (hu : '\n' ∉ u ∧ '[' ∉ u) (h : contentOf code = .edge sources targets bracket) :
    bracket = none ∧
      ((∀ token label b, contentOf (code ++ ' ' :: '[' :: (u ++ [']'])) ≠ .node token label b) →
        contentOf (code ++ ' ' :: '[' :: (u ++ [']'])) =
          .edge sources targets (some (Text.trim u))) := by
  obtain ⟨hmarker, -, -, side, value, harrow, rfl, rfl, rfl⟩ := contentOf_eq_edge_iff.mp h
  obtain ⟨-, more, -, hmore, hvalue⟩ := arrowParts?_eq_some (by simp) hfree harrow
  have hsuffix := value_suffix (by simp) hfree harrow
  have hne : value ≠ [] := by
    rw [hvalue]
    exact fun hnil => hmore (Text.trimStart_eq_nil.mp hnil)
  have hbare : Bracket.splitTrailing (Text.trim value) = (Text.trim value, none) :=
    Bracket.splitTrailing_of_suffix hsuffix hne htight.stop hend
  rw [hbare]
  refine ⟨rfl, fun hnode => ?_⟩
  have hspace : Text.AllBlank [' '] := Text.allBlank_singleton (by decide)
  have hnew : arrowParts? [] (code ++ ' ' :: '[' :: (u ++ [']'])) =
      some (side, (value ++ [' ']) ++ '[' :: (u ++ [']'])) := by
    rw [arrowParts?_append (by simp) hfree harrow (by simp [hu.1])]
    simp
  have hdashes := (marker?_eq_none_iff hfree).mp hmarker
  rw [Text.trim_trim, ← Text.trim_append_blank hspace value]
  apply contentOf_of_arrow (by simp [hfree, hu.1]) _ hnew hu.2 hnode
  rw [dashes_append (by decide)]
  exact hdashes

end Line

end LineDiagram
