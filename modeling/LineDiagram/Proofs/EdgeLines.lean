import LineDiagram.Proofs.EdgeSides

/-!
# Edge lines, written and read again

An edge line is the tokens of its sources with bars between them, an arrow, the
tokens of its targets, and perhaps a bracket with the parts of the style.
Tokens may hold blanks, dashes, colons and arrowheads, as long as no arrow, no
double colon and none of the characters that end a token is among them; then
every rule that is tried before the one for edges fails, the line is cut at the
arrow that was written, and the lists are read again.

* `IsEndpoint`, `IsBracketPart` — the tokens and the parts that may be written;
* `readableSides` — lists of tokens are sides that are read as they are written;
* `splitEndpoints_join` — the tokens of one side;
* `contentOfRaw_edgeLine` — what the line says;
* `edgeLine_read_back` — the lists are read again.
-/

namespace LineDiagram

/-- A token that may be written at an end of an edge. -/
structure IsEndpoint (token : Text) : Prop where
  /-- It starts and ends with no blank, and it is not empty. -/
  tight : Text.Tight token
  ne_nil : token ≠ []
  /-- It is one token of one line, opens neither comment nor bracket, and holds
  no arrow sign. -/
  plain : ∀ c ∈ ['|', '#', '[', '→', '\n'], c ∉ token
  /-- It holds no arrow. -/
  arrow : ArrowFree token
  /-- It holds no double colon. -/
  colons : ¬ [':', ':'] <:+: token

instance (token : Text) : Decidable (IsEndpoint token) :=
  decidable_of_iff (Text.trim token = token ∧ token ≠ [] ∧
      ['|', '#', '[', '→', '\n'].all (fun c => !token.contains c) = true ∧ ArrowFree token ∧
      Text.hasPart "::" token = false)
    ⟨fun ⟨htrim, hne, hplain, harrow, hcolons⟩ => ⟨htrim ▸ Text.tight_trim token, hne,
        fun c hc => by simpa using List.all_eq_true.mp hplain c hc, harrow,
        fun hin => Bool.eq_false_iff.mp hcolons (Text.hasPart_iff.mpr hin)⟩,
      fun h => ⟨Text.trim_of_tight h.tight, h.ne_nil,
        List.all_eq_true.mpr fun c hc => by simpa using h.plain c hc, h.arrow,
        Bool.eq_false_iff.mpr fun hin => h.colons (Text.hasPart_iff.mp hin)⟩⟩

/-- A part that may be written in the bracket of an edge: it is one part of one
line, and opens neither comment nor bracket. -/
def IsBracketPart (part : Text) : Prop := Bracket.OnePart ['#', '[', '\n'] part

instance (part : Text) : Decidable (IsBracketPart part) :=
  inferInstanceAs (Decidable (Bracket.OnePart ['#', '[', '\n'] part))

/-- The line of an edge from some sources to some targets, with a bracket if
there are parts for it. -/
def edgeLine (sources targets parts : List Text) : Text :=
  Text.join " | " sources ++ " -> " ++ Text.join " | " targets ++
    if parts.isEmpty then [] else ' ' :: '[' :: (Bracket.joinParts parts ++ "]")

section EdgeLine

variable {sources targets parts tokens : List Text}

theorem edgeLine_nil (sources targets : List Text) :
    edgeLine sources targets [] =
      Text.join " | " sources ++ ' ' :: '-' :: '>' :: ' ' :: Text.join " | " targets := by
  simp [edgeLine]

theorem edgeLine_of_ne_nil (sources targets : List Text) (h : parts ≠ []) :
    edgeLine sources targets parts =
      (Text.join " | " sources ++ ' ' :: '-' :: '>' :: ' ' :: Text.join " | " targets) ++
        ' ' :: '[' :: (Bracket.joinParts parts ++ [']']) := by
  simp [edgeLine, h]

/-- Tokens are a side of an edge. -/
theorem isSide_of_endpoints (hne : tokens ≠ []) (h : ∀ token ∈ tokens, IsEndpoint token) :
    Edit.IsSide tokens where
  ne_nil := hne
  tight token htoken := ⟨(h token htoken).tight, (h token htoken).ne_nil⟩
  one_line token htoken := (h token htoken).plain '\n' (by decide)

/-- **Tokens on both sides are read as they are written**, unless the first of
them starts a marker. -/
theorem readableSides (hsources : sources ≠ []) (htargets : targets ≠ [])
    (hends : ∀ token ∈ sources ++ targets, IsEndpoint token)
    (hdashes : ¬ ['-', '-'] <+: sources.headD []) :
    Edit.ReadableSides sources targets := by
  have hleft : ∀ token ∈ sources, IsEndpoint token := fun token htoken =>
    hends token (List.mem_append_left targets htoken)
  have hright : ∀ token ∈ targets, IsEndpoint token := fun token htoken =>
    hends token (List.mem_append_right sources htoken)
  have hfirst : IsEndpoint (sources.headD []) := by
    cases sources with
    | nil => exact absurd rfl hsources
    | cons first rest => exact hleft first List.mem_cons_self
  have harrow : Arrowless sources := arrowless_of_all fun token htoken => (hleft token htoken).arrow
  exact {
    left := isSide_of_endpoints hsources hleft
    right := isSide_of_endpoints htargets hright
    arrow := harrow.join fun token htoken => (hleft token htoken).ne_nil
    signs := fun token htoken => (hends token htoken).plain '#' (by decide)
    dashes := hdashes
    cuts := Line.not_cut_of_colons hfirst.colons }

/-- **The tokens of a side** that is written are its ends, in order: no bar and
no arrow sign is in a token. -/
theorem splitEndpoints_join (h : ∀ token ∈ tokens, IsEndpoint token) :
    splitEndpoints (Text.join " | " tokens) = tokens := by
  have hread : ∀ token ∈ tokens, readToken token = token := by
    intro token htoken
    have hsign : '→' ∉ token := (h token htoken).plain '→' (by decide)
    have hself : token.filter (· != '→') = token := by
      rw [List.filter_eq_self]
      intro c hc
      rw [bne_iff_ne]
      rintro rfl
      exact hsign hc
    unfold readToken
    rw [hself, Text.trim_of_tight (h token htoken).tight]
  have hmap : tokens.map readToken = tokens := by
    conv_rhs => rw [← List.map_id tokens]
    exact List.map_congr_left hread
  rw [splitEndpoints_eq, writtenEndpoints_join fun token htoken =>
    ⟨(h token htoken).tight, (h token htoken).ne_nil, (h token htoken).plain '|' (by decide)⟩, hmap,
    List.filter_eq_self]
  intro token htoken
  simpa using (h token htoken).ne_nil

/-- **What an edge line says.**  Sides that can be read, and a bracket made of
parts that fit into one, are read as they are written. -/
theorem contentOfRaw_edgeLine (h : Edit.ReadableSides sources targets)
    (hopen : ∀ token ∈ targets, '[' ∉ token) (hparts : ∀ part ∈ parts, IsBracketPart part) :
    Line.contentOfRaw (edgeLine sources targets parts) =
      .edge (Text.join " | " sources) (Text.join " | " targets)
        (if parts.isEmpty then none else some (Bracket.joinParts parts)) := by
  obtain ⟨htight, hsigns⟩ := Edit.sides_code h.left h.right h.signs
  unfold Line.contentOfRaw
  by_cases hnone : parts = []
  · have hbare : (Bracket.splitTrailing (Text.join " | " targets)).2 = none := by
      rw [Bracket.splitTrailing_of_not_mem (not_mem_join (by decide) (by decide) hopen)]
    rw [hnone, edgeLine_nil, Comment.strip_of_not_mem htight hsigns, h.contentOf_bare hbare]
    rfl
  · have hfree : ∀ c ∈ ['#', '[', '\n'], c ∉ Bracket.joinParts parts := by
      intro c hc
      refine not_mem_join ?_ ?_ fun part hpart =>
        (hparts part hpart).free c (List.mem_cons_of_mem '|' hc)
      · rintro rfl
        exact absurd hc (by decide)
      · rintro rfl
        exact absurd hc (by decide)
    have hinner : Text.Tight (Bracket.joinParts parts) :=
      tight_join fun part hpart => ⟨(hparts part hpart).tight, (hparts part hpart).ne_nil⟩
    have hcodeTight : Text.Tight ((Text.join " | " sources ++ ' ' :: '-' :: '>' :: ' ' ::
        Text.join " | " targets) ++ ' ' :: '[' :: (Bracket.joinParts parts ++ [']'])) := by
      refine htight.append (by simp) ?_
      intro c hc
      rw [← List.cons_append, ← List.cons_append, List.getLast?_concat] at hc
      cases hc
      decide
    have hcodeSigns : '#' ∉ (Text.join " | " sources ++ ' ' :: '-' :: '>' :: ' ' ::
        Text.join " | " targets) ++ ' ' :: '[' :: (Bracket.joinParts parts ++ [']']) := by
      rw [List.mem_append, not_or]
      refine ⟨hsigns, ?_⟩
      simp [hfree '#' (by decide)]
    rw [edgeLine_of_ne_nil sources targets hnone, Comment.strip_of_not_mem hcodeTight hcodeSigns,
      h.contentOf_bracketed ⟨hfree '\n' (by decide), hfree '[' (by decide)⟩,
      if_neg (by simpa using hnone), Text.trim_of_tight hinner]

end EdgeLine

/-- **Edge lines are read as they are written.**  The line of some sources, some
targets and the parts of a bracket says an edge; the ends of its two sides are
the sources and the targets, and it has a bracket exactly if there are parts,
which are the parts of the bracket. -/
theorem edgeLine_read_back {sources targets parts : List Text} (hsources : sources ≠ [])
    (htargets : targets ≠ [])
    (hends : ∀ token ∈ sources ++ targets, IsEndpoint token)
    (hdashes : ¬ ['-', '-'] <+: sources.headD [])
    (hparts : ∀ part ∈ parts, IsBracketPart part) :
    ∃ head body bracket,
      (Line.ofText (edgeLine sources targets parts)).content = .edge head body bracket ∧
      splitEndpoints head = sources ∧ splitEndpoints body = targets ∧
      bracket.map Bracket.splitParts = if parts.isEmpty then none else some parts := by
  have hright : ∀ token ∈ targets, IsEndpoint token := fun token htoken =>
    hends token (List.mem_append_right sources htoken)
  refine ⟨_, _, _, contentOfRaw_edgeLine (readableSides hsources htargets hends hdashes)
    (fun token htoken => (hright token htoken).plain '[' (by decide)) hparts, ?_, ?_, ?_⟩
  · exact splitEndpoints_join fun token htoken => hends token (List.mem_append_left targets htoken)
  · exact splitEndpoints_join hright
  · by_cases hnone : parts.isEmpty = true
    · rw [if_pos hnone, if_pos hnone, Option.map_none]
    · rw [if_neg hnone, if_neg hnone, Option.map_some, Bracket.splitParts_of_onePart hparts]

/-- Blanks, single dashes and colons, an arrowhead and a closing bracket stand
in the tokens. -/
theorem edgeLine_read_back_of_odd_tokens :
    edgeLine ["-a: b".toList, "c> d".toList] [": e-".toList, "f]".toList]
        ["red".toList, "label = 1 -> 2".toList] =
      "-a: b | c> d -> : e- | f] [red | label = 1 -> 2]".toList ∧
    ∃ head body bracket,
      (Line.ofText "-a: b | c> d -> : e- | f] [red | label = 1 -> 2]").content =
        .edge head body bracket ∧
      splitEndpoints head = ["-a: b".toList, "c> d".toList] ∧
      splitEndpoints body = [": e-".toList, "f]".toList] ∧
      bracket.map Bracket.splitParts = some ["red".toList, "label = 1 -> 2".toList] := by
  have hline : edgeLine ["-a: b".toList, "c> d".toList] [": e-".toList, "f]".toList]
      ["red".toList, "label = 1 -> 2".toList] =
        "-a: b | c> d -> : e- | f] [red | label = 1 -> 2]".toList := by decide
  have hends : ∀ token ∈ ["-a: b".toList, "c> d".toList] ++ [": e-".toList, "f]".toList],
      IsEndpoint token := by
    decide +kernel
  have hparts : ∀ part ∈ ["red".toList, "label = 1 -> 2".toList],
      IsBracketPart part := by decide +kernel
  have hread := edgeLine_read_back (by decide) (by decide) hends (by decide) hparts
  rw [hline] at hread
  exact ⟨hline, hread⟩

end LineDiagram
