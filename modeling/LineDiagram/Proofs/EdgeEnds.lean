import LineDiagram.Proofs.DrawingLines
import LineDiagram.Proofs.EdgeLabel
import LineDiagram.Proofs.WordLines
import LineDiagram.Service.Basic

/-!
# Replacing an end of an edge

An end of an edge line is replaced by the token of another node, and the line is
written out anew from the tokens of both sides.  The tokens are written as they
were read, so they may say something else on the line: a number sign opens a
comment, a bar cuts a token in two, an arrow ends the sources, and a token may
look like a marker, a definition or a bracket.

* `tokenIds_replace` — the nodes of a side after the first token of a node was
  replaced;
* `contentOfRaw_rewritten` — what the line says that is written anew;
* `setEdge_replaces_ends` — the edges of the compiled graph after an end was
  replaced.
-/

namespace LineDiagram

/-! ## The nodes of a side -/

/-- The nodes that the written tokens of a side stand for. -/
def tokenIds (tokens : List Text) : List Text :=
  ((tokens.map readToken).filter fun t => !t.isEmpty).map Identifier.ofToken

/-- The nodes that the compiler finds on a side are those of the tokens that an
editor finds there. -/
theorem ids_splitEndpoints (side : Text) :
    (splitEndpoints side).map Identifier.ofToken = tokenIds (writtenEndpoints side) := by
  rw [splitEndpoints_eq, tokenIds]

/-- The first token of a side stands for a node unless nothing of it is left
without its arrow signs. -/
theorem tokenIds_cons (token : Text) (rest : List Text) :
    tokenIds (token :: rest) =
      if readToken token = [] then tokenIds rest
      else Identifier.ofToken (readToken token) :: tokenIds rest := by
  unfold tokenIds
  by_cases hempty : readToken token = []
  · simp [hempty]
  · simp [hempty]

/-- A written token is read as a node. -/
def ReadsAs (token id : Text) : Prop :=
  readToken token ≠ [] ∧ Identifier.ofToken (readToken token) = id

instance (token id : Text) : Decidable (ReadsAs token id) := inferInstanceAs (Decidable (_ ∧ _))

theorem ReadsAs.tokenIds_cons {token id : Text} (h : ReadsAs token id) (rest : List Text) :
    tokenIds (token :: rest) = id :: tokenIds rest := by
  rw [LineDiagram.tokenIds_cons, if_neg h.1, h.2]

/-- A token that does not stand for a node is not read as it.  The editor's test
is at least as wide as the compiler's. -/
theorem ne_of_not_isTokenOf {id token : Text} (h : ¬ isTokenOf id token = true) :
    Identifier.ofToken (readToken token) ≠ id := by
  intro heq
  unfold readToken at heq
  rw [Identifier.ofToken_trim] at heq
  exact h (by simp [isTokenOf, heq])

/-- **Replacing the first token of a node** replaces its first occurrence among
the nodes of the side, if both tokens are read as the nodes that they are
written for. -/
theorem tokenIds_replace {old new token : Text} {tokens : List Text}
    (hold : ∀ first, tokens.find? (isTokenOf old) = some first → ReadsAs first old)
    (hnew : ReadsAs token new) :
    tokenIds ((replaceEndpoint? old token tokens).getD tokens) =
      (tokenIds tokens).replace old new := by
  induction tokens with
  | nil => rfl
  | cons x rest ih =>
      by_cases hx : isTokenOf old x = true
      · have hfirst : ReadsAs x old := hold x (by rw [List.find?_cons_of_pos hx])
        rw [replaceEndpoint?, if_pos hx, Option.getD_some, hnew.tokenIds_cons, hfirst.tokenIds_cons,
          List.replace_cons]
        simp
      · have hskip : (replaceEndpoint? old token (x :: rest)).getD (x :: rest) =
            x :: (replaceEndpoint? old token rest).getD rest := by
          rw [replaceEndpoint?, if_neg hx]
          cases replaceEndpoint? old token rest with
          | none => rfl
          | some tokens => rfl
        have hne := ne_of_not_isTokenOf hx
        have hrest := ih fun first hfirst => hold first (by rw [List.find?_cons_of_neg hx, hfirst])
        rw [hskip, tokenIds_cons, tokenIds_cons, hrest]
        by_cases hempty : readToken x = []
        · rw [if_pos hempty, if_pos hempty]
        · have hother : (old == Identifier.ofToken (readToken x)) = false := by
            simpa using fun heq : old = _ => hne heq.symm
          rw [if_neg hempty, if_neg hempty, List.replace_cons, hother]

/-- A token is replaced in its place; the tokens before and behind it stay. -/
theorem replaceEndpoint?_eq_some {id new : Text} {tokens tokens' : List Text}
    (h : replaceEndpoint? id new tokens = some tokens') :
    ∃ before first after, tokens = before ++ first :: after ∧ tokens' = before ++ new :: after := by
  induction tokens generalizing tokens' with
  | nil => cases h
  | cons x rest ih =>
      rw [replaceEndpoint?] at h
      split at h
      · exact ⟨[], x, rest, rfl, (Option.some.inj h).symm⟩
      · obtain ⟨rest', hrest, rfl⟩ := Option.map_eq_some_iff.mp h
        obtain ⟨before, first, after, rfl, rfl⟩ := ih hrest
        exact ⟨x :: before, first, after, rfl, rfl⟩

/-- An editor finds the two sides of an edge line where the compiler finds
them. -/
theorem edgeSides_of_edge {raw sources targets : Text} {bracket : Option Text}
    (h : Line.contentOfRaw raw = .edge sources targets bracket) :
    edgeSides raw = (writtenEndpoints sources, writtenEndpoints targets) := by
  unfold edgeSides
  rw [h]

/-- The edges of a line from each source to each target. -/
def crossEdges (n : Nat) (style : EdgeStyle) (sources targets : List Text) : List Edge :=
  sources.flatMap fun source => targets.map fun target => ⟨source, target, n, style⟩

/-- The edges of a line lead from each node on the left to each node on the
right. -/
theorem Content.edges_eq_cross (font : Text) (n : Nat) (sources targets : Text)
    (bracket : Option Text) :
    (Content.edge sources targets bracket).edges font n = crossEdges n (.ofInner? font bracket)
      (tokenIds (writtenEndpoints sources)) (tokenIds (writtenEndpoints targets)) := by
  rw [← ids_splitEndpoints, ← ids_splitEndpoints, crossEdges, edges, List.flatMap_map]
  simp only [List.map_map, Function.comp_def]

/-- A side of an edge line that draws edges has tokens, on the left and on the
right. -/
theorem writtenEndpoints_ne_nil {font : Text} {n : Nat} {sources targets : Text}
    {bracket : Option Text} (h : (Content.edge sources targets bracket).edges font n ≠ []) :
    writtenEndpoints sources ≠ [] ∧ writtenEndpoints targets ≠ [] := by
  rw [Content.edges_eq_cross, crossEdges] at h
  constructor
  · intro hnil
    rw [hnil] at h
    exact h rfl
  · intro hnil
    rw [hnil] at h
    exact h (by simp [tokenIds])

namespace Edit

/-- The tokens of a side after a change. -/
def replacedTokens (labels : Table) (change : Option (Text × Text))
    (tokens : List Text) : List Text :=
  match change with
  | none => tokens
  | some (old, new) => (replaceEndpoint? old (tokenFor new labels) tokens).getD tokens

/-- The nodes of a side after a change. -/
def replacedIds (change : Option (Text × Text)) (ids : List Text) : List Text :=
  match change with
  | none => ids
  | some (old, new) => ids.replace old new

/-- A change of a side is read as it is meant. -/
structure ReadableChange (labels : Table) (change : Option (Text × Text))
    (tokens : List Text) : Prop where
  /-- The token that is replaced is read as the old node. -/
  found : ∀ p ∈ change, ∀ first ∈ tokens.find? (isTokenOf p.1), ReadsAs first p.1
  /-- The new token is one token and is read as the new node. -/
  written : ∀ p ∈ change, '|' ∉ tokenFor p.2 labels ∧ ReadsAs (tokenFor p.2 labels) p.2

section Side

variable {labels : Table} {change : Option (Text × Text)} {tokens : List Text}

/-- A change of a side that is read as it is meant replaces the first of the old
nodes by the new one, and no other node. -/
theorem ReadableChange.tokenIds (h : ReadableChange labels change tokens) :
    tokenIds (replacedTokens labels change tokens) = replacedIds change (tokenIds tokens) := by
  cases change with
  | none => rfl
  | some p => exact tokenIds_replace (h.found p rfl) (h.written p rfl).2

/-- The tokens of a side after a change are the old ones, perhaps with the new
one in a place. -/
theorem replacedTokens_cases (labels : Table) (change : Option (Text × Text)) (tokens : List Text) :
    replacedTokens labels change tokens = tokens ∨ ∃ p ∈ change, ∃ before first after,
      tokens = before ++ first :: after ∧
        replacedTokens labels change tokens = before ++ tokenFor p.2 labels :: after := by
  cases change with
  | none => exact Or.inl rfl
  | some p =>
      unfold replacedTokens
      dsimp only
      cases hreplaced : replaceEndpoint? p.1 (tokenFor p.2 labels) tokens with
      | none => exact Or.inl rfl
      | some tokens' =>
          obtain ⟨before, first, after, htokens, hnew⟩ := replaceEndpoint?_eq_some hreplaced
          exact Or.inr ⟨p, rfl, before, first, after, htokens, hnew⟩

/-- A change of a side leaves no side empty. -/
theorem replacedTokens_ne_nil (h : tokens ≠ []) : replacedTokens labels change tokens ≠ [] := by
  rcases replacedTokens_cases labels change tokens
    with hsame | ⟨p, -, before, first, after, -, hnew⟩
  · rwa [hsame]
  · rw [hnew]
    simp

/-- A token of a changed side was there before, or is the token of the new
node. -/
theorem mem_replacedTokens {token : Text} (h : token ∈ replacedTokens labels change tokens) :
    token ∈ tokens ∨ ∃ p ∈ change, token = tokenFor p.2 labels := by
  rcases replacedTokens_cases labels change tokens
    with hsame | ⟨p, hp, before, first, after, hold, hnew⟩
  · rw [hsame] at h
    exact Or.inl h
  · rw [hnew, List.mem_append, List.mem_cons] at h
    rw [hold]
    rcases h with hbefore | rfl | hafter
    · exact Or.inl (List.mem_append_left _ hbefore)
    · exact Or.inr ⟨p, hp, rfl⟩
    · exact Or.inl (List.mem_append_right _ (List.mem_cons_of_mem first hafter))

/-- What the editor makes of a side. -/
theorem replaceSide_eq_ok {line : LineRef} {side : String} {tokens' changes : List Text}
    (h : replaceSide line labels side change tokens = .ok (tokens', changes)) :
    tokens' = replacedTokens labels change tokens := by
  cases change with
  | none =>
      rw [replaceSide] at h
      exact (Prod.mk.inj (Except.ok.inj h)).1.symm
  | some p =>
      rw [replaceSide] at h
      unfold replacedTokens
      dsimp only
      split at h
      · rename_i found hfound
        rw [hfound, Option.getD_some]
        exact (Prod.mk.inj (Except.ok.inj h)).1.symm
      · cases h

end Side

/-! ## The line that is written anew -/

/-- The bracket of an edge when no field is changed: its parts, written out with
one blank on either side of the bars. -/
theorem apply_nothing (inner : Text) :
    EdgeEdit.apply {} inner = Bracket.joinParts (Bracket.splitParts inner) := by
  have hparts : (EdgeLayout.ofInner inner).parts = Bracket.splitParts inner := rfl
  have hfilled : (Bracket.splitParts inner).filter (fun p => !p.isEmpty) =
      Bracket.splitParts inner := by
    rw [List.filter_eq_self]
    intro p hp
    simpa using (Text.mem_parts hp).2.1
  have hsame : (Bracket.splitParts inner).mapIdx (fun _ part => part) =
      Bracket.splitParts inner := by
    apply List.ext_getElem?
    intro i
    simp
  unfold EdgeEdit.apply EdgeLayout.update
  simp only [Option.map_none, hparts, hsame, hfilled, List.nil_append, List.append_nil]

namespace Endpoints

variable (ends : Endpoints) (raw : Text)

/-- The sources of an edge line after the change. -/
def newSources : List Text := replacedTokens ends.labels ends.source (edgeSides raw).1

/-- The targets of an edge line after the change. -/
def newTargets : List Text := replacedTokens ends.labels ends.target (edgeSides raw).2

/-- The edge line after the change. -/
def rewritten : Text :=
  (LineParts.ofText raw).assemble (some (EdgeEdit.apply {} ((LineParts.ofText raw).inner.getD [])))
    (some
      ((LineParts.ofText raw).spaced (writeSides raw (ends.newSources raw) (ends.newTargets raw))))

end Endpoints

/-- What stands before the bracket after an end was replaced. -/
theorem replaceEndpoints_eq_ok {line : LineRef} {ends : Endpoints} {raw before : Text}
    {moved : List Text} (hchange : ends.source.isSome = true ∨ ends.target.isSome = true)
    (h : replaceEndpoints line ends raw = .ok (before, moved)) :
    before =
      (LineParts.ofText raw).spaced
        (writeSides raw (ends.newSources raw) (ends.newTargets raw)) := by
  have hsome : (ends.source.isNone && ends.target.isNone) = false := by
    rcases hchange with hsource | htarget
    · rw [← Option.not_isSome, hsource]
      rfl
    · rw [← Option.not_isSome, ← Option.not_isSome, htarget, Bool.and_comm]
      rfl
  unfold replaceEndpoints at h
  dsimp only at h
  rw [hsome, if_neg Bool.false_ne_true] at h
  cases hsources : replaceSide line ends.labels "source" ends.source (edgeSides raw).1 with
  | error refusal =>
      rw [hsources] at h
      cases h
  | ok sources =>
      rw [hsources] at h
      cases htargets : replaceSide line ends.labels "target" ends.target (edgeSides raw).2 with
      | error refusal =>
          change ((replaceSide line ends.labels "target" ends.target (edgeSides raw).2).bind _) = _
            at h
          rw [htargets] at h
          cases h
      | ok targets =>
          change ((replaceSide line ends.labels "target" ends.target (edgeSides raw).2).bind _) = _
            at h
          rw [htargets] at h
          obtain ⟨hbefore, -⟩ := Prod.mk.inj (Except.ok.inj h)
          rw [← hbefore, replaceSide_eq_ok hsources, replaceSide_eq_ok htargets]
          rfl

/-- What is done when an end of an edge is replaced: the line of the edge is
written anew, and no other line. -/
theorem setEdge_rewrites {lines : List Text} {n : Nat} {ends : Endpoints}
    (hchange : ends.source.isSome = true ∨ ends.target.isSome = true)
    (hdone : (setEdge lines (.ofInt n) {} ends).patch.success = true) :
    ∃ index raw sources targets bracket, n = index + 1 ∧ lines[index]? = some raw ∧
      Line.contentOfRaw raw = .edge sources targets bracket ∧
      (setEdge lines (.ofInt n) {} ends).lines = lines.set index (ends.rewritten raw) := by
  have hrefused : ∀ {target : Text} {refusal : Refusal},
      (Outcome.refuse lines .setEdge target refusal).patch.success ≠ true := nofun
  unfold setEdge at hdone ⊢
  split at hdone
  · exact absurd hdone hrefused
  · rename_i index hindex
    obtain ⟨hnumber, raw, sources, targets, bracket, hraw, hedge⟩ :=
      LineRef.edgeIndex?_eq_some.mp hindex
    have hn : n = index + 1 := by
      have hint : (n : Int) = (index + 1 : Nat) := Option.some.inj hnumber
      omega
    have hget : lines.getD index [] = raw := Text.getD_of_getElem? hraw
    refine ⟨index, raw, sources, targets, bracket, hn, hraw, hedge, ?_⟩
    split at hdone
    · exact absurd hdone hrefused
    · dsimp only at hdone ⊢
      rw [hget] at hdone ⊢
      split at hdone
      · exact absurd hdone hrefused
      · rename_i before moved hends
        rw [replaceEndpoints_eq_ok hchange hends]
        rfl

/-- The parts of a bracket, written out, may stand in it. -/
theorem enclosed_parts {inner : Text} (h : Bracket.Enclosed inner) :
    Bracket.Enclosed (Bracket.joinParts (Bracket.splitParts inner)) := by
  apply Bracket.enclosed_joinParts
  intro p hp
  have hsound := Bracket.sound_of_mem h.plain h.no_open h.one_line hp
  exact ⟨hsound.toEnclosed, hsound.ne_nil⟩

/-- They give the style that the bracket gave, for the same parts are read from
both. -/
theorem style_parts (font : Text) {inner : Text} (h : Bracket.Enclosed inner) :
    EdgeStyle.ofInner? font
      (some (Comment.unescape (Bracket.joinParts (Bracket.splitParts inner)))) =
      EdgeStyle.ofInner? font (some (Comment.unescape inner)) := by
  have hread : ∀ {text : Text}, Bracket.Enclosed text → '[' ∉ Comment.unescape text := by
    intro text htext hmem
    exact htext.no_open ((Comment.mem_unescape (by decide)).mp hmem)
  have hparts : ∀ p ∈ Bracket.splitParts inner, Text.Tight p ∧ p ≠ [] ∧ '|' ∉ p := fun p hp =>
    Text.mem_parts hp
  unfold EdgeStyle.ofInner?
  dsimp only
  rw [Bracket.ofText_eq (hread h), Bracket.ofText_eq (hread (enclosed_parts h)),
    Bracket.splitParts_unescape, Bracket.splitParts_unescape, Bracket.splitParts_joinParts hparts]

/-- **The line that is written anew** says an edge between the new tokens, with
the same style. -/
theorem contentOfRaw_rewritten {raw : Text} {ends : Endpoints} {bracket : Option Text}
    (hraw : '\n' ∉ raw) (hsides : ReadableSides (ends.newSources raw) (ends.newTargets raw))
    (hbracket : bracket = (LineParts.ofText raw).inner.map Comment.unescape)
    (hbare : Bracket.splitParts ((LineParts.ofText raw).inner.getD []) = [] →
      (Bracket.splitTrailing (Text.join " | " (ends.newTargets raw))).2 = none) (font : Text) :
    ∃ bracket', Line.contentOfRaw (ends.rewritten raw) =
        .edge (Text.join " | " (ends.newSources raw))
          (Text.join " | " (ends.newTargets raw)) bracket' ∧
      EdgeStyle.ofInner? font bracket' = EdgeStyle.ofInner? font bracket := by
  have henclosed := enclosed_inner hraw
  have hstyle := style_parts font henclosed
  unfold Endpoints.rewritten
  rw [apply_nothing]
  cases hinner : (LineParts.ofText raw).inner with
  | none =>
      rw [hinner] at hbracket hbare
      exact ⟨none, contentOfRaw_bare hsides rfl (hbare rfl), by rw [hbracket]; rfl⟩
  | some inner =>
      rw [hinner, Option.getD_some] at henclosed hstyle hbare
      rw [hinner, Option.map_some] at hbracket
      rw [Option.getD_some, hbracket]
      by_cases hempty : Bracket.splitParts inner = []
      · rw [hempty] at hstyle ⊢
        exact ⟨none, contentOfRaw_bare hsides rfl (hbare hempty), hstyle⟩
      · have hfilled : Bracket.joinParts (Bracket.splitParts inner) ≠ [] := by
          obtain ⟨part, rest, hparts⟩ := List.exists_cons_of_ne_nil hempty
          rw [hparts]
          exact Bracket.joinParts_ne_nil (Text.mem_parts (hparts ▸ List.mem_cons_self)).2.1 rest
        exact ⟨_,
          contentOfRaw_bracketed hsides (by rw [hinner]; rfl) (enclosed_parts henclosed) hfilled,
          hstyle⟩

/-! ## The tokens that are written -/

/-- The token of a node, which is written in one line without blanks around
it. -/
theorem tokenFor_spec {new : Text} {labels : Table} (hnew : Text.IsWord new)
    (hlabels : Text.OneLine (labels.get new)) :
    Text.Tight (tokenFor new labels) ∧ tokenFor new labels ≠ [] ∧ '\n' ∉ tokenFor new labels := by
  unfold tokenFor
  dsimp only
  rw [Text.trim_of_tight hnew.tight]
  split
  · rename_i hlabel
    simp only [Bool.and_eq_true, Bool.not_eq_true', List.isEmpty_eq_false_iff] at hlabel
    exact ⟨Text.tight_trim _, hlabel.1.1, hlabels.trim⟩
  · exact ⟨hnew.tight, hnew.ne_nil, hnew.not_mem (by decide)⟩

/-- The labels of the nodes of a document are in one line each. -/
theorem oneLine_nodeLabels (t id : Text) : Text.OneLine ((Service.nodeLabels t).get id) := by
  have hfont : Text.OneLine Label.defaultFont := by decide
  have hgraph := Draft.oneLine_ofLines hfont fun raw hraw => Document.not_mem_split (t := t) hraw
  have htable :
      Service.nodeLabels t = (Draft.ofLines Label.defaultFont (Document.split t)).graph.nodes.map
      fun n => (n.id, n.label) := rfl
  unfold Table.get
  cases hlabel : (Service.nodeLabels t).lookup id with
  | none => exact Text.oneLine_nil
  | some label =>
      obtain ⟨before, after, hentry, -⟩ := List.lookup_eq_some_iff.mp hlabel
      have hmem : (id, label) ∈ Service.nodeLabels t := by
        rw [hentry]
        simp
      rw [htable] at hmem
      obtain ⟨n, hn, heq⟩ := List.mem_map.mp hmem
      obtain ⟨-, rfl⟩ := Prod.mk.inj heq
      exact (hgraph.nodes n hn).2.1

/-- The tokens of a side after a change, where the new node is a word: there is
one at least, and each is one token on one line. -/
theorem isSide_replaced {t side : Text} {change : Option (Text × Text)} (hside : '\n' ∉ side)
    (hne : writtenEndpoints side ≠ []) (hnew : ∀ p ∈ change, Text.IsWord p.2) :
    IsSide (replacedTokens (Service.nodeLabels t) change (writtenEndpoints side)) := by
  have htoken : ∀ token ∈ replacedTokens (Service.nodeLabels t) change (writtenEndpoints side),
      Text.Tight token ∧ token ≠ [] ∧ '\n' ∉ token := by
    intro token hmem
    rcases mem_replacedTokens hmem with hold | ⟨p, hp, rfl⟩
    · obtain ⟨htight, hfilled, -⟩ := mem_writtenEndpoints hold
      exact ⟨htight, hfilled, Text.oneLine_parts hside token hold⟩
    · exact tokenFor_spec (hnew p hp) (oneLine_nodeLabels t p.2)
  exact ⟨replacedTokens_ne_nil hne,
    fun token hmem => ⟨(htoken token hmem).1, (htoken token hmem).2.1⟩,
    fun token hmem => (htoken token hmem).2.2⟩

/-- The ends of an edge line after a change can be written out and are read
again. -/
structure Endpoints.ReadsBack (ends : Endpoints) (raw : Text) : Prop where
  /-- The changed source is read as it is meant. -/
  source : ReadableChange ends.labels ends.source (edgeSides raw).1
  /-- The changed target is read as it is meant. -/
  target : ReadableChange ends.labels ends.target (edgeSides raw).2
  /-- No number sign is in the tokens, where it would open a comment. -/
  signs : ∀ token ∈ ends.newSources raw ++ ends.newTargets raw, '#' ∉ token
  /-- No arrow is in the sources, except perhaps at the start of the line. -/
  arrows : Arrowless (ends.newSources raw)
  /-- The first token does not make the line a marker. -/
  dashes : ¬ ['-', '-'] <+: (ends.newSources raw).headD []
  /-- The first token does not make the line a definition. -/
  cuts : ∀ word rest, ¬ Line.Cut ((ends.newSources raw).headD []) word rest
  /-- The bracket of the raw line, which is kept, is the bracket of the edge. -/
  kept : (LineParts.ofText raw).inner.isSome = (Line.contentOfRaw raw).bracket.isSome
  /-- Without a bracket the targets do not end in one. -/
  bare : Bracket.splitParts ((LineParts.ofText raw).inner.getD []) = [] →
    (Bracket.splitTrailing (Text.join " | " (ends.newTargets raw))).2 = none

section Rewritten

variable {t raw sources targets : Text} {bracket : Option Text}
  {source target : Option (Text × Text)}
  (hraw : '\n' ∉ raw) (hedge : Line.contentOfRaw raw = .edge sources targets bracket)
  (hsources : writtenEndpoints sources ≠ []) (htargets : writtenEndpoints targets ≠ [])
  (hsource : ∀ p ∈ source, Text.IsWord p.2) (htarget : ∀ p ∈ target, Text.IsWord p.2)

include hraw hedge hsources htargets hsource htarget

/-- Both sides of the line that is written anew. -/
theorem isSide_rewritten :
    IsSide (Endpoints.newSources ⟨source, target, Service.nodeLabels t⟩ raw) ∧
      IsSide (Endpoints.newTargets ⟨source, target, Service.nodeLabels t⟩ raw) := by
  have honeLine : (Line.contentOf (Comment.strip raw)).OneLine :=
    Line.oneLine_contentOf (Line.oneLine_strip hraw)
  have hsides := edgeSides_of_edge hedge
  unfold Line.contentOfRaw at hedge
  rw [hedge] at honeLine
  unfold Endpoints.newSources Endpoints.newTargets
  rw [hsides]
  exact ⟨isSide_replaced honeLine.1 hsources hsource, isSide_replaced honeLine.2.1 htargets htarget⟩

/-- It stays one line. -/
theorem lineFeed_not_mem_rewritten :
    '\n' ∉ Endpoints.rewritten ⟨source, target, Service.nodeLabels t⟩ raw := by
  obtain ⟨hleft, hright⟩ := isSide_rewritten (t := t) hraw hedge hsources htargets hsource htarget
  have hwritten := oneLine_writeSides hraw hleft.one_line hright.one_line
  refine LineParts.lineFeed_not_mem_assemble (LineParts.ofText_spec raw) hraw ?_ ?_
  · rw [Option.getD_some, apply_nothing]
    exact (enclosed_parts (enclosed_inner hraw)).one_line
  · rw [Option.getD_some]
    unfold LineParts.spaced
    split
    · exact Text.oneLine_append.mpr ⟨hwritten, by decide⟩
    · exact hwritten

/-- **The edges of the line that is written anew**: the ends that are replaced
are replaced, and all else is as before. -/
theorem edges_rewritten (hback : Endpoints.ReadsBack ⟨source, target, Service.nodeLabels t⟩ raw)
    (font : Text) (n : Nat) :
    (Line.contentOfRaw
      (Endpoints.rewritten ⟨source, target, Service.nodeLabels t⟩ raw)).edges font n =
      crossEdges n (.ofInner? font bracket)
        (replacedIds source (tokenIds (writtenEndpoints sources)))
        (replacedIds target (tokenIds (writtenEndpoints targets))) := by
  obtain ⟨hleft, hright⟩ := isSide_rewritten (t := t) hraw hedge hsources htargets hsource htarget
  have hsides := edgeSides_of_edge hedge
  have hkept := hback.kept
  rw [hedge] at hkept
  have hreadable : ReadableSides (Endpoints.newSources ⟨source, target, Service.nodeLabels t⟩ raw)
      (Endpoints.newTargets ⟨source, target, Service.nodeLabels t⟩ raw) :=
    ⟨hleft, hright, hback.arrows.join fun token htoken => (hleft.tight token htoken).2, hback.signs,
      hback.dashes, hback.cuts⟩
  obtain ⟨bracket', hcontent, hstyle⟩ := contentOfRaw_rewritten hraw hreadable
    (bracket_eq hraw hedge hkept) hback.bare font
  -- The tokens of a written side are its tokens again, since no bar is in one of them.
  have hread : ∀ {change : Option (Text × Text)} {side : Text},
      ReadableChange (Service.nodeLabels t) change (writtenEndpoints side) →
      IsSide (replacedTokens (Service.nodeLabels t) change (writtenEndpoints side)) →
      tokenIds (writtenEndpoints (Text.join " | "
        (replacedTokens (Service.nodeLabels t) change (writtenEndpoints side)))) =
          replacedIds change (tokenIds (writtenEndpoints side)) := by
    intro change side hchange hside
    rw [writtenEndpoints_join, hchange.tokenIds]
    intro token htoken
    refine ⟨(hside.tight token htoken).1, (hside.tight token htoken).2, ?_⟩
    rcases mem_replacedTokens htoken with hold | ⟨p, hp, rfl⟩
    · exact (mem_writtenEndpoints hold).2.2
    · exact (hchange.written p hp).1
  have hnewSource := hback.source
  have hnewTarget := hback.target
  unfold Endpoints.newSources at hleft hcontent
  unfold Endpoints.newTargets at hright hcontent
  rw [hsides] at hleft hright hcontent hnewSource hnewTarget
  rw [hcontent, Content.edges_eq_cross, hstyle, hread hnewSource hleft, hread hnewTarget hright]

end Rewritten

/-- The edges of all lines when one of them is replaced: those of the new line,
and those of all other lines as they were. -/
theorem edgesOf_replaced (font : Text) {lines : List Text} {index : Nat} {old new : Text}
    (hlines : ∀ raw ∈ lines, '\n' ∉ raw) (hnew : '\n' ∉ new) (hold : lines[index]? = some old) :
    (Draft.ofLines font (Document.split (Document.join (lines.set index new)))).graph.edgesOf
        (index + 1) = (Line.contentOfRaw new).edges font (index + 1) ∧
      ∀ m, m ≠ index + 1 →
        (Draft.ofLines font
          (Document.split (Document.join (lines.set index new)))).graph.edgesOf m =
          (Draft.ofLines font lines).graph.edgesOf m := by
  have hsame := Draft.edges_ofLines_congr font (Document.contents_replaced hlines hnew hold)
  have hlt := (List.getElem?_eq_some_iff.mp hold).1
  unfold Graph.edgesOf
  rw [hsame]
  refine ⟨Draft.edges_of_line font (List.getElem?_set_self hlt), ?_⟩
  intro m hm
  have hget : ∀ k, m = k + 1 → (lines.set index new)[k]? = lines[k]? := by
    rintro k rfl
    exact List.getElem?_set_ne fun heq => hm (by rw [heq])
  by_cases hline : ∃ k raw, lines[k]? = some raw ∧ m = k + 1
  · obtain ⟨k, raw, hraw, rfl⟩ := hline
    rw [Draft.edges_of_line font hraw, Draft.edges_of_line font ((hget k rfl).trans hraw)]
  · have hnone : ∀ k raw, lines[k]? = some raw → m ≠ k + 1 :=
      fun k raw hraw heq => hline ⟨k, raw, hraw, heq⟩
    rw [Draft.edges_of_no_line font hnone, Draft.edges_of_no_line font fun k raw hraw heq =>
      hnone k raw ((hget k heq).symm.trans hraw) heq]

/-- What replacing an end does to the edges of a document: those of its line get
the new ends, and all others stay. -/
theorem edgesOf_setEdge (font : Text) {t : Text} {n : Nat} {source target : Option (Text × Text)}
    {out : Outcome} (hout : setEdge (Document.split t) (.ofInt n) {}
      ⟨source, target, Service.nodeLabels t⟩ = out)
    (hdrawn : (Draft.ofLines font (Document.split t)).graph.edgesOf n ≠ [])
    (hsource : ∀ p ∈ source, Text.IsWord p.2) (htarget : ∀ p ∈ target, Text.IsWord p.2)
    (hchange : source.isSome = true ∨ target.isSome = true) (hdone : out.patch.success = true) :
    ∃ raw style, (Document.split t)[n - 1]? = some raw ∧
      (∀ m, m ≠ n →
        (Draft.ofLines font (Document.split (Document.join out.lines))).graph.edgesOf m =
        (Draft.ofLines font (Document.split t)).graph.edgesOf m) ∧
      (Draft.ofLines font (Document.split t)).graph.edgesOf n =
        crossEdges n style (tokenIds (edgeSides raw).1) (tokenIds (edgeSides raw).2) ∧
      (Endpoints.ReadsBack ⟨source, target, Service.nodeLabels t⟩ raw →
        (Draft.ofLines font (Document.split (Document.join out.lines))).graph.edgesOf n =
          crossEdges n style (replacedIds source (tokenIds (edgeSides raw).1))
            (replacedIds target (tokenIds (edgeSides raw).2))) := by
  subst hout
  obtain ⟨index, raw, sources, targets, bracket, rfl, hraw, hedge, hlines⟩ :=
    setEdge_rewrites hchange hdone
  have hfree : ∀ raw ∈ Document.split t, '\n' ∉ raw := fun raw hraw => Document.not_mem_split hraw
  have hrawFree := hfree raw (List.mem_of_getElem? hraw)
  have hbefore : (Draft.ofLines font (Document.split t)).graph.edgesOf (index + 1) =
      (Content.edge sources targets bracket).edges font (index + 1) := by
    rw [← hedge]
    exact Draft.edges_of_line font hraw
  rw [hbefore] at hdrawn
  obtain ⟨hsources, htargets⟩ := writtenEndpoints_ne_nil hdrawn
  obtain ⟨hown, hothers⟩ := edgesOf_replaced font hfree
    (lineFeed_not_mem_rewritten (t := t) hrawFree hedge hsources htargets hsource htarget) hraw
  refine ⟨raw, .ofInner? font bracket, hraw, ?_, ?_, fun hback => ?_⟩
  · rw [hlines]
    exact hothers
  · rw [hbefore, edgeSides_of_edge hedge, Content.edges_eq_cross]
  · rw [hlines, hown, edgeSides_of_edge hedge]
    exact edges_rewritten hrawFree hedge hsources htargets hsource htarget hback font (index + 1)

end Edit

/-- **Replacing an end of an edge.**  For every document and every line that
draws edges, an end of the line is replaced by a node of the graph.  The edges
of all other lines stay as they are.  If the new tokens are read as they are
written, the edges of the line run from each source to each target with the
style of before, where the first occurrence of the old node on the side gives
way to the new one. -/
theorem setEdge_replaces_ends {t : Text} {font : Option Text} {g : Graph} {n : Nat}
    {source target : Option (Text × Text)} (hg : (compile t font).graph = some g)
    (hdrawn : g.edgesOf n ≠ []) (hnew : ∀ p ∈ source.toList ++ target.toList, p.2 ∈ g.ids)
    (hchange : source.isSome = true ∨ target.isSome = true)
    (hdone : (Edit.setEdge (Document.split t) (.ofInt n) {}
      ⟨source, target, Service.nodeLabels t⟩).patch.success = true) :
    ∃ g' raw style, (compile (Document.join (Edit.setEdge (Document.split t) (.ofInt n) {}
        ⟨source, target, Service.nodeLabels t⟩).lines) font).graph = some g' ∧
      (Document.split t)[n - 1]? = some raw ∧
      (∀ m, m ≠ n → g'.edgesOf m = g.edgesOf m) ∧
      g.edgesOf n = crossEdges n style (tokenIds (edgeSides raw).1) (tokenIds (edgeSides raw).2) ∧
      (Edit.Endpoints.ReadsBack ⟨source, target, Service.nodeLabels t⟩ raw →
        g'.edgesOf n = crossEdges n style (Edit.replacedIds source (tokenIds (edgeSides raw).1))
          (Edit.replacedIds target (tokenIds (edgeSides raw).2))) := by
  rw [graph_compile] at hg
  obtain rfl := Option.some.inj hg
  have hsource : ∀ p ∈ source, Text.IsWord p.2 := fun p hp =>
    Draft.isWord_of_mem_ids (hnew p (List.mem_append_left _ (Option.mem_toList.mpr hp)))
  have htarget : ∀ p ∈ target, Text.IsWord p.2 := fun p hp =>
    Draft.isWord_of_mem_ids (hnew p (List.mem_append_right _ (Option.mem_toList.mpr hp)))
  obtain ⟨raw, style, hraw, hothers, hbefore, hafter⟩ :=
    Edit.edgesOf_setEdge _ rfl hdrawn hsource htarget hchange hdone
  exact ⟨_, raw, style, graph_compile _ font, hraw, hothers, hbefore, hafter⟩

/-- Both ends of a line; the new source is written by its label, and bracket and
comment stay. -/
theorem setEdge_replaces_ends_by_label :
    (Edit.setEdge (Document.split "Big A | B -> C [dashed] # C\nNew One -> C") (.ofInt (1 : Nat)) {}
      ⟨some ("big_a".toList, "new_one".toList), some ("C".toList, "B".toList),
        Service.nodeLabels "Big A | B -> C [dashed] # C\nNew One -> C"⟩).lines =
      ["New One | B -> B [dashed] # C".toList, "New One -> C".toList] ∧
    ∃ g g' style, (compile "Big A | B -> C [dashed] # C\nNew One -> C").graph = some g ∧
      (compile
        (Document.join (Edit.setEdge (Document.split "Big A | B -> C [dashed] # C\nNew One -> C")
        (.ofInt (1 : Nat)) {} ⟨some ("big_a".toList, "new_one".toList),
          some ("C".toList, "B".toList),
          Service.nodeLabels "Big A | B -> C [dashed] # C\nNew One -> C"⟩).lines)).graph = some g' ∧
      (∀ m, m ≠ 1 → g'.edgesOf m = g.edgesOf m) ∧
      g.edgesOf 1 = crossEdges 1 style ["big_a".toList, "B".toList] ["C".toList] ∧
      g'.edgesOf 1 = crossEdges 1 style ["new_one".toList, "B".toList] ["B".toList] := by
  have hdone : (Edit.setEdge (Document.split "Big A | B -> C [dashed] # C\nNew One -> C")
      (.ofInt (1 : Nat)) {} ⟨some ("big_a".toList, "new_one".toList), some ("C".toList, "B".toList),
        Service.nodeLabels "Big A | B -> C [dashed] # C\nNew One -> C"⟩).patch.success = true := by
    decide +kernel
  obtain ⟨g', raw, style, hg', hraw, hothers, hbefore, hafter⟩ := setEdge_replaces_ends
    (graph_compile "Big A | B -> C [dashed] # C\nNew One -> C" none)
    (by decide +kernel) (by decide +kernel) (Or.inl rfl) hdone
  obtain rfl : "Big A | B -> C [dashed] # C".toList = raw := Option.some.inj hraw
  have hsides : tokenIds (edgeSides "Big A | B -> C [dashed] # C").1 =
      ["big_a".toList, "B".toList] ∧
      tokenIds (edgeSides "Big A | B -> C [dashed] # C").2 = ["C".toList] := by decide +kernel
  rw [hsides.1, hsides.2] at hbefore hafter
  refine ⟨by decide +kernel, _, g', style, graph_compile _ none, hg', hothers, hbefore, hafter ?_⟩
  exact ⟨⟨by decide +kernel, by decide +kernel⟩,
    ⟨by decide +kernel, by decide +kernel⟩, by decide +kernel,
    by decide +kernel, by decide +kernel, Line.not_cut_of_colons (by decide +kernel),
    by decide +kernel, by decide +kernel⟩

/-- A number sign that a backslash keeps in a label is written out without it,
and the rest of the line becomes a comment: the edges of the line are lost. -/
theorem setEdge_loses_edges :
    ¬ ∀ (t : Text) (g g' : Graph) (n : Nat) (old new : Text), (compile t).graph = some g →
      g.edgesOf n ≠ [] → old ∈ g.ids → new ∈ g.ids →
      (Edit.setEdge (Document.split t) (.ofInt n) {}
        ⟨some (old, new), none, Service.nodeLabels t⟩).patch.success = true →
      (compile (Document.join (Edit.setEdge (Document.split t) (.ofInt n) {}
        ⟨some (old, new), none, Service.nodeLabels t⟩).lines)).graph = some g' →
      ∃ raw style, (Document.split t)[n - 1]? = some raw ∧
        g'.edgesOf n = crossEdges n style ((tokenIds (edgeSides raw).1).replace old new)
          (tokenIds (edgeSides raw).2) := by
  intro hall
  obtain ⟨raw, style, hraw, hedges⟩ := hall "A -> B\nC -> Issue \\#1" _ _ 1 "A" "issue_1"
    (graph_compile _ none) (by decide +kernel) (by decide +kernel) (by decide +kernel)
      (by decide +kernel)
    (graph_compile _ none)
  obtain rfl : "A -> B".toList = raw := Option.some.inj hraw
  have hsides : tokenIds (edgeSides "A -> B").1 = ["A".toList] ∧
      tokenIds (edgeSides "A -> B").2 = ["B".toList] := by decide +kernel
  have hdrawn :
      (crossEdges 1 style (["A".toList].replace "A" "issue_1") ["B".toList]).isEmpty = false := rfl
  rw [hsides.1, hsides.2] at hedges
  rw [← hedges] at hdrawn
  exact absurd hdrawn (by decide +kernel)

end LineDiagram
