import LineDiagram.Proofs.EdgeLabel
import LineDiagram.Proofs.StyleBracket
import LineDiagram.Proofs.WordLines

/-!
# New links

New links append to a document a definition for each label and then an edge for
each definition.  The identifiers of the new nodes differ from those that are
defined, but an edge can mention a node that is not defined, and the new node is
then this one.  The lines are also read again: a label that starts with two
colons makes another token of the definition, and an identifier that was cut may
stand for another.

* `addLinks_done` — what is appended;
* `drawn_addLinks` — the nodes and the edges afterwards;
* `addLinks_new_iff` — when the links are new, one node and one edge for each
  label.
-/

namespace LineDiagram

/-- The two ends of an edge. -/
def Edge.ends (e : Edge) : Text × Text := (e.source, e.target)

namespace Draft

/-- The edges that lines add, by their links, come behind those that were
there. -/
theorem exists_edges_addLines (font : Text) (d : Draft) (index : Nat) (lines : List Text) :
    ∃ added, (addLines font d index lines).graph.edges = d.graph.edges ++ added ∧
      added.map Edge.link = lines.flatMap fun raw => (Line.contentOfRaw raw).links font := by
  induction lines generalizing d index with
  | nil => exact ⟨[], (List.append_nil _).symm, rfl⟩
  | cons raw lines ih =>
      obtain ⟨added, hedges, hlinks⟩ := ih (d.addLine font index (.ofText raw)) (index + 1)
      refine ⟨(Line.ofText raw).content.edges font (index + 1) ++ added, ?_, ?_⟩
      · rw [addLines, hedges, edges_addLine, List.append_assoc]
      · rw [List.map_append, Content.link_edges, hlinks]
        rfl

/-- Blank lines at the end do not count. -/
theorem ofLines_dropBlankEnd (font : Text) (lines : List Text) :
    ofLines font (Document.dropBlankEnd lines) = ofLines font lines := by
  obtain ⟨blanks, hlines, hblanks, -⟩ := Document.dropBlankEnd_spec lines
  have hcontent : ∀ raw ∈ blanks, Line.contentOfRaw raw = .blank := by
    intro raw hraw
    unfold Line.contentOfRaw
    rw [← Comment.strip_trim, hblanks raw hraw]
    rfl
  conv_rhs => rw [hlines]
  unfold ofLines
  rw [addLines_append, addLines_of_blank font _ _ hcontent]

end Draft

namespace Edit

/-! ## What is appended -/

/-- The two ends of a new link. -/
def LinkDirection.ends (direction : LinkDirection) (old new : Text) : Text × Text :=
  match direction with
  | .out => (old, new)
  | .into => (new, old)

namespace Links

/-- The labels of the new nodes, without the blank ones. -/
def names (links : Links) : List Text := (links.labels.map Text.trim).filter fun t => !t.isEmpty

/-- The identifiers of the new nodes. -/
def newIds (links : Links) (lines : List Text) : List Text :=
  Identifier.freshAll (definedNodes lines) links.names

/-- The new nodes with their labels. -/
def definitions (links : Links) (lines : List Text) : List (Text × Text) :=
  (links.newIds lines).zip links.names

/-- The inside of the bracket of the new edges. -/
def inner (links : Links) : Text :=
  EdgeEdit.apply ⟨some (.text links.label), some (.text links.border)⟩ []

/-- The lines that are appended. -/
def addedLines (links : Links) (lines : List Text) (source : Text) : List Text :=
  (links.definitions lines).map (fun p => definitionLine p.1 p.2) ++
    (links.newIds lines).map fun id => links.direction.edgeLine source id ++ bracketEnd links.inner

/-- Links that are not refused. -/
structure Accepted (links : Links) : Prop where
  /-- There is a label. -/
  named : links.names ≠ []
  /-- No label would break a bracket. -/
  names : ∀ name ∈ links.names, ∀ c ∈ name, Text.isBracketBreaker c = false
  /-- Nor would the label of the links. -/
  label : ∀ c ∈ links.label, Text.isBracketBreaker c = false
  /-- Nor would their border. -/
  border : ∀ c ∈ links.border, Text.isBracketBreaker c = false

end Links

/-- **What new links do to the lines.**  The blank end is dropped, the new lines
are appended, and one empty line ends the document. -/
theorem addLinks_done {lines : List Text} {source : Text} {links : Links}
    (h : (addLinks lines source links).patch.success = true) :
    links.Accepted ∧ (addLinks lines source links).lines =
      Document.dropBlankEnd lines ++ links.addedLines lines (Text.trim source) ++ [[]] := by
  have hrefused : ∀ {target : Text} {refusal : Refusal},
      (Outcome.refuse lines .addLinks target refusal).patch.success ≠ true := nofun
  unfold addLinks at h ⊢
  dsimp only at h ⊢
  split at h
  · exact absurd h hrefused
  · split at h
    · exact absurd h hrefused
    · rename_i hsource hnamed
      split at h
      · exact absurd h hrefused
      · rename_i hnames
        split at h
        · exact absurd h hrefused
        · rename_i hlabel
          split at h
          · exact absurd h hrefused
          · rename_i hborder
            rw [if_neg hsource, if_neg hnamed, if_neg hlabel, if_neg hborder]
            refine ⟨⟨fun hnil => hnamed (List.isEmpty_iff.mpr hnil), ?_, ?_, ?_⟩, rfl⟩
            · intro name hname
              simpa using List.find?_eq_none.mp hnames name hname
            · simpa using hlabel
            · simpa using hborder

section Accepted

variable {links : Links} (h : links.Accepted) {lines : List Text}

/-- Labels of new nodes are written in one line, without blanks around them. -/
theorem Links.mem_names {name : Text} (hname : name ∈ links.names) :
    Text.Tight name ∧ name ≠ [] := by
  obtain ⟨hmem, hne⟩ := List.mem_filter.mp hname
  obtain ⟨label, -, rfl⟩ := List.mem_map.mp hmem
  exact ⟨Text.tight_trim label, by simpa using hne⟩

theorem Links.isWord_newIds {id : Text} (hid : id ∈ links.newIds lines) : Text.IsWord id :=
  (Identifier.isName_of_mem_freshAll hid).isWord

theorem Links.ofToken_newIds {id : Text} (hid : id ∈ links.newIds lines) :
    Identifier.ofToken id = id :=
  (Identifier.isName_of_mem_freshAll hid).ofToken

include h

/-- What is written between the brackets of the new edges may stand there: label
and border were checked before. -/
theorem Links.Accepted.enclosed_inner : Bracket.Enclosed links.inner := by
  have hlabelText : Value.textIfFilled (.text links.label) = links.label := by
    cases links.label with
    | nil => rfl
    | cons c rest => rfl
  have hlayout : EdgeLayout.ofInner [] = ⟨[], none, [], [], []⟩ := rfl
  have hinner : links.inner = Bracket.joinParts
      ((if !(Comment.escape (Text.trim links.label)).isEmpty then
          [EdgeLayout.labelPart (Comment.escape (Text.trim links.label)) none] else []) ++
        if !(writtenBorder (.text links.border)).isEmpty then
          [EdgeLayout.borderPart (writtenBorder (.text links.border)) none] else []) := by
    unfold Links.inner EdgeEdit.apply
    rw [Option.map_some, Option.map_some, hlabelText, hlayout]
    simp [EdgeLayout.update]
  have hwhole : Field.isBroken (some (.text links.border)) = false := by
    have hany : links.border.any Text.isBracketBreaker = false := by simpa using h.border
    exact hany
  obtain ⟨hopen, hline⟩ := Bracket.fit_iff.mp (Bracket.fit_writtenBorder hwhole)
  have hborder : Bracket.Enclosed (writtenBorder (.text links.border)) :=
    ⟨Bracket.tight_writtenBorder _, Comment.plain_escape _, hopen, hline⟩
  have hkey : Bracket.Enclosed "border".toList :=
    ⟨Text.tight_of_all (by decide), Comment.plain_of_not_mem (by decide), by decide, by decide⟩
  rw [hinner]
  apply Bracket.enclosed_joinParts
  intro p hp
  rcases List.mem_append.mp hp with hnew | hnew
  · split at hnew
    · rename_i hfilled
      have hne : Text.trim links.label ≠ [] := by
        intro hnil
        rw [hnil] at hfilled
        cases hfilled
      have hsound := EdgeLayout.sound_labelPart (sound_label hne h.label)
      rw [List.mem_singleton.mp hnew]
      exact ⟨hsound.toEnclosed, hsound.ne_nil⟩
    · cases hnew
  · split at hnew
    · rename_i hfilled
      have hne : writtenBorder (.text links.border) ≠ [] := by simpa using hfilled
      rw [List.mem_singleton.mp hnew]
      unfold EdgeLayout.borderPart
      dsimp only
      split
      · exact ⟨hborder, hne⟩
      · have hkeyed := EdgeLayout.enclosed_keyed hkey (by decide) hborder hne
        exact ⟨hkeyed, by simp⟩
    · cases hnew

/-- The definition of a new node. -/
theorem Links.Accepted.content_definition {p : Text × Text} (hp : p ∈ links.definitions lines) :
    ∃ text bracket, Line.contentOfRaw (definitionLine p.1 p.2) =
      .node (definedToken p.1 p.2) text bracket := by
  obtain ⟨hid, hname⟩ := List.of_mem_zip hp
  obtain ⟨htight, hne⟩ := Links.mem_names hname
  refine contentOfRaw_definitionLine (Links.isWord_newIds hid) htight hne fun hmem => ?_
  exact absurd (h.names _ hname _ hmem) (by decide)

/-- The edge to a new node, by the link that it draws and the nodes that it
mentions. -/
theorem Links.Accepted.content_edge {old new : Text} (hold : Text.IsWord old)
    (hnew : Text.IsWord new)
    (font : Text) {raw : Text}
    (hraw : raw = links.direction.edgeLine old new ++ bracketEnd links.inner) :
    ((Line.contentOfRaw raw).links font).map (fun link => (link.1, link.2.1)) =
        [links.direction.ends (Identifier.ofToken old) (Identifier.ofToken new)] ∧
      ∀ token, token ∈ (Line.contentOfRaw raw).mentions ↔ token = old ∨ token = new := by
  cases hdirection : links.direction with
  | out =>
      obtain ⟨bracket, hcontent⟩ := contentOfRaw_edgeLine hold hnew h.enclosed_inner
      obtain ⟨hlinks, hmentions⟩ := Content.edge_words hold hnew font bracket
      rw [hdirection, LinkDirection.edgeLine] at hraw
      rw [hraw, hcontent, hlinks, hmentions]
      exact ⟨rfl, by simp⟩
  | into =>
      obtain ⟨bracket, hcontent⟩ := contentOfRaw_edgeLine hnew hold h.enclosed_inner
      obtain ⟨hlinks, hmentions⟩ := Content.edge_words hnew hold font bracket
      rw [hdirection, LinkDirection.edgeLine] at hraw
      rw [hraw, hcontent, hlinks, hmentions]
      exact ⟨rfl, by simp [or_comm]⟩

variable {source : Text} (hsource : Text.IsWord source)

include hsource

/-- **The links that the appended lines draw**: one for each new node, between
it and the source, in the direction that is asked for. -/
theorem Links.Accepted.links_addedLines (font : Text) :
    ((links.addedLines lines source).flatMap fun raw => (Line.contentOfRaw raw).links font).map
        (fun link => (link.1, link.2.1)) =
      (links.newIds lines).map (links.direction.ends (Identifier.ofToken source)) := by
  have hdefinitions : ∀ p ∈ links.definitions lines,
      (Line.contentOfRaw (definitionLine p.1 p.2)).links font = [] := by
    intro p hp
    obtain ⟨text, bracket, hcontent⟩ := h.content_definition hp
    rw [hcontent]
    rfl
  have hedges : ∀ id ∈ links.newIds lines,
      ((Line.contentOfRaw (links.direction.edgeLine source id ++
        bracketEnd links.inner)).links font).map
        (fun link => (link.1, link.2.1)) =
          [links.direction.ends (Identifier.ofToken source) id] := by
    intro id hid
    rw [(h.content_edge hsource (Links.isWord_newIds hid) font rfl).1, Links.ofToken_newIds hid]
  unfold Links.addedLines
  rw [List.flatMap_append, List.flatMap_map, List.flatMap_map,
    List.flatMap_eq_nil_iff.mpr hdefinitions,
    List.nil_append, List.map_flatMap, List.flatMap_congr hedges, ← List.map_eq_flatMap]

/-- **The nodes that the appended lines mention.**  These are the tokens of the
definitions as they are read, the new identifiers and the source. -/
theorem Links.Accepted.mem_mentions_addedLines {v : Text} :
    v ∈ ((links.addedLines lines source).flatMap fun raw => (Line.contentOfRaw raw).mentions).map
        Identifier.ofToken ↔
      (∃ p ∈ links.definitions lines, v = Identifier.ofToken (definedToken p.1 p.2)) ∨
        ∃ id ∈ links.newIds lines, v = Identifier.ofToken source ∨ v = id := by
  have hdefinitions : ∀ p ∈ links.definitions lines,
      (Line.contentOfRaw (definitionLine p.1 p.2)).mentions = [definedToken p.1 p.2] := by
    intro p hp
    obtain ⟨text, bracket, hcontent⟩ := h.content_definition hp
    rw [hcontent]
    rfl
  have hedges : ∀ id ∈ links.newIds lines, ∀ token, token ∈ (Line.contentOfRaw
      (links.direction.edgeLine source id ++ bracketEnd links.inner)).mentions ↔
        token = source ∨ token = id := fun id hid =>
    (h.content_edge hsource (Links.isWord_newIds hid) [] rfl).2
  unfold Links.addedLines
  rw [List.flatMap_append, List.flatMap_map, List.flatMap_map, List.flatMap_congr hdefinitions,
    ← List.map_eq_flatMap, List.map_append, List.mem_append, List.map_map]
  refine or_congr ?_ ?_
  · simp [eq_comm]
  · constructor
    · intro hmem
      obtain ⟨token, htoken, rfl⟩ := List.mem_map.mp hmem
      obtain ⟨id, hid, hin⟩ := List.mem_flatMap.mp htoken
      refine ⟨id, hid, ?_⟩
      rcases (hedges id hid token).mp hin with rfl | rfl
      · exact Or.inl rfl
      · exact Or.inr (Links.ofToken_newIds hid)
    · rintro ⟨id, hid, rfl | rfl⟩
      · have hmention := (hedges id hid source).mpr (Or.inl rfl)
        exact List.mem_map.mpr ⟨source, List.mem_flatMap.mpr ⟨id, hid, hmention⟩, rfl⟩
      · have hmention := (hedges v hid v).mpr (Or.inr rfl)
        exact List.mem_map.mpr ⟨v, List.mem_flatMap.mpr ⟨v, hid, hmention⟩,
          Links.ofToken_newIds hid⟩

/-- The appended lines hold no line feed. -/
theorem Links.Accepted.lineFeed_not_mem {raw : Text} (hraw : raw ∈ links.addedLines lines source) :
    '\n' ∉ raw := by
  have hend : '\n' ∉ bracketEnd links.inner := by
    unfold bracketEnd
    split
    · exact List.not_mem_nil
    · simp [h.enclosed_inner.one_line]
  rcases List.mem_append.mp hraw with hdefinition | hedge
  · obtain ⟨p, hp, rfl⟩ := List.mem_map.mp hdefinition
    obtain ⟨hid, hname⟩ := List.of_mem_zip hp
    have hlabel : '\n' ∉ Comment.escape p.2 := fun hmem =>
      absurd (h.names _ hname _ ((Comment.mem_escape (by decide)).mp hmem)) (by decide)
    unfold definitionLine
    simp [(Links.isWord_newIds hid).not_mem (c := '\n') (by decide), hlabel]
  · obtain ⟨id, hid, rfl⟩ := List.mem_map.mp hedge
    have hids : '\n' ∉ source ∧ '\n' ∉ id :=
      ⟨hsource.not_mem (by decide), (Links.isWord_newIds hid).not_mem (by decide)⟩
    cases links.direction with
    | out => simp [LinkDirection.edgeLine, hids, hend]
    | into => simp [LinkDirection.edgeLine, hids, hend]

end Accepted

/-! ## The graph with the new links -/

/-- What new links make of a graph: which nodes and edges it has afterwards. -/
structure Links.Drawn (links : Links) (lines : List Text) (source : Text)
    (g g' : Graph) : Prop where
  nodup : g'.ids.Nodup
  kept : g.ids <+: g'.ids
  mem_ids : ∀ v, v ∈ g'.ids ↔ v ∈ g.ids ∨
    (∃ p ∈ links.definitions lines, v = Identifier.ofToken (definedToken p.1 p.2)) ∨
      ∃ id ∈ links.newIds lines, v = Identifier.ofToken source ∨ v = id
  edges : ∃ added, g'.edges = g.edges ++ added ∧
    added.map Edge.ends =
      (links.newIds lines).map (links.direction.ends (Identifier.ofToken source))

/-- **The lines with the new links, written and read again**, give the old graph
with what the appended lines add to it. -/
theorem drawn_addLinks {lines : List Text} {source : Text} {links : Links} (font : Text)
    (hlines : ∀ raw ∈ lines, '\n' ∉ raw) (hsource : Text.IsWord source)
    (h : (addLinks lines source links).patch.success = true) :
    links.Drawn lines source (Draft.ofLines font lines).graph
      (Draft.ofLines font
        (Document.split (Document.join (addLinks lines source links).lines))).graph := by
  obtain ⟨haccepted, hout⟩ := addLinks_done h
  rw [Text.trim_of_tight hsource.tight, List.append_assoc] at hout
  have hfree : ∀ raw ∈ (addLinks lines source links).lines, '\n' ∉ raw := by
    intro raw hraw
    rw [hout, List.mem_append, List.mem_append] at hraw
    rcases hraw with hold | hadded | hempty
    · obtain ⟨blanks, hblanks, -⟩ := Document.dropBlankEnd_spec lines
      exact hlines raw (by rw [hblanks]; exact List.mem_append_left _ hold)
    · exact haccepted.lineFeed_not_mem hsource hadded
    · rw [List.mem_singleton.mp hempty]
      exact List.not_mem_nil
  have hcontents := Document.contents_split_join (by rw [hout]; simp) hfree
  -- The old lines come first, and the line at the end is blank.
  have hsame : Draft.ofLines font (addLinks lines source links).lines =
      Draft.addLines font (Draft.ofLines font lines) (Document.dropBlankEnd lines).length
        (links.addedLines lines source) := by
    rw [hout, ← Draft.ofLines_dropBlankEnd font lines]
    unfold Draft.ofLines
    rw [Draft.addLines_append, Draft.addLines_append, Nat.zero_add]
    apply Draft.addLines_of_blank
    intro raw hraw
    rw [List.mem_singleton.mp hraw]
    rfl
  have hids : (Draft.ofLines font
      (Document.split (Document.join (addLinks lines source links).lines))).graph.ids =
      (((links.addedLines lines source).flatMap fun raw => (Line.contentOfRaw raw).mentions).map
        Identifier.ofToken).foldl Graph.addId (Draft.ofLines font lines).graph.ids := by
    rw [← Draft.ids_addLines, ← hsame]
    apply Draft.ids_ofLines_congr
    have hmap := congrArg
      (List.map fun content : Content => content.mentions.map Identifier.ofToken) hcontents
    rwa [List.map_map, List.map_map] at hmap
  obtain ⟨added, hedges, hlinks⟩ := Draft.exists_edges_addLines font (Draft.ofLines font lines)
    (Document.dropBlankEnd lines).length (links.addedLines lines source)
  refine ⟨Draft.nodup_ids_ofLines font _, ?_, ?_, added, ?_, ?_⟩
  · rw [hids]
    exact Graph.prefix_foldl_addId _ _
  · intro v
    rw [hids, Graph.mem_foldl_addId, haccepted.mem_mentions_addedLines hsource]
  · rw [Draft.edges_ofLines_congr font hcontents, hsame, hedges]
  · rw [← haccepted.links_addedLines hsource font, ← hlinks, List.map_map]
    rfl

/-- New links as they are asked for: one new node and one new edge for each
label. -/
structure LinksNew (links : Links) (source : Text) (g g' : Graph) (new : List Text) : Prop where
  /-- One for each label. -/
  length_eq : new.length = links.names.length
  /-- They were not there. -/
  fresh : ∀ id ∈ new, id ∉ g.ids
  /-- They are the only new nodes. -/
  ids : g'.ids.Perm (g.ids ++ new)
  /-- Each of them has an edge, in their order, and these are the only new
  edges. -/
  edges : ∃ added, g'.edges = g.edges ++ added ∧
    added.map Edge.ends = new.map (links.direction.ends source)

/-- What new links need of a graph. -/
structure Links.Apart (links : Links) (lines : List Text) (source : Text) (g : Graph) : Prop where
  /-- No node, defined or not, has the identifier of a new one. -/
  unused : ∀ id ∈ links.newIds lines, id ∉ g.ids
  /-- A definition that is read with another token defines a node that is
  there. -/
  tokens : ∀ p ∈ links.definitions lines, redefines p.2 = true →
    Identifier.ofToken (p.1 ++ "::") ∈ g.ids
  /-- The old node stands for itself. -/
  self : Identifier.ofToken source = source

/-- The ends of links tell their nodes, in either direction. -/
private theorem eq_of_map_ends {direction : LinkDirection} {a b : Text} {first second : List Text}
    (h : first.map (direction.ends a) = second.map (direction.ends b)) :
    first = second ∧ (first ≠ [] → a = b) := by
  cases direction with
  | out =>
      have hnew := congrArg (List.map Prod.snd) h
      have hold := congrArg (List.map Prod.fst) h
      simp only [List.map_map, Function.comp_def, LinkDirection.ends, List.map_id'] at hnew hold
      refine ⟨hnew, fun hne => ?_⟩
      obtain ⟨c, rest, rfl⟩ := List.exists_cons_of_ne_nil hne
      rw [← hnew, List.map_cons, List.map_cons, List.cons.injEq] at hold
      exact hold.1
  | into =>
      have hnew := congrArg (List.map Prod.fst) h
      have hold := congrArg (List.map Prod.snd) h
      simp only [List.map_map, Function.comp_def, LinkDirection.ends, List.map_id'] at hnew hold
      refine ⟨hnew, fun hne => ?_⟩
      obtain ⟨c, rest, rfl⟩ := List.exists_cons_of_ne_nil hne
      rw [← hnew, List.map_cons, List.map_cons, List.cons.injEq] at hold
      exact hold.1

/-- A token with two colons at its end stands for no name, because it is no
identifier and becomes a slug. -/
private theorem not_isName_colons (id : Text) :
    ¬ Identifier.IsName (Identifier.ofToken (id ++ "::")) := by
  intro hname
  have hword := hname.isWord
  unfold Identifier.ofToken at hname hword
  dsimp only at hname hword
  split at hname
  · rename_i hbare
    rw [if_pos hbare] at hword
    have hcolon : ':' ∈ Text.trim (id ++ "::") := Text.mem_trim (by decide) (by simp)
    exact hword.not_mem (by decide) hcolon
  · exact Identifier.not_isName_slug _ hname

section Drawn

variable {links : Links} {lines : List Text} {source : Text} {g g' : Graph}

/-- **New links are new exactly when they are apart from what is there.**  A
node that is only mentioned, and never defined, may have the identifier of a new
one. -/
theorem Links.Drawn.linksNew_iff (h : links.Drawn lines source g g') (hnodup : g.ids.Nodup)
    (hsource : source ∈ g.ids) (hnamed : links.names ≠ []) :
    (∃ new, LinksNew links source g g' new) ↔ links.Apart lines source g := by
  obtain ⟨added, hedges, hends⟩ := h.edges
  have hlength : (links.newIds lines).length = links.names.length := Identifier.length_freshAll _ _
  have hne : links.newIds lines ≠ [] := by
    intro hnil
    rw [hnil] at hlength
    exact hnamed (List.length_eq_zero_iff.mp hlength.symm)
  constructor
  · rintro ⟨new, hnew⟩
    obtain ⟨added', hedges', hends'⟩ := hnew.edges
    rw [List.append_cancel_left (hedges'.symm.trans hedges), hends] at hends'
    obtain ⟨rfl, hself⟩ := eq_of_map_ends hends'
    refine ⟨hnew.fresh, ?_, hself hne⟩
    intro p hp hredefines
    have hmem : Identifier.ofToken (p.1 ++ "::") ∈ g'.ids := by
      refine (h.mem_ids _).mpr (Or.inr (Or.inl ⟨p, hp, ?_⟩))
      rw [definedToken, if_pos hredefines]
    rcases List.mem_append.mp (hnew.ids.mem_iff.mp hmem) with hold | hfresh
    · exact hold
    · exact absurd (Identifier.isName_of_mem_freshAll hfresh) (not_isName_colons p.1)
  · intro hapart
    have hdisjoint : (g.ids ++ links.newIds lines).Nodup := by
      refine List.nodup_append.mpr ⟨hnodup, Identifier.nodup_freshAll _ _, ?_⟩
      intro id hid other hother heq
      exact hapart.unused other hother (heq ▸ hid)
    refine ⟨links.newIds lines, hlength, hapart.unused, ?_, added, hedges,
      by rw [hends, hapart.self]⟩
    refine (List.perm_ext_iff_of_nodup h.nodup hdisjoint).mpr fun v => ?_
    rw [h.mem_ids, List.mem_append]
    constructor
    · rintro (hold | ⟨p, hp, rfl⟩ | ⟨id, hid, rfl | rfl⟩)
      · exact Or.inl hold
      · by_cases hredefines : redefines p.2 = true
        · rw [definedToken, if_pos hredefines]
          exact Or.inl (hapart.tokens p hp hredefines)
        · have hid := (List.of_mem_zip hp).1
          rw [definedToken, if_neg hredefines, Links.ofToken_newIds hid]
          exact Or.inr hid
      · rw [hapart.self]
        exact Or.inl hsource
      · exact Or.inr hid
    · rintro (hold | hid)
      · exact Or.inl hold
      · exact Or.inr (Or.inr ⟨v, hid, Or.inr rfl⟩)

end Drawn

/-- **New links.**  For every document and every node of it, the nodes and the
edges that are there stay, and an edge between the node and each new identifier
is added.  There is one new node and one new edge for each label exactly when no
node has a new identifier, no label makes another node, and the old node stands
for itself. -/
theorem addLinks_new_iff {t : Text} {font : Option Text} {g : Graph} {source : Text} {links : Links}
    (hg : (compile t font).graph = some g) (hsource : source ∈ g.ids)
    (h : (addLinks (Document.split t) source links).patch.success = true) :
    ∃ g',
      (compile (Document.join (addLinks (Document.split t) source links).lines) font).graph =
        some g' ∧
      g.ids <+: g'.ids ∧
      (∃ added, g'.edges = g.edges ++ added ∧ added.map Edge.ends =
        (links.newIds (Document.split t)).map (links.direction.ends (Identifier.ofToken source))) ∧
      ((∃ new, LinksNew links source g g' new) ↔ links.Apart (Document.split t) source g) := by
  rw [graph_compile] at hg
  obtain rfl := Option.some.inj hg
  have hdrawn := drawn_addLinks ((filled? font).getD Label.defaultFont)
    (fun raw hraw => Document.not_mem_split hraw) (Draft.isWord_of_mem_ids hsource) h
  exact ⟨_, graph_compile _ font, hdrawn.kept, hdrawn.edges,
    hdrawn.linksNew_iff (Draft.nodup_ids_ofLines _ _) hsource (addLinks_done h).1.named⟩

/-- Labels that are the same, with an identifier that is defined, and a blank
one. -/
theorem addLinks_new_beside_defined :
    (addLinks (Document.split "A -> B\nN_foo:: old\n") "B"
      ⟨["foo".toList, " ".toList, "foo".toList], .into, [], []⟩).lines =
        ["A -> B".toList, "N_foo:: old".toList, "N_foo_2:: foo".toList, "N_foo_3:: foo".toList,
          "N_foo_2 -> B".toList, "N_foo_3 -> B".toList, []] ∧
    ∃ g g', (compile "A -> B\nN_foo:: old\n").graph = some g ∧
      (compile (Document.join (addLinks (Document.split "A -> B\nN_foo:: old\n") "B"
        ⟨["foo".toList, " ".toList, "foo".toList], .into, [], []⟩).lines)).graph = some g' ∧
      ∃ new, LinksNew ⟨["foo".toList, " ".toList, "foo".toList], .into, [], []⟩ "B" g g' new := by
  have hdone : (addLinks (Document.split "A -> B\nN_foo:: old\n") "B"
      ⟨["foo".toList, " ".toList, "foo".toList], .into, [], []⟩).patch.success =
        true := by decide +kernel
  obtain ⟨g', hg', -, -, hiff⟩ := addLinks_new_iff (graph_compile "A -> B\nN_foo:: old\n" none)
    (by decide +kernel) hdone
  exact ⟨by decide +kernel, _, g', graph_compile _ none, hg',
    hiff.mpr ⟨by decide +kernel, by decide +kernel, by decide +kernel⟩⟩

/-- A node that is mentioned but not defined is taken for a new one. -/
theorem addLinks_takes_mentioned :
    ¬ ∀ (t source : Text) (links : Links) (g g' : Graph), (compile t).graph = some g →
      source ∈ g.ids → (addLinks (Document.split t) source links).patch.success = true →
      (compile (Document.join (addLinks (Document.split t) source links).lines)).graph = some g' →
      ∃ new, LinksNew links source g g' new := by
  intro hall
  obtain ⟨new, hnew⟩ :=
    hall "A -> N_foo" "A" ⟨["foo".toList], .out, [], []⟩ _ _ (graph_compile _ none)
    (by decide +kernel) (by decide +kernel) (graph_compile _ none)
  have hlength := hnew.ids.length_eq
  rw [List.length_append, hnew.length_eq] at hlength
  exact absurd hlength (by decide +kernel)

end Edit

end LineDiagram
