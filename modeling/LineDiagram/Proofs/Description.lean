import LineDiagram.Proofs.Addresses
import LineDiagram.Proofs.Reading

/-!
# The graph that a document describes

The graph is built up line by line: each line mentions nodes, may write labels
over older ones and adds edges.  Here the same graph is described without the
table that it is kept in, from what the lines say.

A token that is no identifier is written as the label of its node on every
mention.  An identifier is written only when its node is new, and the label of a
definition is written after its token.  The label of a node is the last one that
was written for it.

* `Accounted.mention`, `accounted_addLine` — what one token and one line add to
  this account;
* `accounted_ofLines` — the account of a whole document;
* `compile_described` — edges, identifiers and labels of every document.
-/

namespace LineDiagram

/-- The labels that tokens write, after some others were mentioned: a token is
written unless it is an identifier whose node was mentioned before. -/
def mentionLabels (mentioned : List Text) : List Text → List (Text × Text)
  | [] => []
  | token :: rest =>
    (if Identifier.isBare token && (mentioned.map Identifier.ofToken).contains
      (Identifier.ofToken token)
      then [] else [(Identifier.ofToken token, token)]) ++ mentionLabels (mentioned ++ [token]) rest

/-- The labels that a line writes, after some tokens were mentioned: those of
its mentions, and then that of a definition. -/
def Content.labels (mentioned : List Text) (content : Content) : List (Text × Text) :=
  mentionLabels mentioned content.mentions ++ content.ownLabel

/-- The labels that lines write, in order, after some tokens were mentioned. -/
def labelsWritten (mentioned : List Text) : List Content → List (Text × Text)
  | [] => []
  | content :: rest =>
    content.labels mentioned ++ labelsWritten (mentioned ++ content.mentions) rest

/-- The last label that is written for a node. -/
def LastFor (id label : Text) (writes : List (Text × Text)) : Prop :=
  ∃ before after, writes = before ++ (id, label) :: after ∧ ∀ write ∈ after, write.1 ≠ id

/-- The last label for a node is still the last when labels for other nodes
follow. -/
theorem LastFor.append {id label : Text} {writes more : List (Text × Text)}
    (h : LastFor id label writes)
    (hmore : ∀ write ∈ more, write.1 ≠ id) : LastFor id label (writes ++ more) := by
  obtain ⟨before, after, rfl, hafter⟩ := h
  refine ⟨before, after ++ more, by simp, ?_⟩
  intro write hwrite
  rcases List.mem_append.mp hwrite with hold | hnew
  · exact hafter write hold
  · exact hmore write hnew

theorem lastFor_concat (id label : Text) (writes : List (Text × Text)) :
    LastFor id label (writes ++ [(id, label)]) := ⟨writes, [], rfl, by simp⟩

/-- The labels that several tokens write are those of the first token, and then
those of the rest with the first one mentioned. -/
theorem mentionLabels_cons (mentioned : List Text) (token : Text) (rest : List Text) :
    mentionLabels mentioned (token :: rest) =
      mentionLabels mentioned [token] ++ mentionLabels (mentioned ++ [token]) rest := by
  simp [mentionLabels]

/-- The labels of one more line are written last, after all tokens of the lines
before it were mentioned. -/
theorem labelsWritten_concat (mentioned : List Text) (contents : List Content) (content : Content) :
    labelsWritten mentioned (contents ++ [content]) =
      labelsWritten mentioned contents ++
        content.labels (mentioned ++ contents.flatMap Content.mentions) := by
  induction contents generalizing mentioned with
  | nil => simp [labelsWritten]
  | cons first contents ih =>
      rw [List.cons_append, labelsWritten, ih, labelsWritten, List.flatMap_cons, List.append_assoc,
        List.append_assoc]

/-- The tokens that a line mentions have no blanks around them. -/
theorem trim_of_mem_mentions {raw token : Text} (h : token ∈ (Line.contentOfRaw raw).mentions) :
    Text.trim token = token := by
  cases hcontent : Line.contentOfRaw raw with
  | node head label bracket =>
      obtain ⟨-, -, word, value, -, rfl, -⟩ := Line.contentOf_eq_node_iff.mp hcontent
      rw [hcontent] at h
      rw [List.mem_singleton.mp h, Text.trim_trim]
  | edge sources targets bracket =>
      have htight : ∀ side, ∀ t ∈ splitEndpoints side, Text.trim t = t :=
        fun side t ht => Text.trim_of_tight (Text.mem_parts ht).1
      simp only [hcontent, Content.mentions] at h
      split at h
      · cases h
      · obtain ⟨source, hsource, hmem⟩ := List.mem_flatMap.mp h
        rcases List.mem_cons.mp hmem with rfl | htarget
        · exact htight sources _ hsource
        · exact htight targets _ htarget
  | _ => simp [hcontent, Content.mentions] at h

namespace Graph

/-- The nodes of a graph are accounted for by the tokens that were mentioned and
the labels that were written. -/
structure Accounted (g : Graph) (mentioned : List Text) (writes : List (Text × Text)) : Prop where
  ids : g.ids = (mentioned.map Identifier.ofToken).foldl addId []
  labels : ∀ v label, g.label? v = some label → LastFor v label writes

theorem Accounted.mem_ids {g : Graph} {mentioned : List Text} {writes : List (Text × Text)}
    (h : Accounted g mentioned writes) {v : Text} :
    v ∈ g.ids ↔ v ∈ mentioned.map Identifier.ofToken := by
  rw [h.ids, mem_foldl_addId]
  simp

/-- One mention adds its token to those that account for the nodes, and the
label that it writes to the labels. -/
theorem Accounted.mention {g : Graph} {mentioned : List Text} {writes : List (Text × Text)}
    (h : Accounted g mentioned writes) {token : Text} (htoken : Text.trim token = token) :
    Accounted (g.mention token) (mentioned ++ [token])
      (writes ++ mentionLabels mentioned [token]) := by
  refine ⟨?_, ?_⟩
  · rw [ids_mention, h.ids, List.map_append, List.foldl_append]
    rfl
  · intro v label hlabel
    rw [label?_mention, htoken] at hlabel
    -- the node of a token is new just when none of the tokens before stands for it
    have hnew : g.label? (Identifier.ofToken token) = none ↔
        Identifier.ofToken token ∉ mentioned.map Identifier.ofToken := by
      rw [label?_eq_none, h.mem_ids]
    by_cases hwritten : v = Identifier.ofToken token ∧
        (g.label? v = none ∨ Identifier.isBare token = false)
    · rw [if_pos hwritten] at hlabel
      cases hlabel
      obtain ⟨rfl, hfirst⟩ := hwritten
      have hwrites : mentionLabels mentioned [token] = [(Identifier.ofToken token, token)] := by
        rcases hfirst with hnone | hbare
        · simp [mentionLabels, hnew.mp hnone]
        · simp [mentionLabels, hbare]
      rw [hwrites]
      exact lastFor_concat _ _ _
    · rw [if_neg hwritten] at hlabel
      refine (h.labels v label hlabel).append ?_
      intro write hwrite heq
      have hv : v = Identifier.ofToken token := by
        simp only [mentionLabels] at hwrite
        split at hwrite
        · cases hwrite
        · rw [← heq]
          simp_all
      have hbare : Identifier.isBare token = true := by
        by_contra hnot
        exact hwritten ⟨hv, Or.inr (by simpa using hnot)⟩
      have hseen : Identifier.ofToken token ∈ mentioned.map Identifier.ofToken := by
        by_contra hnot
        exact hwritten ⟨hv, Or.inl (hv ▸ hnew.mpr hnot)⟩
      simp [mentionLabels, hbare, hseen] at hwrite

/-- Several mentions, one after the other: each of them finds the ones before it
among the mentioned tokens. -/
theorem Accounted.mentionAll {g : Graph} {mentioned : List Text} {writes : List (Text × Text)}
    (h : Accounted g mentioned writes) {tokens : List Text}
    (htokens : ∀ token ∈ tokens, Text.trim token = token) :
    Accounted (g.mentionAll tokens) (mentioned ++ tokens)
      (writes ++ mentionLabels mentioned tokens) := by
  induction tokens generalizing g mentioned writes with
  | nil => simpa [mentionLabels, Graph.mentionAll] using h
  | cons token tokens ih =>
      have hrest := ih (h.mention (htokens token List.mem_cons_self))
        (fun t ht => htokens t (List.mem_cons_of_mem token ht))
      rw [List.append_assoc, List.append_assoc, ← mentionLabels_cons] at hrest
      exact hrest

end Graph

namespace Draft

/-- One line: its mentions first, and then the label of its own if it is a
definition. -/
theorem accounted_addLine (font : Text) {d : Draft} {mentioned : List Text}
    {writes : List (Text × Text)} (h : Graph.Accounted d.graph mentioned writes)
    (index : Nat) (raw : Text) :
    Graph.Accounted (d.addLine font index (.ofText raw)).graph
      (mentioned ++ (Line.contentOfRaw raw).mentions)
      (writes ++ (Line.contentOfRaw raw).labels mentioned) := by
  have htrim : ∀ token ∈ (Line.contentOfRaw raw).mentions, Text.trim token = token :=
    fun _ htoken => trim_of_mem_mentions htoken
  have hall := (h.mentionAll htrim).labels
  refine ⟨?_, ?_⟩
  · rw [ids_addLine, h.ids, List.map_append, List.foldl_append]
    rfl
  · intro v label hlabel
    rw [label?_addLine_or,
      show (Line.ofText raw).content = Line.contentOfRaw raw from rfl] at hlabel
    unfold Content.labels
    rw [← List.append_assoc]
    rcases (Line.contentOfRaw raw).ownLabel_cases with hnone | ⟨id, own, hone⟩
    · rw [hnone] at hlabel ⊢
      rw [List.append_nil]
      exact hall v label hlabel
    · rw [hone] at hlabel ⊢
      by_cases hv : v = id
      · subst hv
        have hown : own = label := by simpa using hlabel
        rw [hown]
        exact lastFor_concat v label _
      · have hskip : (v == id) = false := by simpa using hv
        refine (hall v label (by simpa [hskip] using hlabel)).append ?_
        intro write hwrite
        rw [List.mem_singleton.mp hwrite]
        exact fun heq => hv heq.symm

/-- **The nodes of a document** are accounted for by the mentions and the labels
of its lines. -/
theorem accounted_ofLines (font : Text) (lines : List Text) :
    Graph.Accounted (ofLines font lines).graph
      ((lines.map Line.contentOfRaw).flatMap Content.mentions)
      (labelsWritten [] (lines.map Line.contentOfRaw)) := by
  apply ofLines_induction font (P := fun lines d =>
    Graph.Accounted d.graph ((lines.map Line.contentOfRaw).flatMap Content.mentions)
      (labelsWritten [] (lines.map Line.contentOfRaw)))
  · refine ⟨rfl, ?_⟩
    intro v label hlabel
    cases hlabel
  · intro lines raw d h
    have hstep := accounted_addLine font h lines.length raw
    rw [List.map_append, List.map_singleton, List.flatMap_append, List.flatMap_singleton,
      labelsWritten_concat, List.nil_append]
    exact hstep

end Draft

namespace Graph

/-- Nodes and edges of a graph are those that lines describe. -/
structure DescribedBy (font : Text) (lines : List Text) (g : Graph) : Prop where
  /-- The edges are those of the lines in order: of each edge line, from each
  source to each target, with the number of the line and the style of its
  bracket. -/
  edges : g.edges = (lines.mapIdx fun i raw => (Line.contentOfRaw raw).edges font (i + 1)).flatten
  /-- The nodes are those that are mentioned, in the order of their first
  mentions. -/
  ids : g.nodes.map (·.id) =
    (((lines.map Line.contentOfRaw).flatMap Content.mentions).map Identifier.ofToken).eraseDups
  /-- The label of a node is the last one that is written for it. -/
  labels : ∀ n ∈ g.nodes, LastFor n.id n.label (labelsWritten [] (lines.map Line.contentOfRaw))

end Graph

/-- **Every graph is the one that its document describes.**  Nodes stand in the
order of their first mentions with the labels that were written last, and edges
in the order of the lines. -/
theorem compile_described (t : Text) (font : Option Text) :
    ∃ g, (compile t font).graph = some g ∧
      g.DescribedBy ((filled? font).getD Label.defaultFont) (Document.split t) := by
  refine ⟨_, graph_compile t font, ?_⟩
  generalize (filled? font).getD Label.defaultFont = font
  generalize Document.split t = lines
  have haccount := Draft.accounted_ofLines font lines
  refine ⟨?_, ?_, ?_⟩
  · have hedges := Draft.edges_addLines font {} 0 lines
    simpa [Draft.ofLines] using hedges
  · rw [← Graph.foldl_addId_nil]
    exact haccount.ids
  · intro n hn
    apply haccount.labels
    unfold Graph.label?
    rw [Graph.node?_of_mem (Draft.nodup_ids_ofLines font lines) hn]
    rfl

end LineDiagram
