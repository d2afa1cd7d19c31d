import LineDiagram.Proofs.Addresses
import LineDiagram.Proofs.SettingsBlock
import LineDiagram.Proofs.StyleWords

/-!
# The definitions of a node

A node may be defined on several lines.  Each definition is read with the
settings that are in force at its line, and its style is laid over that of the
earlier ones: a colour, a width or a size stays until another one is set, but
the style words of a definition take the place of all earlier ones.  When the
node is drawn, the last settings are applied once more.

* `definitions` — the definitions of a node, each with its settings;
* `Draft.styleOf_addLine`, `Draft.style_ofLines` — the style of a node is that
  of its definitions, laid over each other;
* `NodeStyle.mem_styles_lay` — the style words are those of the last definition
  that gives any;
* `compile_fill_shown_iff` — when a node has a fill, and when the fill is shown;
* `compile_border_only_iff` — a border of the last definition is drawn, and when
  it is the only one.
-/

namespace LineDiagram

/-! ## One definition -/

/-- The bracket of a definition; without one nothing is said. -/
def Bracket.ofInner? : Option Text → Bracket
  | some inner => .ofText inner
  | none => {}

/-- A definition of a node. -/
structure Definition where
  /-- The settings in force at its line. -/
  settings : Settings
  /-- Its bracket. -/
  bracket : Bracket

namespace Definition

variable (d : Definition)

/-- The style that a definition gives. -/
def style : NodeStyle := (NodeStyle.applyDefaults d.settings {}).applyBracket d.bracket

/-- The style words that a definition gives: those of the defaults and those of
its bracket. -/
def Gives (word : Text) : Prop := d.settings.nodeWords.Has word ∨ d.bracket.nodeWords.Has word

instance (word : Text) : Decidable (d.Gives word) := inferInstanceAs (Decidable (_ ∨ _))

/-- The style of a definition has exactly the words that its bracket or the
defaults give. -/
theorem mem_styles {word : Text} : word ∈ d.style.styles ↔ d.Gives word := by
  unfold style Gives
  rw [NodeStyle.mem_styles_applyBracket, NodeStyle.mem_styles_applyDefaults]
  exact or_congr_left (or_iff_right List.not_mem_nil)

/-- Whether a definition gives any style words. -/
def isStyled : Bool := d.settings.nodeWords.isGiven || d.bracket.nodeWords.isGiven

/-- A definition is styled if there is such a word. -/
theorem isStyled_iff : d.isStyled = true ↔ ∃ word, d.Gives word := by
  unfold isStyled Gives
  rw [Bool.or_eq_true, StyleWords.isGiven_iff, StyleWords.isGiven_iff, exists_or]

/-- So its style has no words exactly if it is not styled. -/
theorem isEmpty_styles : d.style.styles.isEmpty = !d.isStyled := by
  cases hstyles : d.style.styles with
  | nil =>
      have hnone : ¬ d.isStyled = true := by
        rw [d.isStyled_iff]
        rintro ⟨word, hword⟩
        rw [← d.mem_styles, hstyles] at hword
        cases hword
      rw [Bool.eq_false_iff.mpr hnone]
      rfl
  | cons word rest =>
      have hword : d.Gives word := d.mem_styles.mp (hstyles ▸ List.mem_cons_self)
      rw [d.isStyled_iff.mpr ⟨word, hword⟩]
      rfl

/-- **A definition by itself fills the node and says so, or it does
neither.** -/
theorem isSome_fill : d.style.fill.isSome = true ↔ d.Gives "filled" := by
  unfold style Gives
  rw [NodeStyle.isSome_fill_applyBracket, NodeStyle.isSome_fill_applyDefaults,
    StyleWords.has_filled, StyleWords.has_filled]
  exact or_congr_left (or_iff_right Bool.false_ne_true)

end Definition

/-- The definition of a node that a line gives when it is read with some
settings. -/
def Content.definition? (id : Text) (settings : Settings) : Content → Option Definition
  | .node token _ bracket =>
    if Identifier.ofToken token = id then some ⟨settings, .ofInner? bracket⟩ else none
  | _ => none

/-- The definitions of a node in lines that are read with some settings at the
start. -/
def definitions (id : Text) : Settings → List Content → List Definition
  | _, [] => []
  | settings, content :: rest =>
    (content.definition? id settings).toList ++
      definitions id (settings.assignAll content.writes) rest

/-- The definitions of a node in a document. -/
def definitionsIn (t id : Text) : List Definition :=
  definitions id {} ((Document.split t).map Line.contentOfRaw)

/-- Styles of definitions, laid over each other and over a style. -/
def NodeStyle.lay (style : NodeStyle) (defined : List Definition) : NodeStyle :=
  defined.foldl (fun style d => style.merge d.style) style

/-! ## The style that a graph holds -/

namespace Graph

/-- The style of a node; one that is not there has none. -/
def styleOf (g : Graph) (id : Text) : NodeStyle := ((g.node? id).map (·.style)).getD {}

theorem styleOf_congr {g h : Graph} (hnodes : g.nodes = h.nodes) (v : Text) :
    g.styleOf v = h.styleOf v := by
  unfold styleOf node?
  rw [hnodes]

/-- Where identifiers are all different, the style of a node in the list is that
which is found by its identifier. -/
theorem styleOf_of_mem {g : Graph} (h : g.ids.Nodup) {n : Node} (hn : n ∈ g.nodes) :
    g.styleOf n.id = n.style := by
  unfold styleOf
  rw [node?_of_mem h hn]
  rfl

/-- A mention gives no style. -/
theorem styleOf_mention (g : Graph) (token v : Text) :
    (g.mention token).styleOf v = g.styleOf v := by
  unfold mention
  simp only [Identifier.ofToken_trim]
  split
  · rename_i hnone
    have hfind : g.nodes.find? (fun n => n.id == Identifier.ofToken token) = none := by
      simpa [node?] using hnone
    unfold styleOf node?
    rw [List.find?_append]
    by_cases hv : Identifier.ofToken token = v
    · subst hv
      simp [hfind]
    · simp [hv]
  · split
    · rfl
    · unfold styleOf
      rw [node?_modifyNode (by intro n; rfl)]
      by_cases hv : v = Identifier.ofToken token
      · rw [if_pos hv]
        cases g.node? v <;> rfl
      · rw [if_neg hv]

/-- Mentions give no style: a node that is new by them has the empty one, as if
it were not there. -/
theorem styleOf_mentionAll (g : Graph) (tokens : List Text) (v : Text) :
    (g.mentionAll tokens).styleOf v = g.styleOf v := by
  unfold mentionAll
  induction tokens generalizing g with
  | nil => rfl
  | cons token tokens ih => rw [List.foldl_cons, ih, styleOf_mention]

end Graph

namespace Draft

/-- What a definition does to the nodes: its token is mentioned, and its label
and its style are set. -/
theorem nodes_addNode_eq (d : Draft) (token label : Text) (bracket : Option Text) :
    (d.addNode token label bracket).graph.nodes =
      ((d.graph.mention token).modifyNode (Identifier.ofToken token) fun n =>
        { n with
          label := if label.isEmpty then n.label else label
          style :=
            n.style.merge (Definition.style ⟨d.graph.settings, .ofInner? bracket⟩) }).nodes := by
  unfold addNode
  rw [nodes_placeNode]
  cases bracket with
  | none =>
      have hnothing :=
        NodeStyle.applyBracket_empty (NodeStyle.extras_applyDefaults {} d.graph.settings)
      unfold Definition.style Bracket.ofInner?
      dsimp only
      rw [hnothing]
  | some inner => rfl

/-- A definition lays its style over that of its node and leaves all other nodes
alone. -/
theorem styleOf_addNode (d : Draft) (token label : Text) (bracket : Option Text) (v : Text) :
    (d.addNode token label bracket).graph.styleOf v =
      (d.graph.styleOf v).lay
        ((Content.node token label bracket).definition? v d.graph.settings).toList := by
  rw [Graph.styleOf_congr (nodes_addNode_eq d token label bracket),
    ← Graph.styleOf_mention d.graph token]
  unfold Graph.styleOf Content.definition?
  rw [Graph.node?_modifyNode (by intro n; rfl)]
  by_cases hv : v = Identifier.ofToken token
  · subst hv
    obtain ⟨n, hn⟩ :=
      Option.isSome_iff_exists.mp (Graph.node?_isSome.mpr (d.graph.mem_ids_mention token))
    rw [if_pos rfl, hn]
    dsimp only
    rw [if_pos rfl]
    rfl
  · have hother : ¬ Identifier.ofToken token = v := fun heq => hv heq.symm
    rw [if_neg hv]
    dsimp only
    rw [if_neg hother]
    rfl

/-- What a line does to the style of a node: only a definition of this node does
something, with the settings at that line. -/
theorem styleOf_addLine (font : Text) (d : Draft) (index : Nat) (line : Line) (v : Text) :
    (d.addLine font index line).graph.styleOf v =
      (d.graph.styleOf v).lay (line.content.definition? v d.graph.settings).toList := by
  cases hcontent : line.content with
  | node token label bracket =>
      simp only [addLine, hcontent]
      split
      · exact styleOf_addNode d token label bracket v
      · exact styleOf_addNode (d.report _ index _) token label bracket v
  | edge sources targets bracket =>
      simp only [addLine, hcontent, graph_addEdges]
      exact Graph.styleOf_mentionAll d.graph _ v
  | marker depth label bracket =>
      obtain ⟨boxes, hgraph⟩ := graph_addMarker d index depth line
      simp only [addLine, hcontent, hgraph]
      rfl
  | blank => simp only [addLine, hcontent]; rfl
  | setting phrase known value => simp only [addLine, hcontent, addSetting_eq]; rfl
  | unrecognised => simp only [addLine, hcontent]; rfl

/-- **The style of a node is that of its definitions**, laid over each other in
order. -/
theorem styleOf_addLines (font : Text) (d : Draft) (index : Nat) (lines : List Text) (v : Text) :
    (addLines font d index lines).graph.styleOf v =
      (d.graph.styleOf v).lay (definitions v d.graph.settings (lines.map Line.contentOfRaw)) := by
  induction lines generalizing d index with
  | nil => rfl
  | cons raw lines ih =>
      rw [addLines, ih, styleOf_addLine, settings_addLine, List.map_cons,
        definitions, NodeStyle.lay, NodeStyle.lay, NodeStyle.lay, List.foldl_append]
      rfl

/-- The style of a node of a document: the styles of its definitions, laid over
each other in order. -/
theorem style_ofLines (font : Text) (lines : List Text) {n : Node}
    (hn : n ∈ (ofLines font lines).graph.nodes) :
    n.style = NodeStyle.lay {} (definitions n.id {} (lines.map Line.contentOfRaw)) := by
  rw [← Graph.styleOf_of_mem (nodup_ids_ofLines font lines) hn]
  exact styleOf_addLines font {} 0 lines n.id

end Draft

/-! ## Styles that are laid over each other -/

/-- The last of some definitions that gives any style words. -/
def lastStyled? (defined : List Definition) : Option Definition :=
  (defined.filter (·.isStyled)).getLast?

/-- One definition more is the last styled one if it is styled. -/
theorem lastStyled?_concat (defined : List Definition) (d : Definition) :
    lastStyled? (defined ++ [d]) = if d.isStyled then some d else lastStyled? defined := by
  unfold lastStyled?
  rw [List.filter_append, List.filter_singleton]
  cases d.isStyled with
  | true => exact List.getLast?_concat
  | false => exact congrArg List.getLast? (List.append_nil _)

namespace NodeStyle

theorem lay_concat (style : NodeStyle) (defined : List Definition) (d : Definition) :
    style.lay (defined ++ [d]) = (style.lay defined).merge d.style := by
  unfold lay
  rw [List.foldl_append]
  rfl

/-- A node has a fill if one of its definitions gives one, whichever it is. -/
theorem isSome_fill_lay (defined : List Definition) :
    (lay {} defined).fill.isSome = true ↔ ∃ d ∈ defined, d.Gives "filled" := by
  induction defined using List.reverseRecOn with
  | nil => simp [lay]
  | append_singleton defined d ih =>
      have hmerge : ((lay {} defined).merge d.style).fill.isSome = true ↔
          (lay {} defined).fill.isSome = true ∨ d.style.fill.isSome = true := by
        unfold merge
        cases d.style.fill <;> simp
      rw [lay_concat, hmerge, ih, d.isSome_fill]
      simp [or_and_right, exists_or]

/-- **The style words of a node** are those of its last definition that gives
any. -/
theorem mem_styles_lay (defined : List Definition) (word : Text) :
    word ∈ (lay {} defined).styles ↔ ∃ d ∈ lastStyled? defined, d.Gives word := by
  induction defined using List.reverseRecOn with
  | nil => simp [lay, lastStyled?]
  | append_singleton defined d ih =>
      rw [lay_concat, lastStyled?_concat]
      unfold merge
      dsimp only
      rw [d.isEmpty_styles]
      cases d.isStyled with
      | false => exact ih
      | true => exact d.mem_styles.trans (by simp)

end NodeStyle

/-! ## What is drawn -/

/-- **When a fill is shown.**  A node is drawn with a fill colour if there is a
default colour at the end or one of its definitions fills it.  The fill is
shown, by a style word, only if there is a default colour at the end or the last
definition that gives any style words fills it: the words of this definition
replace all earlier ones, and the colour of an earlier definition stays without
its word. -/
theorem compile_fill_shown_iff (t : Text) (font : Option Text) :
    ∃ g, (compile t font).graph = some g ∧ ∀ n ∈ g.nodes,
      ((n.style.applyDefaults g.settings).fill.isSome = true ↔
        g.settings.nodeWords.filled = true ∨ ∃ d ∈ definitionsIn t n.id, d.Gives "filled") ∧
      ("filled".toList ∈ (n.style.applyDefaults g.settings).styles ↔
        g.settings.nodeWords.filled = true ∨
        ∃ d ∈ lastStyled? (definitionsIn t n.id), d.Gives "filled") := by
  refine ⟨_, graph_compile t font, fun n hn => ?_⟩
  have hstyle : n.style = .lay {} (definitionsIn t n.id) := Draft.style_ofLines _ _ hn
  rw [NodeStyle.isSome_fill_applyDefaults, NodeStyle.mem_styles_applyDefaults,
    StyleWords.has_filled, hstyle, NodeStyle.isSome_fill_lay, NodeStyle.mem_styles_lay]
  exact ⟨or_comm, or_comm⟩

/-- A second definition that gives no style words leaves the fill shown. -/
theorem compile_fill_shown_after_label :
    ∃ g n, (compile "A:: x [colour=red]\nA:: y").graph = some g ∧ n ∈ g.nodes ∧
      (n.style.applyDefaults g.settings).fill.isSome = true ∧
      "filled".toList ∈ (n.style.applyDefaults g.settings).styles := by
  obtain ⟨g, hg, hall⟩ := compile_fill_shown_iff "A:: x [colour=red]\nA:: y" none
  have hlast : (lastStyled? (definitionsIn "A:: x [colour=red]\nA:: y" "A")).map
      (fun d => decide (d.Gives "filled")) = some true := by decide +kernel
  obtain ⟨d, hd, hgives⟩ := Option.map_eq_some_iff.mp hlast
  have hgives : d.Gives "filled" := of_decide_eq_true hgives
  have hdrawn : (compile "A:: x [colour=red]\nA:: y").graph.map (·.nodes) =
      some [⟨"A", "y", { styles := ["filled"], fill := some "red" }⟩] := by decide +kernel
  rw [hg] at hdrawn
  have hn : _ ∈ g.nodes := Option.some.inj hdrawn ▸ List.mem_singleton_self _
  obtain ⟨hfill, hshown⟩ := hall _ hn
  have hdefined : d ∈ definitionsIn "A:: x [colour=red]\nA:: y" "A" :=
    (List.mem_filter.mp (List.mem_of_getLast? hd)).1
  exact ⟨g, _, hg, hn, hfill.mpr (Or.inr ⟨d, hdefined, hgives⟩),
    hshown.mpr (Or.inr ⟨d, hd, hgives⟩)⟩

/-- A second definition that makes the node rounded takes away the word for its
fill. -/
theorem compile_hides_fill :
    ¬ ∀ (t : Text) (g : Graph) (n : Node), (compile t).graph = some g → n ∈ g.nodes →
      (n.style.applyDefaults g.settings).fill.isSome = true →
        "filled".toList ∈ (n.style.applyDefaults g.settings).styles := by
  intro hall
  have hshown := hall "A:: x [colour=red]\nA:: y [shape=rounded]" _
    ⟨"A", "y", { styles := ["rounded"], fill := some "red" }⟩ (graph_compile _ none)
    (by decide +kernel) (by decide +kernel)
  exact absurd hshown (by decide +kernel)

/-- The border that the bracket of a definition sets is that of its style; only
its line style is not the only one. -/
theorem Definition.border_style {d : Definition} {width : Int} {line : Text} {colour : Option Text}
    (h : Border.ofText (d.bracket.get "border") = ⟨some width, some line, colour⟩) :
    d.style.borderWidth = some width ∧ (∀ c ∈ colour, d.style.borderColour = some c ∧ c ≠ []) ∧
      ∀ other ∈ Border.lineStyles, d.Gives other ↔
        d.settings.defaultBorder.style = some other ∨ line = other := by
  obtain ⟨hwidth, hcolour⟩ := NodeStyle.border_applyBracket (.applyDefaults d.settings {}) d.bracket
  rw [h] at hwidth hcolour
  refine ⟨hwidth, ?_, ?_⟩
  · intro c hc
    have hne : c ≠ [] := Border.colour_ofText ((congrArg Border.colour h).trans hc)
    refine ⟨hcolour.trans ?_, hne⟩
    have hfilled : filled? colour = some c := by simp [filled?, Option.mem_def.mp hc, hne]
    dsimp only
    rw [hfilled]
    rfl
  · intro other hother
    have hline : d.bracket.nodeWords.line = some line := congrArg Border.style h
    unfold Gives
    rw [StyleWords.has_line _ hother, StyleWords.has_line _ hother, hline, Option.some.injEq]
    rfl

/-- **A border of the last definition is drawn**, with its width, its colour if
there is one, and its line style.  It is drawn with no other line style exactly
if there is no other one in the default border, neither where the node is
defined nor at the end: style words of the defaults are added to those of the
node. -/
theorem compile_border_only_iff (t : Text) (font : Option Text) :
    ∃ g, (compile t font).graph = some g ∧ ∀ n ∈ g.nodes, ∀ d ∈ (definitionsIn t n.id).getLast?,
      ∀ width line colour, Border.ofText (d.bracket.get "border") =
        ⟨some width, some line, colour⟩ →
        (n.style.applyDefaults g.settings).borderWidth = some width ∧
        (∀ c ∈ colour, (n.style.applyDefaults g.settings).borderColour = some c) ∧
        line ∈ (n.style.applyDefaults g.settings).styles ∧
        ((∀ other ∈ Border.lineStyles, other ∈ (n.style.applyDefaults g.settings).styles →
          other = line) ↔
          ∀ other, d.settings.defaultBorder.style = some other ∨
            g.settings.defaultBorder.style = some other → other = line) := by
  refine ⟨_, graph_compile t font, fun n hn d hd width line colour hborder => ?_⟩
  have hstyle : n.style = .lay {} (definitionsIn t n.id) := Draft.style_ofLines _ _ hn
  obtain ⟨before, hbefore⟩ := List.getLast?_eq_some_iff.mp hd
  obtain ⟨hwidth, hcolour, hlines⟩ := d.border_style hborder
  have hline : line ∈ Border.lineStyles := Border.style_ofText (congrArg Border.style hborder)
  rw [hbefore, NodeStyle.lay_concat] at hstyle
  have hnodeWidth : n.style.borderWidth = some width := by
    rw [hstyle, NodeStyle.merge, hwidth]
    rfl
  have hnodeColour : ∀ c ∈ colour, n.style.borderColour = some c := by
    intro c hc
    rw [hstyle, NodeStyle.merge, (hcolour c hc).1]
    rfl
  -- as the definition gives a line style, its words are all that is left of the definitions
  have hstyled : d.isStyled = true :=
    d.isStyled_iff.mpr ⟨line, (hlines line hline).mpr (Or.inr rfl)⟩
  have hwords : n.style.styles = d.style.styles := by
    rw [hstyle, NodeStyle.merge, d.isEmpty_styles, hstyled]
    rfl
  generalize (Draft.ofLines ((filled? font).getD Label.defaultFont)
    (Document.split t)).graph.settings = final
  obtain ⟨hkeepWidth, hkeepColour⟩ := n.style.border_applyDefaults final
  have hdrawn : ∀ other ∈ Border.lineStyles, other ∈ (n.style.applyDefaults final).styles ↔
      (d.settings.defaultBorder.style = some other ∨ line = other) ∨
        final.defaultBorder.style = some other := by
    intro other hother
    rw [NodeStyle.mem_styles_applyDefaults, hwords, d.mem_styles, hlines other hother,
      StyleWords.has_line _ hother]
    rfl
  refine ⟨hkeepWidth width hnodeWidth,
    fun c hc => hkeepColour c (hnodeColour c hc) (hcolour c hc).2,
    (hdrawn line hline).mpr (Or.inl (Or.inr rfl)), ?_, ?_⟩
  · intro honly other hdefault
    have hother : other ∈ Border.lineStyles := hdefault.elim Border.style_ofText Border.style_ofText
    exact honly other hother ((hdrawn other hother).mpr (hdefault.imp_left Or.inl))
  · intro hdefault other hother hmem
    rcases (hdrawn other hother).mp hmem with (hthere | hsame) | hend
    · exact hdefault other (Or.inl hthere)
    · exact hsame.symm
    · exact hdefault other (Or.inr hend)

/-- A default border with the same line style, and a later one that is none,
leave the border of the node alone. -/
theorem compile_border_only_of_same_line :
    ∃ g n d, (compile
        "Default node border: 1px solid\nA:: x [border=2px Solid red]\nDefault node border: 3px"
        ).graph = some g ∧
      n ∈ g.nodes ∧
      d ∈ (definitionsIn
        "Default node border: 1px solid\nA:: x [border=2px Solid red]\nDefault node border: 3px"
        n.id).getLast? ∧
      Border.ofText (d.bracket.get "border") = ⟨some 2, some "solid", some "red"⟩ ∧
      (n.style.applyDefaults g.settings).borderWidth = some 2 ∧
      (n.style.applyDefaults g.settings).borderColour = some "red".toList ∧
      ∀ other ∈ Border.lineStyles, other ∈ (n.style.applyDefaults g.settings).styles →
        other = "solid".toList := by
  obtain ⟨g, hg, hall⟩ := compile_border_only_iff
    "Default node border: 1px solid\nA:: x [border=2px Solid red]\nDefault node border: 3px" none
  have hlast : (definitionsIn
      "Default node border: 1px solid\nA:: x [border=2px Solid red]\nDefault node border: 3px"
      "A").getLast?.map
        (fun d => (Border.ofText (d.bracket.get "border"), d.settings.defaultBorder.style)) =
      some (⟨some 2, some "solid", some "red"⟩, some "solid".toList) := by decide +kernel
  obtain ⟨d, hd, hboth⟩ := Option.map_eq_some_iff.mp hlast
  obtain ⟨hborder, hthere⟩ := Prod.mk.inj hboth
  have hdrawn : (compile
      "Default node border: 1px solid\nA:: x [border=2px Solid red]\nDefault node border: 3px"
      ).graph.map (fun g => (g.nodes, g.settings.defaultBorder)) = some
        ([⟨"A", "x", { styles := ["solid"], borderColour := some "red", borderWidth := some 2 }⟩],
          {}) := by
    decide +kernel
  rw [hg] at hdrawn
  obtain ⟨hnodes, hend⟩ := Prod.mk.inj (Option.some.inj hdrawn)
  have hn : _ ∈ g.nodes := hnodes ▸ List.mem_singleton_self _
  obtain ⟨hwidth, hcolour, -, honly⟩ := hall _ hn d hd 2 "solid" (some "red") hborder
  refine ⟨g, _, d, hg, hn, hd, hborder, hwidth, hcolour _ rfl, honly.mpr ?_⟩
  intro other hdefault
  rcases hdefault with hsame | hlater
  · exact (Option.some.inj (hthere.symm.trans hsame)).symm
  · cases (congrArg Border.style hend).symm.trans hlater

/-- The line style of a default border is drawn next to that of the node. -/
theorem compile_adds_default_line :
    ¬ ∀ (t : Text) (g : Graph) (n : Node) (d : Definition) (width : Int) (line : Text)
      (colour : Option Text), (compile t).graph = some g → n ∈ g.nodes →
      d ∈ (definitionsIn t n.id).getLast? →
      Border.ofText (d.bracket.get "border") = ⟨some width, some line, colour⟩ →
      ∀ other ∈ Border.lineStyles, other ∈ (n.style.applyDefaults g.settings).styles →
        other = line := by
  intro hall
  have hlast : (definitionsIn "Default node border: 1px dashed\nA:: x [border=2px solid red]"
      "A").getLast?.map (fun d => Border.ofText (d.bracket.get "border")) =
      some ⟨some 2, some "solid", some "red"⟩ := by decide +kernel
  obtain ⟨d, hd, hborder⟩ := Option.map_eq_some_iff.mp hlast
  have honly := hall "Default node border: 1px dashed\nA:: x [border=2px solid red]" _
    ⟨"A", "x",
      { styles := ["dashed", "solid"], borderColour := some "red", borderWidth := some 2 }⟩ d 2
    "solid" (some "red") (graph_compile _ none) (by decide +kernel) hd hborder "dashed" (by decide)
    (by decide +kernel)
  exact absurd honly (by decide)

end LineDiagram
