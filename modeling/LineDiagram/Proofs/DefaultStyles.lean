import LineDiagram.Proofs.NodeDefinitions
import LineDiagram.Proofs.StyleReadback

/-!
# Default styles that are applied again

The defaults of the settings are applied where a node is defined, below what its
bracket says, and once more when the node is drawn.  A style is settled when it
has everything that the defaults could give it.  Settled styles are just those
that the defaults leave alone; the defaults settle every style, and neither a
bracket nor an older style below takes this away.

Style words are kept like a set: a word that is there is not added again.

* `NodeStyle.applyDefaults_eq_self_iff` — the styles that the defaults leave
  alone;
* `NodeStyle.settled_applyDefaults`, `NodeStyle.Settled.applyBracket`,
  `NodeStyle.Settled.merge` — what makes a style settled and keeps it so;
* `Draft.settled_ofLines` — a node is settled right after each of its
  definitions;
* `Draft.nodup_styles_ofLines` — no style of a graph has a word twice;
* `defaultStyles_stable` — all of this.
-/

namespace LineDiagram

theorem filled?_eq_some {t : Option Text} {s : Text} :
    filled? t = some s ↔ t = some s ∧ s ≠ [] := by
  cases t with
  | none => simp [filled?]
  | some own => grind [filled?]

theorem filled?_of_ne_nil {s : Text} (h : s ≠ []) : filled? (some s) = some s :=
  filled?_eq_some.mpr ⟨rfl, h⟩

theorem addStyle_of_mem {styles : List Text} {word : Text} (h : Text.trim word ∈ styles) :
    addStyle styles (some word) = styles := by
  simp [addStyle, h]

/-- Style words stay different from each other when one more is added: a word
that is there already is not added again. -/
theorem nodup_addStyle {styles : List Text} (h : styles.Nodup) (word : Option Text) :
    (addStyle styles word).Nodup := by
  unfold addStyle
  dsimp only
  split
  · exact h
  · rename_i hnew
    simp only [Bool.or_eq_true, not_or, List.contains_iff_mem] at hnew
    exact List.Nodup.append h (List.nodup_singleton _) (by simpa using hnew.2)

/-! ## Values of brackets -/

namespace Bracket

/-- A bracket is that of some parts, the missing one is that of none.  So what
is true of all parts is true of every bracket. -/
theorem exists_ofParts (inner : Option Text) : ∃ parts, ofInner? inner = ofParts parts := by
  cases inner with
  | none => exact ⟨[], rfl⟩
  | some inner => exact ⟨_, rfl⟩

/-- There are no blanks around the value of a key. -/
theorem trim_get (parts : List Text) (key : Text) :
    Text.trim ((ofParts parts).keyed.get key) = (ofParts parts).keyed.get key := by
  have hvalue := get_ofParts parts (String.ofList key)
  unfold Bracket.get lastValue at hvalue
  rw [String.toList_ofList] at hvalue
  rw [hvalue]
  cases (parts.filter (hasKey (String.ofList key))).getLast? with
  | none => rfl
  | some part => exact trim_value part

/-- The first value that is not empty has no blanks around it, since no value of
a bracket has. -/
theorem trim_first (parts keys : List Text) :
    Text.trim ((ofParts parts).first keys) = (ofParts parts).first keys := by
  unfold first
  cases hfound : (keys.map (ofParts parts).keyed.get).find? fun v => !v.isEmpty with
  | none => rfl
  | some value =>
      obtain ⟨key, -, rfl⟩ := List.mem_map.mp (List.mem_of_find?_eq_some hfound)
      exact trim_get parts key

end Bracket

/-! ## Settled styles -/

namespace NodeStyle

variable {style : NodeStyle} {settings : Settings}

/-- A style that has everything the defaults of the settings could give it. -/
structure Settled (settings : Settings) (style : NodeStyle) : Prop where
  /-- It has the style words of the defaults. -/
  words : ∀ word, settings.nodeWords.Has word → word ∈ style.styles
  /-- It has a fill if there is a default one. -/
  fill : ∀ colour, filled? (settings.text .nodeColour) = some colour →
    (filled? style.fill).isSome = true
  /-- Its border has a colour if the default border has one. -/
  colour : ∀ colour, filled? settings.defaultBorder.colour = some colour →
    (filled? style.borderColour).isSome = true
  /-- Its border has a width if the default border has one. -/
  width : ∀ width, settings.defaultBorder.width = some width → style.borderWidth.isSome = true

/-- The fill after the defaults: that of the style, unless it is missing or
empty. -/
theorem filled?_fill_applyDefaults (style : NodeStyle) (settings : Settings) :
    filled? (style.applyDefaults settings).fill =
      (filled? style.fill).or (filled? (settings.text .nodeColour)) := by
  have hlater : (style.applyDefaults settings).fill = (style.addDefaultFill settings).fill := by
    rw [applyDefaults_eq]
    unfold addDefaultShape
    split <;> rfl
  rw [hlater]
  unfold addDefaultFill
  cases hdefault : filled? (settings.text .nodeColour) with
  | none => simp
  | some colour =>
      have hcolour := filled?_of_ne_nil (filled?_eq_some.mp hdefault).2
      cases hown : filled? style.fill with
      | none => simp [NodeStyle.addStyle, hcolour]
      | some own => simp [NodeStyle.addStyle, hown]

/-- Colour and width of the border after the defaults: those of the style where
it has them, and those of the default border otherwise. -/
theorem border_of_applyDefaults (style : NodeStyle) (settings : Settings) :
    filled? (style.applyDefaults settings).borderColour =
        (filled? style.borderColour).or (filled? settings.defaultBorder.colour) ∧
      (style.applyDefaults settings).borderWidth =
        style.borderWidth.or settings.defaultBorder.width := by
  have hbefore : ((style.addDefaultFill settings).addDefaultShape settings).borderWidth =
      style.borderWidth ∧
      ((style.addDefaultFill settings).addDefaultShape settings).borderColour =
        style.borderColour := by
    unfold addDefaultShape addDefaultFill
    cases filled? (settings.text .nodeColour) <;> split <;> exact ⟨rfl, rfl⟩
  rw [applyDefaults_eq]
  unfold addDefaultBorder NodeStyle.addStyle
  dsimp only
  rw [hbefore.1, hbefore.2]
  refine ⟨?_, Option.orElse_eq_or ..⟩
  cases hown : filled? style.borderColour with
  | some own => simp [hown]
  | none =>
      cases hdefault : filled? settings.defaultBorder.colour with
      | none => simp [hown]
      | some colour => simp [filled?_of_ne_nil (filled?_eq_some.mp hdefault).2]

/-- **The defaults settle every style.**  Whatever a style holds before,
afterwards each default is there or something else is in its place. -/
theorem settled_applyDefaults (style : NodeStyle) (settings : Settings) :
    Settled settings (style.applyDefaults settings) where
  words word hword := (style.mem_styles_applyDefaults settings word).mpr (Or.inr hword)
  fill colour hcolour := by simp [filled?_fill_applyDefaults, hcolour]
  colour colour hcolour := by simp [border_of_applyDefaults, hcolour]
  width width hwidth := by simp [border_of_applyDefaults, hwidth]

theorem addStyle_of_mem (style : NodeStyle) {word : Text} (h : Text.trim word ∈ style.styles) :
    style.addStyle (some word) = style := by
  unfold NodeStyle.addStyle
  rw [LineDiagram.addStyle_of_mem h]

/-- The defaults leave a settled style alone. -/
theorem Settled.applyDefaults_eq (h : Settled settings style) :
    style.applyDefaults settings = style := by
  have hfill : style.addDefaultFill settings = style := by
    unfold addDefaultFill
    cases hdefault : filled? (settings.text .nodeColour) with
    | none => rfl
    | some colour =>
        obtain ⟨own, hown⟩ := Option.isSome_iff_exists.mp (h.fill colour hdefault)
        have hword : "filled".toList ∈ style.styles :=
          h.words _ ((StyleWords.has_filled _).mpr (by simp [Settings.nodeWords, hdefault]))
        dsimp only
        rw [hown]
        exact style.addStyle_of_mem hword
  have hshape : style.addDefaultShape settings = style := by
    unfold addDefaultShape
    split
    · rename_i hrounded
      exact style.addStyle_of_mem (h.words _ ((StyleWords.has_rounded _).mpr hrounded))
    · rfl
  have hborder : style.addDefaultBorder settings.defaultBorder = style := by
    have hcolour : (if (filled? style.borderColour).isNone then
        (filled? settings.defaultBorder.colour).orElse fun _ => style.borderColour
        else style.borderColour) = style.borderColour := by
      cases hdefault : filled? settings.defaultBorder.colour with
      | none => simp
      | some colour =>
          obtain ⟨own, hown⟩ := Option.isSome_iff_exists.mp (h.colour colour hdefault)
          simp [hown]
    have hwidth : (style.borderWidth.orElse fun _ => settings.defaultBorder.width) =
        style.borderWidth := by
      cases hdefault : settings.defaultBorder.width with
      | none => simp
      | some width =>
          obtain ⟨own, hown⟩ := Option.isSome_iff_exists.mp (h.width width hdefault)
          simp [hown]
    have hline : LineDiagram.addStyle style.styles settings.defaultBorder.style = style.styles := by
      cases hdefault : settings.defaultBorder.style with
      | none => simp [LineDiagram.addStyle]
      | some line =>
          apply LineDiagram.addStyle_of_mem
          rw [(Border.word_of_mem (Border.style_ofText hdefault)).1]
          exact h.words line (Or.inr (Or.inr hdefault))
    unfold addDefaultBorder NodeStyle.addStyle
    dsimp only
    rw [hcolour, hwidth, hline]
  rw [NodeStyle.applyDefaults_eq, hfill, hshape, hborder]

/-- **The styles that the defaults leave alone** are the settled ones.  So
applying the defaults a second time changes nothing. -/
theorem applyDefaults_eq_self_iff : style.applyDefaults settings = style ↔ Settled settings style :=
  ⟨fun h => h ▸ style.settled_applyDefaults settings, Settled.applyDefaults_eq⟩

/-- A bracket keeps a style settled: it only adds words, and a colour that it
sets is none that is empty. -/
theorem Settled.applyBracket (h : Settled settings style) (parts : List Text) :
    Settled settings (style.applyBracket (.ofParts parts)) where
  words word hword := (mem_styles_applyBracket ..).mpr (Or.inl (h.words word hword))
  fill colour hcolour := by
    have hset : ∀ value : Text, Text.trim value = value → value ≠ [] →
        (filled? (some (Colour.normalize value))).isSome = true := by
      intro value htrim hne
      rw [filled?_of_ne_nil (Colour.normalize_ne_nil (htrim.symm ▸ hne))]
      rfl
    rw [fill_applyBracket]
    split_ifs with hback hfirst
    · exact h.fill colour hcolour
    · exact hset _ (Bracket.trim_first parts _) hfirst
    · exact hset _ (Bracket.trim_get parts _) hback
  colour colour hcolour := by
    rw [(border_applyBracket ..).2]
    cases hown : filled? (Border.ofText ((Bracket.ofParts parts).get "border")).colour with
    | none => exact h.colour colour hcolour
    | some own => simp [filled?_of_ne_nil (filled?_eq_some.mp hown).2]
  width width hwidth := by
    rw [(border_applyBracket ..).1]
    cases (Border.ofText ((Bracket.ofParts parts).get "border")).width with
    | none => exact h.width width hwidth
    | some own => rfl

/-- A settled style stays so over every other one: if it has no words of its
own, the defaults give none. -/
theorem Settled.merge (h : Settled settings style) (old : NodeStyle) :
    Settled settings (old.merge style) where
  words word hword := by
    have hin := h.words word hword
    have hsome : style.styles.isEmpty = false :=
      List.isEmpty_eq_false_iff_exists_mem.mpr ⟨word, hin⟩
    simpa [NodeStyle.merge, hsome] using hin
  fill colour hcolour := by
    obtain ⟨own, hown⟩ := Option.isSome_iff_exists.mp (h.fill colour hcolour)
    obtain ⟨hfill, hne⟩ := filled?_eq_some.mp hown
    simp [NodeStyle.merge, hfill, filled?_of_ne_nil hne]
  colour colour hcolour := by
    obtain ⟨own, hown⟩ := Option.isSome_iff_exists.mp (h.colour colour hcolour)
    obtain ⟨hborder, hne⟩ := filled?_eq_some.mp hown
    simp [NodeStyle.merge, hborder, filled?_of_ne_nil hne]
  width width hwidth := by
    obtain ⟨own, hown⟩ := Option.isSome_iff_exists.mp (h.width width hwidth)
    simp [NodeStyle.merge, hown]

end NodeStyle

/-- The style of a definition is settled for the settings in force at its
line. -/
theorem Definition.settled (settings : Settings) (bracket : Option Text) :
    NodeStyle.Settled settings (Definition.style ⟨settings, .ofInner? bracket⟩) := by
  obtain ⟨parts, hparts⟩ := Bracket.exists_ofParts bracket
  unfold Definition.style
  rw [hparts]
  exact (NodeStyle.settled_applyDefaults {} settings).applyBracket parts

namespace Draft

variable (font : Text)

/-- **A node is settled right after each of its definitions**, whatever stood
before. -/
theorem settled_ofLines (before : List Text) {raw token label : Text} {bracket : Option Text}
    (h : Line.contentOfRaw raw = .node token label bracket) :
    ∃ n, (ofLines font (before ++ [raw])).graph.node? (Identifier.ofToken token) = some n ∧
      n.style.Settled (ofLines font (before ++ [raw])).graph.settings := by
  have hmentioned : Identifier.ofToken token ∈ (ofLines font (before ++ [raw])).graph.ids := by
    rw [mem_ids_ofLines, List.map_append, List.flatMap_append, List.map_singleton, h]
    simp [Content.mentions]
  obtain ⟨n, hn⟩ := Option.isSome_iff_exists.mp (Graph.node?_isSome.mpr hmentioned)
  refine ⟨n, hn, ?_⟩
  have hstyle :
      n.style = (ofLines font (before ++ [raw])).graph.styleOf (Identifier.ofToken token) := by
    simp [Graph.styleOf, hn]
  have hcontent : (Line.ofText raw).content = .node token label bracket := h
  rw [hstyle, ofLines_concat, styleOf_addLine, settings_addLine, hcontent]
  simp only [Content.definition?, if_true, Option.toList_some, NodeStyle.lay, List.foldl_cons,
    List.foldl_nil, Content.writes]
  exact (Definition.settled _ bracket).merge _

end Draft

/-! ## Style words without repeats -/

/-- The default styles of a diagram give a node no style word twice. -/
theorem NodeStyle.nodup_applyDefaults {style : NodeStyle} (h : style.styles.Nodup)
    (settings : Settings) : (style.applyDefaults settings).styles.Nodup := by
  have hfill : (style.addDefaultFill settings).styles.Nodup := by
    unfold addDefaultFill
    split
    · exact nodup_addStyle h _
    · exact h
  have hshape : ((style.addDefaultFill settings).addDefaultShape settings).styles.Nodup := by
    unfold addDefaultShape
    split
    · exact nodup_addStyle hfill _
    · exact hfill
  rw [applyDefaults_eq]
  exact nodup_addStyle hshape _

/-- Nor does the bracket of its line, whatever words it had before. -/
theorem NodeStyle.nodup_applyBracket {style : NodeStyle} (h : style.styles.Nodup)
    (bracket : Bracket) : (style.applyBracket bracket).styles.Nodup := by
  have hfill : ∀ (style : NodeStyle) (colour : Text), style.styles.Nodup →
      (if colour.isEmpty then style else style.setFill colour).styles.Nodup := by
    intro style colour hstyle
    split
    · exact hstyle
    · exact nodup_addStyle hstyle _
  have hfilled :=
    hfill _ (bracket.get "background") (hfill style (bracket.first ["colour", "color"]) h)
  unfold applyBracket
  dsimp only
  split
  · split
    · exact nodup_addStyle hfilled _
    · exact hfilled
  · split
    · exact nodup_addStyle (nodup_addStyle hfilled _) _
    · exact nodup_addStyle hfilled _

/-- Laying styles of definitions over each other makes no repeats: the words of
one of them are kept. -/
theorem NodeStyle.nodup_lay {style : NodeStyle} (h : style.styles.Nodup)
    (defined : List Definition) : (style.lay defined).styles.Nodup := by
  induction defined using List.reverseRecOn with
  | nil => exact h
  | append_singleton defined d ih =>
      rw [lay_concat]
      unfold merge
      dsimp only
      split
      · exact ih
      · exact nodup_applyBracket (nodup_applyDefaults List.nodup_nil d.settings) d.bracket

/-- The style words of an edge are different from each other. -/
theorem EdgeStyle.nodup_ofInner? (font : Text) (bracket : Option Text) :
    (EdgeStyle.ofInner? font bracket).styles.Nodup := by
  have hborder : ∀ label border, (({ label } : EdgeStyle).setBorder border).styles.Nodup :=
    fun _ _ => nodup_addStyle List.nodup_nil _
  cases bracket with
  | none => exact List.nodup_nil
  | some inner =>
      unfold EdgeStyle.ofInner? ofBracket
      dsimp only
      split
      · exact hborder _ _
      · exact hborder _ _

/-- The style words of a box: it is rounded, and may have a fill and a
border. -/
theorem BoxStyle.styles_ofInner (inner : Text) :
    (BoxStyle.ofInner inner).styles =
      LineDiagram.addStyle (LineDiagram.addStyle ["rounded".toList]
        (if ((Bracket.ofText inner).first Bracket.fillKeys).isEmpty then none
          else some "filled".toList))
        (Border.ofText ((Bracket.ofText inner).get "border")).style := by
  unfold ofInner
  dsimp only
  cases (Bracket.ofText inner).first Bracket.fillKeys <;>
    cases (Bracket.ofText inner).get "border" <;> rfl

theorem BoxStyle.nodup_ofInner (inner : Text) : (BoxStyle.ofInner inner).styles.Nodup := by
  rw [styles_ofInner]
  exact nodup_addStyle (nodup_addStyle (List.nodup_singleton _) _) _

namespace Draft

variable (font : Text)

/-- Every box has the style of its bracket, and each line keeps it so: later
lines change members and lists of boxes but not their styles. -/
theorem boxStyles_addLine {d : Draft}
    (h : ∀ b ∈ d.graph.boxes, b.style = .ofInner b.inner) (index : Nat)
    (line : Line) : ∀ b ∈ (d.addLine font index line).graph.boxes, b.style = .ofInner b.inner := by
  cases hcontent : line.content with
  | blank => simpa only [addLine, hcontent] using h
  | setting phrase known value => simpa only [addLine, hcontent, addSetting_eq] using h
  | unrecognised => simpa only [addLine, hcontent, report] using h
  | edge sources targets bracket =>
      simpa only [addLine, hcontent, graph_addEdges, Graph.boxes_mentionAll] using h
  | marker depth label bracket =>
      simp only [addLine, hcontent, addMarker]
      split
      · exact h
      · split
        · split
          · intro b hb
            obtain ⟨old, hold, hsame⟩ := Graph.mem_boxes_addBox hb
            have hstyle : old.style = .ofInner old.inner := by
              rcases List.mem_append.mp hold with hold | hnew
              · exact h old hold
              · rw [List.mem_singleton.mp hnew]
                rfl
            rcases hsame with rfl | ⟨index, rfl⟩
            · exact hstyle
            · exact hstyle
          · exact h
        · exact h
  | node token label bracket =>
      have hmention : ∀ token b, b ∈ (d.graph.mention token).boxes →
          b.style = .ofInner b.inner := by
        intro token b hb
        rw [Graph.boxes_mention] at hb
        exact h b hb
      have hplace : ∀ e : Draft, (∀ b ∈ e.graph.boxes, b.style = .ofInner b.inner) → ∀ id,
          ∀ b ∈ (e.placeNode id).graph.boxes, b.style = .ofInner b.inner := by
        intro e he id b hb
        unfold placeNode at hb
        split at hb
        · obtain ⟨old, hold, rfl⟩ := List.mem_map.mp hb
          have hstyle := he old hold
          dsimp only
          unfold Box.addMember
          split_ifs <;> exact hstyle
        · exact he b hb
      simp only [addLine, hcontent, addNode]
      apply hplace
      split <;> exact hmention token

/-- **The style of a box** is that of the bracket of its opening line, and no
default has a part in it. -/
theorem boxStyles_ofLines (lines : List Text) :
    ∀ b ∈ (ofLines font lines).graph.boxes, b.style = .ofInner b.inner := by
  apply ofLines_induction font (P := fun _ d => ∀ b ∈ d.graph.boxes, b.style = .ofInner b.inner)
  · nofun
  · exact fun lines raw d h => boxStyles_addLine font h lines.length (.ofText raw)

/-- **No style of a graph has a word twice.**  Nodes may be given words by
several definitions, edges and boxes by one bracket, and all of them are added
by the same function. -/
theorem nodup_styles_ofLines (lines : List Text) :
    (∀ n ∈ (ofLines font lines).graph.nodes, n.style.styles.Nodup) ∧
      (∀ e ∈ (ofLines font lines).graph.edges, e.style.styles.Nodup) ∧
      ∀ b ∈ (ofLines font lines).graph.boxes, b.style.styles.Nodup := by
  refine ⟨?_, ?_, ?_⟩
  · intro n hn
    rw [style_ofLines font lines hn]
    exact NodeStyle.nodup_lay List.nodup_nil _
  · intro e he
    obtain ⟨index, raw, sources, targets, bracket, -, -, source, -, target, -, rfl⟩ :=
      exists_edgeLine font he
    exact EdgeStyle.nodup_ofInner? font bracket
  · intro b hb
    rw [boxStyles_ofLines font lines b hb]
    exact BoxStyle.nodup_ofInner b.inner

end Draft

/-- **Default styles are stable.**  Applying the defaults of any settings twice
to any style is applying them once.  Right after the definition of a node, in
whatever lines it stands, the defaults of the settings in force leave the style
of the node alone.  And no style in the graph of a document has a word twice. -/
theorem defaultStyles_stable :
    (∀ (settings : Settings) (style : NodeStyle),
      (style.applyDefaults settings).applyDefaults settings = style.applyDefaults settings) ∧
    (∀ (font : Text) (before : List Text) (raw token label : Text) (bracket : Option Text),
      Line.contentOfRaw raw = .node token label bracket →
      ∃ n, (Draft.ofLines font (before ++ [raw])).graph.node? (Identifier.ofToken token) = some n ∧
        n.style.applyDefaults (Draft.ofLines font (before ++ [raw])).graph.settings = n.style) ∧
    ∀ (t : Text) (font : Option Text), ∃ g, (compile t font).graph = some g ∧
      (∀ n ∈ g.nodes, n.style.styles.Nodup) ∧ (∀ e ∈ g.edges, e.style.styles.Nodup) ∧
      ∀ b ∈ g.boxes, b.style.styles.Nodup := by
  refine ⟨?_, ?_, ?_⟩
  · exact fun settings style => NodeStyle.applyDefaults_eq_self_iff.mpr
      (style.settled_applyDefaults settings)
  · intro font before raw token label bracket hraw
    obtain ⟨n, hn, hsettled⟩ := Draft.settled_ofLines font before hraw
    exact ⟨n, hn, NodeStyle.applyDefaults_eq_self_iff.mpr hsettled⟩
  · exact fun t font => ⟨_, graph_compile t font, Draft.nodup_styles_ofLines _ _⟩

/-- A node that was defined before, under other settings and with a border of
its own. -/
theorem defaultStyles_stable_of_redefined :
    Line.contentOfRaw "A:: y [border=2px dotted]" = .node "A" "y" (some "border=2px dotted") ∧
    ∃ n, (Draft.ofLines "Arial" ["Default node colour: red", "A:: x [shape=rounded]",
        "Default node border: 1px dashed blue", "A:: y [border=2px dotted]"]).graph.node?
          "A" = some n ∧
      n.style.applyDefaults
        (Draft.ofLines "Arial" ["Default node colour: red", "A:: x [shape=rounded]",
        "Default node border: 1px dashed blue", "A:: y [border=2px dotted]"]).graph.settings =
          n.style := by
  have hraw : Line.contentOfRaw "A:: y [border=2px dotted]" =
      .node "A" "y" (some "border=2px dotted") := by decide +kernel
  exact ⟨hraw,
    defaultStyles_stable.2.1 "Arial" ["Default node colour: red", "A:: x [shape=rounded]",
    "Default node border: 1px dashed blue"] _ _ _ _ hraw⟩

end LineDiagram
