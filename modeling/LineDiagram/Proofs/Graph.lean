import LineDiagram.Graph.Basic
import LineDiagram.Proofs.Text
import Mathlib.Data.Bool.Basic

/-!
# Mentions of nodes and new boxes

A mention adds a node once and may write its label.  Two views of a graph say
all that matters about this: the identifiers of its nodes, in order, and the
label of a node.  A new box is added to the boxes and to the list of the box
around it; what does not look at these lists sees one box more.

* `ids_mentions` — mentioning tokens adds the identifiers that are new, in
  order;
* `label?_mentions` — the label of a node that is there is the last one that was
  written;
* `map_addBox` — what is seen of the boxes when one is added.
-/

namespace LineDiagram

/-- Letters, digits and underscores are no blanks. -/
theorem Text.not_blank_of_isWordChar {c : Char} (h : isWordChar c = true) : isBlank c = false := by
  have hblanks : blanks.all (fun c => !isWordChar c) = true := by decide
  rw [← Bool.not_eq_true]
  intro hblank
  have hno := List.all_eq_true.mp hblanks c (mem_blanks hblank)
  rw [h] at hno
  cases hno

namespace Identifier

/-- Blanks around a token make no difference to whether it is an identifier. -/
@[simp] theorem isBare_trim (token : Text) : isBare (Text.trim token) = isBare token := by
  unfold isBare
  rw [Text.trim_trim]

@[simp] theorem ofToken_trim (token : Text) : ofToken (Text.trim token) = ofToken token := by
  unfold ofToken
  rw [Text.trim_trim]

/-- A bare token, blanks aside, is a word that starts with a letter of ASCII;
digits and underscores may follow. -/
theorem isBare_iff {token : Text} : isBare token = true ↔
    ∃ c rest, Text.trim token = c :: rest ∧ Text.isAsciiLetter c = true ∧
      ∀ d ∈ rest, Text.isWordChar d = true := by
  unfold isBare
  cases Text.trim token with
  | nil => simp
  | cons c rest => simp

/-- A token that is an identifier stands for the node with this identifier. -/
theorem ofToken_of_bare {token : Text} (h : isBare token = true) :
    ofToken token = Text.trim token := by
  simp [ofToken, h]

/-- Any other token stands for the node whose identifier is made of its
characters. -/
theorem ofToken_of_not_bare {token : Text} (h : isBare token = false) :
    ofToken token = slug (Text.trim token) := by
  simp [ofToken, h]

/-- A slug is made of lower-case letters, digits and underscores. -/
theorem mem_slug {t : Text} {c : Char} (h : c ∈ slug t) : isSlugChar c = true ∨ c = '_' := by
  unfold slug at h
  dsimp only at h
  split at h
  · have hnode : "node".toList.all isSlugChar = true := by decide
    exact Or.inl (List.all_eq_true.mp hnode c h)
  · have hrun := (List.dropWhile_sublist _).subset
      (Text.mem_of_mem_dropEndWhile ((List.take_sublist _ _).subset h))
    exact Text.mem_underscoreRuns hrun

/-- A character that is kept in such an identifier, or that stands for others in
it, is a letter, a digit or an underscore. -/
theorem isWordChar_of_isSlugChar {c : Char} (h : isSlugChar c = true ∨ c = '_') :
    Text.isWordChar c = true := by
  rcases h with hslug | rfl
  · unfold isSlugChar at hslug
    unfold Text.isWordChar Text.isAsciiLetter
    grind
  · decide

/-- So an identifier that is made of a text is itself made of letters, digits
and underscores. -/
theorem isWordChar_of_mem_slug {t : Text} {c : Char} (h : c ∈ slug t) : Text.isWordChar c = true :=
  isWordChar_of_isSlugChar (mem_slug h)

/-- An identifier is made of letters, digits and underscores, so it needs no
escaping in a drawing. -/
theorem isWordChar_of_mem {token : Text} {c : Char} (h : c ∈ ofToken token) :
    Text.isWordChar c = true := by
  cases hbare : isBare token with
  | true =>
      obtain ⟨first, rest, htrim, hfirst, hrest⟩ := isBare_iff.mp hbare
      rw [ofToken_of_bare hbare, htrim] at h
      rcases List.mem_cons.mp h with rfl | hmem
      · simp [Text.isWordChar, hfirst]
      · exact hrest c hmem
  | false =>
      rw [ofToken_of_not_bare hbare] at h
      exact isWordChar_of_mem_slug h

/-- A word that starts with a letter stands for itself. -/
theorem ofToken_of_letter {c : Char} {rest : Text} (hc : Text.isAsciiLetter c = true)
    (hrest : ∀ d ∈ rest, Text.isWordChar d = true) : ofToken (c :: rest) = c :: rest := by
  have hsolid : ∀ d ∈ c :: rest, Text.isBlank d = false := by
    intro d hd
    apply Text.not_blank_of_isWordChar
    rcases List.mem_cons.mp hd with rfl | hd
    · simp [Text.isWordChar, hc]
    · exact hrest d hd
  have htrim := Text.trim_of_tight (Text.tight_of_solid hsolid)
  rw [ofToken_of_bare (isBare_iff.mpr ⟨c, rest, htrim, hc, hrest⟩), htrim]

end Identifier

namespace Graph

/-- The identifiers of the nodes, in order. -/
def ids (g : Graph) : List Text := g.nodes.map (·.id)

/-- The label of a node. -/
def label? (g : Graph) (id : Text) : Option Text := (g.node? id).map (·.label)

/-- Adds an identifier unless it is there. -/
def addId (ids : List Text) (id : Text) : List Text := if id ∈ ids then ids else ids ++ [id]

/-- The last label written for a node, among labels that are written in order;
`label` when none is. -/
def lastWrite (id label : Text) (writes : List (Text × Text)) : Text :=
  writes.foldl (fun label write => if write.1 = id then write.2 else label) label

/-- The labels that mentions write: a token that is no identifier is the label
of its node. -/
def mentionWrites (tokens : List Text) : List (Text × Text) :=
  (tokens.filter fun token => !Identifier.isBare token).map fun token =>
    (Identifier.ofToken token, Text.trim token)

/-- Mentions tokens one after the other. -/
def mentionAll (g : Graph) (tokens : List Text) : Graph := tokens.foldl mention g

theorem node?_isSome {g : Graph} {id : Text} : (g.node? id).isSome = true ↔ id ∈ g.ids := by
  unfold node? ids
  rw [List.find?_isSome]
  simp only [List.mem_map, beq_iff_eq]

theorem label?_eq_none {g : Graph} {id : Text} : g.label? id = none ↔ id ∉ g.ids := by
  unfold label?
  rw [Option.map_eq_none_iff, ← node?_isSome]
  cases g.node? id <;> simp

/-- Where no two nodes have one identifier, each is found by its own. -/
theorem node?_of_mem {g : Graph} (h : g.ids.Nodup) {n : Node} (hn : n ∈ g.nodes) :
    g.node? n.id = some n := by
  unfold ids at h
  unfold node?
  generalize g.nodes = nodes at h hn
  induction nodes with
  | nil => cases hn
  | cons first rest ih =>
      rw [List.map_cons, List.nodup_cons] at h
      rcases List.mem_cons.mp hn with rfl | hrest
      · simp
      · have hne : ¬ first.id = n.id := fun heq => h.1 (heq ▸ List.mem_map_of_mem hrest)
        simpa [hne] using ih h.2 hrest

/-! ## Changing a node -/

/-- A change that keeps identifiers keeps the list of them. -/
theorem ids_modifyNode {g : Graph} {id : Text} {f : Node → Node} (hf : ∀ n, (f n).id = n.id) :
    (g.modifyNode id f).ids = g.ids := by
  unfold modifyNode ids
  rw [List.map_map]
  apply List.map_congr_left
  intro n _
  simp only [Function.comp]
  split
  · exact hf n
  · rfl

/-- A change of one node is seen when this node is looked up, and when no other
is. -/
theorem node?_modifyNode {g : Graph} {id : Text} {f : Node → Node} (hf : ∀ n, (f n).id = n.id)
    (v : Text) :
    (g.modifyNode id f).node? v = if v = id then (g.node? v).map f else g.node? v := by
  unfold modifyNode node?
  have hsame : ((fun n : Node => n.id == v) ∘ fun n => if n.id == id then f n else n) =
      fun n => n.id == v := by
    funext n
    simp only [Function.comp]
    split
    · rw [hf]
    · rfl
  rw [List.find?_map, hsame]
  cases hfind : g.nodes.find? (fun n => n.id == v) with
  | none => simp
  | some n =>
      have hn : n.id = v := by simpa using List.find?_some hfind
      subst hn
      by_cases hid : n.id = id
      · simp [hid]
      · simp [hid]

/-! ## One mention -/

/-- Mentioning a node draws no edge. -/
theorem edges_mention (g : Graph) (token : Text) : (g.mention token).edges = g.edges := by
  unfold mention modifyNode
  dsimp only
  split
  · rfl
  · split <;> rfl

/-- It opens no box and puts nothing into one. -/
theorem boxes_mention (g : Graph) (token : Text) : (g.mention token).boxes = g.boxes := by
  unfold mention modifyNode
  dsimp only
  split
  · rfl
  · split <;> rfl

/-- It sets nothing. -/
theorem settings_mention (g : Graph) (token : Text) : (g.mention token).settings = g.settings := by
  unfold mention modifyNode
  dsimp only
  split
  · rfl
  · split <;> rfl

/-- It adds the node at the end, if it is new. -/
theorem ids_mention (g : Graph) (token : Text) :
    (g.mention token).ids = addId g.ids (Identifier.ofToken token) := by
  have hmem : (g.node? (Identifier.ofToken token)).isNone = true ↔
      Identifier.ofToken token ∉ g.ids := by
    rw [← node?_isSome]
    cases g.node? (Identifier.ofToken token) <;> simp
  unfold mention addId
  simp only [Identifier.ofToken_trim]
  split
  · rename_i hnone
    rw [if_neg (hmem.mp hnone)]
    simp [ids]
  · rename_i hsome
    rw [if_pos (by_contra fun hnot => hsome (hmem.mpr hnot))]
    split
    · rfl
    · exact ids_modifyNode (fun _ => rfl)

/-- A node that is mentioned is in the graph. -/
theorem mem_ids_mention (g : Graph) (token : Text) :
    Identifier.ofToken token ∈ (g.mention token).ids := by
  rw [ids_mention]
  unfold addId
  split
  · assumption
  · simp

/-- The label of a node after a mention: that of a new node is its token, and a
token that is no identifier becomes the label of its node in any case. -/
theorem label?_mention (g : Graph) (token v : Text) :
    (g.mention token).label? v =
      if v = Identifier.ofToken token ∧ (g.label? v = none ∨ Identifier.isBare token = false) then
        some (Text.trim token)
      else g.label? v := by
  unfold mention
  simp only [Identifier.ofToken_trim, Identifier.isBare_trim]
  by_cases hnone : (g.node? (Identifier.ofToken token)).isNone = true
  · rw [if_pos hnone]
    have hfind : g.nodes.find? (fun n => n.id == Identifier.ofToken token) = none := by
      simpa [node?] using hnone
    unfold label? node?
    rw [List.find?_append]
    by_cases hv : v = Identifier.ofToken token
    · subst hv
      simp [hfind]
    · have hv' : ¬ Identifier.ofToken token = v := fun h => hv h.symm
      simp [hv, hv']
  · rw [if_neg hnone]
    have hlabel : g.label? (Identifier.ofToken token) ≠ none := by
      unfold label?
      simpa using hnone
    by_cases hbare : Identifier.isBare token = true
    · rw [if_pos hbare, if_neg]
      rintro ⟨rfl, hlab | hbare'⟩
      · exact hlabel hlab
      · rw [hbare] at hbare'
        exact Bool.noConfusion hbare'
    · rw [if_neg hbare]
      unfold label?
      rw [node?_modifyNode (by intro n; rfl)]
      by_cases hv : v = Identifier.ofToken token
      · subst hv
        have hbare : Identifier.isBare token = false := by simpa using hbare
        cases hnode : g.node? (Identifier.ofToken token) with
        | none => simp [hnode] at hnone
        | some n => simp [hbare]
      · simp [hv]

/-- Adding identifiers one after the other adds them all and nothing else. -/
theorem mem_foldl_addId {v : Text} (ids start : List Text) :
    v ∈ ids.foldl addId start ↔ v ∈ start ∨ v ∈ ids := by
  induction ids generalizing start with
  | nil => simp
  | cons id ids ih =>
      have hstep : v ∈ addId start id ↔ v ∈ start ∨ v = id := by
        unfold addId
        split
        · rename_i hmem
          constructor
          · exact Or.inl
          · rintro (h | rfl)
            · exact h
            · exact hmem
        · simp
      rw [List.foldl_cons, ih, hstep, List.mem_cons, or_assoc]

/-- Adding identifiers one after the other drops the repeats and keeps the first
of each. -/
theorem foldl_addId_nil (ids : List Text) : ids.foldl addId [] = ids.eraseDups := by
  induction ids using List.reverseRecOn with
  | nil => rfl
  | append_singleton ids id ih =>
      rw [List.foldl_append, ih, List.eraseDups_append, List.foldl_cons, List.foldl_nil]
      unfold addId
      by_cases hmem : id ∈ ids
      · simp [hmem, List.removeAll]
      · simp [hmem, List.removeAll, List.eraseDups_cons]

/-- The identifiers that are there stay in front, so a node never changes its
place. -/
theorem prefix_foldl_addId (start ids : List Text) : start <+: ids.foldl addId start := by
  induction ids generalizing start with
  | nil => exact List.prefix_rfl
  | cons id ids ih =>
      have hstep : start <+: addId start id := by
        unfold addId
        split
        · exact List.prefix_rfl
        · exact List.prefix_append start [id]
      exact hstep.trans (ih _)

/-- Identifiers stay different from each other when more are added. -/
theorem nodup_foldl_addId {start : List Text} (h : start.Nodup) (ids : List Text) :
    (ids.foldl addId start).Nodup := by
  induction ids generalizing start with
  | nil => exact h
  | cons id ids ih =>
      apply ih
      unfold addId
      split
      · exact h
      · rename_i hnew
        rw [List.nodup_append]
        refine ⟨h, List.pairwise_singleton _ id, ?_⟩
        intro a ha b hb
        rw [List.mem_singleton.mp hb]
        exact fun heq => hnew (heq ▸ ha)

/-! ## Many mentions -/

theorem mentionAll_append (g : Graph) (first second : List Text) :
    g.mentionAll (first ++ second) = (g.mentionAll first).mentionAll second :=
  List.foldl_append

theorem boxes_mentionAll (g : Graph) (tokens : List Text) :
    (g.mentionAll tokens).boxes = g.boxes := by
  induction tokens generalizing g with
  | nil => rfl
  | cons token tokens ih => exact (ih (g.mention token)).trans (boxes_mention g token)

theorem settings_mentionAll (g : Graph) (tokens : List Text) :
    (g.mentionAll tokens).settings = g.settings := by
  induction tokens generalizing g with
  | nil => rfl
  | cons token tokens ih => exact (ih (g.mention token)).trans (settings_mention g token)

/-- Mentions add the nodes that are new, in the order of their first
mentions. -/
theorem ids_mentions (g : Graph) (tokens : List Text) :
    (g.mentionAll tokens).ids = (tokens.map Identifier.ofToken).foldl addId g.ids := by
  induction tokens generalizing g with
  | nil => rfl
  | cons token tokens ih =>
      rw [List.map_cons, List.foldl_cons, ← ids_mention]
      exact ih (g.mention token)

/-- The last label among two groups is found in the second, starting from the
last one in the first. -/
theorem lastWrite_append (id label : Text) (first second : List (Text × Text)) :
    lastWrite id label (first ++ second) = lastWrite id (lastWrite id label first) second :=
  List.foldl_append

/-- The label of a node that is there, after mentions: the last token of it that
is no identifier, or the label it had. -/
theorem label?_mentions {g : Graph} {v label : Text} (h : g.label? v = some label)
    (tokens : List Text) :
    (g.mentionAll tokens).label? v = some (lastWrite v label (mentionWrites tokens)) := by
  induction tokens generalizing g label with
  | nil => exact h
  | cons token tokens ih =>
      have hstep : (g.mention token).label? v =
          some (lastWrite v label (mentionWrites [token])) := by
        rw [label?_mention, h]
        by_cases hbare : Identifier.isBare token = true
        · simp [hbare, mentionWrites, lastWrite]
        · have hbare : Identifier.isBare token = false := by simpa using hbare
          by_cases hv : v = Identifier.ofToken token
          · simp [hbare, mentionWrites, lastWrite, hv]
          · have hv' : ¬ Identifier.ofToken token = v := fun heq => hv heq.symm
            simp [hbare, mentionWrites, lastWrite, hv, hv']
      have hwrites : mentionWrites (token :: tokens) =
          mentionWrites [token] ++ mentionWrites tokens := by
        unfold mentionWrites
        rw [← List.map_append, ← List.filter_append, List.singleton_append]
      rw [hwrites, lastWrite_append]
      exact ih hstep

/-- Without a write for it a node keeps its label. -/
theorem lastWrite_of_none {id : Text} {writes : List (Text × Text)}
    (h : ∀ write ∈ writes, write.1 ≠ id) (label : Text) : lastWrite id label writes = label := by
  induction writes with
  | nil => rfl
  | cons write writes ih =>
      unfold lastWrite
      rw [List.foldl_cons, if_neg (h write List.mem_cons_self)]
      exact ih (fun w hw => h w (List.mem_cons_of_mem _ hw))

/-- With a write for it the label that a node had before is of no matter. -/
theorem lastWrite_of_some {id : Text} {writes : List (Text × Text)}
    (h : ∃ write ∈ writes, write.1 = id) (label label' : Text) :
    lastWrite id label writes = lastWrite id label' writes := by
  induction writes generalizing label label' with
  | nil => simp at h
  | cons write writes ih =>
      unfold lastWrite
      rw [List.foldl_cons, List.foldl_cons]
      by_cases hid : write.1 = id
      · rw [if_pos hid, if_pos hid]
      · rw [if_neg hid, if_neg hid]
        refine ih ?_ label label'
        obtain ⟨found, hmem, hfound⟩ := h
        rcases List.mem_cons.mp hmem with rfl | hmem
        · exact absurd hfound hid
        · exact ⟨found, hmem, hfound⟩

/-! ## Boxes -/

/-- A change of one box that keeps what is seen of it keeps what is seen of
all. -/
theorem map_modifyBox {β : Type} {view : Box → β} {f : Box → Box} (h : ∀ b, view (f b) = view b)
    (g : Graph) (index : Nat) : (g.modifyBox index f).boxes.map view = g.boxes.map view := by
  unfold modifyBox
  rw [List.map_map]
  apply List.map_congr_left
  intro b _
  simp only [Function.comp]
  split
  · exact h b
  · rfl

/-- **A new box**, as seen by what does not look at the lists of boxes in
boxes. -/
theorem map_addBox {β : Type} {view : Box → β} (h : ∀ b index, view (b.addChild index) = view b)
    (g : Graph) (box : Box) : (g.addBox box).boxes.map view = g.boxes.map view ++ [view box] := by
  have happend : (g.boxes ++ [box]).map view = g.boxes.map view ++ [view box] := by simp
  unfold addBox
  dsimp only
  split
  · rw [map_modifyBox (fun b => h b box.index), happend]
  · exact happend

/-- A box after another one was added is an old box or the new one, perhaps with
a longer list. -/
theorem mem_boxes_addBox {g : Graph} {box b : Box} (h : b ∈ (g.addBox box).boxes) :
    ∃ old ∈ g.boxes ++ [box], b = old ∨ ∃ index, b = old.addChild index := by
  unfold addBox at h
  dsimp only at h
  split at h
  · obtain ⟨old, hold, rfl⟩ := List.mem_map.mp h
    refine ⟨old, hold, ?_⟩
    split
    · exact Or.inr ⟨_, rfl⟩
    · exact Or.inl rfl
  · exact ⟨b, h, Or.inl rfl⟩

end Graph

end LineDiagram
