import LineDiagram.Edit.Structure
import LineDiagram.Proofs.Bracket
import LineDiagram.Proofs.DefinitionCut
import LineDiagram.Proofs.FreshNames
import LineDiagram.Proofs.Integrity
import LineDiagram.Proofs.NodeRemoval

/-!
# Lines between words

Identifiers are words of letters, digits and underscores.  A definition of a
word and an edge between two words are read as they are written, whatever the
label and the bracket; only a label that starts with two colons of its own makes
another token of the definition.

* `splitEndpoints_word` — a word is one endpoint;
* `contentOfRaw_definitionLine` — what the definition of a word says;
* `contentOfRaw_edgeLine` — what an edge between two words says.
-/

namespace LineDiagram

/-! ## Words -/

/-- Letters, digits and underscores, at least one of them. -/
structure Text.IsWord (t : Text) : Prop where
  ne_nil : t ≠ []
  chars : ∀ c ∈ t, isWordChar c = true

section Words

variable {t : Text}

theorem Text.IsWord.not_mem (h : IsWord t) {c : Char} (hc : isWordChar c = false) :
    c ∉ t := fun hmem =>
  Bool.false_ne_true (hc.symm.trans (h.chars c hmem))

theorem Text.IsWord.solid (h : IsWord t) : ∀ c ∈ t, isBlank c = false := fun c hc =>
  not_blank_of_isWordChar (h.chars c hc)

theorem Text.IsWord.tight (h : IsWord t) : Tight t := tight_of_solid h.solid

theorem Identifier.isWord_ofToken (token : Text) : Text.IsWord (ofToken token) :=
  ⟨ofToken_ne_nil token, fun _ hc => isWordChar_of_mem hc⟩

/-- The nodes of a document are words. -/
theorem Draft.isWord_of_mem_ids {font : Text} {lines : List Text} {id : Text}
    (h : id ∈ (ofLines font lines).graph.ids) : Text.IsWord id := by
  rw [mem_ids_ofLines, List.mem_flatMap] at h
  obtain ⟨content, -, hcontent⟩ := h
  obtain ⟨token, -, rfl⟩ := List.mem_map.mp hcontent
  exact Identifier.isWord_ofToken token

theorem Identifier.IsName.isWord (h : IsName t) : Text.IsWord t := by
  rw [← h.ofToken]
  exact isWord_ofToken t

/-- A word is one endpoint. -/
theorem splitEndpoints_word (h : Text.IsWord t) : splitEndpoints t = [t] := by
  have hbar : '|' ∉ t := h.not_mem (by decide)
  have hwritten : writtenEndpoints (Text.join " | " [t]) = [t] := by
    apply writtenEndpoints_join
    intro token htoken
    rw [List.mem_singleton.mp htoken]
    exact ⟨h.tight, h.ne_nil, hbar⟩
  have hread : readToken t = t := by
    have hfilter : t.filter (· != '→') = t := by
      rw [List.filter_eq_self]
      intro c hc
      have hne : c ≠ '→' := by
        rintro rfl
        exact h.not_mem (by decide) hc
      simpa using hne
    unfold readToken
    rw [hfilter, Text.trim_of_tight h.tight]
  rw [join_singleton] at hwritten
  rw [splitEndpoints_eq, hwritten, List.map_singleton, hread]
  simp [h.ne_nil]

end Words

/-- An edge between two words, by its ends and by its mentions: it draws one
link and mentions both words. -/
theorem Content.edge_words {a b : Text} (ha : Text.IsWord a) (hb : Text.IsWord b) (font : Text)
    (bracket : Option Text) :
    (Content.edge a b bracket).links font =
        [(Identifier.ofToken a, Identifier.ofToken b, .ofInner? font bracket)] ∧
      (Content.edge a b bracket).mentions = [a, b] := by
  rw [links_edge, mentions, splitEndpoints_word ha, splitEndpoints_word hb]
  exact ⟨rfl, rfl⟩

/-! ## Definitions and edges of words -/

namespace Edit

/-- Whether the definition of a node with this label is read with another token,
since the label starts with two colons that have a value. -/
def redefines : Text → Bool
  | ':' :: ':' :: _ :: _ => true
  | _ => false

/-- The token that the definition of a node is read with. -/
def definedToken (id label : Text) : Text := if redefines label then id ++ "::" else id

/-- Two colons at the start of a label are read as they are written. -/
private theorem redefines_read (label : Text) :
    redefines (Comment.unescape (Comment.escape label)) = redefines label := by
  have hcons : ∀ rest : Text, Comment.unescape (Comment.escape (':' :: rest)) =
      ':' :: Comment.unescape (Comment.escape rest) := by
    intro rest
    rw [Comment.escape_cons (by decide) (by decide),
      Comment.unescape_cons (fun heq => absurd heq (by decide))]
  have hhead : ∀ {t rest : Text}, Comment.unescape (Comment.escape t) = ':' :: rest →
      ∃ more, t = ':' :: more := by
    intro t rest heq
    have hread : (Comment.unescape (Comment.escape t)).head? = some ':' := by rw [heq]; rfl
    rcases Comment.head_unescape hread with hwritten | hsign
    · rcases Comment.head_escape hwritten with hhead | hback
      · exact List.head?_eq_some_iff.mp hhead
      · exact absurd hback (by decide)
    · exact absurd hsign (by decide)
  rw [Bool.eq_iff_iff]
  constructor
  · intro h
    unfold redefines at h
    split at h
    · rename_i c rest heq
      obtain ⟨more, rfl⟩ := hhead heq
      rw [hcons, List.cons.injEq] at heq
      obtain ⟨last, rfl⟩ := hhead heq.2
      rw [hcons, List.cons.injEq] at heq
      cases last with
      | nil => cases heq.2.2
      | cons d last => rfl
    · cases h
  · intro h
    unfold redefines at h
    split at h
    · rename_i c rest
      rw [hcons, hcons]
      cases hread : Comment.unescape (Comment.escape (c :: rest)) with
      | nil => exact absurd (Comment.escape_eq_nil.mp (Comment.unescape_eq_nil.mp hread)) (by simp)
      | cons d more => rfl
    · cases h

section Definition

variable {id value : Text} (hid : Text.IsWord id) (hvalue : Text.Tight value) (hne : value ≠ [])
  (hline : '\n' ∉ value)

include hid hvalue hne hline

/-- The token of a word, two colons and a value.  The token is the word, or
longer where the value starts with colons. -/
private theorem definitionParts?_word :
    ∃ rest, Line.definitionParts? (id ++ ':' :: ':' :: ' ' :: value) =
      some (definedToken id value, rest) := by
  have hcode : id ++ ':' :: ':' :: ' ' :: value = (id ++ [':', ':']) ++ ' ' :: value := by simp
  have hsolid : ∀ c ∈ id ++ [':', ':'], (!Text.isBlank c) = true := by
    intro c hc
    rcases List.mem_append.mp hc with hin | hcolon
    · rw [hid.solid c hin]
      rfl
    · obtain rfl : c = ':' := by simpa using hcolon
      decide
  have hword : ((id ++ [':', ':']) ++ ' ' :: value).takeWhile (fun c => !Text.isBlank c) =
      id ++ [':', ':'] := by
    rw [List.takeWhile_append_of_pos hsolid,
      List.takeWhile_cons_of_neg (by decide), List.append_nil]
  have hrest :
      ((id ++ [':', ':']) ++ ' ' :: value).dropWhile (fun c => !Text.isBlank c) = ' ' :: value := by
    rw [List.dropWhile_append_of_pos hsolid, List.dropWhile_cons_of_neg (by decide)]
  have hstart : Text.trimStart (' ' :: value) = value := by
    have hspace : Text.AllBlank [' '] := Text.allBlank_singleton (by decide)
    rw [← List.singleton_append, Text.trimStart_of_blank_append hspace,
      Text.trimStart_eq_self hvalue.start]
  have hfilled : (id ++ [':', ':']).isEmpty = false := by simp
  -- The colons inside the first word, where those after it have no value.
  have hinside : Line.insideColons? (' ' :: value) (id ++ [':', ':']).reverse [] =
      some (id, value) := by
    have hblank : ¬ Text.AllBlank (' ' :: value) := by
      intro hall
      rw [← Text.trimStart_eq_nil, hstart] at hall
      exact hne hall
    have hsome : Line.value? (' ' :: value) = some value := by
      rw [Line.value?_of_not_blank hblank (by simp [hline]), hstart]
    cases hreverse : id.reverse with
    | nil => exact absurd (List.reverse_eq_nil_iff.mp hreverse) hid.ne_nil
    | cons c before =>
        have hback : (c :: before).reverse = id := by rw [← hreverse, List.reverse_reverse]
        have hletters : (id ++ [':', ':']).reverse = ':' :: ':' :: c :: before := by simp [hreverse]
        rw [hletters, Line.insideColons?, Line.insideColons?, Line.insideColons?]
        · simp only [List.nil_append, hsome, Option.map_some, hback]
        · intro more hmore
          cases hmore
        · intro more hmore
          cases hmore
  unfold Line.definitionParts?
  dsimp only
  rw [hcode, hword, hrest, hstart, hfilled, if_neg Bool.false_ne_true, hinside]
  unfold definedToken
  fun_cases redefines value with
  | case1 c more =>
      have hlast : ¬ Text.AllBlank (c :: more) := by
        intro hall
        obtain ⟨d, hd⟩ : ∃ d, (c :: more).getLast? = some d :=
          ⟨_, List.getLast?_eq_some_getLast (by simp)⟩
        have hstop := hvalue.stop d (by simpa [List.getLast?_cons] using hd)
        exact Bool.false_ne_true (hstop.symm.trans (hall d (List.mem_of_getLast? hd)))
      have hmore : '\n' ∉ c :: more := fun hmem => hline (by simp [hmem])
      simp only [Line.value?_of_not_blank hlast hmore, Option.map_some]
      exact ⟨_, rfl⟩
  | case2 =>
      split
      · rename_i parts hafter
        split at hafter
        · rename_i more hother
          cases more with
          | nil => cases hafter
          | cons c more => exact absurd rfl (hother c more)
        · cases hafter
      · exact ⟨_, rfl⟩

/-- **A definition that is written** is read as one, perhaps with another
token. -/
theorem contentOf_definition :
    ∃ label bracket, Line.contentOf (id ++ ':' :: ':' :: ' ' :: value) =
      .node (definedToken id value) label bracket := by
  obtain ⟨rest, hparts⟩ := definitionParts?_word hid hvalue hne hline
  obtain ⟨after, hcut, -⟩ := Line.definitionParts?_cut hparts
  have hfree : '\n' ∉ id ++ ':' :: ':' :: ' ' :: value := by
    simp [hid.not_mem (c := '\n') (by decide), hline]
  have hdashes : Line.marker? (id ++ ':' :: ':' :: ' ' :: value) = none := by
    rw [Line.marker?_eq_none_iff hfree]
    cases id with
    | nil => exact absurd rfl hid.ne_nil
    | cons c id =>
        have hc : c ≠ '-' := by
          rintro rfl
          exact hid.not_mem (by decide) List.mem_cons_self
        simp [hc]
  have htrim : Text.trim (definedToken id value) = definedToken id value :=
    Text.trim_of_tight (Text.tight_of_solid hcut.token_solid)
  exact ⟨_, _,
    Line.contentOf_eq_node_iff.mpr ⟨hdashes, hcut.setting?_eq_none, _, _, hparts, htrim.symm,
    rfl, rfl⟩⟩

end Definition

/-- **What the definition of a new node says.**  It defines the node, unless its
label starts with two colons: then these belong to the token. -/
theorem contentOfRaw_definitionLine {id label : Text} (hid : Text.IsWord id)
    (hlabel : Text.Tight label) (hne : label ≠ []) (hline : '\n' ∉ label) :
    ∃ text bracket, Line.contentOfRaw (definitionLine id label) =
      .node (definedToken id label) text bracket := by
  have hread : Text.Tight (Comment.unescape (Comment.escape label)) :=
    Comment.tight_unescape (Comment.tight_escape hlabel)
  have hreadNe : Comment.unescape (Comment.escape label) ≠ [] := fun hnil =>
    hne (Comment.escape_eq_nil.mp (Comment.unescape_eq_nil.mp hnil))
  have hreadLine : '\n' ∉ Comment.unescape (Comment.escape label) := fun hmem =>
    hline ((Comment.mem_escape (by decide)).mp ((Comment.mem_unescape (by decide)).mp hmem))
  have hsign : '#' ∉ id ++ [':', ':', ' '] := by simp [hid.not_mem (c := '#') (by decide)]
  have hraw : definitionLine id label = (id ++ [':', ':', ' ']) ++ Comment.escape label := rfl
  have hcode : Comment.strip (definitionLine id label) =
      id ++ ':' :: ':' :: ' ' :: Comment.unescape (Comment.escape label) := by
    have htight :
        Text.Tight ((id ++ [':', ':', ' ']) ++ Comment.unescape (Comment.escape label)) := by
      rw [List.append_assoc]
      refine hid.tight.append hid.ne_nil ?_
      intro c hc
      rw [List.getLast?_append_of_ne_nil _ hreadNe] at hc
      exact hread.stop c hc
    rw [hraw,
      Comment.strip_of_plain ((Comment.plain_of_not_mem hsign).append (Comment.plain_escape label)),
      Comment.unescape_append (by simp), Comment.unescape_of_not_mem hsign,
        Text.trim_of_tight htight]
    simp
  have htoken : definedToken id (Comment.unescape (Comment.escape label)) =
      definedToken id label := by
    unfold definedToken
    rw [redefines_read]
  unfold Line.contentOfRaw
  rw [hcode, ← htoken]
  exact contentOf_definition hid hread hreadNe hreadLine

/-- The end of an edge line: a bracket after a blank, or nothing. -/
def bracketEnd (inner : Text) : Text := if inner.isEmpty then [] else " [" ++ inner ++ "]"

/-- The code of a line that ends in a bracket: the inside loses its backslashes,
and the rest is as it was written. -/
theorem strip_bracketEnd {code inner : Text} (htight : Text.Tight code) (hne : code ≠ [])
    (hsign : '#' ∉ code) (hinner : Bracket.Enclosed inner) (hfilled : inner ≠ []) :
    Comment.strip (code ++ bracketEnd inner) =
      code ++ ' ' :: '[' :: (Comment.unescape inner ++ [']']) := by
  have hcode : code ++ bracketEnd inner = (code ++ [' ']) ++ '[' :: (inner ++ [']']) := by
    simp [bracketEnd, hfilled]
  have hbefore : '#' ∉ code ++ [' '] := by simp [hsign]
  have hplain : Comment.Plain ((code ++ [' ']) ++ '[' :: (inner ++ [']'])) := by
    have hopen : Comment.Plain ['['] := Comment.plain_of_not_mem (by decide)
    exact (Comment.plain_of_not_mem hbefore).append
      (hopen.append (hinner.plain.append (Comment.plain_of_not_mem (by decide))))
  have hstart : Text.trimStart (code ++ [' ']) = code ++ [' '] := by
    apply Text.trimStart_eq_self
    intro c hc
    rw [List.head?_append_of_ne_nil _ hne] at hc
    exact htight.start c hc
  rw [hcode, Comment.strip_of_plain hplain, LineParts.code_bracketed,
    Comment.unescape_of_not_mem hbefore, hstart]
  simp

/-- **What an edge line between two words says.**  A word holds nothing that
could make the line a marker, a settings line or a definition. -/
theorem contentOfRaw_edgeLine {a b inner : Text} (ha : Text.IsWord a) (hb : Text.IsWord b)
    (hinner : Bracket.Enclosed inner) :
    ∃ bracket, Line.contentOfRaw (a ++ " -> " ++ b ++ bracketEnd inner) = .edge a b bracket := by
  have hdash : '-' ∉ a := ha.not_mem (by decide)
  have harrow : ArrowFree a.tail := fun hin => hdash (List.mem_of_mem_tail (hin.subset (by simp)))
  have hdashes : ¬ ['-', '-'] <+: a := fun hin => hdash (hin.subset (by simp))
  have hcolons : ¬ [':', ':'] <:+: a := fun hin =>
    ha.not_mem (c := ':') (by decide) (hin.subset (by simp))
  have hline : '\n' ∉ a ∧ '\n' ∉ b := ⟨ha.not_mem (by decide), hb.not_mem (by decide)⟩
  have hnode : ∀ value, Line.node? (a ++ ' ' :: '-' :: '>' :: ' ' :: value) = none := fun value =>
    Line.node?_of_first (Line.not_cut_of_colons hcolons) (by decide) (by decide)
  have hcode : a ++ " -> ".toList ++ b = a ++ ' ' :: '-' :: '>' :: ' ' :: b := by simp
  have hsign : '#' ∉ a ++ ' ' :: '-' :: '>' :: ' ' :: b := by
    simp [ha.not_mem (c := '#') (by decide), hb.not_mem (c := '#') (by decide)]
  have htight : Text.Tight (a ++ ' ' :: '-' :: '>' :: ' ' :: b) := by
    refine ha.tight.append ha.ne_nil ?_
    intro c hc
    have hlast : b.getLast? = some c := by
      rw [← List.getLast?_append_of_ne_nil [' ', '-', '>', ' '] hb.ne_nil]
      exact hc
    exact hb.tight.stop c hlast
  unfold Line.contentOfRaw
  rw [hcode]
  by_cases hempty : inner = []
  · have hnone : (Bracket.splitTrailing b).2 = none := by
      rw [Bracket.splitTrailing_of_not_mem (hb.not_mem (by decide))]
    rw [hempty, bracketEnd, List.isEmpty_nil, if_pos rfl, List.append_nil,
      Comment.strip_of_not_mem htight hsign]
    exact ⟨none,
      Line.contentOf_sides_bare ha.tight ha.ne_nil harrow hline.1 hb.tight hb.ne_nil hline.2
      hdashes (hnode b) hnone⟩
  · have hread : '\n' ∉ Comment.unescape inner ∧ '[' ∉ Comment.unescape inner :=
      ⟨fun hmem => hinner.one_line ((Comment.mem_unescape (by decide)).mp hmem),
        fun hmem => hinner.no_open ((Comment.mem_unescape (by decide)).mp hmem)⟩
    refine ⟨some (Text.trim (Comment.unescape inner)), ?_⟩
    rw [strip_bracketEnd htight (by simp) hsign hinner hempty,
      ← Line.contentOf_sides_bracketed ha.tight ha.ne_nil harrow hline.1 hb.tight
        hb.ne_nil hline.2 hread
        hdashes (hnode _)]
    simp

end Edit

end LineDiagram
