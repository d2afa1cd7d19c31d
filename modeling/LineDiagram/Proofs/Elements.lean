import LineDiagram.Dot.Element
import LineDiagram.Proofs.Addresses
import LineDiagram.Proofs.Integrity
import LineDiagram.Proofs.UnderscoreRuns
import LineDiagram.Proofs.WholeNumbers

/-!
# Elements, read again

The identifier of an element is a mark, for an edge its line, and the tokens of
one or two nodes.  A token holds letters, digits and underscores only.  So
nothing is trimmed from an identifier, the digits of a line end at the hyphens
after it, and so does the first token of an edge: every identifier says which
tokens it was made of.  Two nodes may have one token, though.  Underscores are
no letters, and a run of them is written as one.

* `Element.Worded` — tokens of letters, digits and underscores;
* `ofId?_id` — an element with such tokens is read again;
* `elements_read_back` — the elements of all nodes and edges are;
* `ofNodeId_id_eq_iff` — when two words have one identifier;
* `compile_elements_iff` — when two nodes of a document have one.
-/

namespace LineDiagram

namespace Element

/-! ## Tokens -/

/-- The tokens of an element. -/
def tokens : Element → List Text
  | .node token => [token]
  | .edge _ source target => [source, target]

/-- The tokens of an element are made of letters, digits and underscores. -/
def Worded (e : Element) : Prop := ∀ token ∈ e.tokens, ∀ c ∈ token, Text.isWordChar c = true

theorem isWordChar_of_mem_tokenOf {t : Text} {c : Char} (h : c ∈ tokenOf t) :
    Text.isWordChar c = true := by
  unfold Text.isWordChar
  rw [Bool.or_eq_true, beq_iff_eq]
  exact Text.mem_underscoreRuns h

theorem worded_ofNodeId (id : Text) : (ofNodeId id).Worded := by
  intro token htoken c hc
  rw [List.mem_singleton.mp htoken] at hc
  exact isWordChar_of_mem_tokenOf hc

theorem worded_ofEdge (e : Edge) : (ofEdge e).Worded := by
  intro token htoken c hc
  rcases List.mem_pair.mp htoken with rfl | rfl <;> exact isWordChar_of_mem_tokenOf hc

/-! ## Reading -/

/-- The two tokens of an edge are read again: a word ends at a hyphen, since no
word holds one. -/
theorem tokens?_append {source target : Text} (hsource : ∀ c ∈ source, Text.isWordChar c = true)
    (htarget : ∀ c ∈ target, Text.isWordChar c = true) :
    tokens? ('-' :: '-' :: (source ++ '-' :: '-' :: target)) = some (source, target) := by
  have hword : (source ++ '-' :: '-' :: target).takeWhile Text.isWordChar = source := by
    rw [List.takeWhile_append_of_pos hsource,
      List.takeWhile_cons_of_neg (by decide), List.append_nil]
  have hrest : (source ++ '-' :: '-' :: target).dropWhile Text.isWordChar =
      '-' :: '-' :: target := by
    rw [List.dropWhile_append_of_pos hsource, List.dropWhile_cons_of_neg (by decide)]
  simp only [tokens?, hword, hrest, List.all_eq_true.mpr htarget, if_true]

/-- No blank stands in the identifier of an element. -/
theorem tight_id {e : Element} (h : e.Worded) : Text.Tight e.id := by
  have hmarks : (nodeMark ++ edgeMark ++ "--").all (fun c => !Text.isBlank c) = true := by decide
  have hmark : ∀ c ∈ nodeMark ++ edgeMark ++ "--", Text.isBlank c = false := fun c hc => by
    simpa using List.all_eq_true.mp hmarks c hc
  simp only [List.mem_append, or_imp, forall_and] at hmark
  obtain ⟨⟨hnode, hedge⟩, hhyphens⟩ := hmark
  have hwords : ∀ token ∈ e.tokens, ∀ c ∈ token, Text.isBlank c = false := fun token htoken c hc =>
    Text.not_blank_of_isWordChar (h token htoken c hc)
  apply Text.tight_of_solid
  cases e with
  | node token =>
      simp only [Element.id, List.mem_append, or_imp, forall_and]
      exact ⟨hnode, hwords token (by simp [tokens])⟩
  | edge line source target =>
      simp only [Element.id, List.mem_append, or_imp, forall_and]
      exact ⟨⟨⟨⟨⟨hedge, fun c hc => Text.not_blank_of_mem_ofNat hc⟩, hhyphens⟩,
        hwords source (by simp [tokens])⟩, hhyphens⟩, hwords target (by simp [tokens])⟩

/-- **An element is read again** if its tokens are made of letters, digits and
underscores. -/
theorem ofId?_id {e : Element} (h : e.Worded) : ofId? e.id = some e := by
  unfold ofId?
  rw [Text.trim_of_tight (tight_id h)]
  cases e with
  | node token => simp only [Element.id, Text.dropStart?_append]
  | edge line source target =>
      have hid : (Element.edge line source target).id =
          edgeMark ++ (Text.ofNat line ++ '-' :: '-' :: (source ++ '-' :: '-' :: target)) := by
        simp [Element.id]
      have hother : ∀ t, Text.dropStart? nodeMark (edgeMark ++ t) = none := fun _ => rfl
      -- a hyphen is no digit, so the number ends where it was written to end
      have hdigits : ∀ t, (Text.ofNat line ++ '-' :: t).takeWhile Text.isDigit =
          Text.ofNat line := by
        intro t
        rw [List.takeWhile_append_of_pos fun c hc => Text.isDigit_of_mem_ofNat hc,
          List.takeWhile_cons_of_neg (by decide), List.append_nil]
      have hrest : ∀ t, (Text.ofNat line ++ '-' :: t).dropWhile Text.isDigit = '-' :: t := by
        intro t
        rw [List.dropWhile_append_of_pos fun c hc => Text.isDigit_of_mem_ofNat hc,
          List.dropWhile_cons_of_neg (by decide)]
      have hsome : (Text.ofNat line).isEmpty = false := by
        simp [Text.ofNat, Nat.toDigits_ne_nil]
      have htokens := tokens?_append (h source (by simp [tokens])) (h target (by simp [tokens]))
      simp only [hid, hother, Text.dropStart?_append, hdigits, hrest, hsome,
        htokens, Option.map_some, Text.digitsValue_ofNat, Bool.false_eq_true, if_false]

end Element

/-- **Elements are read again**, those of all nodes and those of all edges, each
with its tokens and an edge with its line. -/
theorem elements_read_back :
    (∀ id : Text, Element.ofId? (Element.ofNodeId id).id = some (.node (Element.tokenOf id))) ∧
      ∀ e : Edge, Element.ofId? (Element.ofEdge e).id =
        some (.edge e.line (Element.tokenOf e.source) (Element.tokenOf e.target)) :=
  ⟨fun id => Element.ofId?_id (Element.worded_ofNodeId id),
    fun e => Element.ofId?_id (Element.worded_ofEdge e)⟩

/-! ## Nodes with one identifier -/

namespace Element

section

variable {a b t : Text}

/-- Letters and digits are kept in a token; all else in a word is an
underscore. -/
theorem kept_of_word (h : ∀ c ∈ t, Text.isWordChar c = true) :
    ∀ c ∈ t, (Text.isAsciiLetter c || Text.isAsciiDigit c) = true ∨ c = '_' := by
  intro c hc
  simpa [Text.isWordChar] using h c hc

/-- **Two words have one identifier** exactly if they differ in the lengths of
their runs of underscores only. -/
theorem ofNodeId_id_eq_iff (ha : ∀ c ∈ a, Text.isWordChar c = true)
    (hb : ∀ c ∈ b, Text.isWordChar c = true) :
    (ofNodeId a).id = (ofNodeId b).id ↔ Text.SameButRuns a b := by
  rw [← Text.underscoreRuns_eq_iff (by decide) (kept_of_word ha) (kept_of_word hb)]
  exact List.append_right_inj nodeMark

/-- A word without underscores next to each other is its own token, so such
nodes keep their identifiers. -/
theorem tokenOf_eq_self (h : ∀ c ∈ t, Text.isWordChar c = true)
    (hsingle : Text.SingleUnderscores t) :
    tokenOf t = t := Text.underscoreRuns_eq_self (kept_of_word h) hsingle

end

end Element

/-- **When two nodes of a document have one element**: exactly if their
identifiers differ in the lengths of runs of underscores only.  So nodes whose
identifiers have no two underscores next to each other have elements of their
own. -/
theorem compile_elements_iff (t : Text) (font : Option Text) :
    ∃ g, (compile t font).graph = some g ∧ ∀ a ∈ g.ids, ∀ b ∈ g.ids,
      ((Element.ofNodeId a).id = (Element.ofNodeId b).id ↔ Text.SameButRuns a b) ∧
      (Text.SingleUnderscores a → Text.SingleUnderscores b → a ≠ b →
        (Element.ofNodeId a).id ≠ (Element.ofNodeId b).id) := by
  refine ⟨_, graph_compile t font, fun a ha b hb => ?_⟩
  have hworded :=
    (Draft.integral_ofLines ((filled? font).getD Label.defaultFont) (Document.split t)).worded
  have hwordA := (hworded a ha).2
  have hwordB := (hworded b hb).2
  refine ⟨Element.ofNodeId_id_eq_iff hwordA hwordB, fun hsingleA hsingleB hne hsame => hne ?_⟩
  have htokens : Element.tokenOf a = Element.tokenOf b :=
    (List.append_right_inj Element.nodeMark).mp hsame
  rwa [Element.tokenOf_eq_self hwordA hsingleA, Element.tokenOf_eq_self hwordB hsingleB] at htokens

/-- Two nodes have one element, a third one has its own. -/
theorem compile_elements_of_underscores :
    ∃ g, (compile "a_b -> a__b | Order: 1").graph = some g ∧
      g.ids = ["a_b".toList, "a__b".toList, "order_1".toList] ∧
      Text.SameButRuns "a_b" "a__b" ∧
      (Element.ofNodeId "a_b").id = (Element.ofNodeId "a__b").id ∧
      (Element.ofNodeId "a_b").id ≠ (Element.ofNodeId "order_1").id := by
  obtain ⟨g, hg, hall⟩ := compile_elements_iff "a_b -> a__b | Order: 1" none
  have hids : (compile "a_b -> a__b | Order: 1").graph.map Graph.ids =
      some ["a_b".toList, "a__b".toList, "order_1".toList] := by decide +kernel
  rw [hg] at hids
  have hids : g.ids = ["a_b".toList, "a__b".toList, "order_1".toList] := Option.some.inj hids
  have hsame : (Element.ofNodeId "a_b").id = (Element.ofNodeId "a__b").id := by decide
  obtain ⟨hiff, -⟩ := hall "a_b" (by simp [hids]) "a__b" (by simp [hids])
  obtain ⟨-, hdiffer⟩ := hall "a_b" (by simp [hids]) "order_1" (by simp [hids])
  exact ⟨g, hg, hids, hiff.mp hsame, hsame, hdiffer (by decide) (by decide) (by decide)⟩

/-- Two nodes may have one element, although their identifiers differ. -/
theorem compile_elements_shared :
    ¬ ∀ (t : Text) (g : Graph), (compile t).graph = some g → ∀ a ∈ g.ids, ∀ b ∈ g.ids, a ≠ b →
      (Element.ofNodeId a).id ≠ (Element.ofNodeId b).id := by
  intro hall
  have hdiffer := hall "a_b -> a__b" _ (graph_compile _ none) "a_b" (by decide +kernel) "a__b"
    (by decide +kernel) (by decide)
  exact absurd hdiffer (by decide)

end LineDiagram
