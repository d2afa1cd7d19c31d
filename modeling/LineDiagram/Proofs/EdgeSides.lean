import LineDiagram.Edit.Edge
import LineDiagram.Graph.Build
import LineDiagram.Proofs.Bracket
import LineDiagram.Proofs.Graph
import LineDiagram.Proofs.Reading

/-!
# The sides of an edge, written and read

An editor writes the tokens of both sides of an edge with bars between them and
an arrow in the middle.  The arrow is found again: an edge is cut at its first
arrow, so the sources hold none, except perhaps where the line starts, since an
arrow needs text before it.

* `arrowFree_sources` — where the sources of an edge can hold an arrow;
* `contentOf_sides`, `contentOf_sides_bracketed` — the code that is written says
  an edge between the two sides;
* `node?_of_first` — it is no definition when its first token cannot be cut into
  one;
* `splitEndpoints_kept` — the nodes of a side that is written, from its tokens;
* `ReadableSides` — sides that are read as they are written, with a bracket
  after them or without.
-/

namespace LineDiagram

namespace Text

/-- Two characters in a row do not stand around a third one, so a pair in a text
is on one side of any other character. -/
theorem pair_infix_append {x y c : Char} (hx : c ≠ x) (hy : c ≠ y) {a b : Text}
    (h : [x, y] <:+: a ++ c :: b) : [x, y] <:+: a ∨ [x, y] <:+: b := by
  induction a with
  | nil =>
      rw [List.nil_append, List.infix_cons_iff] at h
      rcases h with hstart | hrest
      · rw [List.cons_prefix_cons] at hstart
        exact absurd hstart.1.symm hx
      · exact Or.inr hrest
  | cons d a ih =>
      rw [List.cons_append, List.infix_cons_iff] at h
      rcases h with hstart | hrest
      · rw [List.cons_prefix_cons] at hstart
        obtain ⟨rfl, hnext⟩ := hstart
        cases a with
        | nil =>
            rw [List.nil_append, List.cons_prefix_cons] at hnext
            exact absurd hnext.1.symm hy
        | cons e a =>
            rw [List.cons_append, List.cons_prefix_cons] at hnext
            obtain ⟨rfl, -⟩ := hnext
            exact Or.inl ⟨[], a, rfl⟩
      · exact (ih hrest).imp (fun hin => hin.trans (List.suffix_cons d a).isInfix) id

/-- A part between separators stands in the text. -/
theorem infix_of_mem_parts {c : Char} {t part : Text} (h : part ∈ parts c t) : part <:+: t := by
  obtain ⟨hmem, -⟩ := List.mem_filter.mp h
  obtain ⟨piece, hpiece, rfl⟩ := List.mem_map.mp hmem
  obtain ⟨-, a, b, rfl, -⟩ := mem_splitOn hpiece
  obtain ⟨x, y, hcore, -⟩ := exists_trim piece
  exact List.IsInfix.trans ⟨x, y, hcore.symm⟩ ⟨a, b, rfl⟩

/-- Leaving out characters other than the separator leaves the pieces, each
without these characters. -/
theorem splitOn_filter {c : Char} {p : Char → Bool} (hc : p c = true) (t : Text) :
    (t.filter p).splitOn c = (t.splitOn c).map (List.filter p) := by
  induction hlength : t.length using Nat.strong_induction_on generalizing t with
  | _ n ih =>
      by_cases hmem : c ∈ t
      · obtain ⟨first, rest, rfl, hfirst⟩ := List.eq_append_cons_of_mem hmem
        have hshort : rest.length < n := by
          rw [← hlength, List.length_append, List.length_cons]
          omega
        have hnone : c ∉ first.filter p := fun hin => hfirst (List.mem_filter.mp hin).1
        rw [List.filter_append, List.filter_cons_of_pos hc, List.splitOn_append_cons_self,
          List.splitOn_append_cons_self, ih _ hshort rest rfl, List.splitOn_eq_singleton hnone,
          List.splitOn_eq_singleton hfirst, List.map_append, List.map_singleton]
      · have hnone : c ∉ t.filter p := fun hin => hmem (List.mem_filter.mp hin).1
        rw [List.splitOn_eq_singleton hnone, List.splitOn_eq_singleton hmem, List.map_singleton]

end Text

/-! ## Arrows in the sources -/

/-- A text without an arrow. -/
def ArrowFree (t : Text) : Prop := ¬ ['-', '>'] <:+: t

instance (t : Text) : Decidable (ArrowFree t) :=
  decidable_of_iff (Text.hasPart ['-', '>'] t = false) (by
    rw [Bool.eq_false_iff, ne_eq, Text.hasPart_iff, ArrowFree])

theorem ArrowFree.inside {s t : Text} (h : ArrowFree t) (hst : s <:+: t) : ArrowFree s :=
  fun harrow => h (harrow.trans hst)

/-- Two texts without an arrow make one without an arrow when they are joined by
a character that is part of none. -/
theorem arrowFree_append {a b : Text} {c : Char} (hdash : c ≠ '-') (hhead : c ≠ '>')
    (ha : ArrowFree a) (hb : ArrowFree b) : ArrowFree (a ++ c :: b) := by
  intro harrow
  rcases Text.pair_infix_append hdash hhead harrow with hin | hin
  · exact ha hin
  · exact hb hin

/-- Only the first token may hold an arrow, and only at its start. -/
def Arrowless : List Text → Prop
  | [] => True
  | first :: rest => ArrowFree first.tail ∧ ∀ t ∈ rest, ArrowFree t

instance (tokens : List Text) : Decidable (Arrowless tokens) :=
  match tokens with
  | [] => .isTrue trivial
  | first :: rest => inferInstanceAs (Decidable (ArrowFree first.tail ∧ ∀ t ∈ rest, ArrowFree t))

/-- Tokens without arrows are fit to be sources. -/
theorem arrowless_of_all {tokens : List Text} (h : ∀ t ∈ tokens, ArrowFree t) :
    Arrowless tokens := by
  cases tokens with
  | nil => trivial
  | cons first rest =>
      refine ⟨(h first List.mem_cons_self).inside (List.tail_suffix first).isInfix, ?_⟩
      exact fun t ht => h t (List.mem_cons_of_mem first ht)

/-- Tokens that are fit to be sources still are when some of them are left
out. -/
theorem Arrowless.filter {tokens : List Text} (h : Arrowless tokens) (p : Text → Bool) :
    Arrowless (tokens.filter p) := by
  cases tokens with
  | nil => trivial
  | cons first rest =>
      have hrest : ∀ t ∈ rest.filter p, ArrowFree t := fun t ht => h.2 t (List.mem_filter.mp ht).1
      rw [List.filter_cons]
      split
      · exact ⟨h.1, hrest⟩
      · exact arrowless_of_all hrest

/-- Two tokens or more are written with a bar between any two, and a blank on
either side of it. -/
theorem join_cons_cons (first next : Text) (rest : List Text) :
    Text.join " | " (first :: next :: rest) =
      first ++ ' ' :: '|' :: ' ' :: Text.join " | " (next :: rest) :=
  Bracket.joinParts_cons_cons first next rest

theorem join_singleton (token : Text) : Text.join " | " [token] = token :=
  Bracket.joinParts_singleton token

/-- Between the characters of the tokens there are blanks and bars, and nothing
else gets into a side. -/
theorem mem_join {tokens : List Text} {c : Char} (h : c ∈ Text.join " | " tokens) :
    c = ' ' ∨ c = '|' ∨ ∃ t ∈ tokens, c ∈ t := by
  induction tokens with
  | nil => simp [Text.join] at h
  | cons first rest ih =>
      cases rest with
      | nil =>
          rw [join_singleton] at h
          exact Or.inr (Or.inr ⟨first, List.mem_cons_self, h⟩)
      | cons next rest =>
          simp only [join_cons_cons, List.mem_append, List.mem_cons] at h
          rcases h with hfirst | rfl | rfl | rfl | hrest
          · exact Or.inr (Or.inr ⟨first, List.mem_cons_self, hfirst⟩)
          · exact Or.inl rfl
          · exact Or.inr (Or.inl rfl)
          · exact Or.inl rfl
          · refine (ih hrest).imp_right (Or.imp_right ?_)
            rintro ⟨t, ht, hc⟩
            exact ⟨t, List.mem_cons_of_mem first ht, hc⟩

/-- A character that is in no token, and neither a blank nor a bar, is not in
the side. -/
theorem not_mem_join {c : Char} (hspace : c ≠ ' ') (hbar : c ≠ '|') {tokens : List Text}
    (h : ∀ token ∈ tokens, c ∉ token) : c ∉ Text.join " | " tokens := by
  intro hmem
  rcases mem_join hmem with heq | heq | ⟨token, htoken, hc⟩
  · exact hspace heq
  · exact hbar heq
  · exact h token htoken hc

theorem join_ne_nil {tokens : List Text} (hne : tokens ≠ []) (h : ∀ t ∈ tokens, t ≠ []) :
    Text.join " | " tokens ≠ [] := by
  cases tokens with
  | nil => exact absurd rfl hne
  | cons first rest => exact Bracket.joinParts_ne_nil (h first List.mem_cons_self) rest

/-- A side starts and ends with no blank, like its tokens. -/
theorem tight_join {tokens : List Text} (h : ∀ t ∈ tokens, Text.Tight t ∧ t ≠ []) :
    Text.Tight (Text.join " | " tokens) := by
  induction tokens with
  | nil => exact ⟨nofun, nofun⟩
  | cons first rest ih =>
      obtain ⟨htight, hne⟩ := h first List.mem_cons_self
      have hrest := ih (fun t ht => h t (List.mem_cons_of_mem first ht))
      cases rest with
      | nil => rwa [join_singleton]
      | cons next rest =>
          have hsome : Text.join " | " (next :: rest) ≠ [] :=
            join_ne_nil (by simp) (fun t ht => (h t (List.mem_cons_of_mem first ht)).2)
          rw [join_cons_cons]
          refine htight.append hne ?_
          intro c hc
          change ([' ', '|', ' '] ++ Text.join " | " (next :: rest)).getLast? = some c at hc
          rw [List.getLast?_append_of_ne_nil _ hsome] at hc
          exact hrest.stop c hc

/-- A side of tokens without an arrow holds none: the bars between them make
none. -/
theorem arrowFree_join {tokens : List Text} (h : ∀ t ∈ tokens, ArrowFree t) :
    ArrowFree (Text.join " | " tokens) := by
  induction tokens with
  | nil => simp [Text.join, ArrowFree]
  | cons first rest ih =>
      have hfirst := h first List.mem_cons_self
      have hrest := ih (fun t ht => h t (List.mem_cons_of_mem first ht))
      cases rest with
      | nil => rwa [join_singleton]
      | cons next rest =>
          rw [join_cons_cons]
          refine arrowFree_append (by decide) (by decide) hfirst ?_
          exact arrowFree_append (a := ['|']) (by decide) (by decide)
            (by unfold ArrowFree; decide) hrest

/-- A side of tokens that are fit to be sources holds no arrow behind its first
character. -/
theorem Arrowless.join {tokens : List Text} (h : Arrowless tokens) (hne : ∀ t ∈ tokens, t ≠ []) :
    ArrowFree (Text.join " | " tokens).tail := by
  cases tokens with
  | nil => simp [Text.join, ArrowFree]
  | cons first rest =>
      cases rest with
      | nil =>
          rw [join_singleton]
          exact h.1
      | cons next rest =>
          rw [join_cons_cons, List.tail_append_of_ne_nil (hne first List.mem_cons_self)]
          refine arrowFree_append (by decide) (by decide) h.1 ?_
          exact arrowFree_append (a := ['|']) (by decide) (by decide) (by unfold ArrowFree; decide)
            (arrowFree_join h.2)

/-- The tokens of a side that has an arrow at most at its start: only the first
of them can begin with one. -/
theorem arrowless_parts {side : Text} (htight : Text.Tight side) (h : ArrowFree side.tail) :
    Arrowless (Text.parts '|' side) := by
  have hstart : ∀ first more : Text, side = first ++ more → ArrowFree (Text.trim first).tail := by
    intro first more hside
    cases first with
    | nil => simp [ArrowFree]
    | cons c first =>
        have hblank : Text.isBlank c = false := htight.start c (by rw [hside]; rfl)
        obtain ⟨b, hcore, -⟩ := Text.exists_trimEnd (c :: first)
        have htrim : Text.trim (c :: first) = Text.trimEnd (c :: first) := by
          unfold Text.trim
          rw [Text.trimStart_of_head hblank]
        rw [htrim]
        cases hend : Text.trimEnd (c :: first) with
        | nil => simp [ArrowFree]
        | cons d core =>
            rw [hend, List.cons_append, List.cons.injEq] at hcore
            rw [hside, List.cons_append, List.tail_cons, hcore.2, List.append_assoc] at h
            exact h.inside ⟨[], b ++ more, by simp⟩
  by_cases hbar : '|' ∈ side
  · obtain ⟨first, rest, hside, hfirst⟩ := List.eq_append_cons_of_mem hbar
    have hrest : ∀ t ∈ Text.parts '|' rest, ArrowFree t := by
      intro t ht
      refine h.inside ((Text.infix_of_mem_parts ht).trans ?_)
      rw [hside]
      cases first with
      | nil => exact List.infix_refl rest
      | cons c first =>
          rw [List.cons_append, List.tail_cons]
          exact ⟨first ++ ['|'], [], by simp⟩
    rw [hside, Text.parts_append]
    by_cases hempty : Text.trim first = []
    · have hnone : Text.parts '|' first = [] := by
        unfold Text.parts
        rw [List.splitOn_eq_singleton hfirst]
        simp [hempty]
      rw [hnone]
      exact arrowless_of_all hrest
    · rw [Text.parts_of_not_mem hfirst hempty]
      exact ⟨hstart first _ hside, hrest⟩
  · by_cases hempty : Text.trim side = []
    · have hnone : Text.parts '|' side = [] := by
        unfold Text.parts
        rw [List.splitOn_eq_singleton hbar]
        simp [hempty]
      rw [hnone]
      trivial
    · rw [Text.parts_of_not_mem hbar hempty]
      exact ⟨hstart side [] (by simp), by simp⟩

namespace Line

/-- Between some text and the arrow that is found there is no other arrow: the
search would have stopped there. -/
private theorem arrowFree_before {before t side value : Text} (hbefore : '\n' ∉ before)
    (hfree : '\n' ∉ t) (hblank : ¬ Text.AllBlank before)
    (h : arrowParts? before t = some (side, value)) :
    ∃ pre more, t = pre ++ '-' :: '>' :: more ∧ ArrowFree pre ∧
      side = Text.trimEnd (before.reverse ++ pre) := by
  induction t generalizing before with
  | nil => simp [arrowParts?] at h
  | cons c rest ih =>
      simp only [List.mem_cons, not_or] at hfree
      by_cases hhere : ArrowHere before (c :: rest)
      · obtain ⟨more, -, hmore⟩ := hhere
        simp only [List.mem_cons, not_or] at hfree
        rw [arrowParts?_here hblank hmore hbefore hfree.2.2] at h
        cases h
        refine ⟨[], more, rfl, by simp [ArrowFree], ?_⟩
        simp [Text.trimEnd, Text.dropEndWhile, Text.trimStart]
      · rw [arrowParts?_skip hhere] at h
        have hnext : ¬ Text.AllBlank (c :: before) :=
          fun hall => hblank (Text.allBlank_cons.mp hall).2
        obtain ⟨pre, more, rfl, hpre, hside⟩ :=
          ih (by simpa using ⟨hfree.1, hbefore⟩) hfree.2 hnext h
        rw [List.reverse_cons, List.append_assoc, List.singleton_append] at hside
        refine ⟨c :: pre, more, rfl, ?_, hside⟩
        -- an arrow at this place has text after it, so the edge would have been cut here
        intro harrow
        rcases List.infix_cons_iff.mp harrow with hstart | hlater
        · rw [List.cons_prefix_cons] at hstart
          obtain ⟨rfl, tail, rfl⟩ := hstart
          exact hhere (.intro _ hblank fun hall => hall.not_mem (c := '-') (by decide) (by simp))
        · exact hpre hlater

/-- Nothing stands before the start of a text. -/
private theorem not_arrowHere_nil (t : Text) : ¬ ArrowHere [] t := by
  rintro ⟨more, hall, -⟩
  exact hall Text.allBlank_nil

/-- **The sources of an edge** hold an arrow at most where the line starts.  The
reader takes the first arrow with something on both sides, and one at the very
start has nothing before it. -/
theorem arrowFree_sources {code side value : Text} (hfree : '\n' ∉ code) (htight : Text.Tight code)
    (h : arrowParts? [] code = some (side, value)) : Text.Tight side ∧ ArrowFree side.tail := by
  cases code with
  | nil => simp [arrowParts?] at h
  | cons c rest =>
      have hblank : Text.isBlank c = false := htight.start c rfl
      rw [arrowParts?_skip (not_arrowHere_nil _)] at h
      simp only [List.mem_cons, not_or] at hfree
      obtain ⟨pre, more, -, hpre, rfl⟩ := arrowFree_before (by simpa using hfree.1) hfree.2
        (by simp [hblank]) h
      obtain ⟨b, hcore, -⟩ := Text.exists_trimEnd (c :: pre)
      cases hend : Text.trimEnd (c :: pre) with
      | nil =>
          have hall := Text.trimEnd_eq_nil.mp hend
          rw [Text.allBlank_cons, hblank] at hall
          exact absurd hall.1 (by simp)
      | cons d core =>
          rw [hend, List.cons_append, List.cons.injEq] at hcore
          obtain ⟨rfl, hcore⟩ := hcore
          rw [List.reverse_singleton, List.singleton_append, hend]
          refine ⟨⟨?_, ?_⟩, ?_⟩
          · intro x hx
            cases hx
            exact hblank
          · intro x hx
            rw [← hend] at hx
            exact Text.last_trimEnd hx
          · exact hpre.inside ⟨[], b, by rw [hcore]; simp⟩

/-- The search passes over text without an arrow to the arrow after it, and what
it has passed becomes the side. -/
private theorem arrowParts?_pass {before s value : Text} (hblank : ¬ Text.AllBlank before)
    (hbefore : '\n' ∉ before) (hs : ArrowFree s) (hline : '\n' ∉ s) (hvalue : ¬ Text.AllBlank value)
    (hvalueLine : '\n' ∉ value) :
    arrowParts? before (s ++ ' ' :: '-' :: '>' :: ' ' :: value) =
      some ((Text.trimStart (' ' :: (s.reverse ++ before))).reverse, Text.trimStart value) := by
  induction s generalizing before with
  | nil =>
      have hskip : ¬ ArrowHere before (' ' :: '-' :: '>' :: ' ' :: value) := by
        rintro ⟨⟩
      have hmore : ¬ Text.AllBlank (' ' :: value) :=
        fun hall => hvalue (Text.allBlank_cons.mp hall).2
      rw [List.nil_append, arrowParts?_skip hskip,
        arrowParts?_here (fun hall => hblank (Text.allBlank_cons.mp hall).2) hmore
          (by simpa using hbefore) (by simpa using hvalueLine)]
      have hspace : Text.trimStart (' ' :: value) = Text.trimStart value :=
        Text.trimStart_of_blank_append (b := [' ']) (Text.allBlank_singleton (by decide)) value
      rw [hspace]
      rfl
  | cons c s ih =>
      simp only [List.mem_cons, not_or] at hline
      have hskip : ¬ ArrowHere before (c :: (s ++ ' ' :: '-' :: '>' :: ' ' :: value)) := by
        intro harrow
        generalize hwhole : c :: (s ++ ' ' :: '-' :: '>' :: ' ' :: value) = whole at harrow
        obtain ⟨after, -, -⟩ := harrow
        cases s with
        | nil => simp at hwhole
        | cons d s =>
            simp only [List.cons_append, List.cons.injEq] at hwhole
            obtain ⟨rfl, rfl, -⟩ := hwhole
            exact hs ⟨[], s, rfl⟩
      rw [List.cons_append, arrowParts?_skip hskip,
        ih (fun hall => hblank (Text.allBlank_cons.mp hall).2) (by simpa using ⟨hline.1, hbefore⟩)
          (hs.inside (List.suffix_cons c s).isInfix) hline.2]
      simp

/-- The arrow between two sides is found, and it is the one that was written
between them. -/
theorem arrowParts?_sides {s value : Text} (hs : Text.Tight s) (hne : s ≠ [])
    (harrow : ArrowFree s.tail) (hline : '\n' ∉ s) (hvalue : Text.Tight value)
    (hvalueNe : value ≠ [])
    (hvalueLine : '\n' ∉ value) :
    arrowParts? [] (s ++ ' ' :: '-' :: '>' :: ' ' :: value) = some (s, value) := by
  have hsome : ¬ Text.AllBlank value := by
    intro hall
    rw [← Text.trim_eq_nil, Text.trim_of_tight hvalue] at hall
    exact hvalueNe hall
  cases s with
  | nil => exact absurd rfl hne
  | cons c s =>
      have hblank : Text.isBlank c = false := hs.start c rfl
      simp only [List.mem_cons, not_or, List.tail_cons] at hline harrow
      have hfirst : ¬ Text.AllBlank [c] := by simp [hblank]
      rw [List.cons_append, arrowParts?_skip (not_arrowHere_nil _),
        arrowParts?_pass hfirst (by simpa using hline.1) harrow hline.2 hsome hvalueLine,
        Text.trimStart_eq_self hvalue.start]
      have hspace : Text.trimStart (' ' :: (s.reverse ++ [c])) = s.reverse ++ [c] := by
        rw [← List.singleton_append,
          Text.trimStart_of_blank_append (Text.allBlank_singleton (by decide))]
        apply Text.trimStart_eq_self
        intro x hx
        refine hs.stop x ?_
        rw [← List.head?_reverse, List.reverse_cons]
        exact hx
      rw [hspace]
      simp

/-- **Two sides that are written say an edge**, unless an earlier rule fits:
markers and definitions are tried before, and settings lines hold no arrow. -/
theorem contentOf_sides {s value : Text} (hs : Text.Tight s) (hne : s ≠ [])
    (harrow : ArrowFree s.tail) (hline : '\n' ∉ s) (hvalue : Text.Tight value)
    (hvalueNe : value ≠ [])
    (hvalueLine : '\n' ∉ value) (hdashes : ¬ ['-', '-'] <+: s)
    (hnode : node? (s ++ ' ' :: '-' :: '>' :: ' ' :: value) = none) :
    contentOf (s ++ ' ' :: '-' :: '>' :: ' ' :: value) =
      .edge s (Text.trim (Bracket.splitTrailing value).1) (Bracket.splitTrailing value).2 := by
  have hfree : '\n' ∉ s ++ ' ' :: '-' :: '>' :: ' ' :: value := by simp [hline, hvalueLine]
  have hmarker : marker? (s ++ ' ' :: '-' :: '>' :: ' ' :: value) = none := by
    rw [marker?_eq_none_iff hfree, dashes_append (by decide)]
    by_contra hlong
    match s with
    | [] => exact hne rfl
    | [x] => by_cases hx : x = '-' <;> simp [hx] at hlong
    | x :: y :: rest =>
        by_cases hx : x = '-' <;> by_cases hy : y = '-' <;> simp [hx, hy] at hlong
        exact hdashes ⟨rest, by rw [hx, hy]; rfl⟩
  have hcut :
      s ++ ' ' :: '-' :: '>' :: ' ' :: value = (s ++ [' ']) ++ '-' :: '>' :: (' ' :: value) := by
    simp
  refine contentOf_eq_edge_iff.mpr ⟨hmarker, setting?_of_arrow hcut, hnode, s, value,
    arrowParts?_sides hs hne harrow hline hvalue hvalueNe hvalueLine, ?_, ?_, ?_⟩
  · rw [Text.trim_of_tight hs]
  · rw [Text.trim_of_tight hvalue]
  · rw [Text.trim_of_tight hvalue]

/-- Two sides of which the second ends in no bracket. -/
theorem contentOf_sides_bare {s value : Text} (hs : Text.Tight s) (hne : s ≠ [])
    (harrow : ArrowFree s.tail) (hline : '\n' ∉ s) (hvalue : Text.Tight value)
    (hvalueNe : value ≠ [])
    (hvalueLine : '\n' ∉ value) (hdashes : ¬ ['-', '-'] <+: s)
    (hnode : node? (s ++ ' ' :: '-' :: '>' :: ' ' :: value) = none)
    (hnone : (Bracket.splitTrailing value).2 = none) :
    contentOf (s ++ ' ' :: '-' :: '>' :: ' ' :: value) = .edge s value none := by
  rw [contentOf_sides hs hne harrow hline hvalue hvalueNe hvalueLine hdashes hnode, hnone,
    Bracket.splitTrailing_of_none hnone, Text.trim_trimEnd, Text.trim_of_tight hvalue]

/-- Two sides and a bracket after them. -/
theorem contentOf_sides_bracketed {s value u : Text} (hs : Text.Tight s) (hne : s ≠ [])
    (harrow : ArrowFree s.tail) (hline : '\n' ∉ s) (hvalue : Text.Tight value)
    (hvalueNe : value ≠ [])
    (hvalueLine : '\n' ∉ value) (hu : '\n' ∉ u ∧ '[' ∉ u) (hdashes : ¬ ['-', '-'] <+: s)
    (hnode :
    node? (s ++ ' ' :: '-' :: '>' :: ' ' :: (value ++ ' ' :: '[' :: (u ++ [']']))) = none) :
    contentOf (s ++ ' ' :: '-' :: '>' :: ' ' :: (value ++ ' ' :: '[' :: (u ++ [']']))) =
      .edge s value (some (Text.trim u)) := by
  have htight : Text.Tight (value ++ ' ' :: '[' :: (u ++ [']'])) := by
    refine hvalue.append hvalueNe ?_
    intro c hc
    rw [← List.cons_append, ← List.cons_append, List.getLast?_concat] at hc
    cases hc
    decide
  have hfree : '\n' ∉ value ++ ' ' :: '[' :: (u ++ [']']) := by
    simp only [List.mem_append, List.mem_cons, not_or]
    exact ⟨hvalueLine, by decide, by decide, hu.1, by decide, by simp⟩
  have hsplit : Bracket.splitTrailing (value ++ ' ' :: '[' :: (u ++ [']'])) =
      (Text.trimEnd (value ++ [' ']), some (Text.trim u)) := by
    rw [← Bracket.splitTrailing_bracketed _ hu.2, List.append_assoc, List.singleton_append]
  rw [contentOf_sides hs hne harrow hline htight (by simp) hfree hdashes hnode, hsplit,
    Text.trim_trimEnd, Text.trim_append_blank (Text.allBlank_singleton (by decide)),
    Text.trim_of_tight hvalue]

/-- Code whose first token does not start with two dashes does not either. -/
theorem not_dashes_join {first : Text} {rest : List Text} (hne : first ≠ [])
    (h : ¬ ['-', '-'] <+: first) : ¬ ['-', '-'] <+: Text.join " | " (first :: rest) := by
  cases rest with
  | nil => rwa [join_singleton]
  | cons next rest =>
      rw [join_cons_cons]
      intro hstart
      match first with
      | [] => exact hne rfl
      | [x] => simp [List.cons_prefix_cons] at hstart
      | x :: y :: more =>
          rw [List.cons_append, List.cons_append, List.cons_prefix_cons,
            List.cons_prefix_cons] at hstart
          obtain ⟨rfl, rfl, -⟩ := hstart
          exact h ⟨more, rfl⟩

/-- Text without a double colon cannot be cut into a definition, wherever one
looks. -/
theorem not_cut_of_colons {s : Text} (h : ¬ [':', ':'] <:+: s) (word rest : Text) :
    ¬ Cut s word rest := by
  intro hcut
  obtain ⟨gap, hs, -⟩ := hcut.code_eq
  exact h ⟨word ++ gap, rest, by rw [hs]; simp⟩

/-- Code is no definition when its first token cannot be cut into one and
something else than a colon follows the blank after it. -/
theorem node?_of_first {s rest : Text} {c : Char} (hcuts : ∀ word after, ¬ Cut s word after)
    (hblank : Text.isBlank c = false) (hc : c ≠ ':') : node? (s ++ ' ' :: c :: rest) = none := by
  cases hparts : definitionParts? (s ++ ' ' :: c :: rest) with
  | none => simp [node?, hparts]
  | some parts =>
      obtain ⟨token, value⟩ := parts
      have hdefines := definitionParts?_defines hparts
      obtain ⟨gap, blanks, hcode, hgap, -⟩ := hdefines.code_eq
      exfalso
      rcases List.append_eq_append_iff.mp hcode
        with ⟨reach, hreach, hrest⟩ | ⟨colons, hcolon, hrest⟩
      · -- the colons stand after the blank, so the token or the gap reaches over it
        rcases reach with _ | ⟨x, _ | ⟨y, more⟩⟩
        · simp at hrest
        · simp only [List.cons_append, List.nil_append, List.cons.injEq] at hrest
          exact hc hrest.2.1
        · simp only [List.cons_append, List.cons.injEq] at hrest
          obtain ⟨rfl, rfl, -⟩ := hrest
          have hsplit : token ++ gap = (s ++ [' ']) ++ c :: more := by simpa using hreach
          rcases List.append_eq_append_iff.mp hsplit
            with ⟨inner, hinner, hgapEq⟩ | ⟨inner, hinner, -⟩
          · rw [hgapEq, Text.allBlank_append, Text.allBlank_cons, hblank] at hgap
            exact Bool.noConfusion hgap.2.1
          · have hspace := hdefines.token_solid ' ' (by rw [hinner]; simp)
            exact absurd hspace (by decide)
      · -- the colons stand in the first token
        rcases colons with _ | ⟨x, _ | ⟨y, more⟩⟩
        · simp at hrest
        · simp at hrest
        · simp only [List.cons_append, List.cons.injEq] at hrest
          obtain ⟨rfl, rfl, -⟩ := hrest
          exact hcuts token more ⟨hdefines.token_ne, hdefines.token_solid, gap, hcolon, hgap⟩

end Line

/-! ## Tokens and nodes -/

/-- A written token as it is read: without arrow signs and without blanks around
it. -/
def readToken (token : Text) : Text := Text.trim (token.filter (· != '→'))

/-- Blanks around a token make no difference to how it is read. -/
theorem readToken_trim (token : Text) : readToken (Text.trim token) = readToken token := by
  obtain ⟨a, b, htoken, ha, hb⟩ := Text.exists_trim token
  have hblank : ∀ {u : Text}, Text.AllBlank u → u.filter (· != '→') = u := by
    intro u hu
    rw [List.filter_eq_self]
    intro c hc
    have hne : c ≠ '→' := by
      rintro rfl
      exact hu.not_mem (by decide) hc
    simpa using hne
  unfold readToken
  conv_rhs => rw [htoken]
  rw [List.filter_append, List.filter_append, hblank ha, hblank hb,
    Text.trim_of_blanks_around ha hb]

/-- The nodes of a side, from its written tokens. -/
theorem splitEndpoints_eq (side : Text) :
    splitEndpoints side = ((writtenEndpoints side).map readToken).filter fun t => !t.isEmpty := by
  unfold splitEndpoints writtenEndpoints Text.parts
  rw [Text.splitOn_filter (by decide)]
  induction side.splitOn '|' with
  | nil => rfl
  | cons piece pieces ih =>
      have hread : readToken (Text.trim piece) = Text.trim (piece.filter (· != '→')) :=
        readToken_trim piece
      simp only [List.map_cons, List.filter_cons]
      cases hempty : Text.trim piece with
      | nil =>
          rw [hempty] at hread
          have hnone : Text.trim (piece.filter (· != '→')) = [] := hread.symm
          simpa [hnone] using ih
      | cons c core =>
          rw [← hempty]
          have hsome : (!(Text.trim piece).isEmpty) = true := by simp [hempty]
          rw [if_pos hsome, List.map_cons, List.filter_cons, hread, ih]

/-- **Reading a side that was written** gives its tokens, if each of them is one
token with no blanks around it. -/
theorem writtenEndpoints_join {tokens : List Text}
    (h : ∀ t ∈ tokens, Text.Tight t ∧ t ≠ [] ∧ '|' ∉ t) :
    writtenEndpoints (Text.join " | " tokens) = tokens := Bracket.splitParts_joinParts h

theorem mem_writtenEndpoints {side token : Text} (h : token ∈ writtenEndpoints side) :
    Text.Tight token ∧ token ≠ [] ∧ '|' ∉ token := Text.mem_parts h

/-- A token stands for a node when it is read as one, for a node whose name
stands for itself. -/
theorem isTokenOf_eq {id : Text} (hid : Identifier.ofToken id = Text.trim id) (token : Text) :
    isTokenOf (Text.trim id) token = (Identifier.ofToken (readToken token) == Text.trim id) := by
  have hplain : '→' ∉ Text.trim id := by
    intro hmem
    rw [← hid] at hmem
    exact absurd (Identifier.isWordChar_of_mem hmem) (by decide)
  unfold isTokenOf readToken
  rw [Identifier.ofToken_trim]
  by_cases heq : token = Text.trim id
  · have hsame : token.filter (· != '→') = Text.trim id := by
      rw [heq, List.filter_eq_self]
      intro c hc
      have hne : c ≠ '→' := by
        rintro rfl
        exact hplain hc
      simpa using hne
    rw [hsame, Identifier.ofToken_trim, hid, heq]
    simp
  · simp [heq]

/-- **Leaving out the tokens of a node** leaves out the node.  The editor tells
the tokens by what is written and the compiler by what they stand for, and for
an identifier both agree. -/
theorem splitEndpoints_kept {id : Text} (hid : Identifier.ofToken id = Text.trim id) (side : Text) :
    splitEndpoints (Text.join " | "
        ((writtenEndpoints side).filter fun t => !isTokenOf (Text.trim id) t)) =
      (splitEndpoints side).filter fun t => !(Identifier.ofToken t == Text.trim id) := by
  have htokens : ∀ t ∈ (writtenEndpoints side).filter (fun t => !isTokenOf (Text.trim id) t),
      Text.Tight t ∧ t ≠ [] ∧ '|' ∉ t :=
    fun t ht => mem_writtenEndpoints (List.mem_filter.mp ht).1
  have hread : (fun t => !isTokenOf (Text.trim id) t) =
      (fun t => !(Identifier.ofToken t == Text.trim id)) ∘ readToken := by
    funext t
    simp only [Function.comp, isTokenOf_eq hid]
  rw [splitEndpoints_eq, splitEndpoints_eq, writtenEndpoints_join htokens, hread, ← List.filter_map,
    List.filter_comm]

/-! ## Sides that are read as they are written -/

namespace Edit

variable {sources targets : List Text}

/-- Tokens that can be the side of an edge. -/
structure IsSide (tokens : List Text) : Prop where
  ne_nil : tokens ≠ []
  tight : ∀ token ∈ tokens, Text.Tight token ∧ token ≠ []
  one_line : ∀ token ∈ tokens, '\n' ∉ token

theorem IsSide.join_one_line {tokens : List Text} (h : IsSide tokens) :
    '\n' ∉ Text.join " | " tokens := not_mem_join (by decide) (by decide) h.one_line

theorem IsSide.join_ne_nil {tokens : List Text} (h : IsSide tokens) : Text.join " | " tokens ≠ [] :=
  LineDiagram.join_ne_nil h.ne_nil fun token htoken => (h.tight token htoken).2

/-- A first token that cannot be cut into a definition makes none: behind it
there is a blank and then a bar or an arrow. -/
theorem node?_of_sides (hsources : sources ≠ [])
    (hcuts : ∀ word rest, ¬ Line.Cut (sources.headD []) word rest) (value : Text) :
    Line.node? (Text.join " | " sources ++ ' ' :: '-' :: '>' :: ' ' :: value) = none := by
  cases sources with
  | nil => exact absurd rfl hsources
  | cons first rest =>
      cases rest with
      | nil =>
          rw [join_singleton]
          exact Line.node?_of_first hcuts (by decide) (by decide)
      | cons next rest =>
          rw [join_cons_cons, List.append_assoc]
          exact Line.node?_of_first hcuts (by decide) (by decide)

/-- A first token that is no marker makes no marker. -/
theorem not_dashes_sides (hsources : IsSide sources) (hdashes : ¬ ['-', '-'] <+: sources.headD []) :
    ¬ ['-', '-'] <+: Text.join " | " sources := by
  have hall := hsources.tight
  cases hcase : sources with
  | nil => exact absurd hcase hsources.ne_nil
  | cons first rest =>
      rw [hcase] at hdashes hall
      exact Line.not_dashes_join (hall first List.mem_cons_self).2 hdashes

/-- The code of two sides starts and ends with no blank and holds no number
sign, so no comment opens in it. -/
theorem sides_code (hsources : IsSide sources) (htargets : IsSide targets)
    (hsigns : ∀ token ∈ sources ++ targets, '#' ∉ token) :
    Text.Tight (Text.join " | " sources ++ ' ' :: '-' :: '>' :: ' ' :: Text.join " | " targets) ∧
      '#' ∉ Text.join " | " sources ++ ' ' :: '-' :: '>' :: ' ' :: Text.join " | " targets := by
  constructor
  · refine (tight_join hsources.tight).append hsources.join_ne_nil ?_
    intro c hc
    change ([' ', '-', '>', ' '] ++ Text.join " | " targets).getLast? = some c at hc
    rw [List.getLast?_append_of_ne_nil _ htargets.join_ne_nil] at hc
    exact (tight_join htargets.tight).stop c hc
  · have hleft := not_mem_join (by decide) (by decide) fun token htoken =>
      hsigns token (List.mem_append_left targets htoken)
    have hright := not_mem_join (by decide) (by decide) fun token htoken =>
      hsigns token (List.mem_append_right sources htoken)
    simp only [List.mem_append, List.mem_cons, not_or]
    exact ⟨hleft, by decide, by decide, by decide, by decide, hright⟩

/-- Sides that are read as they are written. -/
structure ReadableSides (sources targets : List Text) : Prop where
  left : IsSide sources
  right : IsSide targets
  arrow : ArrowFree (Text.join " | " sources).tail
  signs : ∀ token ∈ sources ++ targets, '#' ∉ token
  dashes : ¬ ['-', '-'] <+: sources.headD []
  cuts : ∀ word rest, ¬ Line.Cut (sources.headD []) word rest

/-- Sides without a bracket after them. -/
theorem ReadableSides.contentOf_bare (h : ReadableSides sources targets)
    (hnone : (Bracket.splitTrailing (Text.join " | " targets)).2 = none) :
    Line.contentOf (Text.join " | " sources ++ ' ' :: '-' :: '>' :: ' ' ::
      Text.join " | " targets) =
      .edge (Text.join " | " sources) (Text.join " | " targets) none :=
  Line.contentOf_sides_bare (tight_join h.left.tight) h.left.join_ne_nil h.arrow
    h.left.join_one_line
    (tight_join h.right.tight) h.right.join_ne_nil h.right.join_one_line
    (not_dashes_sides h.left h.dashes) (node?_of_sides h.left.ne_nil h.cuts _) hnone

/-- Sides and a bracket after them. -/
theorem ReadableSides.contentOf_bracketed (h : ReadableSides sources targets) {inner : Text}
    (hinner : '\n' ∉ inner ∧ '[' ∉ inner) :
    Line.contentOf
      ((Text.join " | " sources ++ ' ' :: '-' :: '>' :: ' ' :: Text.join " | " targets) ++
        ' ' :: '[' :: (inner ++ [']'])) =
      .edge (Text.join " | " sources) (Text.join " | " targets) (some (Text.trim inner)) := by
  rw [List.append_assoc, List.cons_append, List.cons_append, List.cons_append, List.cons_append]
  exact Line.contentOf_sides_bracketed (tight_join h.left.tight) h.left.join_ne_nil h.arrow
    h.left.join_one_line (tight_join h.right.tight) h.right.join_ne_nil h.right.join_one_line hinner
    (not_dashes_sides h.left h.dashes) (node?_of_sides h.left.ne_nil h.cuts _)

end Edit

end LineDiagram
