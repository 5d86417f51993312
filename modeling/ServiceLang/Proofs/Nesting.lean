import ServiceLang.Proofs.RoundTrip
import ServiceLang.Proofs.SpanningDefinition
import ServiceLang.Proofs.Tiling

set_option autoImplicit false

/-! The spans of every tree nest, whatever is wrong with its source. -/

namespace ServiceLang

/-! ### The tokens of a source -/

namespace Slot

/-- The slots of a token list up to its end of file. -/
theorem ofTokens_of_end (pending : List Token) {earlier : List Token} {last : Token}
    (notEnd : ∀ token ∈ earlier, token.kind ≠ .endOfFile) (isEnd : last.kind = .endOfFile) :
    ((ofTokens pending (earlier ++ [last])).1.map Slot.token).Sublist earlier ∧
      (ofTokens pending (earlier ++ [last])).2.token = last ∧
      ∀ slot ∈ (ofTokens pending (earlier ++ [last])).1 ++
        [(ofTokens pending (earlier ++ [last])).2],
        ∀ comment ∈ slot.comments, comment ∈ pending ++ earlier := by
  induction earlier generalizing pending with
  | nil =>
      have cut : ofTokens pending ([] ++ [last]) = ([], ⟨last, pending⟩) := by
        rw [List.nil_append, ofTokens.eq_def]
        simp only [isEnd]
      rw [cut]
      refine ⟨.slnil, rfl, ?_⟩
      simp
  | cons token earlier ih =>
      have here := notEnd token List.mem_cons_self
      have rest (pending : List Token) :=
        ih pending fun other member => notEnd other (List.mem_cons_of_mem _ member)
      rw [List.cons_append, ofTokens.eq_def]
      dsimp only
      split
      · contradiction
      · obtain ⟨kept, isLast, comments⟩ := rest (pending ++ [token])
        refine ⟨kept.cons token, isLast, fun slot member comment isComment => ?_⟩
        simpa using comments slot member comment isComment
      · obtain ⟨kept, isLast, comments⟩ := rest pending
        refine ⟨kept.cons token, isLast, fun slot member comment isComment => ?_⟩
        have found := comments slot member comment isComment
        simp only [List.mem_append, List.mem_cons] at found ⊢
        exact found.imp_right .inr
      · obtain ⟨kept, isLast, comments⟩ := rest []
        refine ⟨kept.cons_cons token, isLast, fun slot member comment isComment => ?_⟩
        rw [List.cons_append] at member
        simp only [List.mem_append, List.mem_cons]
        rcases List.mem_cons.mp member with rfl | member
        · exact .inl isComment
        · have found := comments slot member comment isComment
          exact .inr (.inr (by simpa using found))

/-- What is read of a token list that ends with an end of file are some of its tokens. -/
theorem buffer_sublist {earlier : List Token} {last : Token}
    (notEnd : ∀ token ∈ earlier, token.kind ≠ .endOfFile) (isEnd : last.kind = .endOfFile) :
    ((buffer (earlier ++ [last])).map Slot.token).Sublist (earlier ++ [last]) := by
  obtain ⟨kept, isLast, -⟩ := ofTokens_of_end [] notEnd isEnd
  rw [buffer, List.map_append, List.map_cons, isLast]
  exact kept.append (.refl _)

end Slot

/-- The tokens of a source stand one behind the other. The last one is the end of file, and only
it may be empty. -/
theorem exists_end_of_tokenize (source : String) :
    ∃ earlier last, (tokenize source).1 = earlier ++ [last] ∧ last.kind = .endOfFile ∧
      (∀ token ∈ earlier, token.kind ≠ .endOfFile ∧ token.span.start < token.span.stop) ∧
      (earlier ++ [last]).Pairwise fun left right => left.span.stop ≤ right.span.start := by
  obtain ⟨mark, -, isBehind⟩ := TokenStream.isBehind_ofSource source
  have cut := isBehind.tokens.1
  obtain ⟨earlier, last, whole, ⟨isEnd, -⟩, inner⟩ := cut.ends
  refine ⟨earlier, last, whole, isEnd, fun token member => ?_, whole ▸ cut.ordered.imp And.right⟩
  exact ⟨(inner token member).1, (inner token member).2.2⟩

/-- The tokens of a source stand one behind the other, and only the end of file is empty.
Whatever fits all of them fits what is merged from them, if it is kept by merging. -/
theorem exists_layout_fitting (source : String) (fits : Span → Prop)
    (each : ∀ token ∈ (tokenize source).1, fits token.span)
    (merge : ∀ left right, fits left → fits right → fits (left.merge right)) :
    ∃ layout : Layout, layout.buffer = Slot.buffer (tokenize source).1 ∧ layout.fits = fits := by
  obtain ⟨mark, -, isBehind⟩ := TokenStream.isBehind_ofSource source
  have cut := isBehind.tokens.1
  obtain ⟨earlier, last, whole, ⟨isEnd, -, start, stop⟩, inner⟩ := cut.ends
  have proper (token : Token) (member : token ∈ earlier) := (inner token member).2.2
  obtain ⟨kept, isLast, comments⟩ :=
    Slot.ofTokens_of_end [] (fun token member => (inner token member).1) isEnd
  have ordered := cut.ordered.imp And.right
  have tokens : (tokenize source).1 = earlier ++ [last] := whole
  rw [tokens] at each ⊢
  rw [whole] at ordered
  have tokensKept := Slot.buffer_sublist (fun token member => (inner token member).1) isEnd
  refine ⟨⟨Slot.buffer (earlier ++ [last]), fits, ?_, ?_, ?_, ?_, ?_, merge⟩, rfl, rfl⟩
  · exact List.pairwise_map.mp (ordered.sublist tokensKept)
  · intro index inside
    rw [Slot.buffer, List.length_append, List.length_singleton] at inside
    have here : index < (Slot.ofTokens [] (earlier ++ [last])).1.length := by omega
    simp only [Slot.buffer, List.getElem_append_left here]
    exact proper _ (kept.subset (List.mem_map_of_mem (List.getElem_mem here)))
  · intro slot member
    rcases List.mem_append.mp member with member | member
    · exact Nat.le_of_lt (proper _ (kept.subset (List.mem_map_of_mem member)))
    · rw [List.mem_singleton.mp member, isLast]
      omega
  · intro slot member comment isComment
    have inside : comment ∈ earlier := by simpa using comments slot member comment isComment
    exact ⟨proper comment inside, each comment (List.mem_append_left _ inside)⟩
  · intro slot member
    exact each slot.token (tokensKept.subset (List.mem_map_of_mem member))

/-- The tokens of a source stand one behind the other, and only the end of file is empty. -/
theorem exists_layout (source : String) :
    ∃ layout : Layout, layout.buffer = Slot.buffer (tokenize source).1 := by
  obtain ⟨layout, same, -⟩ :=
    exists_layout_fitting source (fun _ => True) (fun _ _ => trivial) fun _ _ _ _ => trivial
  exact ⟨layout, same⟩

/-- A parse stands before the first of its tokens. -/
theorem Layout.stands_of_cursor {layout : Layout} {tokens : List Token} {parser : Parser}
    (same : layout.buffer = Slot.buffer tokens) (start : parser.cursor = .ofTokens tokens) :
    layout.Stands 0 parser := by
  constructor
  · rw [start, same]
    exact Cursor.At.ofTokens _
  · rw [start]
    apply layout.comments
    rw [same]
    rw [Slot.buffer]
    cases (Slot.ofTokens [] tokens).1 with
    | nil => exact List.mem_singleton_self _
    | cons slot slots => exact List.mem_cons_self

theorem Layout.stands_ofSource {layout : Layout} {source : String}
    (same : layout.buffer = Slot.buffer (tokenize source).1) (options : Options) :
    layout.Stands 0 (.ofSource source options) :=
  stands_of_cursor same (Parser.cursor_ofSource source options)

/-! ### Nesting -/

/-- Nodes one behind the other lie within what goes from the first of their tokens to the
last. -/
theorem Layout.Row.contains_of_mem {layout : Layout} {first behind : Nat} {row : List Outline}
    {whole : Span} (isRow : layout.Row first behind row) (inside : behind < layout.buffer.length)
    (starts : whole.start ≤ layout.startAt first) (stops : layout.stopAt behind ≤ whole.stop)
    {outline : Outline} (member : outline ∈ row) : whole.contains outline.span = true := by
  obtain ⟨start, stop, before, upTo, covers⟩ := isRow.covers_of_mem member
  obtain ⟨less, insideChild, isStart, isStop⟩ := covers.placed
  have fromFirst := layout.startAt_mono first start before (by omega)
  have toLast := layout.stopAt_le_startAt (stop - 1) behind (by omega) inside
  have last := layout.startAt_le_stopAt behind inside
  rw [Span.contains, Bool.and_eq_true, decide_eq_true_eq, decide_eq_true_eq]
  omega

/-- For every source and all options, the spans of the tree nest: none ends before it
starts, no node but the whole source and the mark of an assumed token is empty, every node
but a comment lies within its parent, and the nodes of one list stand one behind the other. -/
theorem parseWith_nests (source : String) (options : Options) (role : String) :
    ((parseWith source options).1.outline role).Nests := by
  obtain ⟨layout, same⟩ := exists_layout source
  obtain ⟨unit, later, ran⟩ :=
    Grammar.sourceUnit_succeeds options.maxDepth (.ofSource source options)
  rw [parseWith_of_ok ran]
  obtain ⟨behind, -, stands, isRow, starts, stops⟩ :=
    Grammar.sourceUnit_spans options.maxDepth (layout.stands_ofSource same options) ran
  have inside := stands.place.inside
  have whole := layout.startAt_mono 0 behind (Nat.zero_le _) inside
  have last := layout.startAt_le_stopAt behind inside
  have gathers := Layout.Gathers.of_row isRow inside
  -- Below the source the rules have laid the nodes out; the source itself goes over all tokens.
  apply Outline.Nests.node _ (fun _ => .inl rfl) _ gathers.apart gathers.nests
  · change unit.span.start ≤ unit.span.stop
    omega
  · intro child member _
    exact isRow.contains_of_mem inside starts stops member

end ServiceLang
