import ServiceLang.Proofs.MarginsDefinition
import ServiceLang.Proofs.Positions

set_option autoImplicit false

/-! The limit on nesting. A parse that has not reported it would have come to the same with
any higher limit, as long as looking ahead has met no more maps inside each other than it
allows: where it does, it takes what stands there for something else. -/

namespace ServiceLang

open Step

/-! ### Maps inside each other -/

/-- The maps that open one right inside the other at the front of a list of kinds. -/
def openMaps : List Kind → Nat
  | .keyword .mapKw :: .symbol .less :: rest => openMaps rest + 1
  | _ => 0

/-- The most maps that open one right inside the other anywhere in a list of kinds. -/
def mostOpenMaps : List Kind → Nat
  | [] => 0
  | kind :: rest => max (openMaps (kind :: rest)) (mostOpenMaps rest)

theorem openMaps_le_most {kinds suffix : List Kind} (isSuffix : suffix <:+ kinds) :
    openMaps suffix ≤ mostOpenMaps kinds := by
  induction kinds with
  | nil =>
      rw [List.suffix_nil.mp isSuffix]
      exact Nat.le_refl _
  | cons kind rest ih =>
      rcases List.suffix_cons_iff.mp isSuffix with rfl | inside
      · exact Nat.le_max_left _ _
      · exact Nat.le_trans (ih inside) (Nat.le_max_right _ _)

theorem skipBase?_congr {inner other : List Kind → Option (List Kind)} {kinds : List Kind}
    (same : ∀ rest, kinds = .keyword .mapKw :: .symbol .less :: rest → inner rest = other rest) :
    skipBase? inner kinds = skipBase? other kinds := by
  unfold skipBase?
  split
  · rw [same _ rfl]
  all_goals rfl

/-- More levels make no difference to looking ahead if the maps do not use up those that there
are. -/
theorem skipType?_of_openMaps (more : Nat) {room : Nat} {kinds : List Kind}
    (few : openMaps kinds < room) : skipType? (room + more) kinds = skipType? room kinds := by
  induction room generalizing kinds with
  | zero => exact absurd few (Nat.not_lt_zero _)
  | succ room ih =>
      rw [Nat.succ_add, skipType?, skipType?]
      refine congrArg _ (skipBase?_congr fun rest isMap => ih ?_)
      rw [isMap, openMaps] at few
      exact Nat.lt_of_succ_lt_succ few

/-! ### Tokens in order -/

theorem Slot.row_sublist (pending : List Token) {tokens : List Token}
    (ends : ∃ token ∈ tokens, token.kind = .endOfFile) :
    ((ofTokens pending tokens).1.map Slot.token ++
      [(ofTokens pending tokens).2.token]).Sublist tokens := by
  have further {token : Token} {rest : List Token} (notEnd : token.kind ≠ .endOfFile)
      (ends : ∃ found ∈ token :: rest, found.kind = .endOfFile) :
      ∃ found ∈ rest, found.kind = .endOfFile := by
    obtain ⟨found, member, isEnd⟩ := ends
    rcases List.mem_cons.mp member with rfl | behind
    · exact absurd isEnd notEnd
    · exact ⟨found, behind, isEnd⟩
  fun_induction Slot.ofTokens pending tokens with
  | case1 => obtain ⟨_, member, _⟩ := ends; cases member
  | case2 pending token rest isEnd => exact (List.nil_sublist rest).cons_cons token
  | case3 pending token rest isComment ih =>
      exact (ih (further (by simp [isComment]) ends)).cons token
  | case4 pending token rest isInvalid ih =>
      exact (ih (further (by simp [isInvalid]) ends)).cons token
  | case5 pending token rest slots final cut notEnd notComment notInvalid ih =>
      have kept := ih (further notEnd ends)
      rw [cut] at kept
      exact kept.cons_cons token

namespace Cursor

theorem getElem?_row (cursor : Cursor) {count : Nat} (inside : count ≤ cursor.remaining) :
    (cursor.ahead.map Slot.token ++ [cursor.final.token])[count]? =
      some (cursor.peekNth count) := by
  rcases Nat.lt_or_eq_of_le inside with less | rfl
  · rw [List.getElem?_append_left (by rwa [List.length_map]), List.getElem?_map, peekNth,
      List.getElem?_eq_getElem less]
    rfl
  · rw [List.getElem?_append_right (by rw [List.length_map]; exact Nat.le_refl _),
      List.length_map, peekNth, remaining, Nat.sub_self,
      List.getElem?_eq_none (Nat.le_refl cursor.ahead.length)]
    rfl

/-- Tokens that start one behind the other are read in that order. -/
theorem rising_ofTokens {tokens : List Token} (starts : StartsIncrease tokens)
    (ends : ∃ token ∈ tokens, token.kind = .endOfFile) : (ofTokens tokens).Rising := by
  have row := starts.sublist (Slot.row_sublist [] ends)
  intro first second less inside
  have earlier := (ofTokens tokens).getElem?_row (Nat.le_trans (Nat.le_of_lt less) inside)
  have later := (ofTokens tokens).getElem?_row inside
  obtain ⟨within, isEarlier⟩ := List.getElem?_eq_some_iff.mp earlier
  obtain ⟨within', isLater⟩ := List.getElem?_eq_some_iff.mp later
  rw [← isEarlier, ← isLater]
  exact List.pairwise_iff_getElem.mp row first second within within' less

end Cursor

namespace Margins

variable {margins : Margins}

theorem Kept.eq_of_ends {entries others : List Diagnostic} (kept : margins.Kept entries others)
    (ends : margins.otherEnds = margins.ends) : others = entries := by
  have same {diagnostic other : Diagnostic} (tells : margins.Says diagnostic other) :
      other = diagnostic := by
    have spans : other.span = diagnostic.span := by
      rcases tells.spans with ⟨same, -⟩ | ⟨here, there⟩
      · exact same
      · rw [here, there, ends]
    have unplaced := tells.same
    obtain ⟨problem, severity, span, message, recovery⟩ := diagnostic
    obtain ⟨problem', severity', span', message', recovery'⟩ := other
    simp only [Diagnostic.unplaced, Diagnostic.mk.injEq] at unplaced spans
    obtain ⟨rfl, rfl, -, rfl, rfl⟩ := unplaced
    rw [spans]
  induction kept with
  | nil => rfl
  | both kept tells isNew otherIsNew ih => rw [ih, same tells]
  | first kept tells isNew repeated ih =>
      obtain ⟨entry, member, start⟩ := repeated
      rw [same tells] at start
      exact absurd start (isNew entry (ih ▸ member))

theorem places_self {tokens : List Token} (starts : StartsIncrease tokens)
    (ends : ∃ token ∈ tokens, token.kind = .endOfFile)
    (some : (Cursor.ofTokens tokens).ahead ≠ []) {depth extra : Nat}
    (few : mostOpenMaps (Cursor.ofTokens tokens).kinds ≤ depth) :
    (⟨depth, extra, (Cursor.ofTokens tokens).final.token.span,
      (Cursor.ofTokens tokens).final.token.span⟩ : Margins).Places (.ofTokens tokens)
        (.ofTokens tokens) := by
  refine ⟨rfl, rfl, rfl, rfl, rfl, rfl, fun _ => some, Cursor.rising_ofTokens starts ends, ?_⟩
  intro kinds isSuffix
  rw [Nat.add_right_comm]
  have fewAhead := Nat.le_trans (openMaps_le_most isSuffix) few
  exact skipType?_of_openMaps extra (Nat.lt_succ_of_le fewAhead)

end Margins

/-- What a list of tokens gives, from the parts of the source. -/
theorem parseTokens_of_parts {tokens : List Token} {options : Options}
    {parts : Option PackageDecl × List Directive × List Definition} {later : Parser}
    (ran : Grammar.sourceParts options.maxDepth (.ofTokens tokens [] options) = .ok parts later) :
    parseTokens tokens options = (⟨parts.1, parts.2.1, parts.2.2,
      (Cursor.ofTokens tokens).peek.span.merge later.cursor.peek.span⟩, later.diagnostics) :=
  parseTokens_of_ok (Grammar.sourceUnit_of_parts ran)

theorem parseTokens_of_empty {tokens : List Token} (options : Options)
    (empty : (Cursor.ofTokens tokens).ahead = []) :
    parseTokens tokens options = (⟨none, [], [],
      (Cursor.ofTokens tokens).peek.span.merge (Cursor.ofTokens tokens).peek.span⟩, .empty) := by
  have atEnd : (Parser.ofTokens tokens [] options).cursor.peek.kind = .endOfFile :=
    (Cursor.ofTokens tokens).peek_isEnd_iff.mpr empty
  exact parseTokens_of_parts (Grammar.sourceParts_of_end atEnd)

/-- A parse that has been refused a level behind its last part reports it. -/
theorem not_hasRefusal_of_parseTokens {tokens : List Token} {options : Options}
    (allowed : ∀ entry ∈ (parseTokens tokens options).2.entries,
      entry.problem ≠ .nestingTooDeep) :
    ¬(after (Grammar.sourceParts options.maxDepth) (.ofTokens tokens [] options)).HasRefusal := by
  rintro ⟨entry, member, refusal⟩
  obtain ⟨parts, later, ran⟩ :=
    Grammar.sourceParts_succeeds options.maxDepth (.ofTokens tokens [] options)
  rw [after_of_ok ran] at member
  rw [parseTokens_of_parts ran] at allowed
  exact allowed entry member refusal

/-- A limit on nesting that is not reported has had no effect: any higher one gives the same
tree and the same diagnostics. The tokens start in the order in which they are read, up to an
end of file, the number of diagnostics is not limited, the limit allows for one level, and no
more maps open one right inside the other than it allows. -/
theorem parseTokens_of_deeper (tokens : List Token) (options : Options) (depth : Nat)
    (noLimit : options.maxErrors = none) (some : 0 < options.maxDepth)
    (deeper : options.maxDepth ≤ depth) (starts : StartsIncrease tokens)
    (ends : ∃ token ∈ tokens, token.kind = .endOfFile)
    (few : mostOpenMaps (Cursor.ofTokens tokens).kinds ≤ options.maxDepth)
    (allowed : ∀ entry ∈ (parseTokens tokens options).2.entries,
      entry.problem ≠ .nestingTooDeep) :
    parseTokens tokens { options with maxDepth := depth } = parseTokens tokens options := by
  obtain ⟨extra, rfl⟩ := Nat.exists_eq_add_of_le deeper
  -- Twins stand before a token at the start, which an empty source does not have.
  by_cases empty : (Cursor.ofTokens tokens).ahead = []
  · rw [parseTokens_of_empty _ empty, parseTokens_of_empty _ empty]
  have twins : Margins.Twins _ (.ofTokens tokens [] options)
      (.ofTokens tokens [] { options with maxDepth := options.maxDepth + extra }) :=
    .ofTokens (Margins.places_self starts ends empty few) noLimit noLimit rfl rfl rfl
  obtain ⟨parts, later, last, ran, otherRan, twins, atEnd⟩ :=
    Grammar.sourceParts_of_twins twins (fun _ member => absurd member List.not_mem_nil)
      (.inr (Nat.ne_of_gt some)) fun _ => not_hasRefusal_of_parseTokens allowed
  have spans : last.cursor.peek.span = later.cursor.peek.span := by
    rcases twins.places.spans_peek with ⟨same, -⟩ | ⟨here, there⟩
    · exact same
    · exact there.trans here.symm
  have reports : last.diagnostics.entries = later.diagnostics.entries :=
    twins.records.kept.eq_of_ends rfl
  have deeperRead := @parseTokens_of_parts tokens
    { options with maxDepth := options.maxDepth + extra } parts last otherRan
  have read := parseTokens_of_parts ran
  have diagnostics : last.diagnostics = later.diagnostics := congrArg Report.mk reports
  rw [spans, diagnostics] at deeperRead
  exact deeperRead.trans read.symm

/-- `map<int> x;`, and its end. -/
def mapTokens : List Token :=
  [⟨.keyword .mapKw, "map", ⟨0, 3, 1, 1⟩⟩, ⟨.symbol .less, "<", ⟨3, 4, 1, 4⟩⟩,
    ⟨.keyword .intKw, "int", ⟨4, 7, 1, 5⟩⟩, ⟨.symbol .greater, ">", ⟨7, 8, 1, 8⟩⟩,
    ⟨.identifier, "x", ⟨9, 10, 1, 10⟩⟩, ⟨.symbol .semicolon, ";", ⟨10, 11, 1, 11⟩⟩,
    ⟨.endOfFile, "", ⟨11, 11, 1, 12⟩⟩]

theorem parseTokens_of_deeper_mapTokens :
    (parseTokens mapTokens { maxDepth := 2 }).2.entries = [] ∧
    parseTokens mapTokens { maxDepth := 64 } = parseTokens mapTokens { maxDepth := 2 } := by
  refine ⟨by decide +kernel, ?_⟩
  exact parseTokens_of_deeper mapTokens { maxDepth := 2 } 64 rfl (by decide) (by decide)
    (by rw [StartsIncrease]; decide) ⟨_, List.mem_of_getLast? rfl, rfl⟩ (by decide +kernel)
    (by decide +kernel)

/-- `map<map<int>> x;`, and its end. -/
def nestedMapTokens : List Token :=
  [⟨.keyword .mapKw, "map", ⟨0, 3, 1, 1⟩⟩, ⟨.symbol .less, "<", ⟨3, 4, 1, 4⟩⟩,
    ⟨.keyword .mapKw, "map", ⟨4, 7, 1, 5⟩⟩, ⟨.symbol .less, "<", ⟨7, 8, 1, 8⟩⟩,
    ⟨.keyword .intKw, "int", ⟨8, 11, 1, 9⟩⟩, ⟨.symbol .greater, ">", ⟨11, 12, 1, 12⟩⟩,
    ⟨.symbol .greater, ">", ⟨12, 13, 1, 13⟩⟩, ⟨.identifier, "x", ⟨14, 15, 1, 15⟩⟩,
    ⟨.symbol .semicolon, ";", ⟨15, 16, 1, 16⟩⟩, ⟨.endOfFile, "", ⟨16, 16, 1, 17⟩⟩]

/-- More maps inside each other than the limit allows are not taken for a type, so that a limit
has an effect that it is not reported. -/
theorem deeper_ne_nestedMapTokens :
    (∀ entry ∈ (parseTokens nestedMapTokens { maxDepth := 1 }).2.entries,
      entry.problem ≠ .nestingTooDeep) ∧
    (parseTokens nestedMapTokens { maxDepth := 3 }).2 ≠
      (parseTokens nestedMapTokens { maxDepth := 1 }).2 := by
  decide +kernel

/-- Under a limit of no level, the refusal of the annotation in `import a @b{} native function
f();` is dropped: the semicolon in front of it is missing already. -/
example :
    let tokens : List Token :=
      [⟨.keyword .importKw, "import", ⟨0, 6, 1, 1⟩⟩, ⟨.identifier, "a", ⟨7, 8, 1, 8⟩⟩,
        ⟨.symbol .atSign, "@", ⟨9, 10, 1, 10⟩⟩, ⟨.identifier, "b", ⟨10, 11, 1, 11⟩⟩,
        ⟨.symbol .leftBrace, "\x7b", ⟨11, 12, 1, 12⟩⟩, ⟨.symbol .rightBrace, "\x7d", ⟨12, 13, 1, 13⟩⟩,
        ⟨.keyword .nativeKw, "native", ⟨14, 20, 1, 15⟩⟩,
        ⟨.keyword .functionKw, "function", ⟨21, 29, 1, 22⟩⟩, ⟨.identifier, "f", ⟨30, 31, 1, 31⟩⟩,
        ⟨.symbol .leftParen, "(", ⟨31, 32, 1, 32⟩⟩, ⟨.symbol .rightParen, ")", ⟨32, 33, 1, 33⟩⟩,
        ⟨.symbol .semicolon, ";", ⟨33, 34, 1, 34⟩⟩, ⟨.endOfFile, "", ⟨34, 34, 1, 35⟩⟩]
    (parseTokens tokens { maxDepth := 0 }).2.entries.map (·.problem) = [.expectedToken] := by
  decide +kernel

end ServiceLang
