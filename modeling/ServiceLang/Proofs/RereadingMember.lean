import ServiceLang.Proofs.OrderlyDefinition
import ServiceLang.Proofs.RereadingItems

set_option autoImplicit false

/-! The rules for annotations, signatures and members read again what they have read.
Members are read again with all variables in front. -/

namespace ServiceLang.Grammar

open Step
open Word (listed inParens inBraces inBrackets inAngles behind)

variable {calm : Parser → Prop}

/-! ### Annotations -/

section Annotations

variable [Calm calm]

theorem unsignedLiteral_reads :
    Reads calm unsignedLiteral Literal.erased Literal.written := by
  refine .token (fun token => (literalValue? token).map fun value => ⟨value, false, token.span⟩)
    (fun token => (literalValue? token).map fun value => ⟨value, false, token.span⟩) ?_ ?_ ?_
  · intro parser literal later ran
    rw [unsignedLiteral, look_bind (peek_eq parser)] at ran
    by_cases atEnd : parser.cursor.peek.kind = .endOfFile
    · rw [if_pos atEnd] at ran
      exact absurd ran fail_ne_ok
    · rw [if_neg atEnd] at ran
      obtain ⟨found, between, ranLiteral, ran⟩ := bind_ok ran
      obtain ⟨value, meant, rfl, rfl⟩ := literalOf_ok ranLiteral
      rw [bind_of_ok (advance_eq between)] at ran
      cases ran
      exact ⟨congrArg (Option.map _) meant, rfl⟩
  · intro parser literal found
    obtain ⟨value, meant, rfl⟩ := Option.map_eq_some_iff.mp found
    rw [unsignedLiteral, look_bind (peek_eq parser), if_neg (word_of_literalValue? meant).1.1,
      bind_of_ok (literalOf_eq meant parser), bind_of_ok (advance_eq parser)]
    rfl
  · intro token literal found
    obtain ⟨value, meant, rfl⟩ := Option.map_eq_some_iff.mp found
    obtain ⟨plain, word, again⟩ := word_of_literalValue? meant
    refine ⟨plain, ?_, fun other same => ⟨_, congrArg (Option.map _) (again other same), rfl⟩⟩
    rw [← word]
    rfl

theorem simpleLiteral_reads : Reads calm simpleLiteral Literal.erased Literal.written := by
  refine .choose (fun parser => parser.cursor.peek.kind == .symbol .minus &&
      (parser.cursor.peekNth 1).kind.isNumber)
    (fun parser => look_bind (startsNegativeLiteral_eq parser))
    (fun parser => look_bind (startsNegativeLiteral_eq parser)) ?_ negativeLiteral_reads
    unsignedLiteral_reads
  intro parser value later added other rest _ _ _ _ _ _ _ agree
  exact startsNegativeLiteral_again agree

section Values

variable {value : Step AnnotationValue} (orderly : Orderly (fun _ => True) value)
  (reads : Reads calm value AnnotationValue.erased AnnotationValue.written)

include orderly reads

omit orderly in
theorem annotationEntry_reads :
    Reads calm (annotationEntry value) Attribute.erased Attribute.written :=
  .bind .identifier fun key _ same => .bind (.symbolLooking _) fun _ _ _ =>
    .bind reads fun value _ sameValue => .pure (by simp [Attribute.written])
      (by simp only [Attribute.erased, same, sameValue])

theorem attachmentWith_reads : Rereads calm True Agree (fun _ => Anything) []
    (attachmentWith value) (attachmentWith value) Attachment.erased Attachment.written := by
  refine .bind (.symbol _ rfl) fun _ _ _ => .bind nameReference_reads fun name _ same =>
    .bindAgree (.symbol _ rfl) fun _ _ _ => ?_
  refine .bind (.closedList rfl (annotationEntry_orderly orderly) (annotationEntry_reads reads))
    fun found _ sameFound => .pure ?_ ?_
  · simp [Attribute.writtens_eq_map, inBraces]
  · simp only [Attachment.erased, Attribute.allErased_eq_map, same, sameFound]

theorem annotationArray_reads : Reads calm (annotationArray value) AnnotationValue.erased
    AnnotationValue.written := by
  refine .bind (.symbolLooking _) fun _ _ _ => .bind (.closedList rfl orderly reads)
    fun found _ same => .pure ?_ ?_
  · simp [AnnotationValue.writtens_eq_map, inBrackets]
  · simp only [AnnotationValue.erased, AnnotationValue.allErased_eq_map, same]

end Values

theorem literalForm_reads : Reads calm (do return .literal (← simpleLiteral))
    AnnotationValue.erased AnnotationValue.written :=
  simpleLiteral_reads.mapped (fun _ => by simp)
    fun _ _ same => by simp only [AnnotationValue.erased, same]

theorem annotationValue_reads (room : Nat) :
    Reads calm (annotationValue room) AnnotationValue.erased AnnotationValue.written := by
  induction room with
  | zero =>
      refine .bind .current fun kind _ same => ?_
      cases same
      split
      · exact .tooDeep
      · exact .tooDeep
      · exact literalForm_reads
  | succ room ih =>
      have orderly : Orderly (fun _ => True) (annotationValue room) := annotationValue_orderly room
      refine .bind .current fun kind _ same => ?_
      cases same
      split
      · refine ((attachmentWith_reads orderly ih).strengthenBehind fun _ _ _ _ => trivial).mapped
          (fun _ => by simp) fun _ _ same => ?_
        simp only [AnnotationValue.erased, same]
      · exact annotationArray_reads orderly ih
      · exact literalForm_reads

theorem attachment_reads (room : Nat) : Rereads calm True Agree (fun _ => Anything) []
    (attachment room) (attachment room) Attachment.erased Attachment.written := by
  cases room with
  | zero => exact .tooDeep
  | succ room => exact attachmentWith_reads (annotationValue_orderly room) (annotationValue_reads room)

theorem attachments_reads (room : Nat) : Reads calm (attachments room)
    (List.map Attachment.erased) (fun found => found.flatMap Attachment.written) :=
  .whileAt (by simp) (advancing_of_turn (.nextAt (attachment_eager room)))
    ((attachment_reads room).strengthenBehind fun _ _ _ _ => trivial)

end Annotations

/-! ### Signatures -/

section Signatures

variable [Calm calm] (room : Nat)

theorem param_reads : Reads calm (param room) Param.erased Param.written :=
  .bind .peek fun _ _ _ => .bind (attachments_reads room) fun found _ sameFound =>
    .bind (typeName_reads room) fun type _ same => .bind .identifier fun name _ sameName =>
      .pure (by simp [Param.written]) (by simp only [Param.erased, sameFound, same, sameName])

theorem params_reads : Rereads calm True Agree (fun _ => Anything) [] (params room)
    (params room) (List.map Param.erased)
    (fun found => inParens (listed (found.map Param.written))) :=
  .bind (.symbol _ rfl) fun _ _ _ =>
    .bind (.closedList rfl (param_orderly room) (param_reads room)) fun found _ same =>
      .pure (by simp [inParens]) same

def namesResults (parser : Parser) : Bool :=
  parser.cursor.peek.kind == .symbol .atSign ||
    startsVarDef (parser.options.maxDepth + 1) parser.cursor.kinds

theorem results_eq (parser : Parser) : results room parser =
    (if namesResults parser then do return .named (← commaSeparated (param room))
      else do return .types (← commaSeparated (typeName room)) : Step Returns) parser := by
  have seen : resultsAreNamed parser = .ok (namesResults parser) parser := by
    rw [resultsAreNamed, look_bind (check_eq parser _), namesResults]
    cases parser.cursor.peek.kind == .symbol .atSign with
    | true => rfl
    | false => exact isVarDef_eq parser
  exact look_bind seen

/-- Looking for a name behind the first result does not go beyond the parenthesis that
ends the results. -/
theorem results_reads : Rereads calm True Agree
    (fun _ => BothStart (.symbol .rightParen)) [] (results room) (results room) Returns.erased
    Returns.written := by
  have ended (left right : List Kind) (both : BothStart (.symbol .rightParen) left right) :
      Agree left right :=
    .of_bothStart rfl both
  refine .choose namesResults (results_eq room) (results_eq room) ?_ ?_ ?_
  · intro parser value later added other rest _ _ passed ahead quiet calmOther follows agree
    obtain ⟨left, leftIs⟩ := List.head?_eq_some_iff.mp follows.1
    obtain ⟨right, rightIs⟩ := List.head?_eq_some_iff.mp follows.2
    have here : parser.cursor.kinds =
        (added.map Word.kind ++ [.symbol .rightParen]) ++ left := by
      rw [parser.kinds_eq, passed trivial, List.map_append, ← later.kinds_eq, leftIs,
        List.append_cons]
    have there : other.cursor.kinds =
        (added.map Word.kind ++ [.symbol .rightParen]) ++ right := by
      rw [other.kinds_eq, ahead, List.map_append, rightIs, List.append_cons]
    have ends : (Kind.symbol .rightParen).endsType := .inl rfl
    rw [namesResults, namesResults, kind_peek_of_head? agree.1,
      startsVarDef_again ends (by simp) here there quiet calmOther]
  · refine .mapped ((Rereads.commaSeparated (param_orderly room)
      (param_reads room)).strengthenBehind fun _ => ended) (fun _ => rfl) fun _ _ same => ?_
    simp only [Returns.erased, same]
  · refine .mapped ((Rereads.commaSeparated (typeName_eager room).orderly
      (typeName_reads room)).strengthenBehind fun _ => ended) (fun _ => rfl) fun _ _ same => ?_
    simp only [Returns.erased, same]

theorem returns_reads : Rereads calm True Agree (fun _ => Anything) [] (returns room)
    (returns room) Returns.erased (fun found => inParens found.written) :=
  .bind (.symbol _ rfl) fun _ _ _ => .bind (results_reads room) fun found _ same =>
    .bind (.symbolBoth _) fun _ _ _ => .pure (by simp [inParens]) same

theorem signature_reads : Reads calm (signature room) Signature.erased Signature.written := by
  refine .bind .identifier fun name _ same => .bindClosed (params_reads room)
    fun found _ sameParams => .bindAgree (.ifAt (by simp) (fun _ _ => id)
      ((returns_reads room).strengthenBehind fun _ _ _ _ => trivial))
    fun returns _ sameReturns => .spanned (fun _ => ?_) fun _ _ => ?_
  · simp [Signature.written]
  · simp only [Signature.erased, same, sameParams, sameReturns]

end Signatures

/-! ### Collecting members -/

section Members

variable [Quiet calm] {α ε η : Type} {member : Step α}

omit [Quiet calm] in
theorem endsMembers_again {parser other : Parser}
    (agree : Agree parser.cursor.kinds other.cursor.kinds) :
    endsMembers other.cursor.peek.kind (other.cursor.peekNth 1).kind =
      endsMembers parser.cursor.peek.kind (parser.cursor.peekNth 1).kind := by
  rw [kind_peek_of_head? agree.1]
  by_cases native : parser.cursor.peek.kind = .keyword .nativeKw
  · rw [Rereads.looksAlike rfl agree native]
  · simp [endsMembers, beq_eq_false_iff_ne.mpr native]

omit [Quiet calm] in
theorem nextMember_eq (found : List α) (parser : Parser) : nextMember member found parser =
    (if endsMembers parser.cursor.peek.kind (parser.cursor.peekNth 1).kind then
        pure (.done found)
      else do
        return .yield (← orRecover .member (do return found ++ [← member]) (fun _ => found)) :
      Step (ForInStep (List α))) parser := by
  rw [nextMember, look_bind (current_eq parser), look_bind (kindNth_eq parser 1)]

theorem nextMember_ok (eager : Eager (fun _ => True) member) {found : List α} {parser later : Parser}
    {decision : ForInStep (List α)} (ran : nextMember member found parser = .ok decision later)
    (quiet : calm later) :
    (decision = .done found ∧ later = parser) ∨
      ∃ item, decision = .yield (found ++ [item]) ∧ member parser = .ok item later ∧
        endsMembers parser.cursor.peek.kind (parser.cursor.peekNth 1).kind = false := by
  rw [nextMember_eq] at ran
  split at ran
  · cases ran
    exact .inl ⟨rfl, rfl⟩
  · rename_i inside
    obtain ⟨items, between, ranItems, ran⟩ := bind_ok ran
    cases ran
    have part := ok_of_orRecover (eager.orderly.bind fun _ => .pure _) ranItems quiet
    obtain ⟨item, last, ranItem, part⟩ := bind_ok part
    cases part
    exact .inr ⟨item, rfl, ranItem, by simpa using inside⟩

omit [Quiet calm] in
theorem nextMember_of_ok {found : List α} {parser later : Parser} {item : α}
    (inside : endsMembers parser.cursor.peek.kind (parser.cursor.peekNth 1).kind = false)
    (ran : member parser = .ok item later) :
    nextMember member found parser = .ok (.yield (found ++ [item])) later := by
  have part : (do return found ++ [← member] : Step (List α)) parser = .ok (found ++ [item]) later :=
    bind_of_ok ran
  rw [nextMember_eq, if_neg (by simp [inside])]
  exact bind_of_ok (orRecover_of_ok part)

def memberPiece (erased : α → η) (written : α → List Word) (item : α) :
    List Word × (List η → List η) :=
  (written item, fun kept => kept ++ [erased item])

/-- An order in which members can be written, and what is kept of them in any order. -/
structure Arranges (arrange : List α → List α) (erased : α → η) (kept : List α → ε) : Prop where
  perm : ∀ found, (arrange found).Perm found
  keeps : ∀ found others, others.map erased = (arrange found).map erased →
    kept others = kept found

variable {erased : α → η} {written : α → List Word}

omit [Quiet calm] in
theorem foldl_memberPieces (items : List α) (start : List η) :
    (items.map (memberPiece erased written)).foldl (fun kept piece => piece.2 kept) start =
      start ++ items.map erased := by
  induction items generalizing start with
  | nil => exact (List.append_nil start).symm
  | cons item items ih =>
      rw [List.map_cons, List.foldl_cons, ih, memberPiece, List.map_cons, List.append_assoc]
      rfl

omit [Quiet calm] in
theorem flatMap_memberPieces (items : List α) :
    (items.map (memberPiece erased written)).flatMap Prod.fst = items.flatMap written :=
  List.flatMap_map _ _ _

abbrev IsMemberPiece (calm : Parser → Prop) (member : Step α) (erased : α → η) :
    List Word × (List η → List η) → Prop :=
  IsPiece calm (fun _ => True) (nextMember member) (List.map erased)

structure MembersRead (calm : Parser → Prop) (member : Step α) (erased : α → η)
    (written : α → List Word) (start : Parser) (found : List α) (parser : Parser) : Prop where
  tally : (countedJoins start.cursor.kinds).Perm
    ((found.flatMap written).map Word.kind ++ countedJoins parser.cursor.kinds)
  pieces : ∀ item ∈ found, IsMemberPiece calm member erased (memberPiece erased written item)

variable (reads : ReadsClosed calm False member erased written)

include reads

omit [Quiet calm] in
theorem isMemberPiece_of_ok {parser later : Parser} {item : α}
    (inside : endsMembers parser.cursor.peek.kind (parser.cursor.peekNth 1).kind = false)
    (ran : member parser = .ok item later) (quiet : calm later) :
    IsMemberPiece calm member erased (memberPiece erased written item) := by
  obtain ⟨added, whole, reread⟩ := reads ran quiet
  obtain rfl : written item = added := whole
  refine .inl ⟨reread.normal, fun _ _ => trivial, ?_⟩
  intro found other rest calmOther ahead _
  have agree := reread.front (rest.map Word.kind) trivial
  rw [← List.map_append] at agree
  have there : other.cursor.kinds = (written item ++ rest).map Word.kind := by
    rw [other.kinds_eq, ahead]
    rfl
  rw [← there] at agree
  obtain ⟨value, last, ranOther, calmLast, same, aheadLast⟩ :=
    reread.again other rest calmOther ahead trivial
  refine ⟨_, last, nextMember_of_ok ((endsMembers_again agree).trans inside) ranOther, calmLast, ?_,
    aheadLast⟩
  rw [List.map_append, List.map_singleton, same]
  rfl

/-- What members are found is read again in any order they can be written in. -/
theorem foundMembers_reads {arrange : List α → List α} {kept : List α → ε}
    (arranges : Arranges arrange erased kept) (eager : Eager (fun _ => True) member) :
    Rereads calm False Anything (fun _ => BothStart (.symbol .rightBrace)) []
    (loop (nextMember member) []) (loop (nextMember member) []) kept
    (fun found => (arrange found).flatMap written) := by
  intro parser found later ran quiet
  have turns (items : List α) : Turn (fun _ => True) (nextMember member items) :=
    nextMember_turn eager items
  have start : MembersRead calm member erased written parser [] parser :=
    ⟨.refl _, fun _ none => by cases none⟩
  have extend {items next : List α} {here behind : Parser}
      (before : MembersRead calm member erased written parser items here)
      (ran : nextMember member items here = .ok (.yield next) behind) (quiet : calm behind) :
      MembersRead calm member erased written parser next behind := by
    rcases nextMember_ok eager ran quiet with ⟨is, -⟩ | ⟨item, is, ranItem, inside⟩
    · cases is
    · cases is
      obtain ⟨added, whole, reread⟩ := reads ranItem quiet
      obtain rfl : written item = added := whole
      refine ⟨?_, ?_⟩
      · rw [List.flatMap_append, List.flatMap_singleton, List.map_append, List.append_assoc]
        exact before.tally.trans (reread.tally.append_left _)
      · intro other member
        rcases List.mem_append.mp member with member | member
        · exact before.pieces other member
        · rw [List.mem_singleton.mp member]
          exact isMemberPiece_of_ok reads inside ranItem quiet
  obtain ⟨last, before, sofar, ended⟩ := before_lastTurn turns extend start ran quiet
  rcases nextMember_ok eager ended quiet with ⟨is, rfl⟩ | ⟨item, is, -⟩
  · cases is
    have all : ∀ piece ∈ (arrange found).map (memberPiece erased written),
        IsMemberPiece calm member erased piece := by
      intro piece member
      obtain ⟨item, inside, rfl⟩ := List.mem_map.mp member
      exact sofar.pieces item ((arranges.perm found).mem_iff.mp inside)
    refine ⟨(arrange found).flatMap written, rfl, ?_, ?_, False.elim, ?_, fun _ _ => trivial, ?_⟩
    · exact calm_of_ok (.loop turns []) ran quiet
    · intro word member
      rw [← flatMap_memberPieces] at member
      exact normal_of_pieces all member
    · refine sofar.tally.trans (List.Perm.append_right _ (List.Perm.map _ ?_))
      exact ((arranges.perm found).flatMap_right written).symm
    · intro other rest calmOther ahead follows
      rw [← flatMap_memberPieces] at ahead
      obtain ⟨next, behind, toEnd, calmBehind, same, aheadBehind⟩ :
          ∃ next behind, loop (nextMember member) [] other = loop (nextMember member) next behind ∧ _ :=
        loop_of_pieces all (advancing_of_turn turns) calmOther ahead trivial
      have closes : behind.cursor.peek.kind = .symbol .rightBrace := by
        refine (kind_peek_iff (by simp)).mpr ?_
        rw [behind.kinds_eq, aheadBehind]
        exact follows.2
      have lastTurn : nextMember member next behind = .ok (.done next) behind := by
        rw [nextMember_eq, closes]
        rfl
      refine ⟨next, behind, toEnd.trans (loop_of_done lastTurn), calmBehind, ?_, aheadBehind⟩
      rw [foldl_memberPieces] at same
      exact arranges.keeps found next same
  · cases is

theorem members_reads {arrange : List α → List α} {kept : List α → ε}
    (arranges : Arranges arrange erased kept) (eager : Eager (fun _ => True) member) :
    Rereads calm False Anything (fun _ => Anything) []
    (members member) (members member) kept
    (fun found => (arrange found).flatMap written ++ [.symbol .rightBrace]) :=
  .bind (foundMembers_reads reads arranges eager) fun _ _ same =>
    .bind .closeBrace fun _ _ _ => .pure rfl same

end Members

/-! ### Members of definitions -/

section Rules

variable [Quiet calm]

omit [Quiet calm] in
/-- A part that a semicolon ends, read only where a variable definition starts. -/
theorem ofIsVarDef [Calm calm] {α ε : Type} {before : List Word}
    {part partAgain instead insteadAgain : Step α} {erased : α → ε} {written : α → List Word}
    (fails : ∀ {parser value later}, instead parser ≠ .ok value later)
    (ended : ∀ {parser value later added}, part parser = .ok value later →
      written value = before ++ added → .symbol .semicolon ∈ added)
    (reads : Rereads calm True Agree (fun _ => Anything) before part partAgain erased written) :
    Rereads calm True Agree (fun _ => Anything) before
      (do if ← isVarDef then part else instead)
      (do if ← isVarDef then partAgain else insteadAgain) erased written := by
  refine .choose (fun parser => startsVarDef (parser.options.maxDepth + 1) parser.cursor.kinds)
    (fun parser => look_bind (isVarDef_eq parser)) (fun parser => look_bind (isVarDef_eq parser))
    ?_ reads fun _ _ _ ran => absurd ran fails
  intro parser value later added other rest ran whole passed ahead quiet calmOther _ _
  rw [look_bind (isVarDef_eq parser)] at ran
  split at ran
  · have member := List.mem_map_of_mem (f := Word.kind) (ended ran whole)
    have here : parser.cursor.kinds = added.map Word.kind ++ later.words.map Word.kind := by
      rw [parser.kinds_eq, passed trivial, List.map_append]
    have there : other.cursor.kinds = added.map Word.kind ++ rest.map Word.kind := by
      rw [other.kinds_eq, ahead, List.map_append]
    have ends : (Kind.symbol .semicolon).endsType := .inr rfl
    exact startsVarDef_again ends member here there quiet calmOther
  · exact absurd ran fails

variable (room : Nat)

section Variables

variable {β η : Type} {erasedOther : β → η} {writtenOther : β → List Word}

theorem variableMember_reads (wanted : String) : Rereads calm True Agree (fun _ => Anything) []
    (do if ← isVarDef then return .inl (← varDef (.within room)) else notAMember wanted)
    (do if ← isVarDef then return .inl (← varDef (.within room)) else notAMember wanted)
    (Sum.map VarDef.erased erasedOther) (Sum.elim VarDef.written writtenOther) := by
  refine ofIsVarDef failAt_ne_ok ?_ ?_
  · intro parser value later added ran whole
    obtain ⟨definition, between, ranDefinition, ran⟩ := bind_ok ran
    cases ran
    obtain rfl : definition.written = added := whole
    simp [VarDef.written]
  · exact (varDef_reads (StmtParts.within_areReread room)).mapped (fun _ => rfl)
      fun _ _ same => congrArg Sum.inl same

def variablesFirst (found : List (VarDef ⊕ β)) : List (VarDef ⊕ β) :=
  (found.filterMap Sum.getLeft?).map .inl ++ (found.filterMap Sum.getRight?).map .inr

def keptMembers (erasedOther : β → η) (found : List (VarDef ⊕ β)) : List VarDef × List η :=
  ((found.filterMap Sum.getLeft?).map VarDef.erased,
    (found.filterMap Sum.getRight?).map erasedOther)

theorem variablesFirst_perm (found : List (VarDef ⊕ β)) : (variablesFirst found).Perm found := by
  induction found with
  | nil => exact .refl _
  | cons item found ih =>
      cases item with
      | inl definition => exact ih.cons _
      | inr other =>
          refine List.perm_middle.trans (ih.cons _)

theorem keptMembers_eq (found : List (VarDef ⊕ β)) : keptMembers erasedOther found =
    (((found.map (Sum.map VarDef.erased erasedOther)).filterMap Sum.getLeft?),
      ((found.map (Sum.map VarDef.erased erasedOther)).filterMap Sum.getRight?)) := by
  induction found with
  | nil => rfl
  | cons item found ih =>
      rw [keptMembers, Prod.mk.injEq] at ih
      cases item <;> simp [keptMembers, List.filterMap_cons, ih]

theorem keptMembers_variablesFirst (found : List (VarDef ⊕ β)) :
    keptMembers erasedOther (variablesFirst found) = keptMembers erasedOther found := by
  have lefts {γ δ : Type} (items : List γ) : (items.map (Sum.inl : γ → γ ⊕ δ)).filterMap
      Sum.getRight? = [] := by
    simp [List.filterMap_map, List.filterMap_eq_nil_iff]
  have rights {γ δ : Type} (items : List δ) : (items.map (Sum.inr : δ → γ ⊕ δ)).filterMap
      Sum.getLeft? = [] := by
    simp [List.filterMap_map, List.filterMap_eq_nil_iff]
  have same {γ δ : Type} (items : List γ) : (items.map (Sum.inl : γ → γ ⊕ δ)).filterMap
      Sum.getLeft? = items := by
    induction items with
    | nil => rfl
    | cons item items ih => simp [ih]
  have sameRight {γ δ : Type} (items : List δ) : (items.map (Sum.inr : δ → γ ⊕ δ)).filterMap
      Sum.getRight? = items := by
    induction items with
    | nil => rfl
    | cons item items ih => simp [ih]
  simp only [keptMembers, variablesFirst, List.filterMap_append, lefts, rights, same, sameRight,
    List.append_nil, List.nil_append]

theorem variablesFirst_arranges : Arranges variablesFirst (Sum.map VarDef.erased erasedOther)
    (keptMembers erasedOther) := by
  refine ⟨variablesFirst_perm, fun found others same => ?_⟩
  rw [keptMembers_eq, same, ← keptMembers_eq, keptMembers_variablesFirst]

theorem flatMap_variablesFirst (found : List (VarDef ⊕ β)) :
    (variablesFirst found).flatMap (Sum.elim VarDef.written writtenOther) =
      (found.filterMap Sum.getLeft?).flatMap VarDef.written ++
        (found.filterMap Sum.getRight?).flatMap writtenOther := by
  rw [variablesFirst, List.flatMap_append, List.flatMap_map, List.flatMap_map]
  rfl

end Variables

theorem resource_reads :
    ReadsClosed calm False (resource room) ResourceDef.erased ResourceDef.written := by
  refine .bind .peek fun _ _ _ => .bind (attachments_reads room).inexact fun found _ sameFound =>
    .bind (.keyword _ (by simp)) fun _ _ _ => .bind .identifier fun name _ same => ?_
  refine .bindClosed (params_reads room).inexact fun params _ sameParams =>
    .bind (body_reads room .callable) fun body _ sameBody => .pure ?_ ?_
  · simp [ResourceDef.written]
  · simp only [ResourceDef.erased, sameFound, same, sameParams, sameBody]

theorem serviceMember_reads : ReadsClosed calm False (serviceMember room)
    (Sum.map VarDef.erased ResourceDef.erased)
    (Sum.elim VarDef.written ResourceDef.written) := by
  refine .bind .current fun kind _ same => ?_
  cases same
  refine .ite (fun _ => ?_) fun _ => (variableMember_reads room _).inexact
  exact (resource_reads room).mapped (fun _ => rfl) fun _ _ same => congrArg Sum.inr same

theorem callableEnd_reads {α ε : Type} (native : Bool) {body : Step α} {erased : α → ε}
    {written : α → List Word} (reads : ReadsClosed calm False body erased written) :
    ReadsClosed calm False (callableEnd native body) (Option.map erased) (endWritten written) := by
  refine .ite (fun _ => ?_) fun _ => ?_
  · exact .bind (Rereads.endStatement.weakenFront agree_of_semicolon) fun _ _ _ => .pure rfl rfl
  · exact reads.mapped (fun _ => rfl) fun _ _ same => congrArg some same

theorem action_reads : ReadsClosed calm False (action room) CallableDef.erased
    (CallableDef.written .actionKw) := by
  refine .bind .peek fun _ _ _ => .bind (attachments_reads room).inexact fun found _ sameFound =>
    .bind (.eatKeyword _ (by simp)) fun native _ sameNative =>
      .bindAgree (.keyword _ (by simp)) fun _ _ _ => ?_
  cases sameNative
  refine .bindAgree (signature_reads room).inexact fun signature _ same => .bindClosed
    (callableEnd_reads native (body_reads room .callable)) fun body _ sameBody =>
      .spanned (fun _ => ?_) fun _ _ => ?_
  · simp [CallableDef.written]
  · simp only [CallableDef.erased, sameFound, same, sameBody]

theorem connectorMember_reads : ReadsClosed calm False (connectorMember room)
    (Sum.map VarDef.erased CallableDef.erased)
    (Sum.elim VarDef.written (CallableDef.written .actionKw)) := by
  refine .bind .current fun kind _ same => ?_
  cases same
  refine .ite (fun _ => ?_) fun _ => (variableMember_reads room _).inexact
  exact (action_reads room).mapped (fun _ => rfl) fun _ _ same => congrArg Sum.inr same

theorem field_reads : ReadsClosed calm False (field room) FieldDef.erased FieldDef.written := by
  refine .bind .current fun kind _ sameKind => ?_
  cases sameKind
  refine .ite (fun _ => ?_) fun _ => .failAt _
  refine .bind (typeName_reads room).inexact fun type _ same => .bind .identifier
    fun name _ sameName => ?_
  refine .bindAgree (.ifBehindSymbol .equal (fun _ _ => id) simpleLiteral_reads.inexact)
    fun value _ sameValue => ended_reads (fun _ => ?_) fun _ _ => ?_
  · simp [FieldDef.written]
  · simp only [FieldDef.erased, same, sameName, sameValue]

theorem id_arranges {α η : Type} (erased : α → η) : Arranges id erased (List.map erased) :=
  ⟨fun _ => .refl _, fun _ _ => id⟩

theorem fields_reads : Rereads calm False Anything (fun _ => Anything) [] (members (field room))
    (members (field room)) (List.map FieldDef.erased)
    (fun fields => fields.flatMap FieldDef.written ++ [.symbol .rightBrace]) :=
  members_reads (field_reads room) (id_arranges _) (field_eager room)

end Rules

end ServiceLang.Grammar
