import ServiceLang.Proofs.Rereading

set_option autoImplicit false

/-! Reading again while nothing goes wrong. As long as no error is reported, nothing is
assumed to stand where it does not, and nothing is skipped. -/

namespace ServiceLang

/-- Parsers that are known by their place, their options, and by what they have not
reported: an error ends calm, for good. -/
class Quiet (calm : Parser → Prop) : Prop extends Calm calm where
  reported : ∀ (parser : Parser) (diagnostic : Diagnostic), diagnostic.isError = true →
    ¬calm (parser.report diagnostic)
  lasting : ∀ (parser : Parser) (diagnostic : Diagnostic), calm (parser.report diagnostic) →
    calm parser

namespace Step

variable {α ε σ : Type} {calm : Parser → Prop} [Quiet calm]

theorem calm_of_ok {step : Step α} (orderly : Orderly (fun _ => True) step)
    {parser later : Parser} {value : α} (ran : step parser = .ok value later)
    (quiet : calm later) : calm parser := by
  refine Classical.byContradiction fun disturbed => ?_
  have kept := (orderly parser).keeping (fun other => ¬calm other)
    (fun _ state _ _ quiet => state ((Calm.moved _ _).mp quiet))
    (fun _ state quiet => state ((Calm.moved _ _).mp quiet))
    (fun _ _ state quiet => state (Quiet.lasting _ _ quiet)) disturbed
  rw [after_of_ok ran] at kept
  exact kept.2 quiet

/-! ### Closing tokens -/

/-- A token is assumed only with an error. -/
theorem not_calm_of_assume {kind : Kind} {parser later : Parser} {marker : TokenMarker}
    (ran : assume kind parser = .ok marker later) : ¬calm later := by
  rw [assume, look_bind (cursor_eq parser), bind_of_ok (report_eq _ _)] at ran
  cases ran
  exact Quiet.reported _ _ (isComplaint_wrongToken _ _).isError

theorem endStatement_ok {parser later : Parser} {marker : TokenMarker}
    (ran : endStatement parser = .ok marker later) (quiet : calm later) :
    parser.cursor.peek.kind = .symbol .semicolon ∧
      marker = ⟨parser.cursor.peek.span, false⟩ ∧ later = parser.advance := by
  by_cases here : parser.cursor.peek.kind = .symbol .semicolon
  · rw [endStatement, bind_of_ok (eat?_of_kind here)] at ran
    cases ran
    exact ⟨here, rfl, rfl⟩
  · rw [endStatement, bind_of_ok (eat?_of_other here)] at ran
    simp only [look_bind (current_eq parser)] at ran
    split at ran
    · exact absurd quiet (not_calm_of_assume ran)
    · rw [look_bind (peek_eq parser)] at ran
      exact absurd ran fail_ne_ok

theorem endStatement_of_kind {parser : Parser}
    (here : parser.cursor.peek.kind = .symbol .semicolon) :
    endStatement parser = .ok ⟨parser.cursor.peek.span, false⟩ parser.advance :=
  bind_of_ok (eat?_of_kind here)

/-- Before a token that may follow a statement a missing semicolon is assumed. -/
theorem endStatement_of_follows {parser : Parser}
    (follows : mayFollowStatement parser.cursor.peek.kind = true) :
    ∃ place, endStatement parser = .ok ⟨place, true⟩
      (parser.report ((wrongToken parser.cursor.peek (Kind.symbol .semicolon).description).withRecovery
        (.inserted (Kind.symbol .semicolon).description))) := by
  have other : parser.cursor.peek.kind ≠ .symbol .semicolon := by
    intro same
    rw [same] at follows
    cases follows
  rw [endStatement, bind_of_ok (eat?_of_other other)]
  simp only [look_bind (current_eq parser), follows, if_true]
  rw [assume, look_bind (cursor_eq parser)]
  exact ⟨_, rfl⟩

theorem closeBrace_ok {parser later : Parser} {marker : TokenMarker}
    (ran : closeBrace parser = .ok marker later) (quiet : calm later) :
    parser.cursor.peek.kind = .symbol .rightBrace ∧
      marker = ⟨parser.cursor.peek.span, false⟩ ∧ later = parser.advance := by
  by_cases here : parser.cursor.peek.kind = .symbol .rightBrace
  · rw [closeBrace, bind_of_ok (eat?_of_kind here)] at ran
    cases ran
    exact ⟨here, rfl, rfl⟩
  · rw [closeBrace, bind_of_ok (eat?_of_other here)] at ran
    exact absurd quiet (not_calm_of_assume ran)

theorem closeBrace_of_kind {parser : Parser}
    (here : parser.cursor.peek.kind = .symbol .rightBrace) :
    closeBrace parser = .ok ⟨parser.cursor.peek.span, false⟩ parser.advance :=
  bind_of_ok (eat?_of_kind here)

namespace Rereads

variable {exact : Prop} {front behind : List Kind → List Kind → Prop} {before : List Word}

theorem closing {sign : Symbol} {close : Step TokenMarker} {written : TokenMarker → List Word}
    (whole : ∀ span, written ⟨span, false⟩ = [.symbol sign])
    (closes : ∀ {parser marker later}, close parser = .ok marker later → calm later →
      parser.cursor.peek.kind = .symbol sign ∧ marker = ⟨parser.cursor.peek.span, false⟩ ∧
        later = parser.advance)
    (closed : ∀ {parser : Parser}, parser.cursor.peek.kind = .symbol sign →
      close parser = .ok ⟨parser.cursor.peek.span, false⟩ parser.advance) :
    Rereads calm exact (BothStart (.symbol sign)) (fun _ => behind) [] close close
      TokenMarker.erased written := by
  intro parser marker later ran quiet
  obtain ⟨here, rfl, rfl⟩ := closes ran quiet
  have reads : Rereads calm exact (BothStart (.symbol sign)) (fun _ => behind) []
      (expectSymbol sign) (expectSymbol sign) Token.word (fun _ => [.symbol sign]) := symbolBoth sign
  obtain ⟨added, asToken, reread⟩ := reads (expect_of_kind here) quiet
  refine ⟨added, (whole _).trans asToken, reread.quiet, reread.normal, reread.passed, reread.tally,
    reread.front, ?_⟩
  intro other rest calmOther ahead follows
  obtain ⟨token, last, ranOther, calmLast, -, aheadLast⟩ :=
    reread.again other rest calmOther ahead follows
  obtain ⟨hereToo, rfl, rfl⟩ := expect_ok ranOther
  exact ⟨_, _, closed hereToo, calmLast, rfl, aheadLast⟩

theorem endStatement : Rereads calm exact (BothStart (.symbol .semicolon)) (fun _ => behind) []
    Step.endStatement Step.endStatement TokenMarker.erased (fun _ => [.symbol .semicolon]) :=
  closing (fun _ => rfl) endStatement_ok endStatement_of_kind

theorem closeBrace : Rereads calm exact (BothStart (.symbol .rightBrace)) (fun _ => behind) []
    Step.closeBrace Step.closeBrace TokenMarker.erased (fun _ => [.symbol .rightBrace]) :=
  closing (fun _ => rfl) closeBrace_ok closeBrace_of_kind

theorem closeMarker : Rereads calm exact (BothStart (.symbol .rightBrace)) (fun _ => behind) []
    Step.closeBrace Step.closeBrace TokenMarker.erased TokenMarker.written :=
  closing (fun _ => rfl) closeBrace_ok closeBrace_of_kind

theorem ended {α : Type} {start other : Span} {make makeAgain : Span → α} {erased : α → ε}
    {written : α → List Word}
    (whole : ∀ span, written (make span) = before ++ [.symbol .semicolon])
    (same : ∀ span other, erased (makeAgain other) = erased (make span)) :
    Rereads calm exact (BothStart (.symbol .semicolon)) (fun _ => behind) before
      (do
        let _ ← Step.endStatement
        return make (← Step.spanFrom start))
      (do
        let _ ← Step.endStatement
        return makeAgain (← Step.spanFrom other)) erased written :=
  endStatement.bind fun _ _ _ => spanned whole same

end Rereads

/-! ### Errors that are recovered from -/

theorem not_calm_of_recover {point : SyncPoint} {start : Cursor} {diagnostic : Diagnostic}
    (isError : diagnostic.isError = true) {parser later : Parser} {span : Span}
    (ran : recover point start diagnostic parser = .ok span later) : ¬calm later := by
  cases ran
  exact Quiet.reported _ _ isError

theorem not_calm_of_recoverDefinition {start : Cursor} {diagnostic : Diagnostic}
    (isError : diagnostic.isError = true) {parser later : Parser} {span : Span}
    (ran : recoverDefinition start diagnostic parser = .ok span later) : ¬calm later := by
  cases ran
  exact Quiet.reported _ _ isError

/-- While nothing goes wrong a part is read without recovery. -/
theorem ok_of_orRecover {point : SyncPoint} {part : Step α} {instead : Span → α}
    (orderly : Orderly (fun _ => True) part) {parser later : Parser} {value : α}
    (ran : orRecover point part instead parser = .ok value later) (quiet : calm later) :
    part parser = .ok value later := by
  rw [orRecover, look_bind (cursor_eq parser)] at ran
  cases outcome : part parser with
  | ok other between =>
      rw [tryCatch_of_ok outcome] at ran
      exact ran
  | error diagnostic between =>
      rw [tryCatch_of_error outcome] at ran
      obtain ⟨span, last, ranRecover, ran⟩ := bind_ok ran
      cases ran
      have complains := (orderly parser).complains_of_error outcome
      exact absurd quiet (not_calm_of_recover complains.isError ranRecover)

theorem orRecover_of_ok {point : SyncPoint} {part : Step α} {instead : Span → α}
    {parser later : Parser} {value : α} (ran : part parser = .ok value later) :
    orRecover point part instead parser = .ok value later := by
  rw [orRecover, look_bind (cursor_eq parser)]
  exact tryCatch_of_ok ran

theorem ok_of_orSkip {part : Step α} {instead : Span → α}
    (orderly : Orderly (fun _ => True) part) {parser later : Parser} {value : α}
    (ran : orSkip part instead parser = .ok value later) (quiet : calm later) : part parser = .ok value later := by
  rw [orSkip, look_bind (cursor_eq parser)] at ran
  cases outcome : part parser with
  | ok other between =>
      rw [tryCatch_of_ok outcome] at ran
      exact ran
  | error diagnostic between =>
      rw [tryCatch_of_error outcome] at ran
      obtain ⟨span, last, ranRecover, ran⟩ := bind_ok ran
      cases ran
      have complains := (orderly parser).complains_of_error outcome
      exact absurd quiet (not_calm_of_recoverDefinition complains.isError ranRecover)

theorem orSkip_of_ok {part : Step α} {instead : Span → α} {parser later : Parser} {value : α}
    (ran : part parser = .ok value later) : orSkip part instead parser = .ok value later := by
  rw [orSkip, look_bind (cursor_eq parser)]
  exact tryCatch_of_ok ran

namespace Rereads

variable {exact : Prop} {front : List Kind → List Kind → Prop}
  {behind : α → List Kind → List Kind → Prop} {before : List Word} {part again : Step α}
  {instead insteadAgain : Span → α} {erased : α → ε} {written : α → List Word}

theorem orRecover {point : SyncPoint} (orderly : Orderly (fun _ => True) part)
    (reads : Rereads calm exact front behind before part again erased written) :
    Rereads calm exact front behind before (Step.orRecover point part instead)
      (Step.orRecover point again insteadAgain) erased written := by
  intro parser value later ran quiet
  obtain ⟨added, whole, reread⟩ := reads (ok_of_orRecover orderly ran quiet) quiet
  refine ⟨added, whole, reread.quiet, reread.normal, reread.passed, reread.tally, reread.front, ?_⟩
  intro other rest calmOther ahead follows
  obtain ⟨otherValue, otherLater, ranOther, found⟩ :=
    reread.again other rest calmOther ahead follows
  exact ⟨otherValue, otherLater, orRecover_of_ok ranOther, found⟩

theorem orSkip (orderly : Orderly (fun _ => True) part)
    (reads : Rereads calm exact front behind before part again erased written) :
    Rereads calm exact front behind before (Step.orSkip part instead)
      (Step.orSkip again insteadAgain) erased written := by
  intro parser value later ran quiet
  obtain ⟨added, whole, reread⟩ := reads (ok_of_orSkip orderly ran quiet) quiet
  refine ⟨added, whole, reread.quiet, reread.normal, reread.passed, reread.tally, reread.front, ?_⟩
  intro other rest calmOther ahead follows
  obtain ⟨otherValue, otherLater, ranOther, found⟩ :=
    reread.again other rest calmOther ahead follows
  exact ⟨otherValue, otherLater, orSkip_of_ok ranOther, found⟩

end Rereads

/-! ### Loops that collect pieces -/

/-- What holds at the start of a loop and is kept by every turn that goes on holds
before the last turn. -/
theorem before_lastTurn {turn : σ → Step (ForInStep σ)}
    (turns : ∀ state, Turn (fun _ => True) (turn state)) {holds : σ → Parser → Prop}
    (kept : ∀ {state parser next later}, holds state parser →
      turn state parser = .ok (.yield next) later → calm later → holds next later)
    {state final : σ} {parser later : Parser} (start : holds state parser)
    (ran : loop turn state parser = .ok final later) (quiet : calm later) :
    ∃ last between, holds last between ∧ turn last between = .ok (.done final) later := by
  rcases loop_ok ran with ran | ⟨next, between, ran, ⟨shorter, rest⟩ | ⟨still, -, -⟩⟩
  · exact ⟨state, parser, start, ran⟩
  · have orderly : Orderly (fun _ => True) (loop turn next) := .loop turns next
    exact before_lastTurn turns kept (kept start ran (calm_of_ok orderly rest quiet)) rest quiet
  · exact absurd (advancing_of_turn turns _ _ _ _ ran) still
termination_by parser.cursor.remaining

/-- A turn reads these words as one more piece, whatever has been collected, and says
then that there is more to come. `put` adds the piece to what is kept. -/
structure PieceReads (calm : Parser → Prop) (goesOn : List Kind → Prop)
    (turn : σ → Step (ForInStep σ)) (erased : σ → ε) (words : List Word) (put : ε → ε) :
    Prop where
  normal : ∀ word ∈ words, word.normal = word
  opens : ∀ rest, goesOn rest → goesOn (words.map Word.kind ++ rest)
  reads : ∀ state parser rest, calm parser → parser.words = words ++ rest →
    goesOn (rest.map Word.kind) →
    ∃ next later, turn state parser = .ok (.yield next) later ∧ calm later ∧
      erased next = put (erased state) ∧ later.words = rest

def IsPiece (calm : Parser → Prop) (goesOn : List Kind → Prop) (turn : σ → Step (ForInStep σ))
    (erased : σ → ε) (piece : List Word × (ε → ε)) : Prop :=
  PieceReads calm goesOn turn erased piece.1 piece.2 ∨
    piece.1 = [] ∧ ∀ kept, piece.2 kept = kept

section Pieces

variable {goesOn : List Kind → Prop} {turn : σ → Step (ForInStep σ)} {erased : σ → ε}
  {pieces : List (List Word × (ε → ε))}
  (all : ∀ piece ∈ pieces, IsPiece calm goesOn turn erased piece)

include all

omit [Quiet calm] in
theorem normal_of_pieces {word : Word} (member : word ∈ pieces.flatMap Prod.fst) :
    word.normal = word := by
  obtain ⟨piece, isPiece, inside⟩ := List.mem_flatMap.mp member
  rcases all piece isPiece with reads | ⟨silent, -⟩
  · exact reads.normal word inside
  · rw [silent] at inside
    cases inside

omit [Quiet calm] in
theorem goesOn_of_pieces {rest : List Kind} (open_ : goesOn rest) :
    goesOn ((pieces.flatMap Prod.fst).map Word.kind ++ rest) := by
  induction pieces with
  | nil => exact open_
  | cons piece pieces ih =>
      have behind := ih fun other member => all other (List.mem_cons_of_mem _ member)
      rw [List.flatMap_cons, List.map_append, List.append_assoc]
      rcases all piece List.mem_cons_self with reads | ⟨silent, -⟩
      · exact reads.opens _ behind
      · rw [silent]
        exact behind

omit [Quiet calm] in
theorem loop_of_pieces (advancing : Advancing turn) {state : σ} {parser : Parser}
    {rest : List Word} (quiet : calm parser)
    (ahead : parser.words = pieces.flatMap Prod.fst ++ rest)
    (open_ : goesOn (rest.map Word.kind)) :
    ∃ next later, loop turn state parser = loop turn next later ∧ calm later ∧
      erased next = pieces.foldl (fun kept piece => piece.2 kept) (erased state) ∧
      later.words = rest := by
  induction pieces generalizing state parser with
  | nil => exact ⟨state, parser, rfl, quiet, rfl, ahead⟩
  | cons piece pieces ih =>
      have others := fun other member => all other (List.mem_cons_of_mem piece member)
      rw [List.flatMap_cons, List.append_assoc] at ahead
      rcases all piece List.mem_cons_self with reads | ⟨silent, nothing⟩
      · have openBehind := goesOn_of_pieces others open_
        rw [← List.map_append] at openBehind
        obtain ⟨next, between, ran, calmBetween, kept, aheadBetween⟩ :=
          reads.reads state parser _ quiet ahead openBehind
        obtain ⟨last, later, ranRest, found⟩ := ih others calmBetween aheadBetween
        refine ⟨last, later, ?_, ?_⟩
        · exact (loop_of_yield ran (advancing _ _ _ _ ran)).trans ranRest
        · rw [List.foldl_cons, ← kept]
          exact found
      · rw [silent, List.nil_append] at ahead
        rw [List.foldl_cons, nothing]
        exact ih others quiet ahead

end Pieces

end Step

end ServiceLang
