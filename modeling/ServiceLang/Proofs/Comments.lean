import Mathlib.Data.List.Flatten
import ServiceLang.Proofs.Faults
import ServiceLang.Proofs.Filling
import ServiceLang.Tree.Commented

set_option autoImplicit false

/-! Comments where statements can stand. In a source without errors each of them is kept once, in
the body where it stands, and all others are dropped. Whatever is wrong with a source, a comment
that is kept lies in its body, or behind it where the closing brace has been assumed. -/

namespace ServiceLang

/-! ### The tokens of a source -/

/-- No two tokens of a source have the same text and the same place. -/
theorem nodup_remarks (source : String) : ((tokenize source).1.map Token.remark).Nodup := by
  obtain ⟨earlier, last, whole, -, inner, ordered⟩ := exists_end_of_tokenize source
  rw [whole]
  obtain ⟨rest, -, apart⟩ := List.pairwise_append.mp ordered
  have differ {left right : Token} (proper : left.span.start < left.span.stop)
      (order : left.span.stop ≤ right.span.start) : left.remark ≠ right.remark := by
    intro same
    have spans : left.span = right.span := congrArg Prod.snd same
    rw [← spans] at order
    omega
  refine List.pairwise_map.mpr (List.pairwise_append.mpr
    ⟨rest.imp_of_mem fun isLeft _ order => differ (inner _ isLeft).2 order,
      List.pairwise_singleton _ _, fun left isLeft right isRight =>
        differ (inner left isLeft).2 (apart left isLeft right isRight)⟩)

variable {source : String} {layout : Layout}

theorem Layout.isLined_ofSource (same : layout.buffer = Slot.buffer (tokenize source).1) :
    layout.IsLined := by
  obtain ⟨earlier, last, whole, isEnd, inner, ordered⟩ := exists_end_of_tokenize source
  rw [Layout.IsLined, same, whole]
  exact ordered.sublist
    (Slot.flatMap_row_sublist (fun token member => (inner token member).1) isEnd)

theorem flatMap_remarked_ofSource (valid : ∀ token ∈ (tokenize source).1, token.kind ≠ .invalid) :
    (Slot.buffer (tokenize source).1).flatMap Slot.remarked = remarked (tokenize source).1 := by
  obtain ⟨earlier, last, whole, isEnd, inner, -⟩ := exists_end_of_tokenize source
  rw [whole] at valid ⊢
  exact Slot.flatMap_remarked (fun token member => (inner token member).1) isEnd
    fun token member => valid token (List.mem_append_left _ member)

theorem Layout.ready_ofSource {exact : Prop} {options : Options}
    (same : layout.buffer = Slot.buffer (tokenize source).1)
    (keeps : exact → options.keepComments = true) :
    layout.Ready exact (.ofSource source options) := by
  refine ⟨⟨0, layout.stands_ofSource same options⟩, .inr ?_, fun isExact => ?_⟩
  · rw [Parser.cursor_ofSource]
    rfl
  · rw [Parser.options_ofSource]
    exact keeps isExact

theorem Cursor.IsFresh.pending_eq {cursor : Cursor} (fresh : cursor.IsFresh) :
    cursor.pending = (cursor.ahead ++ [cursor.final]).flatMap Slot.comments := by
  rw [pending, fresh]
  cases cursor.ahead <;> rfl

/-- At the start of a source no comment can be taken twice. -/
theorem Parser.nodup_pending (source : String) (options : Options) :
    (ofSource source options).pending.Nodup := by
  obtain ⟨earlier, last, whole, isEnd, inner, -⟩ := exists_end_of_tokenize source
  have fresh : (Cursor.ofTokens (tokenize source).1).IsFresh := rfl
  have comments : (Cursor.ofTokens (tokenize source).1).pending =
      (Slot.buffer (tokenize source).1).flatMap Slot.comments := fresh.pending_eq
  have kept : ((Slot.buffer (tokenize source).1).flatMap Slot.comments).Sublist
      (tokenize source).1 := by
    rw [whole]
    exact (List.Sublist.flatMap_right _ fun slot _ => List.sublist_append_left _ _).trans
      (Slot.flatMap_row_sublist (fun token member => (inner token member).1) isEnd)
  rw [pending, cursor_ofSource, comments]
  exact (nodup_remarks source).sublist (kept.map Token.remark)

/-- A parse starts clean only if there are no lexical errors. -/
theorem Parser.noErrors_of_clean {tokens : List Token} {errors : List LexicalError}
    {options : Options} (clean : (ofTokens tokens errors options).Clean) : errors = [] := by
  rcases List.eq_nil_or_concat errors with none | ⟨others, problem, rfl⟩
  · exact none
  · rw [ofTokens, List.concat_eq_append, List.foldl_append] at clean
    exact absurd clean (Parser.not_clean_report _ _)

/-- A source that is accepted is read from a clean start to a clean end. -/
theorem exists_clean_run (accepted : (parseLenient source).2.entries = []) :
    ∃ later, Grammar.sourceUnit ({} : Options).maxDepth (.ofSource source {}) =
        .ok (parseLenient source).1 later ∧ later.Clean := by
  let options : Options := {}
  obtain ⟨unit, later, ran⟩ :=
    Grammar.sourceUnit_succeeds options.maxDepth (.ofSource source options)
  have outcome : parseLenient source = (unit, later.diagnostics) := parseWith_of_ok ran
  rw [outcome] at accepted ⊢
  exact ⟨later, ran, clean_of_parseWith ran accepted⟩

/-! ### Comments that are kept -/

/-- A body from which no comment is missing holds those before its statements, its workers and
its closing brace. -/
theorem CallableBody.Placed.remarks_eq {first last : Nat} {places : List Nat} {body : CallableBody}
    (placed : body.Placed layout True first last places)
    (same : layout.buffer.flatMap Slot.remarked = remarked (tokenize source).1) :
    body.remarks = remarksBefore (tokenize source).1 body.starts := by
  have inside (place : Nat) (member : place ∈ places) : place < layout.buffer.length :=
    Nat.lt_of_le_of_lt (placed.between place member).2 placed.inside
  rw [placed.whole trivial, layout.flatMap_remarksAt placed.sorted inside
    (placed.starts (placed.closed trivial)), same, remarksBefore]

/-- Each comment of a source stands before another token. -/
theorem comments_remarked (source : String) : (remarked (tokenize source).1).map Prod.fst =
    (tokenize source).1.filter fun token => token.kind == .comment := by
  obtain ⟨earlier, last, whole, isEnd, -⟩ := exists_end_of_tokenize source
  rw [whole]
  exact map_fst_remarked earlier (isEnd ▸ nofun)

theorem nodup_remarked (source : String) :
    ((remarked (tokenize source).1).map fun remarked => remarked.1.remark).Nodup := by
  have same : (remarked (tokenize source).1).map (fun remarked => remarked.1.remark) =
      ((tokenize source).1.filter fun token => token.kind == .comment).map Token.remark := by
    rw [← comments_remarked, List.map_map]
    rfl
  rw [same]
  exact (nodup_remarks source).sublist (List.filter_sublist.map Token.remark)

section Accepted

variable (accepted : (parseLenient source).2.entries = [])

include accepted

/-- The bodies of a source that is accepted hold the comments that stand in them. -/
theorem remarks_of_accepted {body : CallableBody} (member : body ∈ (parseLenient source).1.bodies) :
    body.remarks = remarksBefore (tokenize source).1 body.starts ∧
      body.statements.Pairwise fun left right => left.span.stop ≤ right.span.start := by
  obtain ⟨layout, same⟩ := exists_layout source
  obtain ⟨later, ran, clean⟩ := exists_clean_run accepted
  have cleanStart := (Grammar.sourceUnit_orderly _).clean_of_ok ran clean
  have noErrors : (tokenize source).2 = [] := Parser.noErrors_of_clean cleanStart
  have valid := valid_of_sound (noErrors ▸ nofun : ∀ problem ∈ (tokenize source).2,
    problem.severity ≠ .error)
  obtain ⟨first, last, places, placed⟩ := Grammar.sourceUnit_places (layout.isLined_ofSource same)
    (layout.ready_ofSource same fun _ : True => rfl) ran (fun _ => clean) body member
  exact ⟨placed.remarks_eq (same ▸ flatMap_remarked_ofSource valid), placed.ordered⟩

/-- No comment is kept twice. -/
theorem count_remarks_le (remark : Remark) :
    (remarksOf (parseLenient source).1.bodies).count remark ≤ 1 := by
  obtain ⟨later, ran, -⟩ := exists_clean_run accepted
  have spent := Grammar.sourceUnit_spends ran remark
  have once := List.nodup_iff_count_le_one.mp (Parser.nodup_pending source {}) remark
  rw [List.count_nil] at spent
  omega

/-- A comment is kept if a body goes on right behind it. -/
theorem mem_remarks_iff {comment next : Token}
    (member : (comment, next) ∈ remarked (tokenize source).1) :
    comment.remark ∈ remarksOf (parseLenient source).1.bodies ↔
      ∃ body ∈ (parseLenient source).1.bodies, next.span.start ∈ body.starts := by
  rw [List.mem_flatMap]
  refine exists_congr fun body => and_congr_right fun isBody => ?_
  rw [(remarks_of_accepted accepted isBody).1, remarksBefore, List.mem_map]
  constructor
  · rintro ⟨other, isOther, same⟩
    obtain ⟨isRemarked, starts⟩ := List.mem_filter.mp isOther
    have here := List.inj_on_of_nodup_map (nodup_remarked source) isRemarked member same
    rw [here] at starts
    exact of_decide_eq_true starts
  · intro starts
    exact ⟨(comment, next), List.mem_filter.mpr ⟨member, decide_eq_true starts⟩, rfl⟩

end Accepted

/-- In a source that is accepted the comments of a body are those right before its statements,
its workers and its closing brace, where they stand among the statements. In the whole tree each
comment with such a place behind it is found once, and every other one is not. -/
theorem comments_kept (source role : String) (accepted : (parseLenient source).2.entries = []) :
    (remarked (tokenize source).1).map Prod.fst =
        (tokenize source).1.filter (fun token => token.kind == .comment) ∧
      (∀ body ∈ (parseLenient source).1.bodies,
        body.remarks = remarksBefore (tokenize source).1 body.starts ∧
          body.statements.Pairwise fun left right => left.span.stop ≤ right.span.start) ∧
      ∀ comment next, (comment, next) ∈ remarked (tokenize source).1 →
        ((parseLenient source).1.outline role).remarks.count comment.remark =
          if ∃ body ∈ (parseLenient source).1.bodies, next.span.start ∈ body.starts then 1
          else 0 := by
  refine ⟨comments_remarked source, fun body => remarks_of_accepted accepted,
    fun comment next member => ?_⟩
  have kept := mem_remarks_iff accepted member
  rw [((parseLenient source).1.remarks_perm role).count_eq]
  split
  · rename_i stands
    exact Nat.le_antisymm (count_remarks_le accepted _) (List.count_pos_iff.mpr (kept.mpr stands))
  · rename_i stands
    exact List.count_eq_zero.mpr fun held => stands (kept.mp held)

/-- Comments before statements and workers, before closing braces, inside a condition, before an
`else`, and around the worker of a fork. -/
def scatteredNotes : String :=
  "function f() \x7b // a\n if ( // b\n x) \x7b // c\n \x7d // d\n else \x7b \x7d // e\n" ++
    "fork \x7b // g\n worker w \x7b // h\n \x7d // i\n \x7d join (all) (map m) \x7b \x7d\n" ++
      "// j\n worker v \x7b \x7d // k\n \x7d"

theorem comments_kept_scatteredNotes :
    (parseLenient scatteredNotes).2.entries = [] ∧
      ∀ pair ∈ remarked (tokenize scatteredNotes).1,
        ((parseLenient scatteredNotes).1.outline "root").remarks.count pair.1.remark =
          if pair.1.lexeme ∈ ["// a", "// c", "// e", "// h", "// j", "// k"] then 1 else 0 := by
  have accepted : (parseLenient scatteredNotes).2.entries = [] := by decide +kernel
  have places : ∀ pair ∈ remarked (tokenize scatteredNotes).1,
      (∃ body ∈ (parseLenient scatteredNotes).1.bodies, pair.2.span.start ∈ body.starts) ↔
        pair.1.lexeme ∈ ["// a", "// c", "// e", "// h", "// j", "// k"] := by
    decide +kernel
  refine ⟨accepted, fun pair member => ?_⟩
  rw [(comments_kept scatteredNotes "root" accepted).2.2 _ _ member]
  exact if_congr (places pair member) rfl rfl

/-! ### Comments and spans -/

theorem CallableBody.Placed.contains_or_behind {exact : Prop} {first last : Nat}
    {places : List Nat} {body : CallableBody} (lined : layout.IsLined)
    (placed : body.Placed layout exact first last places) {remark : Remark}
    (member : remark ∈ body.remarks) :
    body.span.contains remark.2 = true ∨
      body.close.synthetic = true ∧ body.span.stop ≤ remark.2.start := by
  obtain ⟨place, isPlace, held⟩ := List.mem_flatMap.mp (placed.held.subset member)
  obtain ⟨comment, taken, rfl⟩ := List.mem_map.mp held
  obtain ⟨less, upTo⟩ := placed.between place isPlace
  have inside := placed.inside
  have isStart := placed.start
  have isStop := placed.stop
  have opens := layout.startAt_lt_stopAt first (by omega)
  have starts := layout.stopAt_le_start lined taken less
  have stops := layout.stop_le_startAt lined taken
  rw [Span.contains, Bool.and_eq_true, decide_eq_true_eq, decide_eq_true_eq]
  change body.span.start ≤ comment.span.start ∧ comment.span.stop ≤ body.span.stop ∨
    body.close.synthetic = true ∧ body.span.stop ≤ comment.span.start
  cases assumed : body.close.synthetic with
  | false =>
      rw [assumed, if_neg Bool.false_ne_true] at isStop
      have ends := layout.startAt_mono place last upTo inside
      have closes := layout.startAt_le_stopAt last inside
      exact .inl (by omega)
  | true =>
      rw [assumed, if_pos rfl] at isStop
      rcases Nat.lt_or_eq_of_le upTo with earlier | rfl
      · have ends := layout.startAt_mono place (last - 1) (by omega) (by omega)
        have closes := layout.startAt_le_stopAt (last - 1) (by omega)
        exact .inl (by omega)
      · have behind : layout.stopAt (place - 1) ≤ comment.span.start :=
          layout.stopAt_le_start lined taken (by omega)
        exact .inr ⟨rfl, by omega⟩

/-- A comment of a body lies in it. Only where the closing brace has been assumed may it stand
behind the body instead: the span of a body stops at the last token that has been passed over,
and a comment is none. -/
theorem comment_of_body (source : String) (options : Options) :
    ∀ body ∈ (parseWith source options).1.bodies, ∀ remark ∈ body.remarks,
      body.span.contains remark.2 = true ∨
        body.close.synthetic = true ∧ body.span.stop ≤ remark.2.start := by
  obtain ⟨layout, same⟩ := exists_layout source
  obtain ⟨unit, later, ran⟩ :=
    Grammar.sourceUnit_succeeds options.maxDepth (.ofSource source options)
  rw [parseWith_of_ok ran]
  have lined := layout.isLined_ofSource same
  intro body isBody remark member
  obtain ⟨first, last, places, placed⟩ := Grammar.sourceUnit_places lined
    (layout.ready_ofSource same False.elim) ran False.elim body isBody
  exact placed.contains_or_behind lined member

def commentedOpening : String :=
  "function f() \x7b // c"

theorem exists_outside_commentedOpening :
    ∃ body ∈ (parseWith commentedOpening {}).1.bodies, ∃ remark ∈ body.remarks,
      body.span.contains remark.2 = false := by
  have outside : (parseWith commentedOpening {}).1.bodies.any (fun body =>
      body.remarks.any fun remark => !body.span.contains remark.2) = true := by
    decide +kernel
  obtain ⟨body, isBody, outside⟩ := List.any_eq_true.mp outside
  obtain ⟨remark, member, outside⟩ := List.any_eq_true.mp outside
  exact ⟨body, isBody, remark, member, Bool.not_eq_true' _ ▸ outside⟩

theorem comment_of_commentedOpening :
    ∃ body ∈ (parseWith commentedOpening {}).1.bodies, ∃ remark ∈ body.remarks,
      body.close.synthetic = true ∧ body.span.stop ≤ remark.2.start := by
  obtain ⟨body, isBody, remark, member, outside⟩ := exists_outside_commentedOpening
  refine ⟨body, isBody, remark, member, ?_⟩
  exact (comment_of_body commentedOpening {} body isBody remark member).resolve_left
    (outside ▸ nofun)

/-- The comment does not lie in the body that holds it. -/
theorem not_contains_commentedOpening :
    ¬∀ body ∈ (parseWith commentedOpening {}).1.bodies, ∀ remark ∈ body.remarks,
      body.span.contains remark.2 = true := by
  intro all
  obtain ⟨body, isBody, remark, member, outside⟩ := exists_outside_commentedOpening
  rw [all body isBody remark member] at outside
  cases outside

end ServiceLang
