import ServiceLang.Proofs.Foresight
import ServiceLang.Proofs.OrderlyExpr

set_option autoImplicit false

/-! Looking ahead up to an edge, behind which two lists of kinds differ. What is passed over
ends before it whatever stands behind, but for one case: a closing brace at the edge may close
the text of a type. Where it does on the one side, no type is read on the other one. -/

namespace ServiceLang

open Step Grammar

def Kind.bindsText (kind : Kind) : Prop :=
  kind = .keyword .xmlKw ∨ kind = .keyword .xmlDocumentKw ∨ kind = .keyword .jsonKw

/-- These kinds open a type, and in it a text in braces that is not closed. -/
inductive OpensText : List Kind → Prop
  | here {word : Kind} (binds : word.bindsText) :
      OpensText [word, .symbol .less, .symbol .leftBrace, .string]
  | within {kinds : List Kind} (inner : OpensText kinds) :
      OpensText (.keyword .mapKw :: .symbol .less :: kinds)

/-- What is passed over ends before the edge, whatever stands there, or a closing brace at the
edge closes a text. -/
inductive Stopped (skip? : List Kind → Option (List Kind)) (opens : List Kind → Prop)
    (shared : List Kind) (edge : Kind) (behind left : List Kind) : Prop
  | before (others : List Kind) (isLeft : left = others ++ edge :: behind)
      (onwards : ∀ {other : Kind} (rest : List Kind), other.endsShape = true →
        skip? (shared ++ other :: rest) = some (others ++ other :: rest))
  | beyond (closes : edge = .symbol .rightBrace) (suffix : left <:+ behind) (isOpen : opens shared)

section Edges

variable {shared behind left : List Kind} {edge : Kind}

/-- A list that starts with some kinds has them all before the edge, or they go beyond it. -/
theorem split_of_edge {front : List Kind} (same : shared ++ edge :: behind = front ++ left) :
    (∃ others, shared = front ++ others ∧ left = others ++ edge :: behind) ∨
      ∃ more, front = shared ++ edge :: more ∧ behind = more ++ left := by
  rcases List.append_eq_append_iff.mp same with
    ⟨more, isFront, isBehind⟩ | ⟨others, isShared, isLeft⟩
  · cases more with
    | nil => exact .inl ⟨[], by rw [isFront, List.append_nil, List.append_nil], isBehind.symm⟩
    | cons kind more =>
        obtain ⟨rfl, rfl⟩ := List.cons.inj isBehind
        exact .inr ⟨more, isFront, rfl⟩
  · exact .inl ⟨others, isShared, isLeft⟩

variable (inert : edge.isInert = true)

include inert

/-- A text in braces, and kinds behind it at which something goes on. -/
theorem text_of_edge (back : List Kind) (away : back.all (fun kind => !kind.isInert) = true)
    (same : shared ++ edge :: behind =
      [.symbol .leftBrace, .string, .symbol .rightBrace] ++ back ++ left) :
    (∃ others, shared = [.symbol .leftBrace, .string, .symbol .rightBrace] ++ back ++ others ∧
        left = others ++ edge :: behind) ∨
      edge = .symbol .rightBrace ∧ left <:+ behind ∧ shared = [.symbol .leftBrace, .string] := by
  refine (split_of_edge same).imp_right ?_
  rintro ⟨more, isFront, rfl⟩
  match shared with
  | [] =>
      obtain ⟨rfl, -⟩ := List.cons.inj isFront
      cases inert
  | [first] =>
      obtain ⟨rfl, -⟩ := List.cons.inj (List.cons.inj isFront).2
      cases inert
  | [first, second] =>
      simp only [List.cons_append, List.nil_append, List.cons.injEq] at isFront
      obtain ⟨rfl, rfl, rfl, rfl⟩ := isFront
      exact ⟨rfl, List.suffix_append back left, rfl⟩
  | first :: second :: third :: others =>
      simp only [List.cons_append, List.nil_append, List.cons.injEq] at isFront
      have member : edge ∈ back := by
        rw [isFront.2.2.2]
        exact List.mem_append_right _ List.mem_cons_self
      exact absurd member (Kind.notMem_of_isInert inert away)

theorem skipElement?_stopped (skipped : skipElement? (shared ++ edge :: behind) = some left) :
    Stopped skipElement? (· = [.symbol .leftBrace, .string]) shared edge behind left := by
  rcases skipElement?_eq_some.mp skipped with same | same
  · rcases text_of_edge inert [.identifier, .symbol .greater] rfl same with
      ⟨others, rfl, isLeft⟩ | ⟨closes, suffix, isOpen⟩
    · exact .before others isLeft fun rest _ => rfl
    · exact .beyond closes suffix isOpen
  · obtain ⟨others, rfl⟩ := prefix_of_edge (Kind.notMem_of_isInert inert rfl) same
    rw [List.append_assoc] at same
    exact .before others (List.append_cancel_left same).symm fun rest _ => rfl

theorem skipSchema?_stopped (skipped : skipSchema? (shared ++ edge :: behind) = some left) :
    Stopped skipSchema? (· = [.symbol .leftBrace, .string]) shared edge behind left := by
  rcases text_of_edge inert [.symbol .greater] rfl (skipSchema?_eq_some.mp skipped) with
    ⟨others, rfl, isLeft⟩ | ⟨closes, suffix, isOpen⟩
  · exact .before others isLeft fun rest _ => rfl
  · exact .beyond closes suffix isOpen

omit inert in
theorem skipDimensions_suffix (kinds : List Kind) : skipDimensions kinds <:+ kinds := by
  fun_induction skipDimensions kinds with
  | case1 rest ih =>
      exact ih.trans
        (List.suffix_append [Kind.symbol .leftBracket, .symbol .rightBracket] rest)
  | case2 kinds => exact List.suffix_refl _

omit inert in
theorem skipDimensions_edge (shared : List Kind) :
    ∃ others, ∀ {edge : Kind} (rest : List Kind), edge.endsShape = true →
      skipDimensions (shared ++ edge :: rest) = others ++ edge :: rest := by
  match shared with
  | [] =>
      refine ⟨[], fun rest ends => skipDimensions.eq_2 _ ?_⟩
      rintro _ same
      obtain ⟨rfl, -⟩ := List.cons.inj same
      cases ends
  | [first] =>
      refine ⟨[first], fun rest ends => skipDimensions.eq_2 _ ?_⟩
      rintro _ same
      obtain ⟨rfl, -⟩ := List.cons.inj (List.cons.inj same).2
      cases ends
  | first :: second :: shared =>
      by_cases brackets : first = .symbol .leftBracket ∧ second = .symbol .rightBracket
      · obtain ⟨rfl, rfl⟩ := brackets
        exact skipDimensions_edge shared
      · refine ⟨first :: second :: shared, fun rest ends => skipDimensions.eq_2 _ ?_⟩
        rintro _ same
        obtain ⟨isFirst, same⟩ := List.cons.inj same
        exact brackets ⟨isFirst, (List.cons.inj same).1⟩

omit inert in
theorem Stopped.within {skip? whole? : List Kind → Option (List Kind)}
    {opens others : List Kind → Prop} {first second : Kind}
    (stopped : Stopped skip? opens shared edge behind left)
    (same : ∀ kinds, whole? (first :: second :: kinds) = skip? kinds)
    (implies : opens shared → others (first :: second :: shared)) :
    Stopped whole? others (first :: second :: shared) edge behind left := by
  cases stopped with
  | before rest isLeft onwards =>
      exact .before rest isLeft fun kinds ends => (same _).trans (onwards kinds ends)
  | beyond closes suffix isOpen => exact .beyond closes suffix (implies isOpen)

omit inert in
theorem Stopped.single {inner : List Kind → Option (List Kind)} {kind : Kind} {others : List Kind}
    (is : ∀ {other : Kind} (rest : List Kind), other.endsShape = true ∨ other = edge →
      skipBase? inner (kind :: others ++ other :: rest) =
        if kind.startsType then some (others ++ other :: rest) else none)
    (skipped : skipBase? inner (kind :: others ++ edge :: behind) = some left) :
    Stopped (skipBase? inner) OpensText (kind :: others) edge behind left := by
  rw [is _ (.inr rfl)] at skipped
  by_cases starts : kind.startsType = true
  · rw [if_pos starts] at skipped
    refine .before others (Option.some.inj skipped).symm fun rest ends => ?_
    rw [is _ (.inl ends), if_pos starts]
  · rw [if_neg starts] at skipped
    cases skipped

theorem Stopped.closed {inner : List Kind → Option (List Kind)}
    (stops : ∀ {left : List Kind}, inner (shared ++ edge :: behind) = some left →
      Stopped inner OpensText shared edge behind left)
    (skipped : (inner (shared ++ edge :: behind)).bind (skipKind? (.symbol .greater)) = some left) :
    Stopped (fun kinds => (inner kinds).bind (skipKind? (.symbol .greater))) OpensText shared edge
      behind left := by
  obtain ⟨middle, isMiddle, closes⟩ := Option.bind_eq_some_iff.mp skipped
  rw [skipKind?_eq_some] at closes
  subst closes
  cases stops isMiddle with
  | before others isLeft onwards =>
      cases others with
      | nil =>
          obtain ⟨rfl, -⟩ := List.cons.inj isLeft
          cases inert
      | cons kind others =>
          obtain ⟨rfl, isRest⟩ := List.cons.inj isLeft
          refine .before others isRest fun rest ends => ?_
          rw [onwards rest ends]
          rfl
  | beyond closes suffix isOpen =>
      exact .beyond closes ((List.suffix_cons _ _).trans suffix) isOpen

theorem skipBase?_stopped {inner : List Kind → Option (List Kind)}
    (stops : ∀ {shared left : List Kind}, inner (shared ++ edge :: behind) = some left →
      Stopped inner OpensText shared edge behind left)
    (skipped : skipBase? inner (shared ++ edge :: behind) = some left) :
    Stopped (skipBase? inner) OpensText shared edge behind left := by
  have away {other : Kind} (ends : other.endsShape = true ∨ other = edge) :
      other ≠ .symbol .less ∧ other ≠ .symbol .colon ∧ other ≠ .identifier := by
    have ends : other.endsShape = true :=
      ends.elim id fun same => same ▸ Kind.endsShape_of_isInert inert
    refine ⟨?_, ?_, ?_⟩ <;> rintro rfl <;> cases ends
  match shared with
  | [] =>
      have nothing : skipBase? inner (edge :: behind) = none := by
        cases edge with
        | keyword word => cases word <;> first | rfl | cases inert
        | symbol sign => cases sign <;> rfl
        | _ => cases inert
      rw [List.nil_append, nothing] at skipped
      cases skipped
  | [kind] =>
      exact .single (fun rest ends => skipBase?_single (.inl (away ends).1)
        (.inl (away ends).2.1)) skipped
  | kind :: second :: others =>
      by_cases angle : second = .symbol .less
      · subst angle
        by_cases isMap : kind = .keyword .mapKw
        · subst isMap
          exact (Stopped.closed inert stops ((skipBase?_map _).symm.trans skipped)).within
            skipBase?_map .within
        by_cases isXml : kind = .keyword .xmlKw
        · subst isXml
          exact (skipElement?_stopped inert skipped).within (fun _ => rfl)
            fun same => same ▸ .here (.inl rfl)
        by_cases isDocument : kind = .keyword .xmlDocumentKw
        · subst isDocument
          exact (skipElement?_stopped inert skipped).within (fun _ => rfl)
            fun same => same ▸ .here (.inr (.inl rfl))
        by_cases isJson : kind = .keyword .jsonKw
        · subst isJson
          exact (skipSchema?_stopped inert skipped).within (fun _ => rfl)
            fun same => same ▸ .here (.inr (.inr rfl))
        exact .single (fun rest ends => skipBase?_single (.inr (by simp [*])) (.inl (by simp)))
          skipped
      · by_cases qualified : second = .symbol .colon ∧ kind = .identifier ∧
          others.head? = some .identifier
        · obtain ⟨rfl, rfl, third⟩ := qualified
          obtain ⟨others, rfl⟩ := List.head?_eq_some_iff.mp third
          exact .before others (Option.some.inj skipped).symm fun rest _ => rfl
        · refine .single (fun rest ends => skipBase?_single (.inl angle) ?_) skipped
          by_cases colon : second = .symbol .colon ∧ kind = .identifier
          · refine .inr (.inr fun third => ?_)
            cases others with
            | nil => exact (away ends).2.2 (Option.some.inj third)
            | cons first others => exact qualified ⟨colon.1, colon.2, third⟩
          · exact (Decidable.not_and_iff_or_not.mp colon).imp_right .inl

theorem skipType?_stopped {room : Nat}
    (skipped : skipType? room (shared ++ edge :: behind) = some left) :
    Stopped (skipType? room) OpensText shared edge behind left := by
  induction room generalizing shared left with
  | zero => cases skipped
  | succ room ih =>
      rw [skipType?, Option.map_eq_some_iff] at skipped
      obtain ⟨middle, isMiddle, rfl⟩ := skipped
      cases skipBase?_stopped inert (fun inside => ih inside) isMiddle with
      | before others isLeft onwards =>
          obtain ⟨last, passed⟩ := skipDimensions_edge others
          refine .before last (isLeft ▸ passed behind (Kind.endsShape_of_isInert inert))
            fun rest ends => ?_
          rw [skipType?, onwards rest ends, Option.map_some, passed rest ends]
      | beyond closes suffix isOpen =>
          exact .beyond closes ((skipDimensions_suffix _).trans suffix) isOpen

end Edges

/-- A text that nothing closes stands in no type. -/
theorem OpensText.skipType?_eq_none {shared : List Kind} (isOpen : OpensText shared) (room : Nat)
    {edge : Kind} (other : edge ≠ .symbol .rightBrace) (behind : List Kind) :
    skipType? room (shared ++ edge :: behind) = none := by
  induction isOpen generalizing room with
  | here binds =>
      cases room with
      | zero => rfl
      | succ room =>
          rcases binds with rfl | rfl | rfl <;>
            simp [skipType?, skipBase?, skipElement?, skipSchema?, other]
  | within _ ih =>
      cases room with
      | zero => rfl
      | succ room =>
          rw [skipType?, List.cons_append, List.cons_append, skipBase?_map, ih]
          rfl

/-- What looks like a variable up to an edge does so whatever stands there, unless a closing
brace closes a text. -/
theorem startsVarDef_edge {room : Nat} {shared behind : List Kind} {edge : Kind}
    (inert : edge.isInert = true) (starts : startsVarDef room (shared ++ edge :: behind) = true) :
    (∀ {other : Kind} (rest : List Kind), other.endsShape = true →
        startsVarDef room (shared ++ other :: rest) = true) ∨
      edge = .symbol .rightBrace ∧ .identifier ∈ behind ∧ OpensText shared := by
  obtain ⟨left, skipped⟩ := startsVarDef_iff.mp starts
  cases skipType?_stopped inert skipped with
  | before others isLeft onwards =>
      refine .inl fun rest ends => startsVarDef_iff.mpr ?_
      cases others with
      | nil =>
          obtain ⟨rfl, -⟩ := List.cons.inj isLeft
          cases inert
      | cons kind others =>
          obtain ⟨rfl, -⟩ := List.cons.inj isLeft
          exact ⟨_, onwards rest ends⟩
  | beyond closes suffix isOpen =>
      exact .inr ⟨closes, suffix.mem List.mem_cons_self, isOpen⟩

theorem OpensText.head {kinds : List Kind} (isOpen : OpensText kinds) :
    ∃ word rest, kinds = .keyword word :: rest ∧
      word ∈ ([.mapKw, .xmlKw, .xmlDocumentKw, .jsonKw] : List Keyword) := by
  cases isOpen with
  | here binds => rcases binds with rfl | rfl | rfl <;> exact ⟨_, _, rfl, by simp⟩
  | within => exact ⟨_, _, rfl, by simp⟩

/-- An expression that starts with the word of a type starts with a type, which looking ahead
passes over if it knows as many levels as the rule has left. -/
theorem skipType?_of_expr {room power : Nat} {parser later : Parser} {value : Expr} {word : Keyword}
    (here : parser.cursor.peek.kind = .keyword word)
    (isWord : word ∈ ([.mapKw, .xmlKw, .xmlDocumentKw, .jsonKw] : List Keyword))
    (ran : expr room power parser = .ok value later) :
    ∃ left, ∀ look, room ≤ look → skipType? look parser.cursor.kinds = some left := by
  cases room with
  | zero => exact absurd ran tooDeep_ne_ok
  | succ room =>
      rw [expr, operation] at ran
      obtain ⟨first, between, ranOperand, -⟩ := bind_ok ran
      have isMember : typeMember ⟨typeName room, expr room⟩ parser = .ok first between := by
        rw [operand, look_bind (startsNegativeLiteral_eq parser), if_neg (by simp [here]),
          look_bind (current_eq parser), here] at ranOperand
        change primary _ parser = _ at ranOperand
        rw [primary, look_bind (peek_eq parser)] at ranOperand
        simp only [here] at ranOperand
        simp only [List.mem_cons, List.not_mem_nil, or_false] at isWord
        rcases isWord with rfl | rfl | rfl | rfl <;> exact ranOperand
      rw [typeMember] at isMember
      obtain ⟨type, atDot, ranType, -⟩ := bind_ok isMember
      refine ⟨skipDimensions atDot.cursor.kinds, fun look within => ?_⟩
      cases look with
      | zero => exact absurd within (Nat.not_succ_le_zero room)
      | succ look =>
          have seen := (Foreseen.iff_of_ok ranType).mp
            (baseType_foreseen fun _ => typeName_foreseen (Nat.le_of_succ_le_succ within))
          rw [skipType?, seen, Option.map_some]

theorem type_of_expr {room power : Nat} {parser later : Parser} {value : Expr} {word : Keyword}
    (here : parser.cursor.peek.kind = .keyword word)
    (isWord : word ∈ ([.mapKw, .xmlKw, .xmlDocumentKw, .jsonKw] : List Keyword))
    (ran : expr room power parser = .ok value later) :
    ∃ look, skipType? look parser.cursor.kinds ≠ none := by
  obtain ⟨left, seen⟩ := skipType?_of_expr here isWord ran
  exact ⟨room, by rw [seen room (Nat.le_refl room)]; exact Option.some_ne_none left⟩

end ServiceLang
