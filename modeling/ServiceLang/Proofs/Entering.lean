import ServiceLang.Proofs.Opening

set_option autoImplicit false

/-! What stands in front of a statement does not matter to it, as it does not matter to a
definition. -/

namespace ServiceLang

namespace Step.Fresh

theorem isCast : Fresh False Step.isCast :=
  look _ isCast_eq fun near => by rw [near.kinds, near.options]

theorem isInvocation : Fresh False Step.isInvocation :=
  look _ isInvocation_eq fun near => by rw [near.kinds]

end Step.Fresh

namespace Grammar

open Step

variable {parts : ExprParts}

/-- At the end there is no literal, and no token to move over. -/
theorem plainLiteral_of_end {parser : Parser} (atEnd : parser.cursor.ahead = []) :
    plainLiteral parser = .error (.error .invalidLiteral parser.cursor.peek.span
      (Diagnostic.wantedFound "literal" Kind.endOfFile.description)) parser := by
  have still : parser.advance = parser := by
    rw [Parser.advance, Cursor.advance_of_remaining_zero _ (List.length_eq_zero_iff.mpr atEnd)]
  have isEnd : parser.cursor.peek.kind = .endOfFile := parser.cursor.peek_isEnd_iff.mpr atEnd
  have none : literalValue? parser.cursor.peek = none := by rw [literalValue?, isEnd]
  rw [plainLiteral, bind_of_ok (advance_eq parser), still, literalOf, none, isEnd]
  rfl

theorem plainLiteral_fresh : Fresh True plainLiteral := by
  intro left right near
  by_cases atEnd : left.cursor.ahead = []
  · right; left
    refine ⟨_, plainLiteral_of_end atEnd, ?_⟩
    rw [plainLiteral_of_end (near.atEnd atEnd), near.peek]
  · left
    have moved : Step.advance right = Step.advance left := by
      rw [advance_eq, advance_eq, near.peek, near.advance atEnd]
    exact bind_of_eq moved

theorem nameReference_fresh : Fresh True nameReference :=
  .bind .identifier

theorem primary_fresh : Fresh True (primary parts) := by
  apply Fresh.behind .peek
  intro token
  split
  · exact plainLiteral_fresh
  · exact plainLiteral_fresh
  · exact plainLiteral_fresh
  · exact plainLiteral_fresh
  · exact plainLiteral_fresh
  · exact .bind (.expect _ nofun)
  · exact .bind (.symbol _)
  · exact .bind (.symbol _)
  · exact .bind nameReference_fresh
  · exact .fail _
  · exact .ite (.bind (baseType_fresh _)) (.failAt _)

theorem operand_fresh : Fresh True (operand parts) := by
  have number : Fresh False startsNegativeLiteral :=
    .look _ startsNegativeLiteral_eq fun near => by rw [near.peek, near.peekNth]
  apply Fresh.behind number
  intro isNumber
  apply Fresh.ite
  · exact .bind (.bind (.symbol _))
  · apply Fresh.behind .current
    intro kind
    split
    · exact .bind (.symbol _)
    · split
      · exact .bind (.symbol _)
      · exact .behind .isCast fun _ => .ite (.bind (.symbol _)) (.bind (.symbol _))
      · exact primary_fresh

theorem expr_fresh (room power : Nat) : Fresh True (expr room power) := by
  cases room with
  | zero => exact .tooDeep
  | succ room => exact .bind operand_fresh

theorem plainStatement_fresh (room : Nat) : Fresh True (plainStatement (.within room)) := by
  apply Fresh.behind .isVarDef
  intro isVariable
  apply Fresh.ite
  · exact .bind (.bind (typeName_fresh room))
  · apply Fresh.behind .isInvocation
    intro isCall
    apply Fresh.ite
    · exact .bind (.bind nameReference_fresh)
    · exact .behind .current fun _ => .ite (.bind (expr_fresh room 0)) (.failAt _)

theorem statement_fresh (room : Nat) : Fresh True (statement room) := by
  apply Fresh.behind .current
  intro kind
  split
  · exact .bind (.keyword _)
  · exact .bind (.keyword _)
  · exact .bind (.keyword _)
  · exact .bind (.keyword _)
  · exact .bind (.keyword _)
  · exact .bind (.keyword _)
  · exact .bind (.keyword _)
  · exact .bind (.keyword _)
  · exact .bind (.keyword _)
  · exact .bind (.keyword _)
  · exact .bind (.keyword _)
  · exact .bind (.keyword _)
  · exact .bind (.keyword _)
  · exact .bind (.keyword _)
  · exact .bind (.bind (.keyword _))
  · exact plainStatement_fresh room

end Grammar

end ServiceLang
