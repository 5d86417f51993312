import ServiceLang.Proofs.Ending

set_option autoImplicit false

/-! The counter of open levels. No rule that gives up, and no recovery behind it, leaves a level
open: a parse ends with none. -/

namespace ServiceLang

open Grammar

/-- Every rule that can be part of itself, or has such parts, is counted here. -/
structure Parser.CountsLevels (parser : Parser) : Prop where
  typeName : IsCounted typeName parser
  expr : ∀ power, IsCounted (fun room => expr room power) parser
  body : ∀ kind, IsCounted (fun room => body room kind) parser
  statement : IsCounted statement parser
  annotationValue : IsCounted annotationValue parser
  attachment : IsCounted attachment parser
  definition : IsCounted definition parser
  sourceUnit : IsCounted sourceUnit parser

theorem Parser.countsLevels (parser : Parser) : parser.CountsLevels where
  typeName := isCounted_of_levels typeName_levels parser
  expr power := isCounted_of_levels (fun enough => expr_levels enough power) parser
  body kind := isCounted_of_levels (fun enough => body_levels enough kind) parser
  statement :=
    isCounted_of_levels (fun enough => statementWith_levels (stmtParts_hasLevels enough)) parser
  annotationValue := isCounted_of_levels annotationValue_levels parser
  attachment := isCounted_of_levels attachment_levels parser
  definition := isCounted_of_levels definition_levels parser
  sourceUnit := sourceUnit_isCounted parser

/-- Trees nest no deeper than the options allow. The counter of open levels, which decides about
that, never passes the limit; it is back at zero when the unit is finished, and behind each rule
back where it was, whether the rule has given a value or failed. With some levels open a rule
does just what it does with the levels that are left, so it is refused at the limit and only
there. -/
theorem parseTokens_nesting (tokens : List Token) (options : Options) :
    (parseTokens tokens options).1.depth ≤ options.maxDepth ∧
    (∃ unit later,
      counted sourceUnit (.ofTokens tokens [] options) = .ok unit later ∧
      parseTokens tokens options = (unit, later.diagnostics) ∧ later.depth = 0) ∧
    ∀ parser : Parser, parser.depth ≤ parser.options.maxDepth ∧ parser.CountsLevels := by
  obtain ⟨unit, later, ran⟩ :=
    sourceUnit_succeeds options.maxDepth (.ofTokens tokens [] options)
  have parsed := parseTokens_of_ok ran
  -- What runs counts its levels in the state. As none is open at the start, it does what the rule
  -- does that is given all levels, of which the bound on the tree is known.
  refine ⟨?_, ⟨unit, later, ?_, parsed, ?_⟩, fun parser => ⟨parser.depth_le, parser.countsLevels⟩⟩
  · rw [parsed]
    exact (sourceUnit_levels (Nat.lt_succ_self options.maxDepth)).values ran
  · exact (sourceUnit_isCounted (.ofTokens tokens [] options)).does.trans ran
  · have closes := (sourceUnit_isCounted (.ofTokens tokens [] options)).closes.depth
    rwa [Step.after, (sourceUnit_isCounted (.ofTokens tokens [] options)).does.trans ran] at closes

end ServiceLang
