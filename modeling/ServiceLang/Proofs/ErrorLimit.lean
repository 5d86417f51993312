import ServiceLang.Proofs.AbreastDefinition
import ServiceLang.Proofs.Reporting

set_option autoImplicit false

/-! The limit on diagnostics only cuts their list. A parse with a limit and one without keep
abreast: no rule looks at what has been reported, and what is dropped as a repetition does
not count against the limit. -/

namespace ServiceLang

def Options.withLimit (options : Options) (limit : Option Nat) : Options :=
  { options with maxErrors := limit }

namespace Matching

/-- A parser with a limit beside one without. Up to the limit both have reported the same; from
then on the first one has a note in place of what follows. -/
structure Cut (limit : Nat) (left right : Parser) : Prop where
  limited : left.options.maxErrors = some limit
  unlimited : right.Unlimited
  course :
    (left.limitHit = false ∧ left.diagnostics = right.diagnostics ∧
        left.diagnostics.size ≤ limit ∧ left.reportedAt = right.reportedAt) ∨
      (left.limitHit = true ∧ ∃ next, right.diagnostics.entries[limit]? = some next ∧
        left.diagnostics.entries = right.diagnostics.entries.take limit ++ [next.closing limit])

variable {limit : Nat}

theorem entries_report_of_unlimited {parser : Parser} (unlimited : parser.Unlimited)
    (diagnostic : Diagnostic) :
    (parser.report diagnostic).Unlimited ∧
      ((parser.report diagnostic).diagnostics.entries = parser.diagnostics.entries ∨
        (parser.report diagnostic).diagnostics.entries =
          parser.diagnostics.entries ++ [diagnostic]) := by
  by_cases repeated : parser.Repeats diagnostic
  · rw [Parser.report_of_repeats repeated]
    exact ⟨unlimited, .inl rfl⟩
  · rw [unlimited.report repeated]
    exact ⟨⟨unlimited.below, unlimited.noLimit⟩, .inr rfl⟩

theorem Cut.report {left right : Parser} (cut : Cut limit left right) (diagnostic : Diagnostic) :
    Cut limit (left.report diagnostic) (right.report diagnostic) := by
  obtain ⟨stays, more⟩ := entries_report_of_unlimited cut.unlimited diagnostic
  refine ⟨?_, stays, ?_⟩
  · rw [Parser.options_report]
    exact cut.limited
  rcases cut.course with ⟨below, same, within, remembered⟩ | ⟨hit, next, found, entries⟩
  · by_cases repeated : left.Repeats diagnostic
    · have otherRepeated : right.Repeats diagnostic := ⟨repeated.1, remembered ▸ repeated.2⟩
      rw [Parser.report_of_repeats repeated, Parser.report_of_repeats otherRepeated]
      exact .inl ⟨below, same, within, remembered⟩
    have isNew : ¬right.Repeats diagnostic := fun again => repeated ⟨again.1, remembered ▸ again.2⟩
    have offsets : left.offsetsWith diagnostic = right.offsetsWith diagnostic := by
      rw [Parser.offsetsWith, Parser.offsetsWith, remembered]
    rw [cut.unlimited.report isNew]
    by_cases room : left.diagnostics.size < limit
    · have hasRoom : left.HasRoom := fun other bound => by
        rw [cut.limited] at bound
        cases bound
        exact room
      rw [Parser.report_of_room below repeated hasRoom]
      refine .inl ⟨below, congrArg (Report.push · diagnostic) same, ?_, offsets⟩
      rw [Report.size, Report.push, List.length_append]
      exact room
    · have full : limit = left.diagnostics.entries.length := Nat.le_antisymm (Nat.not_lt.mp room) within
      rw [Parser.report_of_full below repeated cut.limited (Nat.not_lt.mp room)]
      refine .inr ⟨rfl, diagnostic, ?_, ?_⟩
      · rw [Report.push, full, same, List.getElem?_concat_length]
      · rw [Report.push, Report.push, full, same, List.take_left]
  · have inside : limit < right.diagnostics.entries.length :=
      (List.getElem?_eq_some_iff.mp found).1
    rw [Parser.report_of_limitHit hit]
    refine .inr ⟨hit, next, ?_⟩
    rcases more with stayed | added
    · rw [stayed]
      exact ⟨found, entries⟩
    · rw [added, List.getElem?_append_left inside, List.take_append_of_le_length (Nat.le_of_lt inside)]
      exact ⟨found, entries⟩

def cut (limit : Nat) : Matching where
  toView := .exact
  Records := Cut limit
  moved _ _ records := ⟨records.limited, ⟨records.unlimited.below, records.unlimited.noLimit⟩,
    records.course⟩
  reported records same spans := Diagnostic.eq_of_unplaced same spans ▸ records.report _

theorem heard_self (tokens : List Token) : List.Forall₂ (cut limit).Heard tokens tokens :=
  List.forall₂_same.mpr fun _ _ => ⟨rfl, fun _ => ⟨rfl, rfl, rfl⟩⟩

end Matching

/-- The limit cuts the list of lexical errors too. -/
theorem cut_ofTokens (tokens : List Token) (errors : List LexicalError) (options : Options)
    (limit : Nat) :
    Matching.Cut limit (.ofTokens tokens errors (options.withLimit (some limit)))
      (.ofTokens tokens errors (options.withLimit none)) := by
  refine List.foldl_rel ?_ fun problem _ _ _ cut => cut.report problem.toDiagnostic
  exact ⟨rfl, ⟨rfl, rfl⟩, .inl ⟨rfl, rfl, Nat.zero_le limit, rfl⟩⟩

/-- A parse with a limit on diagnostics gives the tree of one without, and their reports are
those of two parsers that are still abreast. -/
theorem cut_of_parseWith (source : String) (options : Options) (limit : Nat) :
    (parseWith source (options.withLimit (some limit))).1 =
      (parseWith source (options.withLimit none)).1 ∧
    ∃ left right, Matching.Cut limit left right ∧
      (parseWith source (options.withLimit (some limit))).2 = left.diagnostics ∧
      (parseWith source (options.withLimit none)).2 = right.diagnostics := by
  have parsers : (Matching.cut limit).Parsers
      (.ofSource source (options.withLimit (some limit)))
      (.ofSource source (options.withLimit none)) :=
    Matching.parsers_ofTokens (Matching.heard_self _) (.inr ⟨rfl, rfl, rfl⟩) rfl
      (fun _ => rfl) (cut_ofTokens _ _ options limit)
  obtain ⟨trees, later, other, behind, reported, otherReported⟩ := Matching.readUnit_agree parsers
    (Parser.depth_ofSource _ _) (Parser.depth_ofSource _ _)
  exact ⟨View.eq_of_agree_exact trees, later, other, behind.records, reported, otherReported⟩

/-- A limit on diagnostics changes nothing but their list, and cuts it off: what is behind the
limit is replaced by one note, at the place of the first diagnostic it stands for. -/
theorem parseWith_maxErrors (source : String) (options : Options) (limit : Nat) :
    (parseWith source (options.withLimit (some limit))).1 =
      (parseWith source (options.withLimit none)).1 ∧
    ∀ entries, (parseWith source (options.withLimit none)).2.entries = entries →
      (entries.length ≤ limit →
        (parseWith source (options.withLimit (some limit))).2.entries = entries) ∧
      (∀ inside : limit < entries.length,
        (parseWith source (options.withLimit (some limit))).2.entries =
          entries.take limit ++
            [.error .tooManyErrors entries[limit].span
              ("too many errors, stopped reporting after " ++ toString limit)]) := by
  obtain ⟨same, left, right, cut, reported, otherReported⟩ :=
    cut_of_parseWith source options limit
  refine ⟨same, ?_⟩
  rintro entries rfl
  rw [reported, otherReported]
  rcases cut.course with ⟨-, equal, within, -⟩ | ⟨-, next, found, closed⟩
  · rw [equal] at within ⊢
    exact ⟨fun _ => rfl, fun inside => absurd inside (Nat.not_lt.mpr within)⟩
  · obtain ⟨inside, rfl⟩ := List.getElem?_eq_some_iff.mp found
    exact ⟨fun within => absurd inside (Nat.not_lt.mpr within), fun _ => closed⟩

/-! ### The verdict under a limit -/

/-- The note that closes a list is an error, whatever it stands for: a list that is cut has
errors, and one that is not cut has those of the other parser. -/
theorem Matching.Cut.hasErrors {limit : Nat} {left right : Parser}
    (cut : Matching.Cut limit left right) :
    left.diagnostics.hasErrors =
      (right.diagnostics.hasErrors || decide (limit < right.diagnostics.size)) := by
  rcases cut.course with ⟨-, same, within, -⟩ | ⟨-, next, found, closed⟩
  · rw [← same, decide_eq_false (Nat.not_lt.mpr within), Bool.or_false]
  · have inside : limit < right.diagnostics.size := (List.getElem?_eq_some_iff.mp found).1
    have closing : (next.closing limit).isError = true := rfl
    rw [decide_eq_true inside, Bool.or_true, Report.hasErrors, closed, List.any_append,
      List.any_cons, closing, Bool.true_or, Bool.or_true]

/-- Under a limit a source has errors when it has some without one, and also when it has more
diagnostics than the limit allows. Warnings count for that, so that more of them than the limit
allows are enough. -/
theorem hasErrors_withLimit (source : String) (options : Options) (limit : Nat) :
    (parseWith source (options.withLimit (some limit))).2.hasErrors =
      ((parseWith source (options.withLimit none)).2.hasErrors ||
        decide (limit < (parseWith source (options.withLimit none)).2.size)) := by
  obtain ⟨-, left, right, cut, reported, otherReported⟩ := cut_of_parseWith source options limit
  rw [reported, otherReported]
  exact cut.hasErrors

/-- A variable whose text has an unknown escape gives a warning and no error. Under a limit of
zero there is an error in place of the warning. -/
theorem hasErrors_unknownEscape :
    (parseWith "string s = \"\\q\";" (Options.withLimit {} none)).2.hasErrors = false ∧
    (parseWith "string s = \"\\q\";" (Options.withLimit {} (some 0))).2.hasErrors = true := by
  decide +kernel

end ServiceLang
