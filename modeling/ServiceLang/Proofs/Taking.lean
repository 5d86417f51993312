import Mathlib.Data.List.Basic
import Mathlib.Data.List.Induction
import ServiceLang.Proofs.Rereading

set_option autoImplicit false

/-! Steps that take certain words. Before these words, and before what may stand behind
them, such a step gives a good value, stops right behind the words, and changes nothing
but the place. -/

namespace ServiceLang

def Kind.next (kinds : List Kind) : Kind :=
  kinds.head?.getD .endOfFile

namespace Step

variable {α β σ : Type}

/-- The words and what stands behind them are ahead of a parser with these options. -/
structure Before (options : Options) (words : List Word) (behind : List Kind → Prop)
    (parser : Parser) (rest : List Word) : Prop where
  options : parser.options = options
  ahead : parser.words = words ++ rest
  follows : behind (rest.map Word.kind)

/-- The step takes these words as a good value, whatever allowed kinds follow. -/
def Takes (options : Options) (step : Step α) (words : List Word) (good : α → Prop)
    (behind : List Kind → Prop) : Prop :=
  ∀ ⦃parser rest⦄, Before options words behind parser rest →
    ∃ value cursor, step parser = .ok value { parser with cursor := cursor } ∧ good value ∧
      cursor.ahead = parser.cursor.ahead.drop words.length

variable {options : Options} {words : List Word} {good : α → Prop} {behind : List Kind → Prop}

namespace Before

variable {parser : Parser} {rest : List Word} (before : Before options words behind parser rest)

include before

theorem passed {front back : List Word} (split : words = front ++ back) {cursor : Cursor}
    (drops : cursor.ahead = parser.cursor.ahead.drop front.length) :
    Before options back behind { parser with cursor := cursor } rest := by
  refine ⟨before.options, ?_, before.follows⟩
  change cursor.ahead.map _ = _
  rw [drops, List.map_drop]
  change parser.words.drop front.length = _
  rw [before.ahead, split, List.append_assoc, List.drop_left]

theorem front {front back : List Word} {middle : List Kind → Prop} (split : words = front ++ back)
    (follows : ∀ rest, behind rest → middle (back.map Word.kind ++ rest)) :
    Before options front middle parser (back ++ rest) := by
  refine ⟨before.options, ?_, ?_⟩
  · rw [before.ahead, split, List.append_assoc]
  · rw [List.map_append]
    exact follows _ before.follows

theorem kinds : parser.cursor.kinds = words.map Word.kind ++ rest.map Word.kind := by
  rw [parser.kinds_eq, before.ahead, List.map_append]

theorem kind_peek : parser.cursor.peek.kind = Kind.next (words.map Word.kind ++ rest.map Word.kind) := by
  rw [Cursor.kind_peek, before.kinds]
  rfl

end Before

namespace Takes

theorem pure {value : α} (isGood : good value) :
    Takes options (Pure.pure value) [] good behind :=
  fun parser _ _ => ⟨value, parser.cursor, rfl, isGood, rfl⟩

theorem bind {first : Step α} {next : α → Step β} {front back : List Word}
    {goodFirst : α → Prop} {good : β → Prop} {middle : List Kind → Prop}
    (here : Takes options first front goodFirst middle) (split : words = front ++ back)
    (follows : ∀ rest, behind rest → middle (back.map Word.kind ++ rest))
    (onwards : ∀ value, goodFirst value → Takes options (next value) back good behind) :
    Takes options (first >>= next) words good behind := by
  intro parser rest before
  obtain ⟨value, cursor, ranFirst, isGood, drops⟩ := here (before.front split follows)
  obtain ⟨result, last, ranNext, isGoodResult, dropsNext⟩ :=
    onwards value isGood (before.passed split drops)
  refine ⟨result, last, (bind_of_ok ranFirst).trans ranNext, isGoodResult, ?_⟩
  rw [dropsNext, split, List.length_append, ← List.drop_drop]
  exact congrArg (List.drop back.length) drops

/-- A step behind which anything may stand. -/
theorem andThen {first : Step α} {next : α → Step β} {front back : List Word}
    {goodFirst : α → Prop} {good : β → Prop}
    (here : Takes options first front goodFirst fun _ => True) (split : words = front ++ back)
    (onwards : ∀ value, goodFirst value → Takes options (next value) back good behind) :
    Takes options (first >>= next) words good behind :=
  bind here split (fun _ _ => trivial) onwards

theorem map {first : Step α} {make : α → β} {goodFirst : α → Prop} {good : β → Prop}
    (here : Takes options first words goodFirst behind)
    (enough : ∀ value, goodFirst value → good (make value)) :
    Takes options (do return make (← first)) words good behind :=
  bind here (List.append_nil words).symm (fun _ follows => follows) fun value isGood =>
    pure (enough value isGood)

theorem of_eq {step other : Step α} (takes : Takes options other words good behind)
    (same : ∀ parser rest, Before options words behind parser rest → step parser = other parser) :
    Takes options step words good behind := by
  intro parser rest before
  rw [same parser rest before]
  exact takes before

theorem weaken {step : Step α} {better : α → Prop} {wider : List Kind → Prop}
    (takes : Takes options step words better wider) (enough : ∀ value, better value → good value)
    (follows : ∀ rest, behind rest → wider rest) : Takes options step words good behind := by
  intro parser rest before
  obtain ⟨value, cursor, ran, isGood, drops⟩ :=
    takes ⟨before.options, before.ahead, follows _ before.follows⟩
  exact ⟨value, cursor, ran, enough value isGood, drops⟩

/-! ### Looking -/

theorem check {kind : Kind} {next : Bool → Step α} (answer : Bool)
    (sees : ∀ rest, behind rest → (Kind.next (words.map Word.kind ++ rest) == kind) = answer)
    (takes : Takes options (next answer) words good behind) :
    Takes options (Step.check kind >>= next) words good behind := by
  refine takes.of_eq fun parser rest before => ?_
  rw [look_bind (check_eq parser kind), before.kind_peek, sees _ before.follows]

theorem currentOf {next : Kind → Step α} (allowed : Kind → Prop)
    (sees : ∀ rest, behind rest → allowed (Kind.next (words.map Word.kind ++ rest)))
    (takes : ∀ kind, allowed kind → Takes options (next kind) words good behind) :
    Takes options (Step.current >>= next) words good behind := by
  intro parser rest before
  have seen := sees _ before.follows
  rw [← before.kind_peek] at seen
  rw [look_bind (current_eq parser)]
  exact takes _ seen before

theorem current {next : Kind → Step α} (kind : Kind)
    (sees : ∀ rest, behind rest → Kind.next (words.map Word.kind ++ rest) = kind)
    (takes : Takes options (next kind) words good behind) :
    Takes options (Step.current >>= next) words good behind :=
  currentOf (fun seen => seen = kind) sees fun _ same => same ▸ takes

theorem peek {next : Token → Step α} (kind : Kind)
    (sees : ∀ rest, behind rest → Kind.next (words.map Word.kind ++ rest) = kind)
    (takes : ∀ token : Token, token.kind = kind → Takes options (next token) words good behind) :
    Takes options (Step.peek >>= next) words good behind := by
  intro parser rest before
  rw [look_bind (peek_eq parser)]
  exact takes _ (before.kind_peek.trans (sees _ before.follows)) before

/-- A look at two kinds, of which the second one matters behind the first. -/
theorem pair {first second : Kind} {yes no : Step α} (answer : Bool)
    (sees : ∀ rest, behind rest →
      (Kind.next (words.map Word.kind ++ rest) == first &&
        (words.map Word.kind ++ rest)[1]?.getD .endOfFile == second) = answer)
    (takes : Takes options (if answer then yes else no) words good behind) :
    Takes options
      (do if (← Step.check first) && (← kindNth 1) == second then yes else no)
      words good behind := by
  refine takes.of_eq fun parser rest before => ?_
  rw [look_bind (check_eq parser first), look_bind (kindNth_eq parser 1), before.kind_peek,
    Cursor.kind_peekNth, before.kinds, sees _ before.follows]

theorem spanned {start : Span} {make : Span → α} (isGood : ∀ span, good (make span)) :
    Takes options (do return make (← Step.spanFrom start)) [] good behind :=
  fun parser _ _ => ⟨_, parser.cursor, look_bind (spanFrom_eq parser start), isGood _, rfl⟩

/-! ### Consuming -/

theorem token {step : Step α} {word : Word}
    (takes : ∀ parser : Parser, parser.cursor.peek.word = word →
      ∃ value, step parser = .ok value parser.advance ∧ good value) :
    Takes options step [word] good behind := by
  intro parser rest before
  obtain ⟨value, ran, isGood⟩ := takes parser (Parser.word_peek before.ahead)
  refine ⟨value, parser.cursor.advance, ran, isGood, ?_⟩
  rw [Cursor.ahead_advance, List.length_singleton, List.drop_one]

theorem expect {kind : Kind} {word : Word} (same : word.kind = kind) :
    Takes options (Step.expect kind) [word] (fun token => token.word = word) behind := by
  refine token fun parser here => ?_
  have kindHere : parser.cursor.peek.kind = kind := (Token.kind_of_word here).trans same
  exact ⟨_, expect_of_kind kindHere, here⟩

theorem symbol (sign : Symbol) :
    Takes options (expectSymbol sign) [.symbol sign] (fun token => token.word = .symbol sign)
      behind :=
  expect rfl

theorem identifier (name : Identifier) :
    Takes options expectIdentifier [.name name] (fun found => found.name = name.name) behind := by
  refine token fun parser here => ?_
  have kindHere : parser.cursor.peek.kind = .identifier := Token.kind_of_word here
  rw [Token.word_of_identifier kindHere] at here
  exact ⟨_, expectIdentifier_of_kind kindHere, (Word.mk.inj here).2⟩

theorem eat?_of_word {kind : Kind} {word : Word} (same : word.kind = kind) :
    Takes options (Step.eat? kind) [word] (fun found => found.isSome = true) behind := by
  refine token fun parser here => ?_
  have kindHere : parser.cursor.peek.kind = kind := (Token.kind_of_word here).trans same
  exact ⟨_, eat?_of_kind kindHere, rfl⟩

theorem eat?_of_next {kind : Kind} (other : ∀ rest, behind rest → Kind.next rest ≠ kind) :
    Takes options (Step.eat? kind) [] (fun found => found = none) behind := by
  intro parser rest before
  have otherHere : parser.cursor.peek.kind ≠ kind := by
    rw [before.kind_peek]
    exact other _ before.follows
  exact ⟨none, parser.cursor, eat?_of_other otherHere, rfl, rfl⟩

theorem eat_of_word {kind : Kind} {word : Word} (same : word.kind = kind) :
    Takes options (Step.eat kind) [word] (fun found => found = true) behind :=
  (eat?_of_word same).map fun _ isSome => isSome

theorem eat_of_next {kind : Kind} (other : ∀ rest, behind rest → Kind.next rest ≠ kind) :
    Takes options (Step.eat kind) [] (fun found => found = false) behind :=
  (eat?_of_next other).map fun _ none => congrArg Option.isSome none

/-! ### Optional parts -/

theorem ifAt_of_next {kind : Kind} {part : Step α} {goodSome : Option α → Prop}
    (sees : ∀ rest, behind rest → Kind.next (words.map Word.kind ++ rest) = kind)
    (takes : Takes options part words (fun value => goodSome (some value)) behind) :
    Takes options (ifAt kind part) words goodSome behind :=
  check true (fun rest follows => beq_iff_eq.mpr (sees rest follows))
    (takes.map fun _ isGood => isGood)

theorem ifAt_of_other {kind : Kind} {part : Step α} {good : Option α → Prop} (isGood : good none)
    (other : ∀ rest, behind rest → Kind.next rest ≠ kind) :
    Takes options (ifAt kind part) [] good behind :=
  check false (fun rest follows => beq_eq_false_iff_ne.mpr (other rest follows)) (pure isGood)

end Takes

/-! ### Repeating -/

/-- On these words the step comes to a loop whose turns go on behind them. -/
def Reaches (options : Options) (step : Step σ) (turn : σ → Step (ForInStep σ))
    (words : List Word) (good : σ → Prop) (behind : List Kind → Prop) : Prop :=
  ∀ ⦃parser rest⦄, Before options words behind parser rest →
    ∃ state cursor, step parser = loop turn state { parser with cursor := cursor } ∧ good state ∧
      cursor.ahead = parser.cursor.ahead.drop words.length

def Goes (good : σ → Prop) : ForInStep σ → Prop
  | .yield state => good state
  | .done _ => False

def Stops (good : σ → Prop) : ForInStep σ → Prop
  | .done state => good state
  | .yield _ => False

namespace Reaches

variable {turn : σ → Step (ForInStep σ)} {step : Step σ} {good better : σ → Prop}

theorem of_takes {first : Step σ} (takes : Takes options first words good behind) :
    Reaches options (first >>= loop turn) turn words good behind := by
  intro parser rest before
  obtain ⟨state, cursor, ran, isGood, drops⟩ := takes before
  exact ⟨state, cursor, bind_of_ok ran, isGood, drops⟩

theorem of_loop {state : σ} (isGood : good state) :
    Reaches options (loop turn state) turn [] good behind :=
  fun parser _ _ => ⟨state, parser.cursor, rfl, isGood, rfl⟩

theorem go {front back : List Word} {middle : List Kind → Prop}
    (reaches : Reaches options step turn front better middle) (advancing : Advancing turn)
    (split : words = front ++ back)
    (follows : ∀ rest, behind rest → middle (back.map Word.kind ++ rest))
    (goes : ∀ state, better state → Takes options (turn state) back (Goes good) behind) :
    Reaches options step turn words good behind := by
  intro parser rest before
  obtain ⟨state, cursor, comes, isBetter, drops⟩ := reaches (before.front split follows)
  obtain ⟨decision, last, ran, isGood, dropsTurn⟩ :=
    goes state isBetter (before.passed split drops)
  cases decision with
  | done state => cases isGood
  | yield next =>
      refine ⟨next, last, ?_, isGood, ?_⟩
      · rw [comes]
        exact loop_of_yield ran (advancing _ _ _ _ ran)
      · rw [dropsTurn, split, List.length_append, ← List.drop_drop]
        exact congrArg (List.drop back.length) drops

theorem stop {front back : List Word} {middle : List Kind → Prop}
    (reaches : Reaches options step turn front better middle) (split : words = front ++ back)
    (follows : ∀ rest, behind rest → middle (back.map Word.kind ++ rest))
    (stops : ∀ state, better state → Takes options (turn state) back (Stops good) behind) :
    Takes options step words good behind := by
  intro parser rest before
  obtain ⟨state, cursor, comes, isBetter, drops⟩ := reaches (before.front split follows)
  obtain ⟨decision, last, ran, isGood, dropsTurn⟩ :=
    stops state isBetter (before.passed split drops)
  cases decision with
  | yield next => cases isGood
  | done final =>
      refine ⟨final, last, ?_, isGood, ?_⟩
      · rw [comes]
        exact loop_of_done ran
      · rw [dropsTurn, split, List.length_append, ← List.drop_drop]
        exact congrArg (List.drop back.length) drops

end Reaches

/-! ### Lists -/

namespace Takes

open Rereads (withCommas listed_append)

variable {item : Step α} {ε : Type} {erased : α → ε} {written : α → List Word}
  {ends : List Kind → Prop}

theorem reaches_withCommas (orderly : Orderly (fun _ => True) item)
    (comma : ∀ rest, ends (.symbol .comma :: rest)) (items : List α)
    (takes : ∀ value ∈ items, Takes options item (written value)
      (fun found => erased found = erased value) ends) :
    Reaches options (commaSeparated item) (nextListed item) (withCommas written items)
      (fun found => found.map erased = items.map erased) behind := by
  induction items using List.reverseRecOn generalizing behind with
  | nil => exact .of_loop rfl
  | append_singleton items last ih =>
      have earlier : ∀ value ∈ items, Takes options item (written value)
          (fun found => erased found = erased value) ends :=
        fun value member => takes value (List.mem_append_left _ member)
      have split : withCommas written (items ++ [last]) =
          withCommas written items ++ (written last ++ [.symbol .comma]) := by
        simp [withCommas]
      have before : Reaches options (commaSeparated item) (nextListed item)
          (withCommas written items) (fun found => found.map erased = items.map erased)
          fun _ => True :=
        ih earlier
      refine before.go (advancing_of_turn (.nextListed orderly)) split (fun _ _ => trivial)
        fun found same => ?_
      refine .bind (takes last (List.mem_append_right _ List.mem_cons_self)) rfl
        (fun rest _ => comma rest) fun value sameLast => ?_
      refine .andThen (.eat_of_word rfl) rfl fun eaten isEaten => ?_
      rw [isEaten]
      refine .pure ?_
      change (found ++ [value]).map erased = (items ++ [last]).map erased
      rw [List.map_append, List.map_append, same, List.map_singleton, List.map_singleton, sameLast]

theorem commaSeparated (orderly : Orderly (fun _ => True) item)
    (comma : ∀ rest, ends (.symbol .comma :: rest))
    (follows : ∀ rest, behind rest → ends rest ∧ Kind.next rest ≠ .symbol .comma)
    (items : List α) (nonempty : items ≠ [])
    (takes : ∀ value ∈ items, Takes options item (written value)
      (fun found => erased found = erased value) ends) :
    Takes options (Step.commaSeparated item) (Word.listed (items.map written))
      (fun found => found.map erased = items.map erased) behind := by
  obtain ⟨earlier, last, rfl⟩ := (List.eq_nil_or_concat' items).resolve_left nonempty
  have reaches : Reaches options (Step.commaSeparated item) (nextListed item)
      (withCommas written earlier) (fun found => found.map erased = earlier.map erased)
      fun _ => True :=
    reaches_withCommas orderly comma earlier fun value member =>
      takes value (List.mem_append_left _ member)
  refine reaches.stop (listed_append written earlier last) (fun _ _ => trivial) fun found same => ?_
  refine .bind (takes last (List.mem_append_right _ List.mem_cons_self))
    (List.append_nil _).symm (fun rest ends => (follows rest ends).1) fun value sameLast => ?_
  refine .bind (.eat_of_next fun rest ends => (follows rest ends).2) rfl
    (fun _ ends => ends) fun eaten isEaten => ?_
  rw [isEaten]
  refine .pure ?_
  change (found ++ [value]).map erased = (earlier ++ [last]).map erased
  rw [List.map_append, List.map_append, same, List.map_singleton, List.map_singleton, sameLast]

theorem closedList {close : Symbol} (orderly : Orderly (fun _ => True) item) (items : List α)
    (takes : ∀ value ∈ items, Takes options item (written value)
      (fun found => erased found = erased value) ends)
    (comma : ∀ rest, ends (.symbol .comma :: rest))
    (closes : ∀ rest, ends (.symbol close :: rest)) (notComma : close ≠ .comma)
    (starts : ∀ value ∈ items, ∀ rest,
      Kind.next ((written value).map Word.kind ++ rest) ≠ .symbol close) :
    Takes options (Step.closedList close item)
      (Word.listed (items.map written) ++ [.symbol close])
      (fun found => found.1.map erased = items.map erased) behind := by
  have inside : Takes options (listBefore close item) (Word.listed (items.map written))
      (fun found => found.map erased = items.map erased)
      fun kinds => ∃ rest, kinds = .symbol close :: rest := by
    cases items with
    | nil =>
        refine .check true (fun rest here => ?_) (.pure rfl)
        obtain ⟨others, rfl⟩ := here
        exact beq_self_eq_true _
    | cons first others =>
        refine .check false (fun rest _ => ?_)
          (commaSeparated orderly comma ?_ (first :: others) (List.cons_ne_nil _ _) takes)
        · refine beq_eq_false_iff_ne.mpr ?_
          rw [List.map_cons, Word.listed, List.map_append, List.append_assoc]
          exact starts first List.mem_cons_self _
        · rintro rest ⟨others, rfl⟩
          refine ⟨closes others, fun same => notComma ?_⟩
          exact Kind.symbol.inj same
  refine inside.bind rfl (fun rest _ => ⟨rest, rfl⟩) fun found same => ?_
  exact .map (.symbol close) fun _ _ => same

end Takes

end Step

end ServiceLang
