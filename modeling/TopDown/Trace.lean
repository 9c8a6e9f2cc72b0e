import TopDown.Parsing.Parser

/-!
# Traces

What an analysis and a parse report about their course: the size of the grammar, the tables after
each sweep, the overlaps, and the rules that are expanded.
-/

namespace TopDown

inductive Level where
  | debug
  | trace
deriving DecidableEq, Repr

inductive Event where
  | analyzing (rules nonterminals terminals : Nat)
  | nullableSweep (number : Nat) (table : Array Bool)
  | nullableConverged (sweeps : Nat)
  | firstSweep (number : Nat) (table : Array LookaheadSet)
  | firstConverged (sweeps : Nat)
  | followSweep (number : Nat) (table : Array LookaheadSet)
  | followConverged (sweeps : Nat)
  | overlap (rule : Nat) (lhs : String) (shared : LookaheadSet)
  | expanding (rule : Rule)
deriving DecidableEq, Repr

namespace Event

def level : Event → Level
  | .nullableSweep _ _ => .trace
  | .firstSweep _ _ => .trace
  | .followSweep _ _ => .trace
  | .expanding _ => .trace
  | _ => .debug

/-- Texts between square brackets. -/
def renderTable (entries : List String) : String :=
  "[" ++ ", ".intercalate entries ++ "]"

def sweepMessage (name : String) (number : Nat) (entries : List String) : String :=
  name ++ " sweep " ++ toString number ++ ": " ++ renderTable entries

def convergedMessage (name : String) (sweeps : Nat) : String :=
  name ++ " converged after " ++ toString sweeps ++ " sweeps"

def message : Event → String
  | .analyzing rules nonterminals terminals =>
      "analyzing " ++ toString rules ++ " rules, " ++ toString nonterminals ++
        " non-terminals, " ++ toString terminals ++ " terminals"
  | .nullableSweep number table =>
      sweepMessage "nullable" number
        (table.toList.map fun flag => if flag then "true" else "false")
  | .nullableConverged sweeps => convergedMessage "nullable" sweeps
  | .firstSweep number table =>
      sweepMessage "first" number (table.toList.map LookaheadSet.render)
  | .firstConverged sweeps => convergedMessage "first" sweeps
  | .followSweep number table =>
      sweepMessage "follow" number (table.toList.map LookaheadSet.render)
  | .followConverged sweeps => convergedMessage "follow" sweeps
  | .overlap rule lhs shared =>
      "rule " ++ toString rule ++ " of `" ++ lhs ++
        "` overlaps an earlier alternative on " ++ shared.render
  | .expanding rule => "expanding `" ++ rule.render ++ "`"

end Event

/-- Reports every sweep with its number, and at last their count. -/
def Saturated.events {α : Type} (saturated : Saturated α) (sweep : Nat → Array α → Event)
    (converged : Nat → Event) : List Event :=
  saturated.sweeps.mapIdx (fun index table => sweep (index + 1) table) ++
    [converged saturated.sweeps.length]

namespace Analysis

def overlapEvents (analysis : Analysis) : List Event :=
  analysis.nonterminals.flatMap fun nonterminal =>
    (analysis.overlapsOf nonterminal).filterMap fun overlap =>
      (analysis.rule? overlap.rule).map fun rule =>
        .overlap overlap.rule rule.lhs overlap.shared

/-- The course of an analysis. -/
def events (analysis : Analysis) : List Event :=
  .analyzing analysis.grammar.rules.length analysis.nonterminals.length
      analysis.terminals.length ::
    (analysis.nullable.events .nullableSweep .nullableConverged ++
      analysis.first.events .firstSweep .firstConverged ++
      analysis.follow.events .followSweep .followConverged ++
      analysis.overlapEvents)

/-- The course of a parse that expanded the given rules. -/
def expansionEvents (analysis : Analysis) (expanded : List Nat) : List Event :=
  expanded.filterMap fun rule => (analysis.rule? rule).map .expanding

end Analysis

/-- Why an input gives no tree. -/
inductive Failure (τ : Type) where
  | build (error : BuildError)
  | parse (error : ParseError τ)
deriving DecidableEq

/-- The outcome of analysing a grammar and parsing an input by it, and the events on the way. -/
structure Trace (τ : Type) where
  outcome : Except (Failure τ) (Tree τ)
  events : List Event

/-- A grammar that cannot be numbered is refused before there is anything to report. -/
def Trace.ofGrammar {τ : Type} [InputToken τ] (grammar : Grammar) (input : Input τ) : Trace τ :=
  match Analysis.ofGrammar grammar with
  | .error defect => { outcome := .error (.build (.defective defect)), events := [] }
  | .ok analysis =>
      match Parser.ofAnalysis analysis with
      | .error error => { outcome := .error (.build error), events := analysis.events }
      | .ok parser =>
          let attempt := parser.parseComplete input
          { outcome := attempt.outcome.mapError .parse
            events := analysis.events ++ analysis.expansionEvents attempt.expanded }

end TopDown
