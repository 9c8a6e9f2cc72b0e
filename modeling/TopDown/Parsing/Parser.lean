import TopDown.Analysis.Basic
import TopDown.Parsing.Input
import TopDown.Parsing.Tree

/-!
# Predictive parsers

A grammar without overlaps has a parser that chooses every rule by the current token alone.
-/

namespace TopDown

/-- Why a grammar has no parser. -/
inductive BuildError where
  | defective (defect : GrammarDefect)
  | ambiguous (conflicts : List Conflict)
deriving DecidableEq, Repr

def BuildError.message : BuildError → String
  | .defective defect => defect.message
  | .ambiguous conflicts =>
      "grammar is not LL(1)" ++
        String.join (conflicts.map fun conflict => "\n  " ++ conflict.message)

/-- An analysis that shows no overlap. -/
structure Parser where
  analysis : Analysis
  unambiguous : analysis.isAmbiguous = false

/-- An attempt to read something from an input: its outcome, what is left of the input, and the
rules that were expanded on the way, in order. What a failed attempt has passed stays passed. -/
structure Attempt (τ α : Type) where
  outcome : Except (ParseError τ) α
  rest : Input τ
  expanded : List Nat

variable {τ α β : Type}

def Attempt.map (convert : α → β) (attempt : Attempt τ α) : Attempt τ β :=
  { outcome := attempt.outcome.map convert, rest := attempt.rest, expanded := attempt.expanded }

/-- Goes on with the rest of the input if the attempt succeeds. -/
def Attempt.andThen (attempt : Attempt τ α) (next : α → Input τ → Attempt τ β) : Attempt τ β :=
  match attempt.outcome with
  | .ok value =>
      let later := next value attempt.rest
      { later with expanded := attempt.expanded ++ later.expanded }
  | .error error =>
      { outcome := .error error, rest := attempt.rest, expanded := attempt.expanded }

/-- Reads a token of the given kind. -/
def Attempt.token [InputToken τ] (kind : Lookahead) (input : Input τ) : Attempt τ τ :=
  let expected := input.expect [kind]
  { outcome := expected.1, rest := expected.2, expanded := [] }

namespace Analysis

variable [InputToken τ]

/-- Reads the symbols of a production, given a way to read nonterminals. -/
def parseSymbols (analysis : Analysis) (parseNonterminal : Nat → Input τ → Attempt τ (Tree τ)) :
    List NumberedSymbol → Input τ → Attempt τ (List (Tree τ))
  | [], input => { outcome := .ok [], rest := input, expanded := [] }
  | .terminal id :: symbols, input =>
      (Attempt.token (analysis.numbering.lookahead id) input).andThen fun token input =>
        (analysis.parseSymbols parseNonterminal symbols input).map (.leaf token :: ·)
  | .nonterminal id :: symbols, input =>
      (parseNonterminal id input).andThen fun tree input =>
        (analysis.parseSymbols parseNonterminal symbols input).map (tree :: ·)

/-- Reads a nonterminal with at most `depth` expansions open at a time. -/
def parseNonterminal (analysis : Analysis) : Nat → Nat → Input τ → Attempt τ (Tree τ)
  | 0, _, input => { outcome := .error .depthExceeded, rest := input, expanded := [] }
  | depth + 1, nonterminal, input =>
      match analysis.select? nonterminal (InputToken.kind input.peek) with
      | none =>
          { outcome := .error
              (.unexpectedToken (analysis.predictAnyLookaheads nonterminal) input.peek)
            rest := input
            expanded := [] }
      | some rule =>
          let children := analysis.parseSymbols (analysis.parseNonterminal depth)
            (analysis.grammar.production rule) input
          { outcome := children.outcome.map
              (.node ((analysis.nonterminalName? nonterminal).getD ""))
            rest := children.rest
            expanded := rule :: children.expanded }

/-- No nonterminal is opened twice at one place of the input, which bounds the open expansions. -/
def depthBound (analysis : Analysis) (input : Input τ) : Nat :=
  analysis.grammar.nonterminalCount * (input.ahead.length + 1)

end Analysis

namespace Parser

def ofAnalysis (analysis : Analysis) : Except BuildError Parser :=
  if hambiguous : analysis.isAmbiguous = true then .error (.ambiguous analysis.conflicts)
  else .ok { analysis := analysis, unambiguous := by simpa using hambiguous }

def ofGrammar (grammar : Grammar) : Except BuildError Parser :=
  match Analysis.ofGrammar grammar with
  | .ok analysis => ofAnalysis analysis
  | .error defect => .error (.defective defect)

variable [InputToken τ]

/-- Reads the start symbol, and leaves what comes behind it. -/
def parse (parser : Parser) (input : Input τ) : Attempt τ (Tree τ) :=
  parser.analysis.parseNonterminal (parser.analysis.depthBound input) Numbering.start input

/-- Reads the start symbol, behind which the input has to end. -/
def parseComplete (parser : Parser) (input : Input τ) : Attempt τ (Tree τ) :=
  (parser.parse input).andThen fun tree input =>
    (Attempt.token .endOfInput input).map fun _ => tree

end Parser

end TopDown
