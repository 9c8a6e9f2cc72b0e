import TopDown.Parsing.Parser
import TopDown.Proofs.Checked.Accessors
import TopDown.Proofs.Choice
import TopDown.Proofs.DerivationTree

/-!
# Checked parses

A parse looks up rules, sets and names by number at every step. The checked parse gives nothing when
one of them is not there. The main statement says that no grammar leads to a miss: not when it is
analysed, not when its analysis is asked, and not when its parser runs on any input.
-/

namespace TopDown

variable {τ α β : Type}

/-- Goes on with the rest of the input if the attempt succeeds. -/
def Attempt.checkedAndThen (attempt : Attempt τ α) (next : α → Input τ → Option (Attempt τ β)) :
    Option (Attempt τ β) :=
  match attempt.outcome with
  | .ok value =>
      (next value attempt.rest).map fun later =>
        { later with expanded := attempt.expanded ++ later.expanded }
  | .error error =>
      some { outcome := .error error, rest := attempt.rest, expanded := attempt.expanded }

namespace Analysis

/-- The first rule of a list that is predicted by a lookahead. -/
def checkedFind? (analysis : Analysis) (id : Nat) : List Nat → Option (Option Nat)
  | [] => some none
  | rule :: rest => do
      let set ← analysis.predict[rule]?
      if set.contains id then return some rule else analysis.checkedFind? id rest

/-- The inner option is the choice: to have none is no miss. -/
def checkedSelect? (analysis : Analysis) (nonterminal : Nat) (lookahead : Lookahead) :
    Option (Option Nat) :=
  match analysis.numbering.lookaheadId? lookahead with
  | none => some none
  | some id => do
      let set ← analysis.predictAny[nonterminal]?
      let alternatives ← analysis.grammar.checkedAlternatives nonterminal
      if set.contains id then analysis.checkedFind? id alternatives else return none

variable [InputToken τ]

def checkedParseSymbols (analysis : Analysis)
    (parseNonterminal : Nat → Input τ → Option (Attempt τ (Tree τ))) :
    List NumberedSymbol → Input τ → Option (Attempt τ (List (Tree τ)))
  | [], input => some { outcome := .ok [], rest := input, expanded := [] }
  | .terminal id :: symbols, input => do
      let kind ← analysis.checkedLookahead id
      (Attempt.token kind input).checkedAndThen fun token input =>
        (analysis.checkedParseSymbols parseNonterminal symbols input).map
          (Attempt.map (.leaf token :: ·))
  | .nonterminal id :: symbols, input => do
      let attempt ← parseNonterminal id input
      attempt.checkedAndThen fun tree input =>
        (analysis.checkedParseSymbols parseNonterminal symbols input).map
          (Attempt.map (tree :: ·))

/-- The rule that is expanded is also named in a message, so it is looked up twice. -/
def checkedParseNonterminal (analysis : Analysis) :
    Nat → Nat → Input τ → Option (Attempt τ (Tree τ))
  | 0, _, input => some { outcome := .error .depthExceeded, rest := input, expanded := [] }
  | depth + 1, nonterminal, input => do
      match ← analysis.checkedSelect? nonterminal (InputToken.kind input.peek) with
      | none =>
          let expected ← analysis.checkedPredictAnyLookaheads nonterminal
          return {
            outcome := .error (.unexpectedToken expected input.peek)
            rest := input
            expanded := [] }
      | some index =>
          let _ ← analysis.rule? index
          let rule ← analysis.grammar.rules[index]?
          let children ← analysis.checkedParseSymbols (analysis.checkedParseNonterminal depth)
            rule.production input
          let label ← analysis.nonterminalName? nonterminal
          return {
            outcome := children.outcome.map (.node label)
            rest := children.rest
            expanded := index :: children.expanded }

end Analysis

namespace Parser

variable [InputToken τ] (parser : Parser)

def checkedParse (input : Input τ) : Option (Attempt τ (Tree τ)) :=
  parser.analysis.checkedParseNonterminal (parser.analysis.depthBound input) Numbering.start input

def checkedParseComplete (input : Input τ) : Option (Attempt τ (Tree τ)) :=
  (parser.checkedParse input).map fun attempt => attempt.andThen fun tree input =>
    (Attempt.token .endOfInput input).map fun _ => tree

end Parser

/-! ### No parse misses

A parser selects a rule only for a nonterminal of the grammar and among its rules, and goes on with
the symbols of that rule. So the symbols in front of it are always those of the grammar, and every
lookup finds something. -/

theorem Attempt.checkedAndThen_eq {checked : α → Input τ → Option (Attempt τ β)}
    {next : α → Input τ → Attempt τ β}
    (hnext : ∀ value input, checked value input = some (next value input))
    (attempt : Attempt τ α) : attempt.checkedAndThen checked = some (attempt.andThen next) := by
  rw [checkedAndThen, andThen]
  cases attempt.outcome with
  | ok value => exact congrArg (Option.map _) (hnext value attempt.rest)
  | error error => rfl

namespace Analysis

theorem lt_of_select? {analysis : Analysis} {nonterminal index : Nat} {lookahead : Lookahead}
    (hselect : analysis.select? nonterminal lookahead = some index) :
    index < analysis.grammar.rules.length := by
  unfold select? at hselect
  split at hselect
  · cases hselect
  · split at hselect
    · exact NumberedGrammar.lt_of_mem_alternatives (List.mem_of_find?_eq_some hselect)
    · cases hselect

theorem checkedParseSymbols_eq [InputToken τ] {analysis : Analysis}
    {checked : Nat → Input τ → Option (Attempt τ (Tree τ))}
    {parse : Nat → Input τ → Attempt τ (Tree τ)}
    (hparse : ∀ {nonterminal}, nonterminal < analysis.grammar.nonterminalCount →
      ∀ input, checked nonterminal input = some (parse nonterminal input))
    {symbols : List NumberedSymbol} (huses : ∀ symbol ∈ symbols, analysis.numbering.Uses symbol)
    (input : Input τ) :
    analysis.checkedParseSymbols checked symbols input =
      some (analysis.parseSymbols parse symbols input) := by
  induction symbols generalizing input with
  | nil => rfl
  | cons symbol symbols ih =>
      rw [List.forall_mem_cons] at huses
      cases symbol with
      | terminal id =>
          rw [checkedParseSymbols, parseSymbols,
            checkedLookahead_eq (Nat.lt_succ_of_lt huses.1)]
          exact Attempt.checkedAndThen_eq
            (fun token input => congrArg (Option.map _) (ih huses.2 input)) _
      | nonterminal id =>
          rw [checkedParseSymbols, parseSymbols, hparse huses.1]
          exact Attempt.checkedAndThen_eq
            (fun tree input => congrArg (Option.map _) (ih huses.2 input)) _

namespace InBounds

variable {analysis : Analysis} (hbounds : analysis.InBounds)
include hbounds

theorem checkedFind?_eq {id : Nat} {rules : List Nat}
    (hrules : ∀ rule ∈ rules, rule < analysis.grammar.rules.length) :
    analysis.checkedFind? id rules = some (rules.find? fun rule => analysis.predicts rule id) := by
  induction rules with
  | nil => rfl
  | cons rule rules ih =>
      rw [List.forall_mem_cons] at hrules
      have hset := NumberedGrammar.getElem?_eq_setAt hbounds.predict hrules.1 analysis.grammar
      simp only [checkedFind?, hset, Option.bind_eq_bind, Option.bind_some, List.find?_cons,
        predicts, ih hrules.2]
      cases (analysis.grammar.setAt analysis.predict rule).contains id <;> rfl

theorem checkedSelect?_eq {nonterminal : Nat}
    (hnonterminal : nonterminal < analysis.grammar.nonterminalCount) (lookahead : Lookahead) :
    analysis.checkedSelect? nonterminal lookahead =
      some (analysis.select? nonterminal lookahead) := by
  rw [checkedSelect?, select?]
  cases analysis.numbering.lookaheadId? lookahead with
  | none => rfl
  | some id =>
      have hset := NumberedGrammar.getElem?_eq_setAt hbounds.predictAny hnonterminal
        analysis.grammar
      have hfind : analysis.checkedFind? id (analysis.grammar.alternatives nonterminal) = _ :=
        hbounds.checkedFind?_eq fun _ => NumberedGrammar.lt_of_mem_alternatives
      simp only [hset, NumberedGrammar.checkedAlternatives_eq hnonterminal, Option.bind_eq_bind,
        Option.bind_some, predictsAny, alternatives, hfind]
      exact (apply_ite some _ _ _).symm

/-- A parse of a nonterminal never misses, by induction on the depth that is left to it. -/
theorem checkedParseNonterminal_eq [InputToken τ] (depth : Nat) {nonterminal : Nat}
    (hnonterminal : nonterminal < analysis.grammar.nonterminalCount) (input : Input τ) :
    analysis.checkedParseNonterminal depth nonterminal input =
      some (analysis.parseNonterminal depth nonterminal input) := by
  induction depth generalizing nonterminal input with
  | zero => rfl
  | succ depth ih =>
      have hown := List.mem_range.mpr hnonterminal
      rw [checkedParseNonterminal, parseNonterminal, hbounds.checkedSelect?_eq hnonterminal]
      cases hselect : analysis.select? nonterminal (InputToken.kind input.peek) with
      | none =>
          simp only [Option.bind_eq_bind, Option.bind_some,
            hbounds.answers.predictAnyLookaheads nonterminal hown]
          rfl
      | some index =>
          have hindex := lt_of_select? hselect
          have hrule := List.getElem?_eq_getElem hindex
          have hproduction : analysis.grammar.production index =
              (analysis.grammar.rules[index]).production := by
            rw [NumberedGrammar.production, hrule]
            rfl
          have hchildren := checkedParseSymbols_eq (fun hlt input => ih hlt input)
            (hbounds.uses _ (List.getElem_mem hindex)) input
          obtain ⟨named, hnamed⟩ := hbounds.getElem?_rules hindex
          obtain ⟨label, hlabel⟩ := hbounds.answers.nonterminalName nonterminal hown
          simp only [Option.bind_eq_bind, Option.bind_some, hnamed, hrule, hchildren, hlabel,
            hproduction]
          rfl

end InBounds

end Analysis

namespace Parser

variable [InputToken τ] {parser : Parser} (hbounds : parser.analysis.InBounds)
include hbounds

theorem checkedParse_eq (input : Input τ) :
    parser.checkedParse input = some (parser.parse input) :=
  hbounds.checkedParseNonterminal_eq _ hbounds.start_lt input

theorem checkedParseComplete_eq (input : Input τ) :
    parser.checkedParseComplete input = some (parser.parseComplete input) :=
  congrArg (Option.map _) (checkedParse_eq hbounds input)

end Parser

namespace Analysis

/-- No grammar leads to a lookup out of range: its tables are filled without one, the numbers in
them are in range, the analysis answers whatever it is asked about its own numbers, and its parser
runs on every input without one. -/
theorem lookups_in_bounds (grammar : Grammar) :
    checkedOfGrammar grammar = some (ofGrammar grammar) ∧
      ∀ analysis, ofGrammar grammar = .ok analysis →
        analysis.InBounds ∧ analysis.Answers ∧
          ∀ parser, Parser.ofAnalysis analysis = .ok parser →
            ∀ (τ : Type) [InputToken τ] (input : Input τ),
              parser.checkedParse input = some (parser.parse input) ∧
                parser.checkedParseComplete input = some (parser.parseComplete input) := by
  refine ⟨checkedOfGrammar_eq grammar, fun analysis hanalysis => ?_⟩
  obtain ⟨numbered, hrepresents, rfl⟩ := exists_represents hanalysis
  have hbounds := inBounds_ofNumbered hrepresents
  refine ⟨hbounds, hbounds.answers, fun parser hparser τ _ input => ?_⟩
  have hanalysis : parser.analysis = ofNumbered numbered := by
    unfold Parser.ofAnalysis at hparser
    split at hparser
    · cases hparser
    · cases hparser
      rfl
  rw [← hanalysis] at hbounds
  exact ⟨Parser.checkedParse_eq hbounds input, Parser.checkedParseComplete_eq hbounds input⟩

theorem pairs_lookups_in_bounds :
    checkedOfGrammar .pairs = some (.ok .pairs) ∧ Analysis.pairs.InBounds ∧
      Analysis.pairs.Answers ∧
        ∀ input : Input Lookahead,
          Parser.pairs.checkedParse input = some (Parser.pairs.parse input) ∧
            Parser.pairs.checkedParseComplete input =
              some (Parser.pairs.parseComplete input) := by
  have hparser : Parser.ofAnalysis .pairs = .ok .pairs := by
    have hofGrammar := Parser.ofGrammar_pairs
    rwa [Parser.ofGrammar, ofGrammar_pairs] at hofGrammar
  obtain ⟨hchecked, hanalyses⟩ := lookups_in_bounds .pairs
  obtain ⟨hbounds, hanswers, hparses⟩ := hanalyses .pairs ofGrammar_pairs
  rw [ofGrammar_pairs] at hchecked
  exact ⟨hchecked, hbounds, hanswers, hparses .pairs hparser Lookahead⟩

end Analysis

end TopDown
