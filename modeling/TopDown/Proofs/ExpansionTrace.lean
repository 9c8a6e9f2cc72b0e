import TopDown.Proofs.Equations
import TopDown.Proofs.Failure
import TopDown.Proofs.PlacedTrees
import TopDown.Trace

/-!
# The trace of a parse

The rules that a parser reports to expand are the steps of a leftmost derivation, also when it
fails. The main statement says to what they rewrite the start symbol, and that they are the rules of
the nodes of the tree, each node in front of its children.
-/

namespace TopDown

variable {τ : Type} [InputToken τ]

/-- The node has the name of the left-hand side, and its children have the production as their
roots. -/
structure Rule.Heads (rule : Rule) (node : PlacedNode τ) : Prop where
  label_eq : node.label = rule.lhs
  roots : List.Forall₂ Symbol.IsRootOf rule.production node.children

theorem Grammar.Forest.roots {grammar : Grammar} {symbols : List Symbol} {trees : List (Tree τ)}
    (hforest : grammar.Forest symbols trees) : List.Forall₂ Symbol.IsRootOf symbols trees := by
  induction hforest with
  | nil => exact .nil
  | leaf hkind _ ih => exact .cons (.leaf hkind) ih
  | node _ _ _ _ ih => exact .cons .node ih

namespace Analysis

/-- What is reported when the symbol cannot begin with the current token: a terminal is expected
alone, a nonterminal with all that predicts one of its rules, in the order of the numbers. -/
inductive Expects (analysis : Analysis) : Symbol → List Lookahead → Prop
  | terminal {name : String} : Expects analysis (.terminal name) [.terminal name]
  | nonterminal {name : String} {id : Nat} (hid : analysis.nonterminalId? name = some id)
      (hordered : analysis.InOrder (analysis.predictAnyLookaheads id)) :
      Expects analysis (.nonterminal name) (analysis.predictAnyLookaheads id)

variable {grammar : Grammar} {analysis : Analysis}

theorem expansionEvents_of_numbers (hanalysis : ofGrammar grammar = .ok analysis)
    {expanded : List Nat} {rules : List Rule} (hrules : grammar.Numbers expanded rules) :
    analysis.expansionEvents expanded = rules.map .expanding := by
  have hevents : analysis.expansionEvents expanded =
      ((expanded.map (grammar.rules[·]?)).filterMap id).map .expanding := by
    rw [expansionEvents, List.filterMap_map, List.map_filterMap]
    simp only [rule?_eq hanalysis]
    rfl
  rw [hevents, hrules, List.filterMap_map]
  simp

theorem expects_of_refuses (hanalysis : ofGrammar grammar = .ok analysis) {seen : Lookahead}
    {symbol : NumberedSymbol} {expected : List Lookahead}
    (huses : analysis.numbering.Uses symbol) (hrefuses : analysis.Refuses seen symbol expected) :
    analysis.Expects (analysis.numbering.decode symbol) expected := by
  cases hrefuses with
  | terminal _ =>
      obtain ⟨name, hlookahead, hdecode⟩ := Numbering.exists_terminal huses
      rw [hlookahead, hdecode]
      exact .terminal
  | @nonterminal id _ =>
      obtain ⟨numbered, hrepresents, rfl⟩ := exists_represents hanalysis
      have hname := List.getElem?_eq_getElem huses
      refine .nonterminal ?_
        (inOrder_lookaheads hrepresents (lt_of_contains_predictAny hrepresents huses))
      rw [Numbering.nonterminalName_eq_of_getElem? hname]
      exact idxOf?_of_getElem? hrepresents.nonterminals_nodup hname

variable {symbols : List NumberedSymbol} {input rest : Input τ} {trees : List (Tree τ)}
  {expanded : List Nat}

/-- The rules that are expanded while symbols are read are those of the nodes, from left to right
and each node in front of its children. -/
theorem Describes.heads_of_reads (hdescribes : analysis.Describes grammar)
    (huses : ∀ symbol ∈ symbols, analysis.numbering.Uses symbol)
    (hlast : InputToken.kind input.last = .endOfInput)
    (hreads : analysis.Reads symbols input trees rest expanded) (place : Nat) :
    ∃ rules, grammar.Numbers expanded rules ∧
      List.Forall₂ Rule.Heads rules (Tree.nodesOfAllFrom place trees) := by
  induction hreads generalizing place with
  | nil => exact ⟨[], rfl, .nil⟩
  | @token id symbols input rest trees expanded hkind _ ih =>
      have hnext := (hdescribes.sound (List.forall_mem_singleton.mpr (huses _ List.mem_cons_self))
        hlast (.token hkind .nil)).1
      rw [List.forall_mem_cons] at huses
      rw [← hnext.last_eq] at hlast
      exact ih huses.2 hlast _
  | @expand nonterminal index symbols input middle rest children trees inner expanded hselect
      hchildren _ ihchildren ih =>
      rw [List.forall_mem_cons] at huses
      have hused := hdescribes.uses_of_select hselect
      obtain ⟨rule, hrule, hname, hproduction⟩ := hdescribes.named_rule_of_select hselect
      obtain ⟨hpasses, hforest⟩ := hdescribes.sound hused hlast hchildren
      obtain ⟨within, hwithin, hinner⟩ := ihchildren hused hlast place
      rw [← hpasses.last_eq] at hlast
      let node := Tree.node (analysis.numbering.nonterminalName nonterminal) children
      obtain ⟨rules, hrules, houter⟩ := ih huses.2 hlast (place + node.tokens.length)
      rw [hproduction] at hforest
      rw [Tree.nodesOfAllFrom, Tree.nodesFrom]
      exact ⟨rule :: within ++ rules, (hwithin.append hrules).cons hrule,
        .cons ⟨hname, hforest.roots⟩ (List.rel_append hinner houter)⟩

end Analysis

/-- The attempt reports the expansion of these rules, in their order, and a leftmost derivation by
them leads from the start symbol to the form. -/
structure Attempt.Follows {α : Type} (attempt : Attempt τ α) (analysis : Analysis)
    (grammar : Grammar) (rules : List Rule) (form : List Symbol) : Prop where
  events_eq : analysis.expansionEvents attempt.expanded = rules.map .expanding
  numbers : grammar.Numbers attempt.expanded rules
  rewrites : ∃ start, grammar.start? = some start ∧
    Grammar.rewriteAll? rules [.nonterminal start] = some form

namespace Parser

variable {grammar : Grammar} {parser : Parser} {tokens : List τ} {last : τ} {place : Nat}

/-- The rules that a parser expands are a leftmost derivation from the start symbol. It leads to the
kinds of the tokens that were passed, and the rules are those of the nodes of the tree, each in
front of its children; or, where the parser fails, it leads to these kinds and a symbol behind them
that expects other tokens than the current one. -/
theorem parse_expands_leftmost (hparser : ofGrammar grammar = .ok parser)
    (hlast : InputToken.kind last = .endOfInput) (hplace : place ≤ tokens.length) :
    ∃ (rules : List Rule) (form : List Symbol) (final : Nat) (word : List String),
      (parser.parse (.startingAt tokens last place)).Follows parser.analysis grammar rules form ∧
      (parser.parse (.startingAt tokens last place)).EndsAt tokens last place final ∧
      (tokens.extract place final).map InputToken.kind = word.map .terminal ∧
      ((∃ tree, (parser.parse (.startingAt tokens last place)).outcome = .ok tree ∧
          form = word.map .terminal ∧ List.Forall₂ Rule.Heads rules (tree.nodesFrom place)) ∨
        ∃ expected symbol later,
          (parser.parse (.startingAt tokens last place)).outcome =
            .error (.unexpectedToken expected (tokens.getD final last)) ∧
          form = word.map .terminal ++ symbol :: later ∧
          parser.analysis.Expects symbol expected ∧
          InputToken.kind (tokens.getD final last) ∉ expected) := by
  obtain ⟨hdescribes, _⟩ := describes_of_ofGrammar hparser
  obtain ⟨huses, start, hstart, hdecode⟩ := start_symbols hdescribes
  have hanalysis := analysis_of_ofGrammar hparser
  obtain ⟨final, hends⟩ := exists_endsAt_of_parse hparser hlast hplace
  rcases parse_cases hparser (show InputToken.kind (Input.startingAt tokens last place).last = _
    from hlast) with ⟨tree, houtcome, hreads⟩ | ⟨expected, houtcome, hstops⟩
  · obtain ⟨rules, word, hrules, hkinds, hrewrite⟩ := hdescribes.rewrites_of_reads huses hreads
    obtain ⟨others, hothers, hheads⟩ := hdescribes.heads_of_reads huses hlast hreads place
    obtain rfl := hrules.unique hothers
    obtain ⟨hpasses, _⟩ := hdescribes.sound huses hlast hreads
    rw [hpasses.tokens_eq hends.passes] at hkinds
    rw [hdecode] at hrewrite
    rw [Tree.nodesOfAllFrom_singleton] at hheads
    have hevents := Analysis.expansionEvents_of_numbers hanalysis hrules
    exact ⟨rules, _, final, word, ⟨hevents, hrules, start, hstart, hrewrite⟩, hends, hkinds,
      .inl ⟨tree, houtcome, rfl, hheads⟩⟩
  · obtain ⟨rules, passed, word, symbol, later, hrules, hpasses, hkinds, hused, hrefuses,
      hrewrite⟩ := hdescribes.rewrites_of_stops huses hlast hstops
    rw [hpasses.tokens_eq hends.passes] at hkinds
    rw [hdecode] at hrewrite
    have hfound := hdescribes.not_mem_of_refuses hused hrefuses
    rw [hends.rest_eq, Input.peek_startingAt] at houtcome hfound
    have hevents := Analysis.expansionEvents_of_numbers hanalysis hrules
    exact ⟨rules, _, final, word, ⟨hevents, hrules, start, hstart, hrewrite⟩, hends, hkinds,
      .inr ⟨expected, _, later, houtcome, rfl,
        Analysis.expects_of_refuses hanalysis hused hrefuses, hfound⟩⟩

/-- A letter without its partner is noticed behind three expansions. -/
theorem pairs_expands_leftmost :
    (Parser.pairs.parse (.startingAt [.terminal "a", .terminal "a", .terminal "b"]
        Lookahead.endOfInput 0)).outcome =
        .error (.unexpectedToken [.terminal "b"] .endOfInput) ∧
      ∃ (form : List Symbol) (word : List String) (symbol : Symbol) (later : List Symbol),
        (Parser.pairs.parse (.startingAt [.terminal "a", .terminal "a", .terminal "b"]
          Lookahead.endOfInput 0)).Follows .pairs .pairs
            [⟨"s", [.terminal "a", .nonterminal "s", .terminal "b"]⟩,
              ⟨"s", [.terminal "a", .nonterminal "s", .terminal "b"]⟩, ⟨"s", []⟩] form ∧
        form = word.map .terminal ++ symbol :: later ∧
        Analysis.pairs.Expects symbol [.terminal "b"] := by
  have hlast : InputToken.kind Lookahead.endOfInput = .endOfInput := rfl
  have hplace : 0 ≤ [Lookahead.terminal "a", .terminal "a", .terminal "b"].length := by decide
  have houtcome : (Parser.pairs.parse (.startingAt [.terminal "a", .terminal "a", .terminal "b"]
      Lookahead.endOfInput 0)).outcome = .error (.unexpectedToken [.terminal "b"] .endOfInput) := by
    decide +kernel
  have hexpanded : (Parser.pairs.parse (.startingAt [.terminal "a", .terminal "a", .terminal "b"]
      Lookahead.endOfInput 0)).expanded = [0, 0, 1] := by
    decide +kernel
  obtain ⟨rules, form, final, word, hfollows, _, _, hcases⟩ :=
    parse_expands_leftmost ofGrammar_pairs hlast hplace
  have hrules := hfollows.numbers
  rw [hexpanded] at hrules
  obtain rfl := hrules.unique (show Grammar.pairs.Numbers [0, 0, 1] [_, _, _] from rfl)
  rcases hcases with ⟨tree, htree, _⟩ | ⟨expected, symbol, later, herror, hform, hexpects, _⟩
  · rw [houtcome] at htree
    cases htree
  · rw [houtcome, Except.error.injEq, ParseError.unexpectedToken.injEq] at herror
    rw [← herror.1] at hexpects
    exact ⟨houtcome, form, word, symbol, later, hfollows, hform, hexpects⟩

end Parser

end TopDown
