import TopDown.Proofs.Termination

/-!
# What a parser answers

A parser never runs out of expansions, so it reads from its start symbol as if there were no bound,
and gives a tree of the tokens it passes or stops. A parse of a whole input has to come to its end.
-/

namespace TopDown

variable {τ : Type} [InputToken τ]

namespace Parser

variable {grammar : Grammar} {parser : Parser} {input rest : Input τ} {tree : Tree τ}
  {expanded : List Nat}

/-- What a parser reads, it reads from its start symbol, as if there were no bound. -/
theorem parse_cases (hparser : Parser.ofGrammar grammar = .ok parser)
    (hlast : InputToken.kind input.last = .endOfInput) :
    (∃ tree, (parser.parse input).outcome = .ok tree ∧
      parser.analysis.Reads [.nonterminal Numbering.start] input [tree] (parser.parse input).rest
        (parser.parse input).expanded) ∨
      ∃ expected,
        (parser.parse input).outcome =
          .error (.unexpectedToken expected (parser.parse input).rest.peek) ∧
        parser.analysis.Stops [.nonterminal Numbering.start] input expected
          (parser.parse input).rest (parser.parse input).expanded := by
  have hexceeds := not_exceeds_parse hparser hlast
  have hsettles : parser.analysis.Settles [.nonterminal Numbering.start] input
      ((parser.parse input).map ([·])) := Analysis.settles_parseNonterminal _ _ _
  cases houtcome : (parser.parse input).outcome with
  | ok tree =>
      simp only [Analysis.Settles, Attempt.map, houtcome, Except.map] at hsettles
      exact .inl ⟨tree, rfl, hsettles⟩
  | error error =>
      cases error with
      | depthExceeded => exact absurd houtcome hexceeds
      | unexpectedToken expected found =>
          simp only [Analysis.Settles, Attempt.map, houtcome, Except.map] at hsettles
          obtain ⟨rfl, hstops⟩ := hsettles
          exact .inr ⟨expected, rfl, hstops⟩

theorem reads_of_parse (hparser : Parser.ofGrammar grammar = .ok parser)
    (hlast : InputToken.kind input.last = .endOfInput)
    (houtcome : (parser.parse input).outcome = .ok tree) :
    parser.analysis.Reads [.nonterminal Numbering.start] input [tree] (parser.parse input).rest
      (parser.parse input).expanded := by
  rcases parse_cases hparser hlast with ⟨tree', houtcome', hreads⟩ | ⟨expected, houtcome', _⟩
  · rw [houtcome, Except.ok.injEq] at houtcome'
    rw [houtcome']
    exact hreads
  · rw [houtcome] at houtcome'
    cases houtcome'

theorem parse_eq_of_reads (hparser : Parser.ofGrammar grammar = .ok parser)
    (hlast : InputToken.kind input.last = .endOfInput)
    (hreads :
      parser.analysis.Reads [.nonterminal Numbering.start] input [tree] rest expanded) :
    (parser.parse input).outcome = .ok tree ∧ (parser.parse input).rest = rest := by
  rcases parse_cases hparser hlast with ⟨tree', houtcome, hreads'⟩ | ⟨expected, _, hstops⟩
  · obtain ⟨htree, hrest, _⟩ := hreads.unique hreads'
    rw [List.cons.injEq] at htree
    rw [houtcome, htree.1]
    exact ⟨rfl, hrest⟩
  · exact absurd hreads hstops.not_reads

theorem parseComplete_of_ok (houtcome : (parser.parse input).outcome = .ok tree) :
    parser.parseComplete input =
      { outcome := (Attempt.token .endOfInput (parser.parse input).rest).outcome.map fun _ => tree
        rest := (Attempt.token .endOfInput (parser.parse input).rest).rest
        expanded := (parser.parse input).expanded } := by
  simp only [parseComplete, Attempt.andThen, houtcome, Attempt.map]
  exact congrArg _ (List.append_nil _)

theorem parseComplete_of_error {error : ParseError τ}
    (houtcome : (parser.parse input).outcome = .error error) :
    parser.parseComplete input =
      { outcome := .error error, rest := (parser.parse input).rest
        expanded := (parser.parse input).expanded } := by
  simp only [parseComplete, Attempt.andThen, houtcome]

theorem parseComplete_ok_iff :
    (parser.parseComplete input).outcome = .ok tree ↔
      (parser.parse input).outcome = .ok tree ∧
        InputToken.kind (parser.parse input).rest.peek = .endOfInput := by
  cases houtcome : (parser.parse input).outcome with
  | error error => simp [parseComplete, Attempt.andThen, houtcome]
  | ok tree' =>
      rw [parseComplete_of_ok houtcome]
      by_cases hkind : InputToken.kind (parser.parse input).rest.peek = .endOfInput
      · simp [Attempt.token_of_eq hkind, Except.map, hkind]
      · simp [Attempt.token_of_ne hkind, Except.map, hkind]

theorem start_symbols (hdescribes : parser.analysis.Describes grammar) :
    (∀ symbol ∈ [NumberedSymbol.nonterminal Numbering.start],
      parser.analysis.numbering.Uses symbol) ∧
    ∃ start, grammar.start? = some start ∧
      [NumberedSymbol.nonterminal Numbering.start].map parser.analysis.numbering.decode =
        [.nonterminal start] :=
  ⟨List.forall_mem_singleton.mpr hdescribes.represents.start_lt, _,
    hdescribes.represents.start?_eq, rfl⟩

theorem isDerivationTree_of_parse (hparser : Parser.ofGrammar grammar = .ok parser)
    (hlast : InputToken.kind input.last = .endOfInput)
    (houtcome : (parser.parse input).outcome = .ok tree) :
    grammar.IsDerivationTree tree ∧ input.Passes tree.tokens (parser.parse input).rest := by
  obtain ⟨hdescribes, _⟩ := describes_of_ofGrammar hparser
  obtain ⟨huses, start, hstart, hdecode⟩ := start_symbols hdescribes
  obtain ⟨hpasses, hforest⟩ :=
    hdescribes.sound huses hlast (reads_of_parse hparser hlast houtcome)
  rw [Tree.tokensOfAll_singleton] at hpasses
  rw [hdecode] at hforest
  exact ⟨⟨start, hstart, hforest⟩, hpasses⟩

end Parser

end TopDown
