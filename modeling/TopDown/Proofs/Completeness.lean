import TopDown.Proofs.Outcome

/-!
# What can be read

A parser reads every sentence of its grammar, and finds the one tree that the sentence has. The
lookahead at the front of a tree predicts its rule, so the parser has no other choice.
-/

namespace TopDown

variable {τ : Type} [InputToken τ]

namespace Grammar.Forest

variable {grammar : Grammar} {symbols : List Symbol} {trees : List (Tree τ)}

/-- At the front of a forest its first token is seen, or what comes behind a forest without any. -/
theorem shows (hforest : grammar.Forest symbols trees) {behind : Lookahead → Prop}
    {input rest : Input τ} (hpasses : input.Passes (Tree.tokensOfAll trees) rest)
    (hbehind : behind (InputToken.kind rest.peek)) :
    grammar.Shows behind (InputToken.kind input.peek) symbols := by
  obtain ⟨word, hkinds, hleftmost⟩ := hforest.exists_word
  refine .of_derives hleftmost.derives ?_
  rw [hpasses.kind_peek, hkinds]
  cases word with
  | nil => exact .behind hbehind
  | cons name word => exact .terminal rfl

end Grammar.Forest

namespace Analysis.Describes

variable {grammar : Grammar} {analysis : Analysis} (hdescribes : analysis.Describes grammar)

include hdescribes

theorem select_eq_of_predicts (hpredictive : grammar.Predictive) {nonterminal : Nat}
    (hlt : nonterminal < analysis.grammar.nonterminalCount) {rule : Rule}
    (hrule : rule ∈ grammar.rules)
    (hlhs : rule.lhs = analysis.numbering.nonterminalName nonterminal)
    {seen : Lookahead} (hpredicts : grammar.Predicts rule seen) :
    ∃ index origin, analysis.select? nonterminal seen = some index ∧
      origin ∈ analysis.grammar.rules ∧ analysis.grammar.production index = origin.production ∧
      analysis.numbering.decodeRule origin = rule := by
  obtain ⟨origin, horigin, rfl⟩ := hdescribes.represents.mem_rules.mp hrule
  have hnonterminal := hdescribes.represents.nonterminalName_inj
    (hdescribes.represents.lhs_lt origin horigin) hlt hlhs
  have hselects := hdescribes.select_ne_none hlt origin horigin hnonterminal hpredicts
  obtain ⟨index, hselect⟩ := Option.ne_none_iff_exists'.mp hselects
  obtain ⟨chosen, hchosen, hsame, hproduction, hpredicts'⟩ :=
    hdescribes.exists_rule_of_select hselect
  refine ⟨index, chosen, hselect, hchosen, hproduction, ?_⟩
  refine hpredictive.rule_eq (hdescribes.represents.decodeRule_mem hchosen) hrule ?_ hpredicts'
    hpredicts
  rw [Numbering.decodeRule, hsame, hlhs]

/-- In front of the tokens of a node and of what comes behind it, the rule of the node is chosen. -/
theorem select_of_forest (hpredictive : grammar.Predictive) {nonterminal : Nat}
    (hlt : nonterminal < analysis.grammar.nonterminalCount) {rule : Rule}
    (hrule : rule ∈ grammar.rules)
    (hlhs : rule.lhs = analysis.numbering.nonterminalName nonterminal)
    {names : List Symbol} {children trees : List (Tree τ)}
    (hchildren : grammar.Forest rule.production children) (hforest : grammar.Forest names trees)
    {behind : Lookahead → Prop} (hfits : grammar.Fits (.nonterminal rule.lhs :: names) behind)
    {input rest : Input τ}
    (hpasses : input.Passes (Tree.tokensOfAll children ++ Tree.tokensOfAll trees) rest)
    (hbehind : behind (InputToken.kind rest.peek)) :
    ∃ index origin, analysis.select? nonterminal (InputToken.kind input.peek) = some index ∧
      origin ∈ analysis.grammar.rules ∧ analysis.grammar.production index = origin.production ∧
      analysis.numbering.decodeRule origin = rule := by
  rw [← Tree.tokensOfAll_append] at hpasses
  have hshows := (hchildren.append hforest).shows hpasses hbehind
  exact hdescribes.select_eq_of_predicts hpredictive hlt hrule hlhs (hfits.predicts rfl hshows)

theorem reads_of_forest (hpredictive : grammar.Predictive) {symbols : List NumberedSymbol}
    {names : List Symbol} {trees : List (Tree τ)} (hforest : grammar.Forest names trees)
    (hnames : symbols.map analysis.numbering.decode = names)
    (huses : ∀ symbol ∈ symbols, analysis.numbering.Uses symbol) {behind : Lookahead → Prop}
    (hfits : grammar.Fits names behind) {input rest : Input τ}
    (hlast : InputToken.kind input.last = .endOfInput)
    (hpasses : input.Passes (Tree.tokensOfAll trees) rest)
    (hbehind : behind (InputToken.kind rest.peek)) :
    ∃ expanded, analysis.Reads symbols input trees rest expanded := by
  induction hforest generalizing symbols behind input rest with
  | nil =>
      rw [List.map_eq_nil_iff] at hnames
      subst hnames
      have hrest := hpasses.eq_of_nil
      subst hrest
      exact ⟨[], .nil⟩
  | @leaf name token names trees hkind hrest ih =>
      obtain ⟨symbol, symbols, rfl, hsymbol, hsymbols⟩ := List.map_eq_cons_iff.mp hnames
      rw [List.forall_mem_cons] at huses
      cases symbol with
      | nonterminal id => cases hsymbol
      | terminal id =>
          obtain ⟨terminal, hlookahead, hdecode⟩ := Numbering.exists_terminal huses.1
          have hterminal : terminal = name := Symbol.terminal.inj (hdecode.symm.trans hsymbol)
          have hpeek := hpasses.kind_peek
          obtain ⟨rfl, hback⟩ := hpasses.next
          rw [← hpasses.last_eq, hback.last_eq] at hlast
          obtain ⟨expanded, hreads⟩ := ih hsymbols huses.2 hfits.tail hlast hback hbehind
          refine ⟨expanded, .token ?_ hreads⟩
          rw [hpeek, hlookahead, hterminal]
          exact hkind
  | @node rule children names trees hrule hchildren hrest ihchildren ih =>
      obtain ⟨symbol, symbols, rfl, hsymbol, hsymbols⟩ := List.map_eq_cons_iff.mp hnames
      rw [List.forall_mem_cons] at huses
      cases symbol with
      | terminal id => cases hsymbol
      | nonterminal id =>
          rw [Tree.tokensOfAll, Tree.tokens] at hpasses
          have hlhs := Symbol.nonterminal.inj hsymbol
          obtain ⟨index, origin, hselect, horigin, hproduction, rfl⟩ :=
            hdescribes.select_of_forest hpredictive huses.1 hrule hlhs.symm hchildren hrest hfits
              hpasses hbehind
          -- the children are read as a production, in front of what follows the nonterminal
          obtain ⟨middle, hfront, hback⟩ := hpasses.append_split
          have hfollows := hfits.head (hrest.shows hback hbehind)
          obtain ⟨inner, hinner⟩ := ihchildren rfl (hdescribes.represents.uses origin horigin)
            (Grammar.fits_production hrule) hlast hfront hfollows
          rw [← hfront.last_eq] at hlast
          obtain ⟨expanded, hreads⟩ := ih hsymbols huses.2 hfits.tail hlast hback hbehind
          refine ⟨index :: inner ++ expanded, ?_⟩
          rw [← hlhs]
          exact .expand hselect (hproduction ▸ hinner) hreads

end Analysis.Describes

namespace Parser

variable {grammar : Grammar} {parser : Parser} {tree : Tree τ}

theorem parseComplete_of_isDerivationTree (hparser : Parser.ofGrammar grammar = .ok parser)
    (htree : grammar.IsDerivationTree tree) {last : τ}
    (hlast : InputToken.kind last = .endOfInput) :
    (parser.parseComplete (.ofTokens tree.tokens last)).outcome = .ok tree := by
  obtain ⟨hdescribes, hpredictive⟩ := describes_of_ofGrammar hparser
  obtain ⟨huses, start, hstart, hdecode⟩ := start_symbols hdescribes
  obtain ⟨start', hstart', hforest⟩ := htree
  rw [hstart, Option.some.injEq] at hstart'
  subst hstart'
  have hpasses : (Input.ofTokens tree.tokens last).Passes (Tree.tokensOfAll [tree])
      ⟨[], last, tree.tokens.length⟩ := by
    rw [Tree.tokensOfAll_singleton]
    exact ⟨(List.append_nil _).symm, rfl, (Nat.zero_add _).symm⟩
  obtain ⟨expanded, hreads⟩ := hdescribes.reads_of_forest hpredictive hforest hdecode huses
    (Grammar.fits_start hstart) hlast hpasses hlast
  obtain ⟨houtcome, hrest⟩ := parse_eq_of_reads hparser hlast hreads
  refine parseComplete_ok_iff.mpr ⟨houtcome, ?_⟩
  rw [hrest]
  exact hlast

theorem tokens_of_parseComplete (hparser : Parser.ofGrammar grammar = .ok parser)
    {tokens : List τ} {last : τ} (htokens : ∀ token ∈ tokens, InputToken.kind token ≠ .endOfInput)
    (hlast : InputToken.kind last = .endOfInput)
    (houtcome : (parser.parseComplete (.ofTokens tokens last)).outcome = .ok tree) :
    grammar.IsDerivationTree tree ∧ tree.tokens = tokens := by
  obtain ⟨hparse, hpeek⟩ := parseComplete_ok_iff.mp houtcome
  obtain ⟨htree, hpasses⟩ := isDerivationTree_of_parse hparser hlast hparse
  refine ⟨htree, ?_⟩
  have hahead : tokens = tree.tokens ++ _ := hpasses.ahead_eq
  -- a token left over would be the end of the input
  cases hrest : (parser.parse (.ofTokens tokens last)).rest.ahead with
  | nil =>
      rw [hrest, List.append_nil] at hahead
      exact hahead.symm
  | cons token rest =>
      rw [Input.peek, hrest, List.headD_cons] at hpeek
      refine absurd hpeek (htokens token ?_)
      rw [hahead, hrest]
      simp

/-- A parser of a whole input succeeds exactly at the sentences of its grammar, and finds the one
derivation tree of the sentence. -/
theorem parseComplete_recognizes (hparser : Parser.ofGrammar grammar = .ok parser)
    {tokens : List τ} {last : τ} (htokens : ∀ token ∈ tokens, InputToken.kind token ≠ .endOfInput)
    (hlast : InputToken.kind last = .endOfInput) :
    ((∃ tree, (parser.parseComplete (.ofTokens tokens last)).outcome = .ok tree) ↔
        grammar.IsSentence (tokens.map InputToken.kind)) ∧
      ∀ tree, (parser.parseComplete (.ofTokens tokens last)).outcome = .ok tree →
        grammar.IsDerivationTree tree ∧ tree.tokens = tokens ∧
          ∀ other : Tree τ, grammar.IsDerivationTree other → other.tokens = tokens →
            other = tree := by
  constructor
  · rw [Grammar.isSentence_iff]
    constructor
    · rintro ⟨tree, houtcome⟩
      exact ⟨tree, tokens_of_parseComplete hparser htokens hlast houtcome⟩
    · rintro ⟨tree, htree, rfl⟩
      exact ⟨tree, parseComplete_of_isDerivationTree hparser htree hlast⟩
  · intro tree houtcome
    obtain ⟨htree, hleaves⟩ := tokens_of_parseComplete hparser htokens hlast houtcome
    refine ⟨htree, hleaves, ?_⟩
    intro other hother hsame
    subst hsame
    rw [parseComplete_of_isDerivationTree hparser hother hlast, Except.ok.injEq] at houtcome
    exact houtcome

theorem pairs_recognizes :
    (Parser.pairs.parseComplete
        (.ofTokens [.terminal "a", .terminal "b"] Lookahead.endOfInput)).outcome =
          .ok (.node "s" [.leaf (.terminal "a"), .node "s" [], .leaf (.terminal "b")]) ∧
      Grammar.pairs.IsSentence [.terminal "a", .terminal "b"] ∧
      Grammar.pairs.IsDerivationTree
        (.node "s" [.leaf (.terminal "a"), .node "s" [], .leaf (.terminal "b")] :
          Tree Lookahead) := by
  have houtcome : (Parser.pairs.parseComplete
      (.ofTokens [.terminal "a", .terminal "b"] Lookahead.endOfInput)).outcome =
        .ok (.node "s" [.leaf (.terminal "a"), .node "s" [], .leaf (.terminal "b")]) := by
    decide +kernel
  have htokens : ∀ token ∈ [Lookahead.terminal "a", .terminal "b"],
      InputToken.kind token ≠ .endOfInput := by decide
  have hlast : InputToken.kind Lookahead.endOfInput = .endOfInput := rfl
  have hrecognizes := parseComplete_recognizes ofGrammar_pairs htokens hlast
  exact ⟨houtcome, hrecognizes.1.mp ⟨_, houtcome⟩, (hrecognizes.2 _ houtcome).1⟩

end Parser

end TopDown
