import TopDown.Proofs.Choice
import TopDown.Proofs.DerivationTree
import TopDown.Proofs.Reading

/-!
# What is read

Reading passes the tokens of a forest of the symbols. Where it stops, the symbols derive what was
passed, followed by the symbol that refuses the current token.
-/

namespace TopDown

variable {τ : Type} [InputToken τ]

theorem Numbering.exists_terminal {numbering : Numbering} {id : Nat}
    (huses : numbering.Uses (.terminal id)) :
    ∃ name, numbering.lookahead id = .terminal name ∧
      numbering.decode (.terminal id) = .terminal name := by
  have hname := List.getElem?_eq_getElem huses
  refine ⟨_, lookahead_terminal hname, ?_⟩
  rw [decode, hname, Option.getD_some]

namespace Grammar

/-- The rules have these numbers. -/
def Numbers (grammar : Grammar) (numbers : List Nat) (rules : List Rule) : Prop :=
  numbers.map (grammar.rules[·]?) = rules.map some

namespace Numbers

variable {grammar : Grammar} {number : Nat} {numbers later : List Nat} {rule : Rule}
  {rules others : List Rule}

theorem cons (hrule : grammar.rules[number]? = some rule)
    (hnumbers : grammar.Numbers numbers rules) :
    grammar.Numbers (number :: numbers) (rule :: rules) := by
  rw [Numbers, List.map_cons, List.map_cons, hrule, hnumbers]

theorem append (hnumbers : grammar.Numbers numbers rules) (hlater : grammar.Numbers later others) :
    grammar.Numbers (numbers ++ later) (rules ++ others) := by
  rw [Numbers, List.map_append, List.map_append, hnumbers, hlater]

theorem unique (hnumbers : grammar.Numbers numbers rules)
    (hothers : grammar.Numbers numbers others) : rules = others :=
  List.map_injective_iff.mpr (Option.some_injective Rule) (hnumbers.symm.trans hothers)

theorem mem (hnumbers : grammar.Numbers numbers rules) : ∀ rule ∈ rules, rule ∈ grammar.rules := by
  intro rule hrule
  have hsome : some rule ∈ rules.map some := List.mem_map_of_mem hrule
  rw [← hnumbers] at hsome
  obtain ⟨number, _, hnumber⟩ := List.mem_map.mp hsome
  exact List.mem_of_getElem? hnumber

end Numbers

end Grammar

namespace Analysis.Describes

variable {grammar : Grammar} {analysis : Analysis} (hdescribes : analysis.Describes grammar)
  {symbols : List NumberedSymbol} {input rest : Input τ} {trees : List (Tree τ)}
  {expected : List Lookahead} {expanded : List Nat}

include hdescribes

theorem exists_rule_of_select {nonterminal index : Nat} {seen : Lookahead}
    (hselect : analysis.select? nonterminal seen = some index) :
    ∃ rule ∈ analysis.grammar.rules, rule.lhs = nonterminal ∧
      analysis.grammar.production index = rule.production ∧
      grammar.Predicts (analysis.numbering.decodeRule rule) seen := by
  obtain ⟨rule, hrule, hlhs, hpredicts⟩ := hdescribes.rule_of_select hselect
  refine ⟨rule, List.mem_of_getElem? hrule, hlhs, ?_, hpredicts⟩
  rw [NumberedGrammar.production, hrule, Option.map_some, Option.getD_some]

theorem uses_of_select {nonterminal index : Nat} {seen : Lookahead}
    (hselect : analysis.select? nonterminal seen = some index) :
    ∀ symbol ∈ analysis.grammar.production index, analysis.numbering.Uses symbol := by
  obtain ⟨rule, hrule, _, hproduction, _⟩ := hdescribes.exists_rule_of_select hselect
  rw [hproduction]
  exact hdescribes.represents.uses rule hrule

theorem sound (huses : ∀ symbol ∈ symbols, analysis.numbering.Uses symbol)
    (hlast : InputToken.kind input.last = .endOfInput)
    (hreads : analysis.Reads symbols input trees rest expanded) :
    input.Passes (Tree.tokensOfAll trees) rest ∧
      grammar.Forest (symbols.map analysis.numbering.decode) trees := by
  induction hreads with
  | nil => exact ⟨.nil _, .nil⟩
  | @token id symbols input rest trees expanded hkind hlater ih =>
      rw [List.forall_mem_cons] at huses
      obtain ⟨name, hlookahead, hdecode⟩ := Numbering.exists_terminal huses.1
      rw [hlookahead] at hkind
      have hnext := Input.passes_next hlast (by simp [hkind])
      have hpeek := hnext.kind_peek
      rw [List.map_singleton, List.headD_cons, hkind] at hpeek
      rw [← hnext.last_eq] at hlast
      obtain ⟨hpasses, hforest⟩ := ih huses.2 hlast
      rw [Tree.tokensOfAll, Tree.tokens, List.map_cons, hdecode]
      exact ⟨hnext.append hpasses, .leaf hpeek.symm hforest⟩
  | @expand nonterminal index symbols input middle rest children trees inner expanded hselect _ _
      ihchildren ih =>
      rw [List.forall_mem_cons] at huses
      obtain ⟨rule, hrule, rfl, hproduction, _⟩ := hdescribes.exists_rule_of_select hselect
      rw [hproduction] at ihchildren
      obtain ⟨hinner, hchildren⟩ := ihchildren (hdescribes.represents.uses rule hrule) hlast
      rw [← hinner.last_eq] at hlast
      obtain ⟨hpasses, hforest⟩ := ih huses.2 hlast
      rw [Tree.tokensOfAll, Tree.tokens, List.map_cons]
      exact ⟨hinner.append hpasses,
        .node (hdescribes.represents.decodeRule_mem hrule) hchildren hforest⟩

theorem named_rule_of_select {nonterminal index : Nat} {seen : Lookahead}
    (hselect : analysis.select? nonterminal seen = some index) :
    ∃ rule, grammar.rules[index]? = some rule ∧
      analysis.numbering.nonterminalName nonterminal = rule.lhs ∧
      (analysis.grammar.production index).map analysis.numbering.decode = rule.production := by
  obtain ⟨rule, hrule, rfl, _⟩ := hdescribes.rule_of_select hselect
  refine ⟨_, hdescribes.represents.getElem?_rules hrule, rfl, ?_⟩
  rw [NumberedGrammar.production, hrule]
  rfl

/-- The rules that are expanded while symbols are read rewrite the symbols to what is passed. -/
theorem rewrites_of_reads (huses : ∀ symbol ∈ symbols, analysis.numbering.Uses symbol)
    (hreads : analysis.Reads symbols input trees rest expanded) :
    ∃ (rules : List Rule) (word : List String),
      grammar.Numbers expanded rules ∧
      (Tree.tokensOfAll trees).map InputToken.kind = word.map Lookahead.terminal ∧
      Grammar.rewriteAll? rules (symbols.map analysis.numbering.decode) =
        some (word.map .terminal) := by
  induction hreads with
  | nil => exact ⟨[], [], rfl, rfl, rfl⟩
  | @token id symbols input rest trees expanded hkind _ ih =>
      rw [List.forall_mem_cons] at huses
      obtain ⟨name, hlookahead, hdecode⟩ := Numbering.exists_terminal huses.1
      obtain ⟨rules, word, hrules, hkinds, hrewrite⟩ := ih huses.2
      refine ⟨rules, name :: word, hrules, ?_, ?_⟩
      · rw [Tree.tokensOfAll, Tree.tokens, List.singleton_append, List.map_cons, List.map_cons,
          Input.next_fst, hkind, hlookahead, hkinds]
      · rw [List.map_cons, hdecode]
        exact Grammar.rewriteAll?_append_left hrewrite [name]
  | @expand nonterminal index symbols input middle rest children trees inner expanded hselect _ _
      ihchildren ih =>
      rw [List.forall_mem_cons] at huses
      obtain ⟨rule, hrule, hname, hproduction⟩ := hdescribes.named_rule_of_select hselect
      obtain ⟨within, front, hwithin, hfront, hinner⟩ :=
        ihchildren (hdescribes.uses_of_select hselect)
      obtain ⟨rules, word, hrules, hkinds, hrewrite⟩ := ih huses.2
      rw [hproduction] at hinner
      refine ⟨rule :: within ++ rules, front ++ word, (hwithin.append hrules).cons hrule, ?_, ?_⟩
      · rw [Tree.tokensOfAll, Tree.tokens, List.map_append, List.map_append, hfront, hkinds]
      · rw [List.map_cons, Numbering.decode, hname, List.cons_append, List.map_append]
        exact Grammar.rewriteAll?_expand (Grammar.rewriteAll?_both hinner hrewrite)

/-- Where reading stops, the rules that were expanded have rewritten the symbols to what is passed,
followed by a symbol that refuses what is seen. -/
theorem rewrites_of_stops (huses : ∀ symbol ∈ symbols, analysis.numbering.Uses symbol)
    (hlast : InputToken.kind input.last = .endOfInput)
    (hstops : analysis.Stops symbols input expected rest expanded) :
    ∃ (rules : List Rule) (tokens : List τ) (word : List String) (symbol : NumberedSymbol)
        (later : List Symbol),
      grammar.Numbers expanded rules ∧
      input.Passes tokens rest ∧
      tokens.map InputToken.kind = word.map Lookahead.terminal ∧
      analysis.numbering.Uses symbol ∧
      analysis.Refuses (InputToken.kind rest.peek) symbol expected ∧
      Grammar.rewriteAll? rules (symbols.map analysis.numbering.decode) =
        some (word.map .terminal ++ analysis.numbering.decode symbol :: later) := by
  induction hstops with
  | @refuse symbol symbols input expected hrefuses =>
      rw [List.forall_mem_cons] at huses
      exact ⟨[], [], [], symbol, symbols.map analysis.numbering.decode, rfl, .nil input, rfl,
        huses.1, hrefuses, rfl⟩
  | @inside nonterminal index symbols input rest expected inner hselect _ ih =>
      obtain ⟨rule, hrule, hname, hproduction⟩ := hdescribes.named_rule_of_select hselect
      obtain ⟨rules, tokens, word, symbol, later, hrules, hpasses, hkinds, hused, hrefuses,
        hrewrite⟩ := ih (hdescribes.uses_of_select hselect) hlast
      rw [hproduction] at hrewrite
      refine ⟨rule :: rules, tokens, word, symbol, later ++ symbols.map analysis.numbering.decode,
        hrules.cons hrule, hpasses, hkinds, hused, hrefuses, ?_⟩
      have happended := Grammar.rewriteAll?_append_right hrewrite
        (symbols.map analysis.numbering.decode)
      rw [List.append_assoc] at happended
      rw [List.map_cons, Numbering.decode, hname]
      exact Grammar.rewriteAll?_expand happended
  | @behind symbol symbols input middle rest trees expected inner expanded hreads _ ih =>
      rw [List.forall_mem_cons] at huses
      have hfirst := List.forall_mem_singleton.mpr huses.1
      obtain ⟨hinner, _⟩ := hdescribes.sound hfirst hlast hreads
      obtain ⟨within, front, hwithin, hfront, hread⟩ := hdescribes.rewrites_of_reads hfirst hreads
      rw [← hinner.last_eq] at hlast
      obtain ⟨rules, tokens, word, symbol', later, hrules, hpasses, hkinds, hused, hrefuses,
        hrewrite⟩ := ih huses.2 hlast
      refine ⟨within ++ rules, Tree.tokensOfAll trees ++ tokens, front ++ word, symbol', later,
        hwithin.append hrules, hinner.append hpasses, ?_, hused, hrefuses, ?_⟩
      · rw [List.map_append, List.map_append, hfront, hkinds]
      · rw [List.map_append, List.append_assoc]
        exact Grammar.rewriteAll?_both hread hrewrite

/-- Where reading stops, a symbol is left that refuses what is seen. -/
theorem stuck (huses : ∀ symbol ∈ symbols, analysis.numbering.Uses symbol)
    (hlast : InputToken.kind input.last = .endOfInput)
    (hstops : analysis.Stops symbols input expected rest expanded) :
    ∃ (tokens : List τ) (word : List String) (symbol : NumberedSymbol) (later : List Symbol),
      input.Passes tokens rest ∧
      tokens.map InputToken.kind = word.map Lookahead.terminal ∧
      analysis.numbering.Uses symbol ∧
      analysis.Refuses (InputToken.kind rest.peek) symbol expected ∧
      grammar.Derives (symbols.map analysis.numbering.decode)
        (word.map .terminal ++ analysis.numbering.decode symbol :: later) := by
  obtain ⟨rules, tokens, word, symbol, later, hrules, hpasses, hkinds, hused, hrefuses, hrewrite⟩ :=
    hdescribes.rewrites_of_stops huses hlast hstops
  have hleftmost := Grammar.LeftmostDerives.of_rewriteAll? hrules.mem hrewrite
  exact ⟨tokens, word, symbol, later, hpasses, hkinds, hused, hrefuses, hleftmost.derives⟩

end Analysis.Describes

end TopDown
