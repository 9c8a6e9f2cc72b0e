import TopDown.Proofs.Completeness
import TopDown.Proofs.Tables

/-!
# Trees in their place

A parser reads from some place of its tokens up to another one. What it reads there are the trees
each of whose nodes has a rule that is predicted by the token where the node begins. A parser that
fails has passed the tokens in front of the one that it reports.
-/

namespace TopDown

variable {τ : Type}

namespace Input

/-- The tokens from a place on. The last token stands behind all others. -/
def startingAt (tokens : List τ) (last : τ) (place : Nat) : Input τ :=
  { ahead := tokens.drop place, last := last, position := place }

variable {tokens passed : List τ} {last : τ} {place final : Nat} {rest : Input τ}

theorem peek_startingAt : (startingAt tokens last place).peek = tokens.getD place last := by
  rw [peek, startingAt, List.headD_eq_head?_getD, List.head?_drop, List.getD_eq_getElem?_getD]

theorem passes_extract (hle : place ≤ final) (hfinal : final ≤ tokens.length) :
    (startingAt tokens last place).Passes (tokens.extract place final)
      (startingAt tokens last final) := by
  obtain ⟨count, rfl⟩ := Nat.exists_eq_add_of_le hle
  rw [List.extract_eq_take_drop, Nat.add_sub_cancel_left]
  refine ⟨?_, rfl, ?_⟩
  · change tokens.drop place = (tokens.drop place).take count ++ tokens.drop (place + count)
    rw [← List.drop_drop, List.take_append_drop]
  · change place + count = place + ((tokens.drop place).take count).length
    rw [List.length_take, List.length_drop]
    omega

/-- The tokens that are passed are those between two places. -/
theorem Passes.eq_extract (hplace : place ≤ tokens.length)
    (hpasses : (startingAt tokens last place).Passes passed rest) :
    place + passed.length ≤ tokens.length ∧
      passed = tokens.extract place (place + passed.length) ∧
      rest = startingAt tokens last (place + passed.length) := by
  have hahead : tokens.drop place = passed ++ rest.ahead := hpasses.ahead_eq
  have hlength := congrArg List.length hahead
  rw [List.length_drop, List.length_append] at hlength
  refine ⟨by omega, ?_, ?_⟩
  · rw [List.extract_eq_take_drop, Nat.add_sub_cancel_left, hahead, List.take_left]
  · have hrest : rest.ahead = tokens.drop (place + passed.length) := by
      rw [← List.drop_drop, hahead, List.drop_left]
    obtain ⟨ahead, last', position⟩ := rest
    rw [startingAt, mk.injEq]
    exact ⟨hrest, hpasses.last_eq, hpasses.position_eq⟩

end Input

/-- A node of a tree, and the place where its tokens begin. -/
structure PlacedNode (τ : Type) where
  place : Nat
  label : String
  children : List (Tree τ)

namespace Tree

mutual

/-- The nodes of a tree whose tokens begin at a place. Each tree begins where the one to its left
ends, and a node where its first child does. -/
def nodesFrom (place : Nat) : Tree τ → List (PlacedNode τ)
  | .leaf _ => []
  | .node label children => ⟨place, label, children⟩ :: nodesOfAllFrom place children

def nodesOfAllFrom (place : Nat) : List (Tree τ) → List (PlacedNode τ)
  | [] => []
  | tree :: trees => tree.nodesFrom place ++ nodesOfAllFrom (place + tree.tokens.length) trees

end

theorem nodesOfAllFrom_singleton (place : Nat) (tree : Tree τ) :
    nodesOfAllFrom place [tree] = tree.nodesFrom place := by
  rw [nodesOfAllFrom, nodesOfAllFrom, List.append_nil]

end Tree

variable [InputToken τ]

/-- A terminal is the root of a leaf with a token of its kind, a nonterminal that of a node with its
name. -/
inductive Symbol.IsRootOf : Symbol → Tree τ → Prop
  | leaf {name : String} {token : τ} (hkind : InputToken.kind token = .terminal name) :
      IsRootOf (.terminal name) (.leaf token)
  | node {name : String} {children : List (Tree τ)} :
      IsRootOf (.nonterminal name) (.node name children)

namespace Analysis

/-- One of the rules of its label has the roots of the children, in order, as its production, and is
predicted by the token where the node begins. -/
def Expands (analysis : Analysis) (grammar : Grammar) (tokens : List τ) (last : τ)
    (node : PlacedNode τ) : Prop :=
  ∃ index rule, grammar.rules[index]? = some rule ∧ rule.lhs = node.label ∧
    List.Forall₂ Symbol.IsRootOf rule.production node.children ∧
    InputToken.kind (tokens.getD node.place last) ∈ analysis.predictLookaheads index

/-- A tree of the start symbol that has its leaves between two places, and each of whose nodes is
expanded where it begins. -/
structure IsParse (analysis : Analysis) (grammar : Grammar) (tokens : List τ) (last : τ)
    (place final : Nat) (tree : Tree τ) : Prop where
  root : ∃ start, grammar.start? = some start ∧ (Symbol.nonterminal start).IsRootOf tree
  place_le : place ≤ final
  final_le : final ≤ tokens.length
  tokens_eq : tree.tokens = tokens.extract place final
  expands : ∀ node ∈ tree.nodesFrom place, analysis.Expands grammar tokens last node

/-! ### Reading in its place

Trees that are read from a place of the tokens begin there one behind the other, and each of their
nodes has a rule that is predicted at its own place. Both directions go through the forest. -/

section Describes

variable {grammar : Grammar} {analysis : Analysis} {tokens : List τ} {last : τ} {place : Nat}
  {symbols : List NumberedSymbol} {trees : List (Tree τ)} {rest : Input τ} {expanded : List Nat}

variable (hdescribes : analysis.Describes grammar)
include hdescribes

theorem Describes.place_of_reads (hlast : InputToken.kind last = .endOfInput)
    (hplace : place ≤ tokens.length)
    (huses : ∀ symbol ∈ symbols, analysis.numbering.Uses symbol)
    (hreads : analysis.Reads symbols (.startingAt tokens last place) trees rest expanded) :
    place + (Tree.tokensOfAll trees).length ≤ tokens.length ∧
      rest = .startingAt tokens last (place + (Tree.tokensOfAll trees).length) := by
  obtain ⟨hpasses, _⟩ := hdescribes.sound huses hlast hreads
  obtain ⟨hle, _, hrest⟩ := hpasses.eq_extract hplace
  exact ⟨hle, hrest⟩

/-- A node is expanded where it begins exactly when the parser chooses a rule there that has the
roots of its children as its production. -/
theorem Describes.expands_iff (hanalysis : ofGrammar grammar = .ok analysis)
    (hpredictive : grammar.Predictive) {nonterminal : Nat}
    (hlt : nonterminal < analysis.grammar.nonterminalCount) {children : List (Tree τ)} :
    analysis.Expands grammar tokens last
        ⟨place, analysis.numbering.nonterminalName nonterminal, children⟩ ↔
      ∃ index,
        analysis.select? nonterminal
            (InputToken.kind (Input.startingAt tokens last place).peek) = some index ∧
          List.Forall₂ Symbol.IsRootOf
            ((analysis.grammar.production index).map analysis.numbering.decode) children := by
  rw [Input.peek_startingAt]
  constructor
  · rintro ⟨index, rule, hrule, hlhs, hchildren, hseen⟩
    rw [mem_predictLookaheads_iff hanalysis hrule] at hseen
    obtain ⟨chosen, origin, hselect, _, hproduction, rfl⟩ :=
      hdescribes.select_eq_of_predicts hpredictive hlt (List.mem_of_getElem? hrule) hlhs hseen
    refine ⟨chosen, hselect, ?_⟩
    rw [hproduction]
    exact hchildren
  · rintro ⟨index, hselect, hchildren⟩
    obtain ⟨rule, hrule, rfl, hpredicts⟩ := hdescribes.rule_of_select hselect
    have hindex := hdescribes.represents.getElem?_rules hrule
    rw [NumberedGrammar.production, hrule] at hchildren
    exact ⟨index, _, hindex, rfl, hchildren,
      (mem_predictLookaheads_iff hanalysis hindex).mpr hpredicts⟩

/-- What is read has the roots of the symbols and is expanded where it begins. -/
theorem Describes.roots_of_reads (hanalysis : ofGrammar grammar = .ok analysis)
    (hpredictive : grammar.Predictive) (hlast : InputToken.kind last = .endOfInput)
    (hplace : place ≤ tokens.length) (huses : ∀ symbol ∈ symbols, analysis.numbering.Uses symbol)
    (hreads : analysis.Reads symbols (.startingAt tokens last place) trees rest expanded) :
    List.Forall₂ Symbol.IsRootOf (symbols.map analysis.numbering.decode) trees ∧
      ∀ node ∈ Tree.nodesOfAllFrom place trees, analysis.Expands grammar tokens last node := by
  generalize hinput : Input.startingAt tokens last place = input at hreads
  induction hreads generalizing place with
  | nil => exact ⟨.nil, List.forall_mem_nil _⟩
  | @token id symbols input rest trees expanded hkind hlater ih =>
      subst hinput
      rw [List.forall_mem_cons] at huses
      obtain ⟨name, hlookahead, hdecode⟩ := Numbering.exists_terminal huses.1
      obtain ⟨hle, hnext⟩ := hdescribes.place_of_reads hlast hplace
        (List.forall_mem_singleton.mpr huses.1) (.token hkind .nil)
      rw [Tree.tokensOfAll_singleton] at hle hnext
      obtain ⟨hroots, hexpands⟩ := ih hle huses.2 hnext.symm
      rw [List.map_cons, hdecode]
      refine ⟨.cons (.leaf ?_) hroots, hexpands⟩
      rw [Input.next_fst, hkind, hlookahead]
  | @expand nonterminal index symbols input middle rest children trees inner expanded hselect
      hchildren _ ihchildren ih =>
      subst hinput
      rw [List.forall_mem_cons] at huses
      have hproduction := hdescribes.uses_of_select hselect
      obtain ⟨hle, hmiddle⟩ := hdescribes.place_of_reads hlast hplace hproduction hchildren
      obtain ⟨hinner, hwithin⟩ := ihchildren hplace hproduction rfl
      obtain ⟨hroots, hbehind⟩ := ih hle huses.2 hmiddle.symm
      have hnode := (hdescribes.expands_iff hanalysis hpredictive huses.1).mpr
        ⟨index, hselect, hinner⟩
      refine ⟨.cons .node hroots, ?_⟩
      rw [Tree.nodesOfAllFrom, Tree.nodesFrom, List.cons_append, List.forall_mem_cons,
        List.forall_mem_append]
      exact ⟨hnode, hwithin, hbehind⟩

/-- Trees with the roots of the symbols are read where they are expanded and end. -/
theorem Describes.reads_of_roots (hanalysis : ofGrammar grammar = .ok analysis)
    (hpredictive : grammar.Predictive) (hplace : place ≤ tokens.length)
    (huses : ∀ symbol ∈ symbols, analysis.numbering.Uses symbol)
    (hroots : List.Forall₂ Symbol.IsRootOf (symbols.map analysis.numbering.decode) trees)
    (hexpands : ∀ node ∈ Tree.nodesOfAllFrom place trees,
      analysis.Expands grammar tokens last node)
    (hpasses : (Input.startingAt tokens last place).Passes (Tree.tokensOfAll trees) rest) :
    ∃ expanded, analysis.Reads symbols (.startingAt tokens last place) trees rest expanded := by
  induction trees using Tree.forest_induction generalizing symbols place rest with
  | nil =>
      rw [List.forall₂_nil_right_iff, List.map_eq_nil_iff] at hroots
      rw [hroots, hpasses.eq_of_nil]
      exact ⟨[], .nil⟩
  | leaf token trees ih =>
      obtain ⟨_, _, hroot, hlater, hnames⟩ := List.forall₂_cons_right_iff.mp hroots
      obtain ⟨symbol, symbols, rfl, rfl, rfl⟩ := List.map_eq_cons_iff.mp hnames
      rw [List.forall_mem_cons] at huses
      cases symbol with
      | nonterminal id => cases hroot
      | terminal id =>
          obtain ⟨name, hlookahead, hdecode⟩ := Numbering.exists_terminal huses.1
          rw [hdecode] at hroot
          cases hroot with
          | leaf hkind =>
              obtain ⟨middle, hfront, hback⟩ := hpasses.append_split
              obtain ⟨hle, _, rfl⟩ := hfront.eq_extract hplace
              obtain ⟨expanded, hreads⟩ := ih hle huses.2 hlater hexpands hback
              obtain ⟨hnext, hbehind⟩ := hfront.next
              rw [hbehind.eq_of_nil] at hreads
              rw [← hlookahead, ← hnext, Input.next_fst] at hkind
              rw [← hnext]
              exact ⟨expanded, .token hkind hreads⟩
  | node label children trees ihchildren ih =>
      obtain ⟨_, _, hroot, hlater, hnames⟩ := List.forall₂_cons_right_iff.mp hroots
      obtain ⟨symbol, symbols, rfl, rfl, rfl⟩ := List.map_eq_cons_iff.mp hnames
      rw [List.forall_mem_cons] at huses
      cases symbol with
      | terminal id => cases hroot
      | nonterminal id =>
          cases hroot with
          | node =>
              rw [Tree.nodesOfAllFrom, Tree.nodesFrom, List.cons_append, List.forall_mem_cons,
                List.forall_mem_append] at hexpands
              obtain ⟨hnode, hwithin, hbehind⟩ := hexpands
              obtain ⟨index, hselect, hchildren⟩ :=
                (hdescribes.expands_iff hanalysis hpredictive huses.1).mp hnode
              obtain ⟨middle, hfront, hback⟩ := hpasses.append_split
              obtain ⟨hle, _, rfl⟩ := hfront.eq_extract hplace
              obtain ⟨inner, hinner⟩ := ihchildren hplace (hdescribes.uses_of_select hselect)
                hchildren hwithin hfront
              obtain ⟨expanded, hreads⟩ := ih hle huses.2 hlater hbehind hback
              exact ⟨_, .expand hselect hinner hreads⟩

end Describes

end Analysis

/-- An attempt has passed the tokens between two places, and if it failed, then at the one behind
them. -/
structure Attempt.EndsAt {α : Type} (attempt : Attempt τ α) (tokens : List τ) (last : τ)
    (place final : Nat) : Prop where
  place_le : place ≤ final
  final_le : final ≤ tokens.length
  passes : (Input.startingAt tokens last place).Passes (tokens.extract place final) attempt.rest
  rest_eq : attempt.rest = .startingAt tokens last final
  error_eq : ∀ error, attempt.outcome = .error error →
    ∃ expected, error = .unexpectedToken expected (tokens.getD final last)

namespace Parser

variable {grammar : Grammar} {parser : Parser} {tokens : List τ} {last : τ} {place final : Nat}
  {tree : Tree τ}

theorem exists_passes_of_parse (hparser : ofGrammar grammar = .ok parser) (input : Input τ)
    (hlast : InputToken.kind input.last = .endOfInput) :
    ∃ passed, input.Passes passed (parser.parse input).rest ∧
      ∀ error, (parser.parse input).outcome = .error error →
        ∃ expected, error = .unexpectedToken expected (parser.parse input).rest.peek := by
  obtain ⟨hdescribes, _⟩ := describes_of_ofGrammar hparser
  obtain ⟨huses, _⟩ := start_symbols hdescribes
  rcases parse_cases hparser hlast with ⟨tree, houtcome, hreads⟩ | ⟨expected, houtcome, hstops⟩
  · obtain ⟨hpasses, _⟩ := hdescribes.sound huses hlast hreads
    rw [houtcome]
    exact ⟨_, hpasses, by rintro error ⟨⟩⟩
  · obtain ⟨passed, _, _, _, hpasses, _⟩ := hdescribes.stuck huses hlast hstops
    rw [houtcome]
    refine ⟨passed, hpasses, ?_⟩
    rintro error ⟨⟩
    exact ⟨expected, rfl⟩

theorem exists_endsAt_of_parse (hparser : ofGrammar grammar = .ok parser)
    (hlast : InputToken.kind last = .endOfInput) (hplace : place ≤ tokens.length) :
    ∃ final, (parser.parse (.startingAt tokens last place)).EndsAt tokens last place final := by
  obtain ⟨passed, hpasses, herror⟩ :=
    exists_passes_of_parse hparser (.startingAt tokens last place) hlast
  obtain ⟨hle, hpassed, hrest⟩ := hpasses.eq_extract hplace
  rw [hrest, Input.peek_startingAt] at herror
  rw [hpassed] at hpasses
  exact ⟨_, Nat.le_add_right .., hle, hpasses, hrest, herror⟩

theorem isParse_of_parse (hparser : ofGrammar grammar = .ok parser)
    (hlast : InputToken.kind last = .endOfInput) (hplace : place ≤ tokens.length)
    (houtcome : (parser.parse (.startingAt tokens last place)).outcome = .ok tree)
    (hrest : (parser.parse (.startingAt tokens last place)).rest = .startingAt tokens last final) :
    parser.analysis.IsParse grammar tokens last place final tree := by
  obtain ⟨hdescribes, hpredictive⟩ := describes_of_ofGrammar hparser
  obtain ⟨huses, start, hstart, hdecode⟩ := start_symbols hdescribes
  have hreads := reads_of_parse hparser hlast houtcome
  obtain ⟨hroots, hexpands⟩ := hdescribes.roots_of_reads (analysis_of_ofGrammar hparser)
    hpredictive hlast hplace huses hreads
  rw [hdecode, List.forall₂_cons] at hroots
  rw [Tree.nodesOfAllFrom_singleton] at hexpands
  obtain ⟨hpasses, _⟩ := hdescribes.sound huses hlast hreads
  rw [Tree.tokensOfAll_singleton, hrest] at hpasses
  obtain ⟨hle, htokens, hfinal⟩ := hpasses.eq_extract hplace
  obtain rfl : final = place + tree.tokens.length := congrArg Input.position hfinal
  exact ⟨⟨start, hstart, hroots.1⟩, Nat.le_add_right .., hle, htokens, hexpands⟩

theorem parse_of_isParse (hparser : ofGrammar grammar = .ok parser)
    (hlast : InputToken.kind last = .endOfInput)
    (hparse : parser.analysis.IsParse grammar tokens last place final tree) :
    (parser.parse (.startingAt tokens last place)).outcome = .ok tree ∧
      (parser.parse (.startingAt tokens last place)).rest = .startingAt tokens last final := by
  obtain ⟨hdescribes, hpredictive⟩ := describes_of_ofGrammar hparser
  obtain ⟨huses, start, hstart, hdecode⟩ := start_symbols hdescribes
  obtain ⟨⟨start', hstart', hroot⟩, hle, hfinal, htokens, hexpands⟩ := hparse
  rw [hstart, Option.some.injEq] at hstart'
  subst hstart'
  have hpasses : (Input.startingAt tokens last place).Passes (tokens.extract place final) _ :=
    Input.passes_extract hle hfinal
  rw [← htokens, ← Tree.tokensOfAll_singleton] at hpasses
  rw [← Tree.nodesOfAllFrom_singleton] at hexpands
  have hroots : List.Forall₂ Symbol.IsRootOf [.nonterminal start] [tree] := .cons hroot .nil
  rw [← hdecode] at hroots
  obtain ⟨expanded, hreads⟩ := hdescribes.reads_of_roots (analysis_of_ofGrammar hparser)
    hpredictive (hle.trans hfinal) huses hroots hexpands hpasses
  exact parse_eq_of_reads hparser hlast hreads

/-- A parser reads exactly the trees of its grammar whose nodes are each expanded where they begin.
It stops behind the tokens that it has passed, at the one that it reports if it fails. -/
theorem parse_exact (hparser : ofGrammar grammar = .ok parser)
    (hlast : InputToken.kind last = .endOfInput) (hplace : place ≤ tokens.length) :
    (∀ tree final,
      (parser.parse (.startingAt tokens last place)).outcome = .ok tree ∧
          (parser.parse (.startingAt tokens last place)).rest = .startingAt tokens last final ↔
        parser.analysis.IsParse grammar tokens last place final tree) ∧
      ∃ final, (parser.parse (.startingAt tokens last place)).EndsAt tokens last place final := by
  refine ⟨fun tree final => ⟨?_, parse_of_isParse hparser hlast⟩,
    exists_endsAt_of_parse hparser hlast hplace⟩
  rintro ⟨houtcome, hrest⟩
  exact isParse_of_parse hparser hlast hplace houtcome hrest

theorem pairs_parse_exact :
    (Parser.pairs.parse (.startingAt
        [.terminal "b", .terminal "a", .terminal "b", .terminal "b"] Lookahead.endOfInput
          1)).outcome =
        .ok (.node "s" [.leaf (.terminal "a"), .node "s" [], .leaf (.terminal "b")]) ∧
      Analysis.pairs.IsParse .pairs
        [.terminal "b", .terminal "a", .terminal "b", .terminal "b"] Lookahead.endOfInput 1 3
        (.node "s" [.leaf (.terminal "a"), .node "s" [], .leaf (.terminal "b")]) := by
  have hlast : InputToken.kind Lookahead.endOfInput = .endOfInput := rfl
  have hplace : 1 ≤ [Lookahead.terminal "b", .terminal "a", .terminal "b", .terminal "b"].length :=
    by decide
  obtain ⟨hparse, _⟩ := parse_exact ofGrammar_pairs hlast hplace
  have hisParse := (hparse (.node "s" [.leaf (.terminal "a"), .node "s" [], .leaf (.terminal "b")])
    3).mp (by decide +kernel)
  exact ⟨((hparse _ 3).mpr hisParse).1, hisParse⟩

end Parser

end TopDown
