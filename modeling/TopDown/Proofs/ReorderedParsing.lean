import TopDown.Proofs.Completeness
import TopDown.Proofs.Reordering

/-!
# Parsing by rules in another order

The parsers of two grammars with the same rules number them differently, and make the same choices.
They give the same trees, and where one of them stops, the other stops too and expects the same.
-/

namespace TopDown

variable {τ : Type}

/-- The numbers of both sequences stand for the same symbols. -/
structure Numbering.Corresponds (numbering numbering' : Numbering)
    (symbols symbols' : List NumberedSymbol) : Prop where
  uses : ∀ symbol ∈ symbols, numbering.Uses symbol
  uses' : ∀ symbol ∈ symbols', numbering'.Uses symbol
  decode_eq : symbols'.map numbering'.decode = symbols.map numbering.decode

namespace Numbering.Corresponds

variable {numbering numbering' : Numbering} {symbol symbol' : NumberedSymbol}
  {symbols symbols' : List NumberedSymbol} {id : Nat}

theorem symm (hcorresponds : numbering.Corresponds numbering' symbols symbols') :
    numbering'.Corresponds numbering symbols' symbols :=
  ⟨hcorresponds.uses', hcorresponds.uses, hcorresponds.decode_eq.symm⟩

theorem eq_nil (hcorresponds : numbering.Corresponds numbering' [] symbols') : symbols' = [] :=
  List.map_eq_nil_iff.mp hcorresponds.decode_eq

theorem exists_cons (hcorresponds : numbering.Corresponds numbering' (symbol :: symbols) symbols') :
    ∃ symbol' rest', symbols' = symbol' :: rest' ∧
      numbering.Corresponds numbering' [symbol] [symbol'] ∧
      numbering.Corresponds numbering' symbols rest' := by
  obtain ⟨huses, huses', hdecode⟩ := hcorresponds
  obtain ⟨symbol', rest', rfl, hsymbol, hrest⟩ := List.map_eq_cons_iff.mp hdecode
  rw [List.forall_mem_cons] at huses huses'
  refine ⟨symbol', rest', rfl, ⟨?_, ?_, ?_⟩, huses.2, huses'.2, hrest⟩
  · exact List.forall_mem_singleton.mpr huses.1
  · exact List.forall_mem_singleton.mpr huses'.1
  · rw [List.map_singleton, List.map_singleton, hsymbol]

theorem exists_terminal (hcorresponds : numbering.Corresponds numbering' [.terminal id] [symbol']) :
    ∃ id', symbol' = .terminal id' ∧ numbering'.lookahead id' = numbering.lookahead id := by
  obtain ⟨huses, huses', hdecode⟩ := hcorresponds
  obtain ⟨name, hlookahead, hname⟩ :=
    Numbering.exists_terminal (huses _ (List.mem_singleton_self _))
  have hsymbol : numbering'.decode symbol' = .terminal name :=
    (List.cons.inj hdecode).1.trans hname
  cases symbol' with
  | nonterminal id' => cases hsymbol
  | terminal id' =>
      obtain ⟨name', hlookahead', hname'⟩ :=
        Numbering.exists_terminal (huses' _ (List.mem_singleton_self _))
      refine ⟨id', rfl, ?_⟩
      rw [hlookahead, hlookahead', Symbol.terminal.inj (hname'.symm.trans hsymbol)]

theorem exists_nonterminal
    (hcorresponds : numbering.Corresponds numbering' [.nonterminal id] [symbol']) :
    ∃ id', symbol' = .nonterminal id' ∧ id < numbering.nonterminals.length ∧
      id' < numbering'.nonterminals.length ∧
      numbering'.nonterminalName id' = numbering.nonterminalName id := by
  obtain ⟨huses, huses', hdecode⟩ := hcorresponds
  have hsymbol := (List.cons.inj hdecode).1
  cases symbol' with
  | terminal id' => cases hsymbol
  | nonterminal id' =>
      exact ⟨id', rfl, huses _ (List.mem_singleton_self _), huses' _ (List.mem_singleton_self _),
        Symbol.nonterminal.inj hsymbol⟩

end Numbering.Corresponds

namespace Analysis

/-- Two analyses of grammars with the same rules, whose choices are determined. -/
structure Matches (analysis analysis' : Analysis) (grammar other : Grammar) : Prop where
  describes : analysis.Describes grammar
  describes' : analysis'.Describes other
  sameRules : grammar.SameRules other
  predictive : grammar.Predictive
  predictive' : other.Predictive

namespace Matches

variable [InputToken τ] {analysis analysis' : Analysis} {grammar other : Grammar}
  {nonterminal nonterminal' : Nat} {seen : Lookahead} {symbols symbols' : List NumberedSymbol}
  {symbol symbol' : NumberedSymbol} {input rest : Input τ} {trees : List (Tree τ)}
  {expected : List Lookahead} {expanded : List Nat}

theorem symm (hmatches : analysis.Matches analysis' grammar other) :
    analysis'.Matches analysis other grammar :=
  ⟨hmatches.describes', hmatches.describes, hmatches.sameRules.symm, hmatches.predictive',
    hmatches.predictive⟩

variable (hmatches : analysis.Matches analysis' grammar other)
include hmatches

theorem exists_select {index : Nat} (hlt : nonterminal' < analysis'.grammar.nonterminalCount)
    (hname : analysis'.numbering.nonterminalName nonterminal' =
      analysis.numbering.nonterminalName nonterminal)
    (hselect : analysis.select? nonterminal seen = some index) :
    ∃ index', analysis'.select? nonterminal' seen = some index' ∧
      analysis.numbering.Corresponds analysis'.numbering (analysis.grammar.production index)
        (analysis'.grammar.production index') := by
  obtain ⟨rule, hrule, rfl, hproduction, hpredicts⟩ :=
    hmatches.describes.exists_rule_of_select hselect
  have hmem := hmatches.describes.represents.decodeRule_mem hrule
  obtain ⟨index', origin, hselect', horigin, hproduction', hdecode⟩ :=
    hmatches.describes'.select_eq_of_predicts hmatches.predictive' hlt
      ((hmatches.sameRules.mem_iff _).mp hmem) hname.symm
      (hmatches.sameRules.predicts_iff.mp hpredicts)
  refine ⟨index', hselect', ?_, ?_, ?_⟩
  · exact hmatches.describes.uses_of_select hselect
  · exact hmatches.describes'.uses_of_select hselect'
  · rw [hproduction, hproduction']
    exact congrArg Rule.production hdecode

theorem select_eq_none (hlt : nonterminal < analysis.grammar.nonterminalCount)
    (hname : analysis'.numbering.nonterminalName nonterminal' =
      analysis.numbering.nonterminalName nonterminal)
    (hselect : analysis.select? nonterminal seen = none) :
    analysis'.select? nonterminal' seen = none := by
  rw [Option.eq_none_iff_forall_not_mem]
  intro index' hselect'
  obtain ⟨index, hsome, _⟩ := hmatches.symm.exists_select hlt hname.symm hselect'
  rw [hselect] at hsome
  cases hsome

theorem mem_predictAny_iff (hlt : nonterminal < analysis.grammar.nonterminalCount)
    (hlt' : nonterminal' < analysis'.grammar.nonterminalCount)
    (hname : analysis'.numbering.nonterminalName nonterminal' =
      analysis.numbering.nonterminalName nonterminal) :
    seen ∈ analysis'.predictAnyLookaheads nonterminal' ↔
      seen ∈ analysis.predictAnyLookaheads nonterminal := by
  have hmem := (hmatches.describes.mem_predictAny hlt).trans
    (hmatches.describes.represents.exists_alternative_iff hlt (grammar.Predicts · seen))
  have hmem' := (hmatches.describes'.mem_predictAny hlt').trans
    (hmatches.describes'.represents.exists_alternative_iff hlt' (other.Predicts · seen))
  rw [hmem, hmem']
  simp only [hmatches.sameRules.mem_iff, hmatches.sameRules.predicts_iff]
  rw [← Analysis.numbering, ← Analysis.numbering, hname]

/-! ### The same course

Corresponding symbols select rules with the same left-hand side and production, and the symbols of
these correspond again. So reading and stopping are followed step by step. -/

theorem reads (hcorresponds : analysis.numbering.Corresponds analysis'.numbering symbols symbols')
    (hreads : analysis.Reads symbols input trees rest expanded) :
    ∃ expanded', analysis'.Reads symbols' input trees rest expanded' := by
  induction hreads generalizing symbols' with
  | nil =>
      rw [hcorresponds.eq_nil]
      exact ⟨[], .nil⟩
  | token hkind _ ih =>
      obtain ⟨symbol', rest', rfl, hfirst, hlater⟩ := hcorresponds.exists_cons
      obtain ⟨id', rfl, hlookahead⟩ := hfirst.exists_terminal
      obtain ⟨expanded', hreads⟩ := ih hlater
      exact ⟨expanded', .token (hkind.trans hlookahead.symm) hreads⟩
  | expand hselect _ _ ihchildren ih =>
      obtain ⟨symbol', rest', rfl, hfirst, hlater⟩ := hcorresponds.exists_cons
      obtain ⟨id', rfl, _, hlt, hname⟩ := hfirst.exists_nonterminal
      obtain ⟨index', hselect', hproduction⟩ := hmatches.exists_select hlt hname hselect
      obtain ⟨inner, hinner⟩ := ihchildren hproduction
      obtain ⟨expanded', hreads⟩ := ih hlater
      rw [← hname]
      exact ⟨index' :: inner ++ expanded', .expand hselect' hinner hreads⟩

theorem exists_refuses
    (hcorresponds : analysis.numbering.Corresponds analysis'.numbering [symbol] [symbol'])
    (hrefuses : analysis.Refuses seen symbol expected) :
    ∃ expected', analysis'.Refuses seen symbol' expected' ∧
      ∀ other, other ∈ expected' ↔ other ∈ expected := by
  cases hrefuses with
  | terminal hseen =>
      obtain ⟨id', rfl, hlookahead⟩ := hcorresponds.exists_terminal
      rw [← hlookahead] at hseen ⊢
      exact ⟨_, .terminal hseen, fun other => Iff.rfl⟩
  | nonterminal hselect =>
      obtain ⟨id', rfl, hlt, hlt', hname⟩ := hcorresponds.exists_nonterminal
      exact ⟨_, .nonterminal (hmatches.select_eq_none hlt hname hselect),
        fun other => hmatches.mem_predictAny_iff hlt hlt' hname⟩

theorem stops (hcorresponds : analysis.numbering.Corresponds analysis'.numbering symbols symbols')
    (hstops : analysis.Stops symbols input expected rest expanded) :
    ∃ expected' expanded', analysis'.Stops symbols' input expected' rest expanded' ∧
      ∀ other, other ∈ expected' ↔ other ∈ expected := by
  induction hstops generalizing symbols' with
  | refuse hrefuses =>
      obtain ⟨symbol', rest', rfl, hfirst, _⟩ := hcorresponds.exists_cons
      obtain ⟨expected', hrefuses', hexpected⟩ := hmatches.exists_refuses hfirst hrefuses
      exact ⟨expected', [], .refuse hrefuses', hexpected⟩
  | inside hselect _ ih =>
      obtain ⟨symbol', rest', rfl, hfirst, _⟩ := hcorresponds.exists_cons
      obtain ⟨id', rfl, _, hlt, hname⟩ := hfirst.exists_nonterminal
      obtain ⟨index', hselect', hproduction⟩ := hmatches.exists_select hlt hname hselect
      obtain ⟨expected', inner, hinner, hexpected⟩ := ih hproduction
      exact ⟨expected', index' :: inner, .inside hselect' hinner, hexpected⟩
  | behind hreads _ ih =>
      obtain ⟨symbol', rest', rfl, hfirst, hlater⟩ := hcorresponds.exists_cons
      obtain ⟨inner, hreads'⟩ := hmatches.reads hfirst hreads
      obtain ⟨expected', expanded', hstops', hexpected⟩ := ih hlater
      exact ⟨expected', inner ++ expanded', .behind hreads' hstops', hexpected⟩

end Matches

end Analysis

/-- Two attempts succeed with the same tree, or fail at the same token and expect the same; they
leave the same rest of the input. -/
structure Attempt.Agrees (attempt attempt' : Attempt τ (Tree τ)) : Prop where
  rest_eq : attempt'.rest = attempt.rest
  outcome : (∃ tree, attempt.outcome = .ok tree ∧ attempt'.outcome = .ok tree) ∨
    ∃ expected expected' found, attempt.outcome = .error (.unexpectedToken expected found) ∧
      attempt'.outcome = .error (.unexpectedToken expected' found) ∧
      ∀ other, other ∈ expected' ↔ other ∈ expected

namespace Parser

variable [InputToken τ] {grammar other : Grammar} {parser parser' : Parser} {input : Input τ}

theorem parse_agrees (hparser : ofGrammar grammar = .ok parser)
    (hparser' : ofGrammar other = .ok parser') (hsame : grammar.SameRules other)
    (hlast : InputToken.kind input.last = .endOfInput) :
    (parser.parse input).Agrees (parser'.parse input) := by
  obtain ⟨hdescribes, hpredictive⟩ := describes_of_ofGrammar hparser
  obtain ⟨hdescribes', hpredictive'⟩ := describes_of_ofGrammar hparser'
  have hmatches : parser.analysis.Matches parser'.analysis grammar other :=
    ⟨hdescribes, hdescribes', hsame, hpredictive, hpredictive'⟩
  obtain ⟨huses, start, hstart, hdecode⟩ := start_symbols hdescribes
  obtain ⟨huses', start', hstart', hdecode'⟩ := start_symbols hdescribes'
  have hcorresponds : parser.analysis.numbering.Corresponds parser'.analysis.numbering
      [.nonterminal Numbering.start] [.nonterminal Numbering.start] := by
    refine ⟨huses, huses', ?_⟩
    rw [← hsame.start_eq, hstart, Option.some.injEq] at hstart'
    rw [hdecode, hdecode', hstart']
  rcases parse_cases hparser hlast with ⟨tree, houtcome, hreads⟩ | ⟨expected, houtcome, hstops⟩
  · obtain ⟨expanded', hreads'⟩ := hmatches.reads hcorresponds hreads
    obtain ⟨houtcome', hrest⟩ := parse_eq_of_reads hparser' hlast hreads'
    exact ⟨hrest, .inl ⟨tree, houtcome, houtcome'⟩⟩
  · obtain ⟨expected', expanded', hstops', hexpected⟩ := hmatches.stops hcorresponds hstops
    rcases parse_cases hparser' hlast with ⟨tree, _, hreads⟩ | ⟨expected'', houtcome', hstops''⟩
    · exact absurd hreads hstops'.not_reads
    · obtain ⟨rfl, hrest⟩ := hstops'.unique hstops''
      rw [hrest] at houtcome'
      exact ⟨hrest, .inr ⟨expected, _, _, houtcome, houtcome', hexpected⟩⟩

theorem parseComplete_agrees (hagrees : (parser.parse input).Agrees (parser'.parse input)) :
    (parser.parseComplete input).Agrees (parser'.parseComplete input) := by
  obtain ⟨hrest, ⟨tree, houtcome, houtcome'⟩ | ⟨expected, expected', found, houtcome, houtcome',
    hexpected⟩⟩ := hagrees
  · rw [parseComplete_of_ok houtcome, parseComplete_of_ok houtcome', hrest]
    refine ⟨rfl, ?_⟩
    by_cases hkind : InputToken.kind (parser.parse input).rest.peek = .endOfInput
    · rw [Attempt.token_of_eq hkind]
      exact .inl ⟨tree, rfl, rfl⟩
    · rw [Attempt.token_of_ne hkind]
      exact .inr ⟨_, _, _, rfl, rfl, fun other => Iff.rfl⟩
  · rw [parseComplete_of_error houtcome, parseComplete_of_error houtcome']
    exact ⟨hrest, .inr ⟨expected, expected', found, rfl, rfl, hexpected⟩⟩

theorem exists_ofGrammar {analysis : Analysis}
    (hanalysis : Analysis.ofGrammar grammar = .ok analysis)
    (hambiguous : analysis.isAmbiguous = false) : ∃ parser, ofGrammar grammar = .ok parser := by
  refine ⟨⟨analysis, hambiguous⟩, ?_⟩
  rw [ofGrammar, hanalysis]
  simp [ofAnalysis, hambiguous]

end Parser

namespace Analysis

/-- Grammars with permuted rules and the same start symbol are analysed together or not at all. By
name their tables say the same, and if there is no overlap, their parsers give the same answers to
every input. -/
theorem ofGrammar_perm {grammar other : Grammar} (hperm : grammar.rules.Perm other.rules)
    (hstart : grammar.start? = other.start?) :
    ((∃ analysis, ofGrammar grammar = .ok analysis) ↔
        ∃ analysis', ofGrammar other = .ok analysis') ∧
      ∀ analysis analysis', ofGrammar grammar = .ok analysis → ofGrammar other = .ok analysis' →
        analysis.Agrees analysis' ∧
          (analysis.isAmbiguous = false →
            ∃ parser parser', Parser.ofGrammar grammar = .ok parser ∧
              Parser.ofGrammar other = .ok parser' ∧
              ∀ (τ : Type) [InputToken τ] (input : Input τ),
                InputToken.kind input.last = .endOfInput →
                  (parser.parse input).Agrees (parser'.parse input) ∧
                    (parser.parseComplete input).Agrees (parser'.parseComplete input)) := by
  have hsame := Grammar.sameRules_of_perm hperm hstart
  constructor
  · rw [exists_ofGrammar_iff, exists_ofGrammar_iff, hsame.isClosed_iff]
    exact and_congr_left fun _ => not_congr (by rw [← List.length_eq_zero_iff, hperm.length_eq,
      List.length_eq_zero_iff])
  · intro analysis analysis' hanalysis hanalysis'
    have hagrees := agrees_of_perm hperm hstart hanalysis hanalysis'
    refine ⟨hagrees, fun hambiguous => ?_⟩
    obtain ⟨parser, hparser⟩ := Parser.exists_ofGrammar hanalysis hambiguous
    obtain ⟨parser', hparser'⟩ :=
      Parser.exists_ofGrammar hanalysis' (hagrees.isAmbiguous ▸ hambiguous)
    refine ⟨parser, parser', hparser, hparser', fun τ _ input hlast => ?_⟩
    have hparse := Parser.parse_agrees hparser hparser' hsame hlast
    exact ⟨hparse, Parser.parseComplete_agrees hparse⟩

end Analysis

/-- The grammar of nested pairs with the empty production first. -/
def Grammar.emptyOrPairs : Grammar :=
  { rules :=
      [{ lhs := "s", production := [] },
        { lhs := "s", production := [.terminal "a", .nonterminal "s", .terminal "b"] }] }

namespace Analysis

theorem pairs_perm :
    Grammar.pairs.rules.Perm Grammar.emptyOrPairs.rules ∧
      Grammar.pairs.start? = Grammar.emptyOrPairs.start? ∧
      ∃ analysis' parser', ofGrammar .emptyOrPairs = .ok analysis' ∧
        Analysis.pairs.Agrees analysis' ∧ Parser.ofGrammar .emptyOrPairs = .ok parser' ∧
        (Parser.pairs.parseComplete
            (.ofTokens [.terminal "a", .terminal "b"] Lookahead.endOfInput)).Agrees
          (parser'.parseComplete
            (.ofTokens [.terminal "a", .terminal "b"] Lookahead.endOfInput)) := by
  have hperm : Grammar.pairs.rules.Perm Grammar.emptyOrPairs.rules := by decide
  obtain ⟨hiff, hagrees⟩ := ofGrammar_perm hperm rfl
  obtain ⟨analysis', hanalysis'⟩ := hiff.mp ⟨_, ofGrammar_pairs⟩
  obtain ⟨htables, hparsers⟩ := hagrees _ analysis' ofGrammar_pairs hanalysis'
  obtain ⟨parser, parser', hparser, hparser', hparse⟩ := hparsers Parser.pairs.unambiguous
  rw [Parser.ofGrammar_pairs, Except.ok.injEq] at hparser
  subst hparser
  exact ⟨hperm, rfl, analysis', parser', hanalysis', htables, hparser', (hparse _ _ rfl).2⟩

end Analysis

end TopDown
