import Mathlib.Data.Finset.Prod
import Mathlib.Order.Interval.Finset.Nat
import TopDown.Proofs.LeftRecursion
import TopDown.Proofs.OpenCalls
import TopDown.Proofs.Soundness

/-!
# Parsing ends

No nonterminal is opened twice at one place of the input. This bounds the open calls, so a parser
never exceeds its bound, and no larger bound changes what it does.
-/

namespace TopDown

variable {τ : Type} [InputToken τ]

namespace Analysis.Describes

variable {grammar : Grammar} {analysis : Analysis} (hdescribes : analysis.Describes grammar)

include hdescribes

/-- What is read without passing a token is read by rules that the current token predicts. -/
theorem cleared {symbols : List NumberedSymbol} {input rest : Input τ} {trees : List (Tree τ)}
    {expanded : List Nat} (huses : ∀ symbol ∈ symbols, analysis.numbering.Uses symbol)
    (hlast : InputToken.kind input.last = .endOfInput)
    (hreads : analysis.Reads symbols input trees rest expanded)
    (hempty : Tree.tokensOfAll trees = []) :
    grammar.Cleared (InputToken.kind input.peek) (symbols.map analysis.numbering.decode) := by
  induction hreads with
  | nil => exact .nil
  | token => simp [Tree.tokensOfAll, Tree.tokens] at hempty
  | @expand nonterminal index symbols input middle rest children trees inner expanded hselect
      hchildren _ ihchildren ih =>
      rw [List.forall_mem_cons] at huses
      rw [Tree.tokensOfAll, Tree.tokens, List.append_eq_nil_iff] at hempty
      obtain ⟨rule, hrule, rfl, hproduction, hpredicts⟩ := hdescribes.exists_rule_of_select hselect
      have hused := hdescribes.represents.uses rule hrule
      rw [hproduction] at hchildren ihchildren
      have hpasses := (hdescribes.sound hused hlast hchildren).1
      rw [hempty.1] at hpasses
      have hmiddle := hpasses.eq_of_nil
      subst hmiddle
      exact .expand (hdescribes.represents.decodeRule_mem hrule) hpredicts
        (ihchildren hused hlast hempty.1) (ih huses.2 hlast hempty.2)

end Analysis.Describes

/-! ### Calls inside calls

A call opens another one further on in the input, or at the same place for a nonterminal that its
own can begin with. No nonterminal can begin with itself there, so open calls differ in their place
or their nonterminal. -/

/-- The inner call comes later in the input than the outer one, or at the same place by openings at
the current token. -/
def Analysis.Nests (analysis : Analysis) (grammar : Grammar) (outer inner : Call τ) : Prop :=
  ∃ tokens, outer.input.Passes tokens inner.input ∧
    (tokens = [] →
      Relation.TransGen (grammar.OpensAt (InputToken.kind outer.input.peek))
        (analysis.numbering.nonterminalName outer.nonterminal)
        (analysis.numbering.nonterminalName inner.nonterminal))

theorem Analysis.Nests.trans {analysis : Analysis} {grammar : Grammar} {outer middle inner : Call τ}
    (houter : analysis.Nests grammar outer middle) (hinner : analysis.Nests grammar middle inner) :
    analysis.Nests grammar outer inner := by
  obtain ⟨front, hfront, hopens⟩ := houter
  obtain ⟨back, hback, hopens'⟩ := hinner
  refine ⟨front ++ back, hfront.append hback, ?_⟩
  intro hempty
  obtain ⟨rfl, rfl⟩ := List.append_eq_nil_iff.mp hempty
  rw [hfront.eq_of_nil] at hopens'
  exact (hopens rfl).trans (hopens' rfl)

theorem Analysis.Nests.ne {analysis : Analysis} {grammar : Grammar}
    (hpredictive : grammar.Predictive) {outer inner : Call τ}
    (hnests : analysis.Nests grammar outer inner) :
    (outer.nonterminal, outer.input.position) ≠ (inner.nonterminal, inner.input.position) := by
  intro hsame
  obtain ⟨hnonterminal, hposition⟩ := Prod.mk.inj hsame
  obtain ⟨tokens, hpasses, hopens⟩ := hnests
  have hempty : tokens = [] := by
    have hlength := hpasses.position_eq
    rw [← hposition] at hlength
    exact List.eq_nil_of_length_eq_zero (by omega)
  have hcycle := hopens hempty
  rw [hnonterminal] at hcycle
  exact hpredictive.not_opensAt_self _ hcycle

/-- Distinct calls are at most the pairs of a nonterminal and a place. -/
theorem length_le_of_nodup {τ : Type} {calls : List (Call τ)} {count first last : Nat}
    (hnodup : (calls.map fun call => (call.nonterminal, call.input.position)).Nodup)
    (hcells : ∀ call ∈ calls, call.nonterminal < count ∧ first ≤ call.input.position ∧
      call.input.position ≤ last) :
    calls.length ≤ count * (last + 1 - first) := by
  have hsubset : (calls.map fun call => (call.nonterminal, call.input.position)).toFinset ⊆
      Finset.range count ×ˢ Finset.Icc first last := by
    intro cell hcell
    obtain ⟨call, hmem, rfl⟩ := List.mem_map.mp (List.mem_toFinset.mp hcell)
    obtain ⟨hlt, hfirst, hlast⟩ := hcells call hmem
    rw [Finset.mem_product, Finset.mem_range, Finset.mem_Icc]
    exact ⟨hlt, hfirst, hlast⟩
  calc
    calls.length = (calls.map fun call => (call.nonterminal, call.input.position)).length :=
      (List.length_map _).symm
    _ = (calls.map fun call => (call.nonterminal, call.input.position)).toFinset.card :=
      (List.toFinset_card_of_nodup hnodup).symm
    _ ≤ (Finset.range count ×ˢ Finset.Icc first last).card := Finset.card_le_card hsubset
    _ = count * (last + 1 - first) := by
      rw [Finset.card_product, Finset.card_range, Nat.card_Icc]

/-- The call is one of the grammar's, in an input that comes to its last token. -/
structure Analysis.Regular (analysis : Analysis) (call : Call τ) : Prop where
  nonterminal_lt : call.nonterminal < analysis.grammar.nonterminalCount
  kind_last : InputToken.kind call.input.last = .endOfInput

namespace Analysis.Describes

variable {grammar : Grammar} {analysis : Analysis} (hdescribes : analysis.Describes grammar)

include hdescribes

theorem nests_of_opens {outer inner : Call τ} (hregular : analysis.Regular outer)
    (hopens : analysis.Opens outer inner) :
    analysis.Regular inner ∧ analysis.Nests grammar outer inner := by
  obtain @⟨index, depth, nonterminal, before, after, trees, hselect, hsplit, hbefore⟩ := hopens
  obtain ⟨rule, hrule, hlhs, hproduction, hpredicts⟩ := hdescribes.exists_rule_of_select hselect
  have hused := hdescribes.represents.uses rule hrule
  rw [← hproduction, hsplit, List.forall_mem_append, List.forall_mem_cons] at hused
  obtain ⟨hfront, hnonterminal, _⟩ := hused
  have hreads := analysis.settles depth before outer.input
  rw [Settles, hbefore] at hreads
  have hpasses := (hdescribes.sound hfront hregular.kind_last hreads).1
  refine ⟨⟨hnonterminal, ?_⟩, _, hpasses, ?_⟩
  · rw [hpasses.last_eq]
    exact hregular.kind_last
  · intro hempty
    have hcleared := hdescribes.cleared hfront hregular.kind_last hreads hempty
    have hmem := hdescribes.represents.decodeRule_mem hrule
    refine .single ⟨analysis.numbering.decodeRule rule, before.map analysis.numbering.decode,
      after.map analysis.numbering.decode, hmem, ?_, hpredicts, ?_, hcleared⟩
    · rw [Numbering.decodeRule, hlhs]
    · rw [Numbering.decodeRule, ← hproduction, hsplit, List.map_append, List.map_cons]
      rfl

theorem nests_of_openCalls {first : Call τ} {calls : List (Call τ)}
    (hregular : analysis.Regular first) (hopen : analysis.OpenCalls first calls) :
    (∀ call ∈ calls, analysis.Regular call) ∧ calls.Pairwise (analysis.Nests grammar) := by
  induction calls generalizing first with
  | nil => simp
  | cons call calls ih =>
      cases calls with
      | nil =>
          obtain ⟨hhead, _⟩ := hopen
          rw [List.head?_cons, Option.some.injEq] at hhead
          rw [hhead]
          simpa using hregular
      | cons next calls =>
          obtain ⟨rfl, hopens, hlater⟩ := openCalls_cons_cons_iff.mp hopen
          obtain ⟨hnext, hnests⟩ := hdescribes.nests_of_opens hregular hopens
          obtain ⟨hregulars, hpairwise⟩ := ih hnext hlater
          refine ⟨List.forall_mem_cons.mpr ⟨hregular, hregulars⟩,
            List.pairwise_cons.mpr ⟨?_, hpairwise⟩⟩
          intro inner hmem
          rcases List.mem_cons.mp hmem with rfl | hmem
          · exact hnests
          · exact hnests.trans ((List.pairwise_cons.mp hpairwise).1 inner hmem)

theorem nodup_openCalls (hpredictive : grammar.Predictive) {first : Call τ} {calls : List (Call τ)}
    (hregular : analysis.Regular first) (hopen : analysis.OpenCalls first calls) :
    (calls.map fun call => (call.nonterminal, call.input.position)).Nodup := by
  have hpairwise := (hdescribes.nests_of_openCalls hregular hopen).2
  rw [List.nodup_iff_pairwise_ne, List.pairwise_map]
  exact hpairwise.imp fun hnests => hnests.ne hpredictive

theorem passes_of_mem_openCalls {first : Call τ} {calls : List (Call τ)}
    (hregular : analysis.Regular first) (hopen : analysis.OpenCalls first calls) :
    ∀ call ∈ calls, ∃ passed, first.input.Passes passed call.input := by
  have hpairwise := (hdescribes.nests_of_openCalls hregular hopen).2
  obtain ⟨hhead, _⟩ := hopen
  cases calls with
  | nil => cases hhead
  | cons call calls =>
      rw [List.head?_cons, Option.some.injEq] at hhead
      subst hhead
      rw [List.forall_mem_cons]
      refine ⟨⟨[], .nil _⟩, ?_⟩
      intro inner hmem
      obtain ⟨passed, hpasses, _⟩ := (List.pairwise_cons.mp hpairwise).1 inner hmem
      exact ⟨passed, hpasses⟩

/-- The open calls are bounded by what was passed before the last of them was made. -/
theorem length_openCalls_le (hpredictive : grammar.Predictive) {first : Call τ}
    {calls : List (Call τ)} (hregular : analysis.Regular first)
    (hopen : analysis.OpenCalls first calls) {last : Call τ} (hlast : calls.getLast? = some last) :
    ∃ passed, first.input.Passes passed last.input ∧
      calls.length ≤ analysis.grammar.nonterminalCount * (passed.length + 1) := by
  have hfirst := hdescribes.passes_of_mem_openCalls hregular hopen
  obtain ⟨passed, hpasses⟩ := hfirst last (List.mem_of_getLast? hlast)
  refine ⟨passed, hpasses, ?_⟩
  obtain ⟨hregulars, hpairwise⟩ := hdescribes.nests_of_openCalls hregular hopen
  have hnodup := hdescribes.nodup_openCalls hpredictive hregular hopen
  have hbefore : ∀ call ∈ calls, call.input.position ≤ last.input.position := by
    obtain ⟨init, rfl⟩ := List.getLast?_eq_some_iff.mp hlast
    intro call hmem
    rcases List.mem_append.mp hmem with hmem | hmem
    · obtain ⟨tokens, htokens, _⟩ :=
        (List.pairwise_append.mp hpairwise).2.2 call hmem last (List.mem_singleton_self last)
      exact htokens.position_le
    · rw [List.mem_singleton.mp hmem]
  have hcells : ∀ call ∈ calls, call.nonterminal < analysis.grammar.nonterminalCount ∧
      first.input.position ≤ call.input.position ∧
      call.input.position ≤ last.input.position := by
    intro call hmem
    obtain ⟨tokens, htokens⟩ := hfirst call hmem
    exact ⟨(hregulars call hmem).nonterminal_lt, htokens.position_le, hbefore call hmem⟩
  have hlength := length_le_of_nodup hnodup hcells
  rw [hpasses.position_eq] at hlength
  calc
    calls.length ≤ analysis.grammar.nonterminalCount *
        (first.input.position + passed.length + 1 - first.input.position) := hlength
    _ = analysis.grammar.nonterminalCount * (passed.length + 1) := by
      congr 1
      omega

theorem not_exceeds_parseNonterminal (hpredictive : grammar.Predictive) {call : Call τ}
    (hregular : analysis.Regular call) {depth : Nat}
    (hdepth : analysis.depthBound call.input ≤ depth) :
    ¬ (analysis.parseNonterminal depth call.nonterminal call.input).Exceeds := by
  intro hexceeds
  obtain ⟨calls, hopen, hlength⟩ := exceeds_iff.mp hexceeds
  cases hlast : calls.getLast? with
  | none =>
      rw [List.getLast?_eq_none_iff.mp hlast] at hlength
      exact absurd hlength (Nat.not_lt_zero depth)
  | some last =>
      obtain ⟨passed, hpasses, hbound⟩ :=
        hdescribes.length_openCalls_le hpredictive hregular hopen hlast
      have hahead := congrArg List.length hpasses.ahead_eq
      rw [List.length_append] at hahead
      have hroom : analysis.grammar.nonterminalCount * (passed.length + 1) ≤
          analysis.depthBound call.input :=
        Nat.mul_le_mul_left _ (by omega)
      omega

end Analysis.Describes

theorem Parser.regular_start {grammar : Grammar} {parser : Parser}
    (hdescribes : parser.analysis.Describes grammar) {input : Input τ}
    (hlast : InputToken.kind input.last = .endOfInput) :
    parser.analysis.Regular ⟨Numbering.start, input⟩ :=
  ⟨hdescribes.represents.start_lt, hlast⟩

theorem Parser.not_exceeds_parse {grammar : Grammar} {parser : Parser}
    (hparser : Parser.ofGrammar grammar = .ok parser) {input : Input τ}
    (hlast : InputToken.kind input.last = .endOfInput) : ¬ (parser.parse input).Exceeds := by
  obtain ⟨hdescribes, hpredictive⟩ := describes_of_ofGrammar hparser
  exact hdescribes.not_exceeds_parseNonterminal hpredictive (regular_start hdescribes hlast)
    (Nat.le_refl _)

/-- Parsing ends, whatever bound above its own it is given, and whether or not it succeeds. At no
time is a nonterminal open twice at one place, so the open calls are at most the nonterminals times
the places that were seen. -/
theorem Parser.parse_terminates {grammar : Grammar} {parser : Parser}
    (hparser : Parser.ofGrammar grammar = .ok parser) (input : Input τ)
    (hlast : InputToken.kind input.last = .endOfInput) :
    (parser.parse input).outcome ≠ .error .depthExceeded ∧
      (∀ depth, parser.analysis.depthBound input ≤ depth →
        parser.analysis.parseNonterminal depth Numbering.start input = parser.parse input) ∧
      ∀ calls, parser.analysis.OpenCalls ⟨Numbering.start, input⟩ calls →
        (calls.map fun call => (call.nonterminal, call.input.position)).Nodup ∧
          ∀ last, calls.getLast? = some last →
            ∃ passed, input.Passes passed last.input ∧
              calls.length ≤ parser.analysis.grammar.nonterminalCount * (passed.length + 1) := by
  obtain ⟨hdescribes, hpredictive⟩ := describes_of_ofGrammar hparser
  have hregular := regular_start hdescribes hlast
  have hexceeds := not_exceeds_parse hparser hlast
  refine ⟨hexceeds, ?_, ?_⟩
  · intro depth hdepth
    exact Analysis.parseNonterminal_eq_of_not_exceeds hdepth hexceeds
  · intro calls hopen
    refine ⟨hdescribes.nodup_openCalls hpredictive hregular hopen, ?_⟩
    intro last hlast
    exact hdescribes.length_openCalls_le hpredictive hregular hopen hlast

theorem Parser.pairs_terminates :
    (Parser.pairs.parse (.ofTokens [.terminal "a", .terminal "a"] Lookahead.endOfInput)).outcome ≠
        .error .depthExceeded ∧
      Parser.pairs.analysis.parseNonterminal 100 Numbering.start
          (.ofTokens [.terminal "a", .terminal "a"] Lookahead.endOfInput) =
        Parser.pairs.parse (.ofTokens [.terminal "a", .terminal "a"] Lookahead.endOfInput) := by
  obtain ⟨houtcome, hdepth, _⟩ := parse_terminates ofGrammar_pairs
    (.ofTokens [.terminal "a", .terminal "a"] Lookahead.endOfInput) rfl
  exact ⟨houtcome, hdepth 100 (by decide)⟩

end TopDown
