import TopDown.Parsing.Parser
import TopDown.Proofs.Predict

/-!
# The choice of a rule

An analysis finds the rule that a lookahead predicts, and finds no overlap exactly when no lookahead
predicts two rules of one nonterminal. What is proved about parsers rests on `Analysis.Describes`.
-/

namespace TopDown

namespace Analysis

variable {grammar : Grammar} {numbered : NumberedGrammar}

theorem setAt_predict {rule : NumberedRule} {id : Nat} (hrule : numbered.rules[id]? = some rule) :
    numbered.setAt (ofNumbered numbered).predict id = numbered.predictOf rule := by
  apply NumberedGrammar.setAt_eq_of_getElem?
  simp [ofNumbered, hrule]

theorem predict_within (hrepresents : numbered.Represents grammar) :
    numbered.EachWithin (ofNumbered numbered).predict := by
  intro id set hset
  simp only [ofNumbered, List.getElem?_toArray, List.getElem?_map, Option.map_eq_some_iff] at hset
  obtain ⟨rule, hrule, rfl⟩ := hset
  exact hrepresents.within_predictOf (List.mem_of_getElem? hrule)

theorem contains_foldl_union {predict : Array LookaheadSet}
    (hpredict : numbered.EachWithin predict) {rules : List Nat} {seen : LookaheadSet}
    (hseen : seen.Within numbered.numbering.lookaheadCount) {id : Nat} :
    (rules.foldl (fun set rule => set.union (numbered.setAt predict rule)) seen).contains id =
        true ↔
      seen.contains id = true ∨
        ∃ rule ∈ rules, (numbered.setAt predict rule).contains id = true := by
  induction rules generalizing seen with
  | nil => simp
  | cons rule rules ih =>
      have hset := NumberedGrammar.within_setAt hpredict rule
      rw [List.foldl_cons, ih (hseen.union hset), hseen.contains_union_iff hset,
        List.exists_mem_cons_iff, or_assoc]

theorem contains_predictUnion_iff {predict : Array LookaheadSet}
    (hpredict : numbered.EachWithin predict) {rules : List Nat} {id : Nat} :
    (numbered.predictUnion predict rules).contains id = true ↔
      ∃ rule ∈ rules, (numbered.setAt predict rule).contains id = true := by
  have hempty : numbered.emptySet.contains id = false := LookaheadSet.contains_empty _ _
  rw [NumberedGrammar.predictUnion, contains_foldl_union hpredict numbered.within_emptySet,
    hempty]
  simp

theorem setAt_predictAny {nonterminal : Nat} (hlt : nonterminal < numbered.nonterminalCount) :
    numbered.setAt (ofNumbered numbered).predictAny nonterminal =
      numbered.predictUnion (ofNumbered numbered).predict (numbered.alternatives nonterminal) := by
  apply NumberedGrammar.setAt_eq_of_getElem?
  simp [ofNumbered, hlt]

section OfNumbered

variable (hrepresents : numbered.Represents grammar)
include hrepresents

/-- A predict set holds the number of a lookahead exactly when the lookahead predicts the rule. -/
theorem contains_predict_iff {rule : NumberedRule} {index id : Nat}
    (hrule : numbered.rules[index]? = some rule)
    (hid : id < numbered.numbering.lookaheadCount) :
    (numbered.setAt (ofNumbered numbered).predict index).contains id = true ↔
      grammar.Predicts (numbered.numbering.decodeRule rule) (numbered.numbering.lookahead id) := by
  have hmem := List.mem_of_getElem? hrule
  rw [setAt_predict hrule]
  constructor
  · exact hrepresents.predicts_of_contains hmem
  · intro hpredicts
    obtain ⟨other, hother, hcontains⟩ := hrepresents.exists_contains_of_predicts hmem hpredicts
    have hlt := (hrepresents.within_predictOf hmem).lt_of_contains hcontains
    rw [hrepresents.lookahead_inj hlt hid hother] at hcontains
    exact hcontains

theorem contains_predictAny_iff {nonterminal id : Nat}
    (hlt : nonterminal < numbered.nonterminalCount) (hid : id < numbered.numbering.lookaheadCount) :
    (numbered.setAt (ofNumbered numbered).predictAny nonterminal).contains id = true ↔
      ∃ rule ∈ numbered.rules, rule.lhs = nonterminal ∧
        grammar.Predicts (numbered.numbering.decodeRule rule)
          (numbered.numbering.lookahead id) := by
  rw [setAt_predictAny hlt, contains_predictUnion_iff (predict_within hrepresents)]
  constructor
  · rintro ⟨index, hindex, hcontains⟩
    obtain ⟨rule, hrule, hlhs⟩ := NumberedGrammar.mem_alternatives.mp hindex
    exact ⟨rule, List.mem_of_getElem? hrule, hlhs,
      (contains_predict_iff hrepresents hrule hid).mp hcontains⟩
  · rintro ⟨rule, hmem, hlhs, hpredicts⟩
    obtain ⟨index, hrule⟩ := List.mem_iff_getElem?.mp hmem
    exact ⟨index, NumberedGrammar.mem_alternatives.mpr ⟨rule, hrule, hlhs⟩,
      (contains_predict_iff hrepresents hrule hid).mpr hpredicts⟩

theorem lt_of_contains_predictAny {nonterminal id : Nat}
    (hlt : nonterminal < numbered.nonterminalCount)
    (hcontains :
      (numbered.setAt (ofNumbered numbered).predictAny nonterminal).contains id = true) :
    id < numbered.numbering.lookaheadCount := by
  have hpredict := predict_within hrepresents
  rw [setAt_predictAny hlt, contains_predictUnion_iff hpredict] at hcontains
  obtain ⟨index, _, hcontains⟩ := hcontains
  exact (NumberedGrammar.within_setAt hpredict index).lt_of_contains hcontains

theorem exists_lookaheadId? {rule : NumberedRule} (hrule : rule ∈ numbered.rules)
    {seen : Lookahead} (hpredicts : grammar.Predicts (numbered.numbering.decodeRule rule) seen) :
    ∃ id, numbered.numbering.lookaheadId? seen = some id := by
  obtain ⟨id, hlookahead, hcontains⟩ := hrepresents.exists_contains_of_predicts hrule hpredicts
  have hlt := (hrepresents.within_predictOf hrule).lt_of_contains hcontains
  exact ⟨id, (Numbering.lookaheadId?_eq_some_iff hrepresents.terminals_nodup).mpr ⟨hlt, hlookahead⟩⟩

/-! ### The choice

When no lookahead is in the predict sets of two rules of a nonterminal, the rule that is found first
is the only one that can be found, whatever the order of the rules. -/

theorem predictive_iff :
    grammar.Predictive ↔
      ∀ nonterminal < numbered.nonterminalCount,
        numbered.overlaps (ofNumbered numbered).predict nonterminal = [] := by
  simp only [NumberedGrammar.overlaps_eq_nil_iff (predict_within hrepresents),
    LookaheadSet.isDisjoint_iff]
  constructor
  · intro hpredictive nonterminal _ first hfirst second hsecond hne id
    rintro ⟨hcontains, hcontains'⟩
    obtain ⟨rule, hrule, hlhs⟩ := NumberedGrammar.mem_alternatives.mp hfirst
    obtain ⟨rule', hrule', hlhs'⟩ := NumberedGrammar.mem_alternatives.mp hsecond
    have hid := (NumberedGrammar.within_setAt (predict_within hrepresents) first).lt_of_contains
      hcontains
    refine hne (hpredictive first second _ _ (hrepresents.getElem?_rules hrule)
      (hrepresents.getElem?_rules hrule') ?_ _
      ((contains_predict_iff hrepresents hrule hid).mp hcontains)
      ((contains_predict_iff hrepresents hrule' hid).mp hcontains'))
    rw [Numbering.decodeRule, Numbering.decodeRule, hlhs, hlhs']
  · intro hdisjoint first second rule rule' hfirst hsecond hlhs seen hseen hseen'
    obtain ⟨origin, horigin, rfl⟩ := hrepresents.exists_getElem?_rules hfirst
    obtain ⟨origin', horigin', rfl⟩ := hrepresents.exists_getElem?_rules hsecond
    have hmem := List.mem_of_getElem? horigin
    obtain ⟨id, hid⟩ := exists_lookaheadId? hrepresents hmem hseen
    obtain ⟨hlt, rfl⟩ := (Numbering.lookaheadId?_eq_some_iff hrepresents.terminals_nodup).mp hid
    have hlhs' := hrepresents.nonterminalName_inj (hrepresents.lhs_lt _ hmem)
      (hrepresents.lhs_lt _ (List.mem_of_getElem? horigin')) hlhs
    by_contra hne
    exact hdisjoint origin.lhs (hrepresents.lhs_lt _ hmem) first
      (NumberedGrammar.mem_alternatives.mpr ⟨origin, horigin, rfl⟩) second
      (NumberedGrammar.mem_alternatives.mpr ⟨origin', horigin', hlhs'.symm⟩) hne id
      ⟨(contains_predict_iff hrepresents horigin hlt).mpr hseen,
        (contains_predict_iff hrepresents horigin' hlt).mpr hseen'⟩

theorem isAmbiguous_ofNumbered :
    (ofNumbered numbered).isAmbiguous = false ↔ grammar.Predictive := by
  rw [predictive_iff hrepresents, isAmbiguous]
  simp [ofNumbered]

theorem rule_of_select? {nonterminal index : Nat} {seen : Lookahead}
    (hselect : (ofNumbered numbered).select? nonterminal seen = some index) :
    ∃ rule, numbered.rules[index]? = some rule ∧ rule.lhs = nonterminal ∧
      grammar.Predicts (numbered.numbering.decodeRule rule) seen := by
  unfold select? at hselect
  split at hselect
  · cases hselect
  · rename_i id hid
    obtain ⟨hlt, rfl⟩ := (Numbering.lookaheadId?_eq_some_iff hrepresents.terminals_nodup).mp hid
    split at hselect
    · obtain ⟨rule, hrule, hlhs⟩ :=
        NumberedGrammar.mem_alternatives.mp (List.mem_of_find?_eq_some hselect)
      have hcontains := List.find?_some hselect
      exact ⟨rule, hrule, hlhs, (contains_predict_iff hrepresents hrule hlt).mp hcontains⟩
    · cases hselect

theorem select?_ne_none {nonterminal : Nat} (hnonterminal : nonterminal < numbered.nonterminalCount)
    {rule : NumberedRule} (hmem : rule ∈ numbered.rules) (hlhs : rule.lhs = nonterminal)
    {seen : Lookahead} (hpredicts : grammar.Predicts (numbered.numbering.decodeRule rule) seen) :
    (ofNumbered numbered).select? nonterminal seen ≠ none := by
  obtain ⟨id, hid⟩ := exists_lookaheadId? hrepresents hmem hpredicts
  obtain ⟨hlt, rfl⟩ := (Numbering.lookaheadId?_eq_some_iff hrepresents.terminals_nodup).mp hid
  obtain ⟨index, hrule⟩ := List.mem_iff_getElem?.mp hmem
  have hany : (ofNumbered numbered).predictsAny nonterminal id = true :=
    (contains_predictAny_iff hrepresents hnonterminal hlt).mpr ⟨rule, hmem, hlhs, hpredicts⟩
  have hpredict : (ofNumbered numbered).predicts index id = true :=
    (contains_predict_iff hrepresents hrule hlt).mpr hpredicts
  unfold select?
  rw [show (ofNumbered numbered).numbering.lookaheadId? _ = some id from hid]
  dsimp only
  rw [if_pos hany, Ne, List.find?_eq_none]
  intro hnone
  exact hnone index (NumberedGrammar.mem_alternatives.mpr ⟨rule, hrule, hlhs⟩) hpredict

theorem mem_predictAnyLookaheads_ofNumbered {nonterminal : Nat}
    (hnonterminal : nonterminal < numbered.nonterminalCount) {seen : Lookahead} :
    seen ∈ (ofNumbered numbered).predictAnyLookaheads nonterminal ↔
      ∃ rule ∈ numbered.rules, rule.lhs = nonterminal ∧
        grammar.Predicts (numbered.numbering.decodeRule rule) seen := by
  simp only [predictAnyLookaheads, lookaheads, List.mem_map, LookaheadSet.mem_toList]
  constructor
  · rintro ⟨id, hcontains, rfl⟩
    have hlt := lt_of_contains_predictAny hrepresents hnonterminal hcontains
    exact (contains_predictAny_iff hrepresents hnonterminal hlt).mp hcontains
  · rintro ⟨rule, hmem, hlhs, hpredicts⟩
    obtain ⟨id, hid⟩ := exists_lookaheadId? hrepresents hmem hpredicts
    obtain ⟨hlt, rfl⟩ := (Numbering.lookaheadId?_eq_some_iff hrepresents.terminals_nodup).mp hid
    exact ⟨id, (contains_predictAny_iff hrepresents hnonterminal hlt).mpr
      ⟨rule, hmem, hlhs, hpredicts⟩, rfl⟩

end OfNumbered

/-- An analysis that numbers the grammar, and whose choices are those of the lookaheads that predict
its rules. -/
structure Describes (analysis : Analysis) (grammar : Grammar) : Prop where
  represents : analysis.grammar.Represents grammar
  rule_of_select : ∀ {nonterminal index seen},
    analysis.select? nonterminal seen = some index →
      ∃ rule, analysis.grammar.rules[index]? = some rule ∧ rule.lhs = nonterminal ∧
        grammar.Predicts (analysis.numbering.decodeRule rule) seen
  select_ne_none : ∀ {nonterminal seen}, nonterminal < analysis.grammar.nonterminalCount →
    ∀ rule ∈ analysis.grammar.rules, rule.lhs = nonterminal →
      grammar.Predicts (analysis.numbering.decodeRule rule) seen →
        analysis.select? nonterminal seen ≠ none
  mem_predictAny : ∀ {nonterminal seen}, nonterminal < analysis.grammar.nonterminalCount →
    (seen ∈ analysis.predictAnyLookaheads nonterminal ↔
      ∃ rule ∈ analysis.grammar.rules, rule.lhs = nonterminal ∧
        grammar.Predicts (analysis.numbering.decodeRule rule) seen)
  isAmbiguous_eq_false : analysis.isAmbiguous = false ↔ grammar.Predictive

theorem exists_represents {analysis : Analysis} (hanalysis : ofGrammar grammar = .ok analysis) :
    ∃ numbered : NumberedGrammar, numbered.Represents grammar ∧ ofNumbered numbered = analysis := by
  unfold ofGrammar at hanalysis
  cases hnumber : grammar.number with
  | error defect =>
      rw [hnumber] at hanalysis
      cases hanalysis
  | ok numbered =>
      rw [hnumber] at hanalysis
      cases hanalysis
      exact ⟨numbered, NumberedGrammar.represents_of_number hnumber, rfl⟩

theorem describes_of_ofGrammar {analysis : Analysis}
    (hanalysis : ofGrammar grammar = .ok analysis) : analysis.Describes grammar := by
  obtain ⟨numbered, hrepresents, rfl⟩ := exists_represents hanalysis
  exact
    { represents := hrepresents
      rule_of_select := rule_of_select? hrepresents
      select_ne_none := fun hlt _ hmem hlhs hpredicts =>
        select?_ne_none hrepresents hlt hmem hlhs hpredicts
      mem_predictAny := fun hlt => mem_predictAnyLookaheads_ofNumbered hrepresents hlt
      isAmbiguous_eq_false := isAmbiguous_ofNumbered hrepresents }

end Analysis

theorem Parser.analysis_of_ofGrammar {grammar : Grammar} {parser : Parser}
    (hparser : Parser.ofGrammar grammar = .ok parser) :
    Analysis.ofGrammar grammar = .ok parser.analysis := by
  unfold Parser.ofGrammar at hparser
  split at hparser
  · rename_i analysis hanalysis
    unfold Parser.ofAnalysis at hparser
    split at hparser
    · cases hparser
    · cases hparser
      exact hanalysis
  · cases hparser

/-- A grammar has a parser only when its analysis finds no overlap. -/
theorem Parser.describes_of_ofGrammar {grammar : Grammar} {parser : Parser}
    (hparser : Parser.ofGrammar grammar = .ok parser) :
    parser.analysis.Describes grammar ∧ grammar.Predictive := by
  have hdescribes := Analysis.describes_of_ofGrammar (analysis_of_ofGrammar hparser)
  exact ⟨hdescribes, hdescribes.isAmbiguous_eq_false.mp parser.unambiguous⟩

/-- The grammar of pairs of letters, one inside the other. -/
def Grammar.pairs : Grammar :=
  { rules :=
      [{ lhs := "s", production := [.terminal "a", .nonterminal "s", .terminal "b"] },
        { lhs := "s", production := [] }] }

theorem Grammar.pairs_yields :
    ∀ rule ∈ Grammar.pairs.rules, Grammar.pairs.Yields [.nonterminal rule.lhs] := by
  have hempty : (⟨"s", []⟩ : Rule) ∈ Grammar.pairs.rules := by decide
  have hlhs : ∀ rule ∈ Grammar.pairs.rules, rule.lhs = "s" := by decide
  intro rule hrule
  rw [hlhs rule hrule]
  exact ⟨[], derives_of_rule hempty⟩

def Analysis.pairs : Analysis :=
  .ofNumbered
    { grammar := .pairs
      numbering := Grammar.pairs.numbering
      rules :=
        [{ lhs := 0, production := [.terminal 0, .nonterminal 0, .terminal 1] },
          { lhs := 0, production := [] }] }

def Parser.pairs : Parser where
  analysis := .pairs
  unambiguous := by decide +kernel

theorem Analysis.ofGrammar_pairs : Analysis.ofGrammar .pairs = .ok .pairs := by
  rfl

theorem Parser.ofGrammar_pairs : Parser.ofGrammar .pairs = .ok .pairs := by
  have hunambiguous : Analysis.pairs.isAmbiguous = false := Parser.pairs.unambiguous
  rw [ofGrammar, Analysis.ofGrammar_pairs]
  simp [ofAnalysis, hunambiguous, Parser.pairs]

end TopDown
