import TopDown.Analysis.Basic
import TopDown.Proofs.Checked.Tables
import TopDown.Proofs.Predict

/-!
# Checked analyses

An analysis fills its tables one after another, each by looking up numbers in those before it. The
main statements say that every number in the tables of a grammar's analysis is in range, and that
the checked analysis of a grammar always gives the analysis.
-/

namespace TopDown

namespace NumberedGrammar

def checkedPredictSet (grammar : NumberedGrammar) (nullable : Array Bool)
    (first follow : Array LookaheadSet) (rule : NumberedRule) : Option LookaheadSet :=
  grammar.checkedShown nullable first follow rule.lhs rule.production

/-- The rules of a nonterminal that the grammar has. -/
def checkedAlternatives (grammar : NumberedGrammar) (nonterminal : Nat) : Option (List Nat) :=
  if nonterminal < grammar.nonterminalCount then some (grammar.alternatives nonterminal) else none

/-- The union of a set with the predict set of a rule. -/
def checkedUnionAt (predict : Array LookaheadSet) (set : LookaheadSet) (rule : Nat) :
    Option LookaheadSet := do
  set.checkedUnion (← predict[rule]?)

def checkedPredictUnion (grammar : NumberedGrammar) (predict : Array LookaheadSet)
    (nonterminal : Nat) : Option LookaheadSet := do
  (← grammar.checkedAlternatives nonterminal).foldlM (checkedUnionAt predict) grammar.emptySet

/-- A rule that overlaps earlier ones is named in a message, so it is looked up. -/
def checkedOverlapsFrom (grammar : NumberedGrammar) (predict : Array LookaheadSet) :
    LookaheadSet → List Nat → Option (List Overlap)
  | _, [] => some []
  | seen, rule :: rest => do
      let set ← predict[rule]?
      let later ← checkedOverlapsFrom grammar predict (← seen.checkedUnion set) rest
      if seen.isDisjoint set then return later
      else
        let _ ← grammar.rule? rule
        return { rule := rule, shared := seen.inter set } :: later

def checkedOverlaps (grammar : NumberedGrammar) (predict : Array LookaheadSet)
    (nonterminal : Nat) : Option (List Overlap) := do
  grammar.checkedOverlapsFrom predict grammar.emptySet (← grammar.checkedAlternatives nonterminal)

end NumberedGrammar

namespace Analysis

def checkedOfNumbered (grammar : NumberedGrammar) : Option Analysis := do
  let nullable ← grammar.checkedNullableTable
  let first ← grammar.checkedFirstTable nullable.table
  let follow ← grammar.checkedFollowTable nullable.table first.table
  let predict ← grammar.rules.mapM
    (grammar.checkedPredictSet nullable.table first.table follow.table)
  let nonterminals := List.range grammar.nonterminalCount
  let predictAny ← nonterminals.mapM (grammar.checkedPredictUnion predict.toArray)
  let overlaps ← nonterminals.mapM (grammar.checkedOverlaps predict.toArray)
  return {
    grammar := grammar
    nullable := nullable
    first := first
    follow := follow
    predict := predict.toArray
    predictAny := predictAny.toArray
    overlaps := overlaps.toArray }

def checkedOfGrammar (grammar : Grammar) : Option (Except GrammarDefect Analysis) :=
  match grammar.number with
  | .error defect => some (.error defect)
  | .ok numbered => (checkedOfNumbered numbered).map .ok

end Analysis

/-- A conversion that never misses drops nothing. -/
theorem mapM_eq_some_filterMap {ι α : Type} {convert result : ι → Option α} {values : List ι}
    (hconvert : ∀ value ∈ values, ∃ converted, convert value = some converted ∧
      result value = some converted) :
    values.mapM convert = some (values.filterMap result) := by
  induction values with
  | nil => rfl
  | cons value values ih =>
      rw [List.forall_mem_cons] at hconvert
      obtain ⟨⟨converted, hfirst, hresult⟩, hrest⟩ := hconvert
      rw [List.mapM_cons, hfirst, ih hrest, List.filterMap_cons_some hresult]
      rfl

theorem mapM_eq_some_map {ι α : Type} {convert : ι → Option α} {result : ι → α}
    {values : List ι} (hconvert : ∀ value ∈ values, convert value = some (result value)) :
    values.mapM convert = some (values.map result) := by
  rw [← List.filterMap_eq_map]
  exact mapM_eq_some_filterMap fun value hvalue => ⟨_, hconvert value hvalue, rfl⟩

namespace NumberedGrammar

/-- Overlaps that name rules of the grammar and share lookaheads of it. -/
def OverlapsWithin (numbered : NumberedGrammar) (overlaps : List Overlap) : Prop :=
  ∀ overlap ∈ overlaps, overlap.rule < numbered.rules.length ∧
    overlap.shared.Within numbered.numbering.lookaheadCount

variable {grammar : Grammar} {numbered : NumberedGrammar} {nullable : Array Bool}
  {first follow predict : Array LookaheadSet} {seen : LookaheadSet} {rules : List Nat}

theorem checkedAlternatives_eq {nonterminal : Nat}
    (hnonterminal : nonterminal < numbered.nonterminalCount) :
    numbered.checkedAlternatives nonterminal = some (numbered.alternatives nonterminal) :=
  if_pos hnonterminal

theorem lt_of_mem_alternatives {nonterminal rule : Nat}
    (hrule : rule ∈ numbered.alternatives nonterminal) : rule < numbered.rules.length := by
  obtain ⟨_, hget, _⟩ := mem_alternatives.mp hrule
  exact (List.getElem?_eq_some_iff.mp hget).1

theorem Represents.length_rules (hrepresents : numbered.Represents grammar) :
    numbered.grammar.rules.length = numbered.rules.length := by
  rw [hrepresents.grammar_eq, ← hrepresents.map_decodeRule, List.length_map]

theorem Represents.exists_rule? (hrepresents : numbered.Represents grammar) {rule : Nat}
    (hrule : rule < numbered.rules.length) : ∃ named, numbered.rule? rule = some named :=
  ⟨_, List.getElem?_eq_getElem (hrepresents.length_rules ▸ hrule)⟩

section PredictSet

variable (hrepresents : numbered.Represents grammar)
  (hfirst : IsTable numbered.nonterminalCount numbered.TerminalSet first)
  (hfollow : numbered.IsSetTable numbered.nonterminalCount follow)
  {rule : NumberedRule} (hrule : rule ∈ numbered.rules)
include hrepresents hfirst hfollow hrule

theorem Represents.within_predictSet :
    (numbered.predictSet nullable first follow rule).Within numbered.numbering.lookaheadCount :=
  within_shown hfirst hfollow (hrepresents.lhs_lt rule hrule) (hrepresents.uses rule hrule)
    nullable

theorem Represents.checkedPredictSet_eq (hnullable : nullable.size = numbered.nonterminalCount) :
    numbered.checkedPredictSet nullable first follow rule =
      some (numbered.predictSet nullable first follow rule) :=
  checkedShown_eq hfirst hfollow (hrepresents.lhs_lt rule hrule) (hrepresents.uses rule hrule)
    hnullable

end PredictSet

section Predict

variable (hpredict : numbered.IsSetTable numbered.rules.length predict)
  (hrules : ∀ rule ∈ rules, rule < numbered.rules.length)
  (hseen : seen.Within numbered.numbering.lookaheadCount)
include hpredict hrules hseen

theorem within_foldl_union :
    (rules.foldl (fun set rule => set.union (numbered.setAt predict rule)) seen).Within
      numbered.numbering.lookaheadCount := by
  induction rules generalizing seen with
  | nil => exact hseen
  | cons rule rules ih =>
      rw [List.forall_mem_cons] at hrules
      exact ih hrules.2 (hseen.union (allowed_setAt hpredict hrules.1 numbered))

theorem foldlM_checkedUnionAt_eq :
    rules.foldlM (checkedUnionAt predict) seen =
      some (rules.foldl (fun set rule => set.union (numbered.setAt predict rule)) seen) := by
  induction rules generalizing seen with
  | nil => rfl
  | cons rule rules ih =>
      rw [List.forall_mem_cons] at hrules
      have hset := allowed_setAt hpredict hrules.1 numbered
      have hunion : checkedUnionAt predict seen rule =
          some (seen.union (numbered.setAt predict rule)) := by
        rw [checkedUnionAt, getElem?_eq_setAt hpredict hrules.1 numbered]
        exact hseen.checkedUnion_eq hset
      rw [List.foldlM_cons, hunion]
      exact ih hrules.2 (hseen.union hset)

theorem within_of_mem_overlapsFrom :
    ∀ overlap ∈ numbered.overlapsFrom predict seen rules,
      overlap.rule ∈ rules ∧ overlap.shared.Within numbered.numbering.lookaheadCount := by
  induction rules generalizing seen with
  | nil => simp [overlapsFrom]
  | cons rule rules ih =>
      rw [List.forall_mem_cons] at hrules
      have hlater := ih hrules.2 (hseen.union (allowed_setAt hpredict hrules.1 numbered))
      intro overlap hoverlap
      rw [overlapsFrom] at hoverlap
      split at hoverlap
      · exact (hlater overlap hoverlap).imp (List.mem_cons_of_mem _) id
      · rcases List.mem_cons.mp hoverlap with rfl | hoverlap
        · exact ⟨List.mem_cons_self .., hseen.inter⟩
        · exact (hlater overlap hoverlap).imp (List.mem_cons_of_mem _) id

theorem Represents.checkedOverlapsFrom_eq (hrepresents : numbered.Represents grammar) :
    numbered.checkedOverlapsFrom predict seen rules =
      some (numbered.overlapsFrom predict seen rules) := by
  induction rules generalizing seen with
  | nil => rfl
  | cons rule rules ih =>
      rw [List.forall_mem_cons] at hrules
      have hset := allowed_setAt hpredict hrules.1 numbered
      obtain ⟨named, hnamed⟩ := hrepresents.exists_rule? hrules.1
      simp only [checkedOverlapsFrom, overlapsFrom, getElem?_eq_setAt hpredict hrules.1 numbered,
        Option.bind_eq_bind, Option.bind_some, hseen.checkedUnion_eq hset,
        ih hrules.2 (hseen.union hset), hnamed]
      split <;> rfl

end Predict

section Alternatives

variable (hpredict : numbered.IsSetTable numbered.rules.length predict) {nonterminal : Nat}
  (hnonterminal : nonterminal < numbered.nonterminalCount)
include hpredict

theorem within_predictUnion (nonterminal : Nat) :
    (numbered.predictUnion predict (numbered.alternatives nonterminal)).Within
      numbered.numbering.lookaheadCount :=
  within_foldl_union hpredict (fun _ => lt_of_mem_alternatives) numbered.within_emptySet

theorem overlapsWithin_overlaps (nonterminal : Nat) :
    numbered.OverlapsWithin (numbered.overlaps predict nonterminal) := by
  intro overlap hoverlap
  obtain ⟨hrule, hshared⟩ := within_of_mem_overlapsFrom hpredict
    (fun _ => lt_of_mem_alternatives) numbered.within_emptySet overlap hoverlap
  exact ⟨lt_of_mem_alternatives hrule, hshared⟩

include hnonterminal

theorem checkedPredictUnion_eq :
    numbered.checkedPredictUnion predict nonterminal =
      some (numbered.predictUnion predict (numbered.alternatives nonterminal)) := by
  rw [checkedPredictUnion, checkedAlternatives_eq hnonterminal]
  exact foldlM_checkedUnionAt_eq hpredict (fun _ => lt_of_mem_alternatives)
    numbered.within_emptySet

theorem Represents.checkedOverlaps_eq (hrepresents : numbered.Represents grammar) :
    numbered.checkedOverlaps predict nonterminal =
      some (numbered.overlaps predict nonterminal) := by
  rw [checkedOverlaps, checkedAlternatives_eq hnonterminal]
  exact hrepresents.checkedOverlapsFrom_eq hpredict (fun _ => lt_of_mem_alternatives)
    numbered.within_emptySet

end Alternatives

end NumberedGrammar

namespace Analysis

/-- What is looked up in an analysis is in range: the tables have an entry for each nonterminal or
rule, the rules use numbers of symbols, and the sets, all with the blocks for the lookaheads of the
grammar, hold numbers of lookaheads. First sets do not hold the end of the input. -/
structure InBounds (analysis : Analysis) : Prop where
  uses_of_symbol? : ∀ {symbol numbered}, analysis.numbering.symbol? symbol = some numbered →
    analysis.numbering.Uses numbered
  start_lt : Numbering.start < analysis.grammar.nonterminalCount
  lhs_lt : ∀ rule ∈ analysis.grammar.rules, rule.lhs < analysis.grammar.nonterminalCount
  uses : ∀ rule ∈ analysis.grammar.rules, ∀ symbol ∈ rule.production,
    analysis.numbering.Uses symbol
  length_rules : analysis.grammar.grammar.rules.length = analysis.grammar.rules.length
  nullable : ∀ table ∈ analysis.nullable.tables, table.size = analysis.grammar.nonterminalCount
  first : ∀ table ∈ analysis.first.tables,
    IsTable analysis.grammar.nonterminalCount analysis.grammar.TerminalSet table
  follow : ∀ table ∈ analysis.follow.tables,
    analysis.grammar.IsSetTable analysis.grammar.nonterminalCount table
  predict : analysis.grammar.IsSetTable analysis.grammar.rules.length analysis.predict
  predictAny : analysis.grammar.IsSetTable analysis.grammar.nonterminalCount analysis.predictAny
  overlaps : IsTable analysis.grammar.nonterminalCount analysis.grammar.OverlapsWithin
    analysis.overlaps

variable {grammar : Grammar} {numbered : NumberedGrammar}

section OfNumbered

variable (hrepresents : numbered.Represents grammar)
include hrepresents

theorem size_nullables : numbered.nullables.size = numbered.nonterminalCount :=
  (hrepresents.isTable_nullableTable _ (List.mem_cons_self ..)).size_eq

theorem isTable_firstSets :
    IsTable numbered.nonterminalCount numbered.TerminalSet numbered.firstSets :=
  hrepresents.isTable_firstTable (size_nullables hrepresents) _ (List.mem_cons_self ..)

theorem isTable_followSets :
    numbered.IsSetTable numbered.nonterminalCount numbered.followSets :=
  hrepresents.isTable_followTable (size_nullables hrepresents) (isTable_firstSets hrepresents) _
    (List.mem_cons_self ..)

theorem isTable_predict :
    numbered.IsSetTable numbered.rules.length (ofNumbered numbered).predict :=
  isTable_map fun _ hrule => hrepresents.within_predictSet
    (isTable_firstSets hrepresents) (isTable_followSets hrepresents) hrule

theorem isTable_predictAny :
    numbered.IsSetTable numbered.nonterminalCount (ofNumbered numbered).predictAny :=
  isTable_map_range _ (NumberedGrammar.within_predictUnion (isTable_predict hrepresents))

theorem isTable_overlaps :
    IsTable numbered.nonterminalCount numbered.OverlapsWithin
      (ofNumbered numbered).overlaps :=
  isTable_map_range _ (NumberedGrammar.overlapsWithin_overlaps (isTable_predict hrepresents))

theorem inBounds_ofNumbered : (ofNumbered numbered).InBounds where
  uses_of_symbol? hsymbol := (Numbering.decode_of_symbol? hsymbol).2
  start_lt := hrepresents.start_lt
  lhs_lt := hrepresents.lhs_lt
  uses := hrepresents.uses
  length_rules := hrepresents.length_rules
  nullable table htable := (hrepresents.isTable_nullableTable table htable).size_eq
  first := hrepresents.isTable_firstTable (size_nullables hrepresents)
  follow := hrepresents.isTable_followTable (size_nullables hrepresents)
    (isTable_firstSets hrepresents)
  predict := isTable_predict hrepresents
  predictAny := isTable_predictAny hrepresents
  overlaps := isTable_overlaps hrepresents

/-- Filling the tables of a grammar never misses a place. -/
theorem checkedOfNumbered_eq : checkedOfNumbered numbered = some (ofNumbered numbered) := by
  have hnullable := size_nullables hrepresents
  have hfirst := isTable_firstSets hrepresents
  have hfollow := isTable_followSets hrepresents
  -- stated with the array of the analysis, since the next two tables are filled from it
  have hpredict : numbered.rules.mapM (numbered.checkedPredictSet numbered.nullables
      numbered.firstSets numbered.followSets) = some (ofNumbered numbered).predict.toList :=
    mapM_eq_some_map fun _ hrule =>
      hrepresents.checkedPredictSet_eq hfirst hfollow hrule hnullable
  have hpredictAny := mapM_eq_some_map fun nonterminal hnonterminal =>
    NumberedGrammar.checkedPredictUnion_eq (isTable_predict hrepresents)
      (List.mem_range.mp hnonterminal)
  have hoverlaps := mapM_eq_some_map fun nonterminal hnonterminal =>
    hrepresents.checkedOverlaps_eq (isTable_predict hrepresents) (List.mem_range.mp hnonterminal)
  simp only [checkedOfNumbered, hrepresents.checkedNullableTable_eq, Option.bind_eq_bind,
    Option.bind_some, hrepresents.checkedFirstTable_eq hnullable,
    hrepresents.checkedFollowTable_eq hnullable hfirst, hpredict, Array.toArray_toList,
    hpredictAny, hoverlaps]
  rfl

end OfNumbered

theorem checkedOfGrammar_eq (grammar : Grammar) :
    checkedOfGrammar grammar = some (ofGrammar grammar) := by
  rw [checkedOfGrammar, ofGrammar]
  cases hnumber : grammar.number with
  | error defect => rfl
  | ok numbered =>
      exact congrArg (Option.map Except.ok)
        (checkedOfNumbered_eq (NumberedGrammar.represents_of_number hnumber))

end Analysis

end TopDown
