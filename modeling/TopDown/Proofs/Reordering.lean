import Mathlib.Data.List.Perm.Basic
import TopDown.Proofs.Acceptance
import TopDown.Proofs.Exactness

/-!
# Rules in another order

The rules of a grammar are put into another order that keeps the start symbol. All numbers may
change, and so may the course of the sweeps. The tables stay the same in the names of the grammar.
-/

namespace TopDown

namespace Grammar

/-- The rules of the other grammar are those of the grammar, in any order and number, and the start
symbol is the same. -/
structure SameRules (grammar other : Grammar) : Prop where
  mem_iff : ∀ rule, rule ∈ grammar.rules ↔ rule ∈ other.rules
  start_eq : grammar.start? = other.start?

variable {grammar other : Grammar} {form next : List Symbol} {name : String} {seen : Lookahead}

namespace SameRules

theorem symm (hsame : grammar.SameRules other) : other.SameRules grammar :=
  ⟨fun rule => (hsame.mem_iff rule).symm, hsame.start_eq.symm⟩

variable (hsame : grammar.SameRules other)
include hsame

theorem derives (hderives : grammar.Derives form next) : other.Derives form next := by
  refine hderives.mono fun hreplaces => ?_
  obtain ⟨hrule⟩ := hreplaces
  exact .rule ((hsame.mem_iff _).mp hrule)

theorem derives_iff : grammar.Derives form next ↔ other.Derives form next :=
  ⟨hsame.derives, hsame.symm.derives⟩

theorem follows (hfollows : grammar.Follows name seen) : other.Follows name seen := by
  induction hfollows with
  | endOfInput hstart => exact .endOfInput (hsame.start_eq ▸ hstart)
  | beside hrule hsplit hafter =>
      exact .beside ((hsame.mem_iff _).mp hrule) hsplit (hsame.derives hafter)
  | behind hrule hsplit hafter _ ih =>
      exact .behind ((hsame.mem_iff _).mp hrule) hsplit (hsame.derives hafter) ih

theorem follows_iff : grammar.Follows name seen ↔ other.Follows name seen :=
  ⟨hsame.follows, hsame.symm.follows⟩

theorem predicts_iff {rule : Rule} : grammar.Predicts rule seen ↔ other.Predicts rule seen := by
  simp only [Predicts, shows_iff, hsame.derives_iff, hsame.follows_iff]

theorem isClosed_iff : grammar.IsClosed ↔ other.IsClosed := by
  simp only [IsClosed, hsame.mem_iff]

end SameRules

/-- No lookahead predicts both rules, if they are rules of one nonterminal. -/
def ToldApart (grammar : Grammar) (first second : Rule) : Prop :=
  first.lhs = second.lhs → ∀ seen, grammar.Predicts first seen → ¬grammar.Predicts second seen

theorem predictive_iff_pairwise :
    grammar.Predictive ↔ grammar.rules.Pairwise grammar.ToldApart := by
  rw [List.pairwise_iff_getElem]
  constructor
  · intro hpredictive i j hi hj hlt hlhs seen hseen hseen'
    have hsame := hpredictive i j _ _ (List.getElem?_eq_getElem hi) (List.getElem?_eq_getElem hj)
      hlhs seen hseen hseen'
    omega
  · intro hpairwise i j first second hfirst hsecond hlhs seen hseen hseen'
    obtain ⟨hi, rfl⟩ := List.getElem?_eq_some_iff.mp hfirst
    obtain ⟨hj, rfl⟩ := List.getElem?_eq_some_iff.mp hsecond
    rcases Nat.lt_trichotomy i j with hlt | heq | hgt
    · exact absurd hseen' (hpairwise i j hi hj hlt hlhs seen hseen)
    · exact heq
    · exact absurd hseen (hpairwise j i hj hi hgt hlhs.symm seen hseen')

theorem sameRules_of_perm (hperm : grammar.rules.Perm other.rules)
    (hstart : grammar.start? = other.start?) : grammar.SameRules other :=
  ⟨fun _ => hperm.mem_iff, hstart⟩

theorem predictive_iff_of_perm (hperm : grammar.rules.Perm other.rules)
    (hstart : grammar.start? = other.start?) : grammar.Predictive ↔ other.Predictive := by
  have hsame := sameRules_of_perm hperm hstart
  have hapart : grammar.ToldApart = other.ToldApart := by
    funext first second
    simp only [ToldApart, hsame.predicts_iff]
  rw [predictive_iff_pairwise, predictive_iff_pairwise, hapart]
  refine hperm.pairwise_iff fun {first second} hfirst hlhs seen hseen hseen' => ?_
  exact hfirst hlhs.symm seen hseen' hseen

end Grammar

/-- The rules of a nonterminal by number are its rules by name. -/
theorem NumberedGrammar.Represents.exists_alternative_iff {grammar : Grammar}
    {numbered : NumberedGrammar} (hrepresents : numbered.Represents grammar) {nonterminal : Nat}
    (hlt : nonterminal < numbered.nonterminalCount) (property : Rule → Prop) :
    (∃ rule ∈ numbered.rules, rule.lhs = nonterminal ∧
        property (numbered.numbering.decodeRule rule)) ↔
      ∃ rule ∈ grammar.rules, rule.lhs = numbered.numbering.nonterminalName nonterminal ∧
        property rule := by
  constructor
  · rintro ⟨rule, hrule, rfl, hproperty⟩
    exact ⟨_, hrepresents.decodeRule_mem hrule, rfl, hproperty⟩
  · rintro ⟨rule, hrule, hlhs, hproperty⟩
    obtain ⟨origin, horigin, rfl⟩ := hrepresents.mem_rules.mp hrule
    exact ⟨origin, horigin,
      hrepresents.nonterminalName_inj (hrepresents.lhs_lt origin horigin) hlt hlhs, hproperty⟩

namespace Analysis

variable {grammar other : Grammar} {analysis analysis' : Analysis}

/-- Two analyses give the same answers to questions that are asked by name. -/
structure Agrees (analysis analysis' : Analysis) : Prop where
  exists_nonterminalId? : ∀ name,
    (∃ id, analysis.nonterminalId? name = some id) ↔ ∃ id, analysis'.nonterminalId? name = some id
  isNullable : ∀ {name id id'}, analysis.nonterminalId? name = some id →
    analysis'.nonterminalId? name = some id' → analysis.isNullable id = analysis'.isNullable id'
  first : ∀ {name id id'}, analysis.nonterminalId? name = some id →
    analysis'.nonterminalId? name = some id' →
      ∀ next, next ∈ analysis.firstNames id ↔ next ∈ analysis'.firstNames id'
  follow : ∀ {name id id'}, analysis.nonterminalId? name = some id →
    analysis'.nonterminalId? name = some id' →
      ∀ seen, seen ∈ analysis.followLookaheads id ↔ seen ∈ analysis'.followLookaheads id'
  predictAny : ∀ {name id id'}, analysis.nonterminalId? name = some id →
    analysis'.nonterminalId? name = some id' →
      ∀ seen, seen ∈ analysis.predictAnyLookaheads id ↔ seen ∈ analysis'.predictAnyLookaheads id'
  exists_rule? : ∀ rule,
    (∃ index, analysis.rule? index = some rule) ↔ ∃ index, analysis'.rule? index = some rule
  predict : ∀ {rule index index'}, analysis.rule? index = some rule →
    analysis'.rule? index' = some rule →
      ∀ seen, seen ∈ analysis.predictLookaheads index ↔ seen ∈ analysis'.predictLookaheads index'
  isAmbiguous : analysis.isAmbiguous = analysis'.isAmbiguous

theorem mem_predictAnyLookaheads_iff (hanalysis : ofGrammar grammar = .ok analysis) {name : String}
    {id : Nat} (hid : analysis.nonterminalId? name = some id) {seen : Lookahead} :
    seen ∈ analysis.predictAnyLookaheads id ↔
      ∃ rule ∈ grammar.rules, rule.lhs = name ∧ grammar.Predicts rule seen := by
  obtain ⟨numbered, hrepresents, rfl⟩ := exists_represents hanalysis
  obtain ⟨hlt, rfl⟩ := nonterminalName_of_nonterminalId? hid
  rw [mem_predictAnyLookaheads_ofNumbered hrepresents hlt]
  exact hrepresents.exists_alternative_iff hlt (grammar.Predicts · seen)

theorem agrees_of_perm (hperm : grammar.rules.Perm other.rules)
    (hstart : grammar.start? = other.start?) (hanalysis : ofGrammar grammar = .ok analysis)
    (hanalysis' : ofGrammar other = .ok analysis') : analysis.Agrees analysis' := by
  have hsame := Grammar.sameRules_of_perm hperm hstart
  constructor
  case exists_nonterminalId? =>
    intro name
    simp only [exists_nonterminalId?_iff hanalysis, exists_nonterminalId?_iff hanalysis',
      hsame.mem_iff]
  case isNullable =>
    intro name id id' hid hid'
    rw [Bool.eq_iff_iff, isNullable_iff hanalysis hid, isNullable_iff hanalysis' hid',
      hsame.derives_iff]
  case first =>
    intro name id id' hid hid' next
    simp only [mem_firstNames_iff hanalysis hid, mem_firstNames_iff hanalysis' hid',
      hsame.derives_iff]
  case follow =>
    intro name id id' hid hid' seen
    rw [mem_followLookaheads_iff hanalysis hid, mem_followLookaheads_iff hanalysis' hid',
      hsame.follows_iff]
  case predictAny =>
    intro name id id' hid hid' seen
    simp only [mem_predictAnyLookaheads_iff hanalysis hid,
      mem_predictAnyLookaheads_iff hanalysis' hid', hsame.mem_iff, hsame.predicts_iff]
  case exists_rule? =>
    intro rule
    simp only [rule?_eq hanalysis, rule?_eq hanalysis', ← List.mem_iff_getElem?, hsame.mem_iff]
  case predict =>
    intro rule index index' hrule hrule' seen
    rw [rule?_eq hanalysis] at hrule
    rw [rule?_eq hanalysis'] at hrule'
    rw [mem_predictLookaheads_iff hanalysis hrule, mem_predictLookaheads_iff hanalysis' hrule',
      hsame.predicts_iff]
  case isAmbiguous =>
    have hambiguous := (describes_of_ofGrammar hanalysis).isAmbiguous_eq_false
    have hambiguous' := (describes_of_ofGrammar hanalysis').isAmbiguous_eq_false
    rw [← Bool.not_inj_iff, Bool.eq_iff_iff, Bool.not_eq_true', Bool.not_eq_true', hambiguous,
      hambiguous', Grammar.predictive_iff_of_perm hperm hstart]

end Analysis

end TopDown
