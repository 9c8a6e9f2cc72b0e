import Mathlib.Data.List.Pairwise
import TopDown.Analysis.Predict
import TopDown.Proofs.Follow

/-!
# Predict sets

A predict set holds the lookaheads that predict its rule, and no overlap is found exactly when the
predict sets of the alternatives are disjoint.
-/

namespace TopDown

namespace NumberedGrammar

variable {grammar : Grammar} {numbered : NumberedGrammar}

abbrev predictOf (numbered : NumberedGrammar) (rule : NumberedRule) : LookaheadSet :=
  numbered.predictSet numbered.nullables numbered.firstSets numbered.followSets rule

/-- A predict set is what an occurrence of the left-hand side in front of nothing but the production
would give to a follow set. -/
theorem predictSet_eq (nullable : Array Bool) (first follow : Array LookaheadSet)
    (rule : NumberedRule) (nonterminal : Nat) :
    numbered.predictSet nullable first follow rule =
      (numbered.followUpdate nullable first rule.lhs (nonterminal, rule.production)).value follow :=
  rfl

namespace Represents

theorem within_predictOf (hrepresents : numbered.Represents grammar) {rule : NumberedRule}
    (hrule : rule ∈ numbered.rules) :
    (numbered.predictOf rule).Within numbered.numbering.lookaheadCount := by
  rw [predictOf, predictSet_eq _ _ _ rule 0]
  exact within_followUpdate _ _ _ hrepresents.firstTable_within hrepresents.followTable_within
    (hrepresents.uses rule hrule)

theorem contains_predictOf_iff (hrepresents : numbered.Represents grammar) {rule : NumberedRule}
    (hrule : rule ∈ numbered.rules) {id : Nat} :
    (numbered.predictOf rule).contains id = true ↔
      (numbered.firstOf numbered.nullables numbered.firstSets rule.production).contains id = true ∨
        canVanish numbered.nullables rule.production = true ∧
          (numbered.setAt numbered.followSets rule.lhs).contains id = true := by
  rw [predictOf, predictSet_eq _ _ _ rule 0]
  exact contains_followUpdate_iff hrepresents.firstTable_within hrepresents.followTable_within
    (hrepresents.uses rule hrule)

theorem predicts_of_contains (hrepresents : numbered.Represents grammar) {rule : NumberedRule}
    (hrule : rule ∈ numbered.rules) {id : Nat}
    (hcontains : (numbered.predictOf rule).contains id = true) :
    grammar.Predicts (numbered.numbering.decodeRule rule) (numbered.numbering.lookahead id) := by
  have huses := hrepresents.uses rule hrule
  rw [Grammar.Predicts, Grammar.shows_iff]
  rcases (hrepresents.contains_predictOf_iff hrule).mp hcontains with
    hcontains | ⟨hvanish, hcontains⟩
  · obtain ⟨name, rest, hlookahead, hderives⟩ :=
      hrepresents.derives_terminal_of_contains huses hcontains
    exact .inl ⟨name, rest, hlookahead, hderives⟩
  · have hentry : numbered.FollowEntry grammar rule.lhs
        (numbered.setAt numbered.followSets rule.lhs) :=
      EachEntry.setAt hrepresents.followTable_sound (followEntry_emptySet rule.lhs)
    exact .inr ⟨(hrepresents.canVanish_iff_derives huses).mp hvanish, hentry.follows hcontains⟩

theorem exists_contains_of_predicts (hrepresents : numbered.Represents grammar)
    {rule : NumberedRule} (hrule : rule ∈ numbered.rules) {seen : Lookahead}
    (hpredicts : grammar.Predicts (numbered.numbering.decodeRule rule) seen) :
    ∃ id, numbered.numbering.lookahead id = seen ∧
      (numbered.predictOf rule).contains id = true := by
  have huses := hrepresents.uses rule hrule
  rcases Grammar.shows_iff.mp hpredicts with ⟨name, rest, rfl, hderives⟩ | ⟨hderives, hfollows⟩
  · obtain ⟨id, hlookahead, hcontains⟩ := hrepresents.contains_of_derives_terminal huses hderives
    exact ⟨id, hlookahead, (hrepresents.contains_predictOf_iff hrule).mpr (.inl hcontains)⟩
  · obtain ⟨id, hlookahead, hcontains⟩ :=
      hrepresents.exists_contains_follow hfollows (hrepresents.lhs_lt rule hrule) rfl
    refine ⟨id, hlookahead, (hrepresents.contains_predictOf_iff hrule).mpr (.inr ⟨?_, hcontains⟩)⟩
    exact (hrepresents.canVanish_iff_derives huses).mpr hderives

theorem lookahead_inj (hrepresents : numbered.Represents grammar) {left right : Nat}
    (hleft : left < numbered.numbering.lookaheadCount)
    (hright : right < numbered.numbering.lookaheadCount)
    (hsame : numbered.numbering.lookahead left = numbered.numbering.lookahead right) :
    left = right := by
  have hid := (Numbering.lookaheadId?_eq_some_iff hrepresents.terminals_nodup).mpr ⟨hleft, hsame⟩
  rw [(Numbering.lookaheadId?_eq_some_iff hrepresents.terminals_nodup).mpr ⟨hright, rfl⟩,
    Option.some.injEq] at hid
  exact hid.symm

end Represents

theorem mem_alternatives {nonterminal id : Nat} :
    id ∈ numbered.alternatives nonterminal ↔
      ∃ rule, numbered.rules[id]? = some rule ∧ rule.lhs = nonterminal := by
  simp only [alternatives, List.mem_filterMap, Prod.exists]
  constructor
  · rintro ⟨rule, index, hmem, hif⟩
    split at hif
    · rename_i hlhs
      rw [Option.some.injEq] at hif
      subst hif
      exact ⟨rule, List.mk_mem_zipIdx_iff_getElem?.mp hmem, hlhs⟩
    · cases hif
  · rintro ⟨rule, hget, hlhs⟩
    exact ⟨rule, id, List.mk_mem_zipIdx_iff_getElem?.mpr hget, by rw [if_pos hlhs]⟩

theorem pairwise_alternatives (numbered : NumberedGrammar) (nonterminal : Nat) :
    (numbered.alternatives nonterminal).Pairwise (· < ·) := by
  have hindices : (numbered.rules.zipIdx).Pairwise fun left right => left.2 < right.2 := by
    rw [← List.pairwise_map, List.zipIdx_map_snd]
    exact List.pairwise_lt_range'
  apply hindices.filterMap
  intro left right hlt id hid other hother
  split at hid
  · rw [Option.some.injEq] at hid
    split at hother
    · rw [Option.some.injEq] at hother
      rw [← hid, ← hother]
      exact hlt
    · cases hother
  · cases hid

/-- The alternatives in front of one are those with smaller numbers. -/
theorem mem_before_iff {nonterminal index earlier : Nat} {before after : List Nat}
    (hsplit : numbered.alternatives nonterminal = before ++ index :: after) :
    earlier ∈ before ↔ earlier ∈ numbered.alternatives nonterminal ∧ earlier < index := by
  have hsorted := numbered.pairwise_alternatives nonterminal
  rw [hsplit, List.pairwise_append] at hsorted
  rw [hsplit, List.mem_append, List.mem_cons]
  constructor
  · intro hbefore
    exact ⟨.inl hbefore, hsorted.2.2 earlier hbefore index (List.mem_cons_self ..)⟩
  · rintro ⟨hbefore | rfl | hafter, hlt⟩
    · exact hbefore
    · exact absurd hlt (Nat.lt_irrefl _)
    · exact absurd hlt (Nat.lt_asymm ((List.pairwise_cons.mp hsorted.2.1).1 earlier hafter))

section Overlaps

variable {predict : Array LookaheadSet} {seen : LookaheadSet}

theorem isDisjoint_union_iff {capacity : Nat} {left right other : LookaheadSet}
    (hleft : left.Within capacity) (hright : right.Within capacity) :
    (left.union right).isDisjoint other = true ↔
      left.isDisjoint other = true ∧ right.isDisjoint other = true := by
  simp only [LookaheadSet.isDisjoint_iff, hleft.contains_union_iff hright, not_and, or_imp,
    forall_and]

theorem isDisjoint_comm {left right : LookaheadSet} :
    left.isDisjoint right = true ↔ right.isDisjoint left = true := by
  simp only [LookaheadSet.isDisjoint_iff, and_comm]

theorem isDisjoint_emptySet (other : LookaheadSet) :
    numbered.emptySet.isDisjoint other = true := by
  rw [LookaheadSet.isDisjoint_iff]
  rintro id ⟨hcontains, _⟩
  rw [emptySet, LookaheadSet.contains_empty] at hcontains
  exact absurd hcontains Bool.false_ne_true

/-- No overlap is found exactly when the sets share nothing with each other and with what was seen
before them. -/
theorem overlapsFrom_eq_nil_iff (hpredict : numbered.EachWithin predict)
    (hseen : seen.Within numbered.numbering.lookaheadCount) {rules : List Nat} :
    numbered.overlapsFrom predict seen rules = [] ↔
      (∀ rule ∈ rules, seen.isDisjoint (numbered.setAt predict rule) = true) ∧
        rules.Pairwise fun first second =>
          (numbered.setAt predict first).isDisjoint (numbered.setAt predict second) = true := by
  induction rules generalizing seen with
  | nil => simp [overlapsFrom]
  | cons rule rules ih =>
      have hset := within_setAt hpredict rule
      have hrest := ih (hseen.union hset)
      rw [overlapsFrom, List.forall_mem_cons, List.pairwise_cons]
      split
      · rename_i hdisjoint
        rw [hrest]
        simp only [isDisjoint_union_iff hseen hset, hdisjoint, true_and, forall_and]
        exact and_assoc
      · rename_i hoverlap
        simp [hoverlap]

theorem overlaps_eq_nil_iff (hpredict : numbered.EachWithin predict) {nonterminal : Nat} :
    numbered.overlaps predict nonterminal = [] ↔
      ∀ first ∈ numbered.alternatives nonterminal, ∀ second ∈ numbered.alternatives nonterminal,
        first ≠ second →
          (numbered.setAt predict first).isDisjoint (numbered.setAt predict second) = true := by
  rw [overlaps, overlapsFrom_eq_nil_iff hpredict numbered.within_emptySet]
  constructor
  · rintro ⟨_, hpairwise⟩ first hfirst second hsecond hne
    have : Std.Symm fun first second =>
        (numbered.setAt predict first).isDisjoint (numbered.setAt predict second) = true :=
      ⟨fun left right hdisjoint => isDisjoint_comm.mp hdisjoint⟩
    exact hpairwise.forall hfirst hsecond hne
  · intro hdisjoint
    have hnodup := (numbered.pairwise_alternatives nonterminal).imp Nat.ne_of_lt
    exact ⟨fun rule _ => isDisjoint_emptySet _, List.Nodup.pairwise_of_forall_ne hnodup hdisjoint⟩

end Overlaps

end NumberedGrammar

end TopDown
