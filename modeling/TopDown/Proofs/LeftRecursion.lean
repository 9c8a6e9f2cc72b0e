import Mathlib.Order.RelClasses
import TopDown.Proofs.Lookahead

/-!
# Left recursion

A nonterminal opens another one at a lookahead when it is reached without passing a token. In a
predictive grammar no lookahead can be followed through such openings forever, whether or not the
grammar has left-recursive nonterminals.
-/

namespace TopDown.Grammar

variable {grammar : Grammar} {seen : Lookahead}

/-- The symbols can be read without passing a token, by rules that the lookahead predicts. -/
inductive Cleared (grammar : Grammar) (seen : Lookahead) : List Symbol → Prop
  | nil : Cleared grammar seen []
  | expand {rule : Rule} {rest : List Symbol} (hrule : rule ∈ grammar.rules)
      (hpredicts : grammar.Predicts rule seen) (hproduction : Cleared grammar seen rule.production)
      (hrest : Cleared grammar seen rest) : Cleared grammar seen (.nonterminal rule.lhs :: rest)

theorem Cleared.append {left right : List Symbol} (hleft : grammar.Cleared seen left)
    (hright : grammar.Cleared seen right) : grammar.Cleared seen (left ++ right) := by
  induction hleft with
  | nil => exact hright
  | expand hrule hpredicts hproduction _ _ ih => exact .expand hrule hpredicts hproduction ih

/-- A rule of the outer nonterminal that the lookahead predicts leads to the inner one at once. -/
def OpensAt (grammar : Grammar) (seen : Lookahead) (outer inner : String) : Prop :=
  ∃ (rule : Rule) (before after : List Symbol), rule ∈ grammar.rules ∧ rule.lhs = outer ∧
    grammar.Predicts rule seen ∧ rule.production = before ++ .nonterminal inner :: after ∧
    grammar.Cleared seen before

theorem Predictive.acc_of_shows (hpredictive : grammar.Predictive) {behind : Lookahead → Prop}
    {symbols : List Symbol} (hshows : grammar.Shows behind seen symbols)
    (hfits : grammar.Fits symbols behind) {before after : List Symbol} {name : String}
    (hsplit : symbols = before ++ .nonterminal name :: after)
    (hcleared : grammar.Cleared seen before) :
    Acc (fun inner outer => grammar.OpensAt seen outer inner) name := by
  -- what is opened at the lookahead is what the lookahead comes to be seen through
  induction hshows generalizing before after name with
  | behind => simp at hsplit
  | terminal =>
      cases hcleared with
      | nil => simp at hsplit
      | expand => simp at hsplit
  | @expand rule rest hrule hshows ih =>
      have hpredicts := hfits.predicts rfl hshows
      have hinner := hfits.step (.replace [] rest (.rule hrule))
      cases hcleared with
      | nil =>
          rw [List.nil_append, List.cons.injEq, Symbol.nonterminal.injEq] at hsplit
          obtain ⟨rfl, rfl⟩ := hsplit
          -- no other rule of it is predicted, so its production is the one that is seen through
          constructor
          rintro inner ⟨rule', before', after', hrule', hlhs, hpredicts', hproduction, hcleared⟩
          obtain rfl := hpredictive.rule_eq hrule' hrule hlhs hpredicts' hpredicts
          have hsplit : rule'.production ++ rest =
              before' ++ .nonterminal inner :: (after' ++ rest) := by
            rw [hproduction, List.append_assoc, List.cons_append]
          exact ih hinner hsplit hcleared
      | @expand rule' before hrule' hpredicts' hproduction hbefore =>
          rw [List.cons_append, List.cons.injEq, Symbol.nonterminal.injEq] at hsplit
          obtain ⟨hlhs, rfl⟩ := hsplit
          obtain rfl := hpredictive.rule_eq hrule' hrule hlhs.symm hpredicts' hpredicts
          have hsplit : rule'.production ++ (before ++ .nonterminal name :: after) =
              rule'.production ++ before ++ .nonterminal name :: after := by
            rw [List.append_assoc]
          exact ih hinner hsplit (hproduction.append hbefore)

theorem Predictive.wellFounded_opensAt (hpredictive : grammar.Predictive) (seen : Lookahead) :
    WellFounded fun inner outer => grammar.OpensAt seen outer inner := by
  constructor
  intro outer
  constructor
  rintro inner ⟨rule, before, after, hrule, rfl, hpredicts, hsplit, hcleared⟩
  exact hpredictive.acc_of_shows hpredicts (fits_production hrule) hsplit hcleared

theorem Predictive.not_opensAt_self (hpredictive : grammar.Predictive) (name : String) :
    ¬ Relation.TransGen (grammar.OpensAt seen) name name := by
  intro hopens
  have hopposite := Relation.transGen_swap.mpr hopens
  exact (hpredictive.wellFounded_opensAt seen).transGen.asymmetric _ _ hopposite hopposite

end TopDown.Grammar
