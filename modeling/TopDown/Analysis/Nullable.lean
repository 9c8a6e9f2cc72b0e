import TopDown.Analysis.Saturation
import TopDown.Grammar.Numbered

/-!
# Nullable nonterminals

A nonterminal is nullable when it derives the empty sequence: some production of it consists of
nullable nonterminals alone.
-/

namespace TopDown

/-- A flag can only be raised, and it has room until it is. -/
instance : Absorbing Bool where
  absorb value other := (value || other, !value && other)
  room value := if value then 0 else 1
  room_absorb_lt := by
    intro value other hchanged
    cases value <;> cases other <;> simp_all

/-- Whether every symbol is a nullable nonterminal. -/
def canVanish (nullable : Array Bool) (symbols : List NumberedSymbol) : Bool :=
  symbols.all fun
    | .terminal _ => false
    | .nonterminal id => nullable.getD id false

/-- A rule makes its left-hand side nullable when its production is. -/
def NumberedRule.nullableUpdate (rule : NumberedRule) : Update Bool :=
  { target := rule.lhs
    value := fun nullable => canVanish nullable rule.production }

def NumberedGrammar.nullableTable (grammar : NumberedGrammar) : Saturated Bool :=
  saturate (grammar.rules.map NumberedRule.nullableUpdate)
    (Array.replicate grammar.nonterminalCount false)

end TopDown
