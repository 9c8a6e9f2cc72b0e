import TopDown.Analysis.Nullable
import TopDown.LookaheadSet.Members

/-!
# First sets

The terminals that what a nonterminal derives can begin with.
-/

namespace TopDown

instance : Absorbing LookaheadSet where
  absorb := LookaheadSet.absorb
  room := LookaheadSet.room
  room_absorb_lt := LookaheadSet.room_absorb_lt

namespace NumberedGrammar

def emptySet (grammar : NumberedGrammar) : LookaheadSet :=
  .empty grammar.numbering.lookaheadCount

/-- The entry of a rule or a nonterminal in a table of sets. -/
def setAt (grammar : NumberedGrammar) (table : Array LookaheadSet) (id : Nat) : LookaheadSet :=
  table.getD id grammar.emptySet

/-- The terminals that a sequence of symbols can begin with. The walk ends at the first symbol that
cannot vanish. -/
def firstOf (grammar : NumberedGrammar) (nullable : Array Bool) (first : Array LookaheadSet) :
    List NumberedSymbol → LookaheadSet
  | [] => grammar.emptySet
  | .terminal id :: _ => grammar.emptySet.insert id
  | .nonterminal id :: rest =>
      if nullable.getD id false then
        (grammar.setAt first id).union (firstOf grammar nullable first rest)
      else grammar.setAt first id

/-- What a production can begin with, its left-hand side can begin with. -/
def firstUpdate (grammar : NumberedGrammar) (nullable : Array Bool) (rule : NumberedRule) :
    Update LookaheadSet :=
  { target := rule.lhs
    value := fun first => grammar.firstOf nullable first rule.production }

/-- A table of empty sets, one for each nonterminal. -/
def emptyTable (grammar : NumberedGrammar) : Array LookaheadSet :=
  Array.replicate grammar.nonterminalCount grammar.emptySet

def firstTable (grammar : NumberedGrammar) (nullable : Array Bool) : Saturated LookaheadSet :=
  saturate (grammar.rules.map (grammar.firstUpdate nullable)) grammar.emptyTable

end NumberedGrammar

end TopDown
