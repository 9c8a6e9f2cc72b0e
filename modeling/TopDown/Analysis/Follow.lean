import TopDown.Analysis.First

/-!
# Follow sets

The lookaheads that can come behind a nonterminal. The end of the input comes behind the start
symbol. Every production counts, also those of nonterminals that the start symbol does not reach.
-/

namespace TopDown

/-- The nonterminals of a production, each with the symbols behind it. -/
def occurrences : List NumberedSymbol → List (Nat × List NumberedSymbol)
  | [] => []
  | .terminal _ :: rest => occurrences rest
  | .nonterminal id :: rest => (id, rest) :: occurrences rest

namespace NumberedGrammar

/-- What the symbols behind a nonterminal can begin with comes behind it; if they can vanish, so
does whatever comes behind the left-hand side. -/
def followUpdate (grammar : NumberedGrammar) (nullable : Array Bool)
    (first : Array LookaheadSet) (lhs : Nat) (occurrence : Nat × List NumberedSymbol) :
    Update LookaheadSet :=
  let behind := grammar.firstOf nullable first occurrence.2
  let vanishes := canVanish nullable occurrence.2
  { target := occurrence.1
    value := fun follow =>
      if vanishes then behind.union (grammar.setAt follow lhs) else behind }

def followUpdates (grammar : NumberedGrammar) (nullable : Array Bool)
    (first : Array LookaheadSet) : List (Update LookaheadSet) :=
  grammar.rules.flatMap fun rule =>
    (occurrences rule.production).map (grammar.followUpdate nullable first rule.lhs)

/-- Before the first sweep only the start symbol has something behind it. -/
def followStart (grammar : NumberedGrammar) : Array LookaheadSet :=
  grammar.emptyTable.modify Numbering.start (·.insert grammar.numbering.endOfInput)

def followTable (grammar : NumberedGrammar) (nullable : Array Bool)
    (first : Array LookaheadSet) : Saturated LookaheadSet :=
  saturate (grammar.followUpdates nullable first) grammar.followStart

end NumberedGrammar

end TopDown
