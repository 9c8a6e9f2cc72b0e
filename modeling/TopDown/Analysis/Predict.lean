import TopDown.Analysis.Follow

/-!
# Predict sets and overlaps

The predict set of a rule holds the lookaheads at which a parser may expand it. Two rules of one
nonterminal overlap when they share such a lookahead.
-/

namespace TopDown

/-- A rule that shares lookaheads with the rules before it. -/
structure Overlap where
  rule : Nat
  shared : LookaheadSet
deriving DecidableEq, Repr

namespace NumberedGrammar

/-- What the production can begin with, and if it can vanish, also what comes behind the left-hand
side. -/
def predictSet (grammar : NumberedGrammar) (nullable : Array Bool)
    (first follow : Array LookaheadSet) (rule : NumberedRule) : LookaheadSet :=
  let start := grammar.firstOf nullable first rule.production
  if canVanish nullable rule.production then start.union (grammar.setAt follow rule.lhs)
  else start

/-- The union of the predict sets of some rules. -/
def predictUnion (grammar : NumberedGrammar) (predict : Array LookaheadSet) (rules : List Nat) :
    LookaheadSet :=
  rules.foldl (fun set rule => set.union (grammar.setAt predict rule))
    grammar.emptySet

/-- The rules of a list that share lookaheads with `seen` or with the rules before them. -/
def overlapsFrom (grammar : NumberedGrammar) (predict : Array LookaheadSet) :
    LookaheadSet → List Nat → List Overlap
  | _, [] => []
  | seen, rule :: rest =>
      let set := grammar.setAt predict rule
      let later := overlapsFrom grammar predict (seen.union set) rest
      if seen.isDisjoint set then later
      else { rule := rule, shared := seen.inter set } :: later

/-- The rules of a nonterminal that share lookaheads with its earlier rules. -/
def overlaps (grammar : NumberedGrammar) (predict : Array LookaheadSet) (nonterminal : Nat) :
    List Overlap :=
  grammar.overlapsFrom predict grammar.emptySet (grammar.alternatives nonterminal)

end NumberedGrammar

end TopDown
