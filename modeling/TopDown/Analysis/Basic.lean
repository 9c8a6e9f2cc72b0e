import TopDown.Analysis.Predict

/-!
# Analyses

The analysis of a grammar holds its tables: which nonterminals are nullable, the first and follow
sets of the nonterminals, the predict sets of the rules, and the rules that overlap earlier ones. A
grammar without overlaps can be parsed by looking one token ahead.
-/

namespace TopDown

structure Analysis where
  grammar : NumberedGrammar
  nullable : Saturated Bool
  first : Saturated LookaheadSet
  follow : Saturated LookaheadSet
  /-- For each rule. -/
  predict : Array LookaheadSet
  /-- For each nonterminal, the union over its rules. -/
  predictAny : Array LookaheadSet
  /-- For each nonterminal, the rules that overlap earlier ones. -/
  overlaps : Array (List Overlap)

/-- A rule in conflict with earlier rules of its nonterminal, and the lookaheads that they share. -/
structure Conflict where
  rule : Rule
  overlap : List Lookahead
deriving DecidableEq, Repr

def Conflict.message (conflict : Conflict) : String :=
  "`" ++ conflict.rule.render ++ "` overlaps an earlier alternative on " ++
    ", ".intercalate (conflict.overlap.map Lookahead.render)

namespace Analysis

def ofNumbered (grammar : NumberedGrammar) : Analysis :=
  let nullable := grammar.nullableTable
  let first := grammar.firstTable nullable.table
  let follow := grammar.followTable nullable.table first.table
  let predict := (grammar.rules.map
    (grammar.predictSet nullable.table first.table follow.table)).toArray
  let nonterminals := List.range grammar.nonterminalCount
  { grammar := grammar
    nullable := nullable
    first := first
    follow := follow
    predict := predict
    predictAny := (nonterminals.map fun nonterminal =>
      grammar.predictUnion predict (grammar.alternatives nonterminal)).toArray
    overlaps := (nonterminals.map (grammar.overlaps predict)).toArray }

/-- Analyses a grammar that can be numbered. -/
def ofGrammar (grammar : Grammar) : Except GrammarDefect Analysis :=
  ofNumbered <$> grammar.number

variable (analysis : Analysis)

def numbering : Numbering :=
  analysis.grammar.numbering

def nonterminals : List Nat :=
  List.range analysis.grammar.nonterminalCount

def terminals : List String :=
  analysis.numbering.terminals

def nonterminalId? (name : String) : Option Nat :=
  analysis.numbering.nonterminalId? name

def nonterminalName? (nonterminal : Nat) : Option String :=
  analysis.numbering.nonterminalName? nonterminal

def rules : List Nat :=
  List.range analysis.grammar.rules.length

def rule? (rule : Nat) : Option Rule :=
  analysis.grammar.rule? rule

def alternatives (nonterminal : Nat) : List Nat :=
  analysis.grammar.alternatives nonterminal

def isNullable (nonterminal : Nat) : Bool :=
  analysis.nullable.table.getD nonterminal false

/-- The names of the terminals of a set. -/
def terminalNames (set : LookaheadSet) : List String :=
  set.toList.filterMap (analysis.numbering.terminals[·]?)

def lookaheads (set : LookaheadSet) : List Lookahead :=
  set.toList.map analysis.numbering.lookahead

def firstNames (nonterminal : Nat) : List String :=
  analysis.terminalNames (analysis.grammar.setAt analysis.first.table nonterminal)

def followLookaheads (nonterminal : Nat) : List Lookahead :=
  analysis.lookaheads (analysis.grammar.setAt analysis.follow.table nonterminal)

def predictLookaheads (rule : Nat) : List Lookahead :=
  analysis.lookaheads (analysis.grammar.setAt analysis.predict rule)

def predictAnyLookaheads (nonterminal : Nat) : List Lookahead :=
  analysis.lookaheads (analysis.grammar.setAt analysis.predictAny nonterminal)

def overlapsOf (nonterminal : Nat) : List Overlap :=
  analysis.overlaps.getD nonterminal []

/-- The rules of a nonterminal that overlap an earlier alternative. -/
def ambiguousRules (nonterminal : Nat) : List Nat :=
  (analysis.overlapsOf nonterminal).map Overlap.rule

def isAmbiguous : Bool :=
  analysis.overlaps.any (!·.isEmpty)

/-- The conflicts of all nonterminals, in order. -/
def conflicts : List Conflict :=
  analysis.nonterminals.flatMap fun nonterminal =>
    (analysis.overlapsOf nonterminal).filterMap fun overlap =>
      (analysis.rule? overlap.rule).map fun rule =>
        { rule := rule, overlap := analysis.lookaheads overlap.shared }

/-- The numbers of a sequence of symbols, if the grammar has all of them. -/
def symbols? (symbols : List Symbol) : Option (List NumberedSymbol) :=
  symbols.mapM analysis.numbering.symbol?

/-- The terminals that a sequence of symbols can begin with, or nothing if the grammar does not have
all the symbols. -/
def firstOf? (symbols : List Symbol) : Option (List String) :=
  (analysis.symbols? symbols).map fun numbered =>
    analysis.terminalNames
      (analysis.grammar.firstOf analysis.nullable.table analysis.first.table numbered)

/-- Whether a sequence of symbols can vanish, or nothing if the grammar does not have all the
symbols. -/
def isNullable? (symbols : List Symbol) : Option Bool :=
  (analysis.symbols? symbols).map (canVanish analysis.nullable.table)

def predicts (rule lookahead : Nat) : Bool :=
  (analysis.grammar.setAt analysis.predict rule).contains lookahead

def predictsAny (nonterminal lookahead : Nat) : Bool :=
  (analysis.grammar.setAt analysis.predictAny nonterminal).contains lookahead

/-- The rule of a nonterminal to expand at a lookahead. -/
def select? (nonterminal : Nat) (lookahead : Lookahead) : Option Nat :=
  match analysis.numbering.lookaheadId? lookahead with
  | none => none
  | some id =>
      if analysis.predictsAny nonterminal id then
        (analysis.alternatives nonterminal).find? fun rule => analysis.predicts rule id
      else none

end Analysis

end TopDown
