import TopDown.Proofs.Checked.Analysis

/-!
# Checked answers

An analysis is asked with the numbers that it has given out, and looks up the names that its sets
stand for. The checked answers are nothing when one of these is not there. The main statement says
that an analysis in whose tables every number is in range always answers.
-/

namespace TopDown.Analysis

variable (analysis : Analysis)

/-- A number other than that of the end of the input has to be the number of a terminal. -/
def checkedLookahead (id : Nat) : Option Lookahead :=
  if id = analysis.numbering.endOfInput then some .endOfInput
  else analysis.numbering.terminals[id]?.map .terminal

def checkedTerminalNames (set : LookaheadSet) : Option (List String) :=
  set.toList.mapM (analysis.numbering.terminals[·]?)

def checkedLookaheads (set : LookaheadSet) : Option (List Lookahead) :=
  set.toList.mapM analysis.checkedLookahead

def checkedFirstNames (nonterminal : Nat) : Option (List String) :=
  analysis.first.table[nonterminal]?.bind analysis.checkedTerminalNames

def checkedFollowLookaheads (nonterminal : Nat) : Option (List Lookahead) :=
  analysis.follow.table[nonterminal]?.bind analysis.checkedLookaheads

def checkedPredictLookaheads (rule : Nat) : Option (List Lookahead) :=
  analysis.predict[rule]?.bind analysis.checkedLookaheads

def checkedPredictAnyLookaheads (nonterminal : Nat) : Option (List Lookahead) :=
  analysis.predictAny[nonterminal]?.bind analysis.checkedLookaheads

def checkedAmbiguousRules (nonterminal : Nat) : Option (List Nat) :=
  analysis.overlaps[nonterminal]?.map fun overlaps => overlaps.map Overlap.rule

def checkedConflict (overlap : Overlap) : Option Conflict := do
  let rule ← analysis.rule? overlap.rule
  let shared ← analysis.checkedLookaheads overlap.shared
  return { rule := rule, overlap := shared }

def checkedConflictsOf (nonterminal : Nat) : Option (List Conflict) :=
  analysis.overlaps[nonterminal]?.bind fun overlaps => overlaps.mapM analysis.checkedConflict

def checkedConflicts : Option (List Conflict) :=
  (analysis.nonterminals.mapM analysis.checkedConflictsOf).map List.flatten

/-- The inner option is the answer: symbols that the grammar does not have are no miss. -/
def checkedFirstOf? (symbols : List Symbol) : Option (Option (List String)) :=
  match analysis.symbols? symbols with
  | none => some none
  | some numbered => do
      let set ← analysis.grammar.checkedFirstOf analysis.nullable.table analysis.first.table
        numbered
      let names ← analysis.checkedTerminalNames set
      return some names

def checkedIsNullable? (symbols : List Symbol) : Option (Option Bool) :=
  match analysis.symbols? symbols with
  | none => some none
  | some numbered => (checkedCanVanish analysis.nullable.table numbered).map some

/-- The analysis answers every question about its own numbers, and gives out none but those. -/
structure Answers : Prop where
  mem_nonterminals : ∀ {name id}, analysis.nonterminalId? name = some id →
    id ∈ analysis.nonterminals
  mem_rules_of_alternative : ∀ {nonterminal}, ∀ rule ∈ analysis.alternatives nonterminal,
    rule ∈ analysis.rules
  mem_rules_of_ambiguous : ∀ nonterminal ∈ analysis.nonterminals,
    ∀ rule ∈ analysis.ambiguousRules nonterminal, rule ∈ analysis.rules
  nonterminalName : ∀ nonterminal ∈ analysis.nonterminals,
    ∃ name, analysis.nonterminalName? nonterminal = some name
  rule : ∀ rule ∈ analysis.rules, ∃ named, analysis.rule? rule = some named
  alternatives : ∀ nonterminal ∈ analysis.nonterminals,
    analysis.grammar.checkedAlternatives nonterminal = some (analysis.alternatives nonterminal)
  isNullable : ∀ nonterminal ∈ analysis.nonterminals,
    analysis.nullable.table[nonterminal]? = some (analysis.isNullable nonterminal)
  firstNames : ∀ nonterminal ∈ analysis.nonterminals,
    analysis.checkedFirstNames nonterminal = some (analysis.firstNames nonterminal)
  followLookaheads : ∀ nonterminal ∈ analysis.nonterminals,
    analysis.checkedFollowLookaheads nonterminal = some (analysis.followLookaheads nonterminal)
  predictLookaheads : ∀ rule ∈ analysis.rules,
    analysis.checkedPredictLookaheads rule = some (analysis.predictLookaheads rule)
  predictAnyLookaheads : ∀ nonterminal ∈ analysis.nonterminals,
    analysis.checkedPredictAnyLookaheads nonterminal =
      some (analysis.predictAnyLookaheads nonterminal)
  ambiguousRules : ∀ nonterminal ∈ analysis.nonterminals,
    analysis.checkedAmbiguousRules nonterminal = some (analysis.ambiguousRules nonterminal)
  conflicts : analysis.checkedConflicts = some analysis.conflicts
  firstOf? : ∀ symbols, analysis.checkedFirstOf? symbols = some (analysis.firstOf? symbols)
  isNullable? : ∀ symbols,
    analysis.checkedIsNullable? symbols = some (analysis.isNullable? symbols)
  terminalSet_firstOf : ∀ {symbols numbered}, analysis.symbols? symbols = some numbered →
    analysis.grammar.TerminalSet
      (analysis.grammar.firstOf analysis.nullable.table analysis.first.table numbered)

variable {analysis}

theorem checkedLookahead_eq {id : Nat} (hid : id < analysis.numbering.lookaheadCount) :
    analysis.checkedLookahead id = some (analysis.numbering.lookahead id) := by
  rw [checkedLookahead]
  split
  · rename_i hend
    rw [hend, Numbering.lookahead_endOfInput]
  · rename_i hterminal
    have hlt : id < analysis.numbering.terminals.length := by
      simp only [Numbering.lookaheadCount, Numbering.endOfInput] at hid hterminal
      omega
    have hname := List.getElem?_eq_getElem hlt
    rw [hname, Option.map_some, Numbering.lookahead_terminal hname]

theorem checkedLookaheads_eq {set : LookaheadSet}
    (hset : set.Within analysis.numbering.lookaheadCount) :
    analysis.checkedLookaheads set = some (analysis.lookaheads set) :=
  mapM_eq_some_map fun _ hid =>
    checkedLookahead_eq (hset.lt_of_contains (LookaheadSet.mem_toList.mp hid))

theorem checkedTerminalNames_eq {set : LookaheadSet} (hset : analysis.grammar.TerminalSet set) :
    analysis.checkedTerminalNames set = some (analysis.terminalNames set) :=
  mapM_eq_some_filterMap fun _ hid =>
    have hget := List.getElem?_eq_getElem
      (hset.lt_of_contains (LookaheadSet.mem_toList.mp hid))
    ⟨_, hget, hget⟩

/-- The names of an entry of a table of sets of lookaheads. -/
theorem bind_checkedLookaheads_eq {table : Array LookaheadSet} {count id : Nat}
    (htable : analysis.grammar.IsSetTable count table)
    (hid : id < count) :
    table[id]?.bind analysis.checkedLookaheads =
      some (analysis.lookaheads (analysis.grammar.setAt table id)) := by
  rw [NumberedGrammar.getElem?_eq_setAt htable hid analysis.grammar, Option.bind_some]
  exact checkedLookaheads_eq (NumberedGrammar.allowed_setAt htable hid analysis.grammar)

namespace InBounds

variable (hbounds : analysis.InBounds)
include hbounds

theorem size_nullable : analysis.nullable.table.size = analysis.grammar.nonterminalCount :=
  hbounds.nullable _ (List.mem_cons_self ..)

theorem isTable_first : IsTable analysis.grammar.nonterminalCount analysis.grammar.TerminalSet
    analysis.first.table :=
  hbounds.first _ (List.mem_cons_self ..)

theorem isTable_follow :
    analysis.grammar.IsSetTable analysis.grammar.nonterminalCount analysis.follow.table :=
  hbounds.follow _ (List.mem_cons_self ..)

theorem getElem?_overlaps {nonterminal : Nat}
    (hnonterminal : nonterminal < analysis.grammar.nonterminalCount) :
    analysis.overlaps[nonterminal]? = some (analysis.overlapsOf nonterminal) ∧
      analysis.grammar.OverlapsWithin (analysis.overlapsOf nonterminal) := by
  obtain ⟨overlaps, hget, hwithin⟩ := hbounds.overlaps.getElem? hnonterminal
  have hoverlaps : analysis.overlapsOf nonterminal = overlaps := by
    rw [overlapsOf, Array.getD_eq_getD_getElem?, hget, Option.getD_some]
  rw [hoverlaps]
  exact ⟨hget, hwithin⟩

theorem getElem?_rules {rule : Nat} (hrule : rule < analysis.grammar.rules.length) :
    ∃ named, analysis.rule? rule = some named :=
  ⟨_, List.getElem?_eq_getElem (hbounds.length_rules ▸ hrule)⟩

theorem checkedConflict_eq {overlap : Overlap}
    (hrule : overlap.rule < analysis.grammar.rules.length)
    (hshared : overlap.shared.Within analysis.numbering.lookaheadCount) :
    ∃ conflict, analysis.checkedConflict overlap = some conflict ∧
      (analysis.rule? overlap.rule).map (fun rule =>
        { rule := rule, overlap := analysis.lookaheads overlap.shared }) = some conflict := by
  obtain ⟨named, hnamed⟩ := hbounds.getElem?_rules hrule
  rw [checkedConflict, hnamed, checkedLookaheads_eq hshared]
  exact ⟨_, rfl, rfl⟩

theorem checkedConflictsOf_eq {nonterminal : Nat}
    (hnonterminal : nonterminal < analysis.grammar.nonterminalCount) :
    analysis.checkedConflictsOf nonterminal =
      some ((analysis.overlapsOf nonterminal).filterMap fun overlap =>
        (analysis.rule? overlap.rule).map fun rule =>
          { rule := rule, overlap := analysis.lookaheads overlap.shared }) := by
  obtain ⟨hget, hwithin⟩ := hbounds.getElem?_overlaps hnonterminal
  rw [checkedConflictsOf, hget, Option.bind_some]
  exact mapM_eq_some_filterMap fun overlap hoverlap =>
    hbounds.checkedConflict_eq (hwithin overlap hoverlap).1 (hwithin overlap hoverlap).2

theorem checkedConflicts_eq : analysis.checkedConflicts = some analysis.conflicts := by
  have hconflicts := mapM_eq_some_map fun nonterminal hmem =>
    hbounds.checkedConflictsOf_eq (List.mem_range.mp hmem)
  exact congrArg (Option.map List.flatten) hconflicts

theorem uses_of_symbols? {symbols : List Symbol} {numbered : List NumberedSymbol}
    (hsymbols : analysis.symbols? symbols = some numbered) :
    ∀ symbol ∈ numbered, analysis.numbering.Uses symbol := by
  induction symbols generalizing numbered with
  | nil =>
      cases hsymbols
      simp
  | cons symbol symbols ih =>
      rw [symbols?, List.mapM_cons] at hsymbols
      simp only [Option.bind_eq_bind, Option.bind_eq_some_iff] at hsymbols
      obtain ⟨first, hfirst, rest, hrest, hsymbols⟩ := hsymbols
      cases hsymbols
      rw [List.forall_mem_cons]
      exact ⟨hbounds.uses_of_symbol? hfirst, ih hrest⟩

theorem terminalSet_firstOf {symbols : List Symbol} {numbered : List NumberedSymbol}
    (hsymbols : analysis.symbols? symbols = some numbered) :
    analysis.grammar.TerminalSet
      (analysis.grammar.firstOf analysis.nullable.table analysis.first.table numbered) :=
  NumberedGrammar.terminalSet_firstOf _ hbounds.isTable_first (hbounds.uses_of_symbols? hsymbols)

theorem checkedFirstOf?_eq (symbols : List Symbol) :
    analysis.checkedFirstOf? symbols = some (analysis.firstOf? symbols) := by
  rw [checkedFirstOf?, firstOf?]
  cases hsymbols : analysis.symbols? symbols with
  | none => rfl
  | some numbered =>
      simp only [NumberedGrammar.checkedFirstOf_eq hbounds.size_nullable hbounds.isTable_first
        (hbounds.uses_of_symbols? hsymbols), Option.bind_eq_bind, Option.bind_some,
        checkedTerminalNames_eq (hbounds.terminalSet_firstOf hsymbols)]
      rfl

theorem checkedIsNullable?_eq (symbols : List Symbol) :
    analysis.checkedIsNullable? symbols = some (analysis.isNullable? symbols) := by
  rw [checkedIsNullable?, isNullable?]
  cases hsymbols : analysis.symbols? symbols with
  | none => rfl
  | some numbered =>
      exact congrArg (Option.map some) (NumberedGrammar.checkedCanVanish_eq
        hbounds.size_nullable (hbounds.uses_of_symbols? hsymbols))

/-- Numbers in range lead to names and entries in range. -/
theorem answers : analysis.Answers where
  mem_nonterminals hid :=
    List.mem_range.mpr (List.getElem?_eq_some_iff.mp (getElem?_of_idxOf? hid)).1
  mem_rules_of_alternative _ hrule :=
    List.mem_range.mpr (NumberedGrammar.lt_of_mem_alternatives hrule)
  mem_rules_of_ambiguous nonterminal hnonterminal rule hrule := by
    obtain ⟨overlap, hoverlap, rfl⟩ := List.mem_map.mp hrule
    have hwithin := (hbounds.getElem?_overlaps (List.mem_range.mp hnonterminal)).2
    exact List.mem_range.mpr (hwithin overlap hoverlap).1
  nonterminalName nonterminal hnonterminal :=
    ⟨_, List.getElem?_eq_getElem (List.mem_range.mp hnonterminal)⟩
  rule rule hrule := hbounds.getElem?_rules (List.mem_range.mp hrule)
  alternatives nonterminal hnonterminal :=
    NumberedGrammar.checkedAlternatives_eq (List.mem_range.mp hnonterminal)
  isNullable nonterminal hnonterminal := by
    have hlt : nonterminal < analysis.nullable.table.size :=
      hbounds.size_nullable ▸ List.mem_range.mp hnonterminal
    rw [isNullable, Array.getD_eq_getD_getElem?, Array.getElem?_eq_getElem hlt, Option.getD_some]
  firstNames nonterminal hnonterminal := by
    have hlt := List.mem_range.mp hnonterminal
    rw [checkedFirstNames,
      NumberedGrammar.getElem?_eq_setAt hbounds.isTable_first hlt analysis.grammar]
    exact checkedTerminalNames_eq
      (NumberedGrammar.allowed_setAt hbounds.isTable_first hlt analysis.grammar)
  followLookaheads nonterminal hnonterminal :=
    bind_checkedLookaheads_eq hbounds.isTable_follow (List.mem_range.mp hnonterminal)
  predictLookaheads rule hrule :=
    bind_checkedLookaheads_eq hbounds.predict (List.mem_range.mp hrule)
  predictAnyLookaheads nonterminal hnonterminal :=
    bind_checkedLookaheads_eq hbounds.predictAny (List.mem_range.mp hnonterminal)
  ambiguousRules nonterminal hnonterminal := by
    rw [checkedAmbiguousRules, (hbounds.getElem?_overlaps (List.mem_range.mp hnonterminal)).1]
    rfl
  conflicts := hbounds.checkedConflicts_eq
  firstOf? := hbounds.checkedFirstOf?_eq
  isNullable? := hbounds.checkedIsNullable?_eq
  terminalSet_firstOf hsymbols := hbounds.terminalSet_firstOf hsymbols

end InBounds

end TopDown.Analysis
