import TopDown.Proofs.FollowDerivation
import TopDown.Proofs.LL1
import TopDown.Proofs.Tables

/-!
# Exact tables

The tables of an analysis against derivations, in the names of the grammar. A nonterminal is
nullable when it derives the empty sequence, its first set holds the terminals that begin what it
derives, and its follow set holds what comes behind it.
-/

namespace TopDown

variable {grammar : Grammar} {numbered : NumberedGrammar} {analysis : Analysis}

namespace Grammar

/-- One symbol sequence comes from another by at least one replacement. -/
abbrev ProperlyDerives (grammar : Grammar) : List Symbol → List Symbol → Prop :=
  Relation.TransGen (Rewriting.Step grammar.Replaces)

/-- A terminal is known to a grammar when a production has it, a nonterminal when it has a rule. -/
def Knows (grammar : Grammar) : Symbol → Prop
  | .terminal name => ∃ rule ∈ grammar.rules, .terminal name ∈ rule.production
  | .nonterminal name => ∃ rule ∈ grammar.rules, rule.lhs = name

theorem properlyDerives_iff {form next : List Symbol} (hne : next ≠ form) :
    grammar.ProperlyDerives form next ↔ grammar.Derives form next := by
  rw [Derives, Rewriting.Derives, Relation.reflTransGen_iff_eq_or_transGen, or_iff_right hne]

/-- What some nonterminal derives side by side, the start symbol derives if it reaches them all. -/
theorem adjoins_iff_of_reachable (hreachable : ∀ rule ∈ grammar.rules, grammar.Reachable rule.lhs)
    {name next : String} :
    grammar.Adjoins grammar.rules name next ↔
      ∃ start before after, grammar.start? = some start ∧
        grammar.Derives [.nonterminal start]
          (before ++ .nonterminal name :: .terminal next :: after) := by
  constructor
  · rintro ⟨rule, hrule, before, after, hderives⟩
    obtain ⟨start, front, back, hstart, hreaches⟩ := hreachable rule hrule
    refine ⟨start, front ++ before, after ++ back, hstart, hreaches.trans ?_⟩
    have hinner := (hderives.append_right back).append_left front
    simp only [List.append_assoc, List.cons_append, List.nil_append] at hinner ⊢
    exact hinner
  · rintro ⟨start, before, after, hstart, hderives⟩
    obtain ⟨rule, hrule, rfl⟩ := exists_rule_of_start hstart
    exact ⟨rule, hrule, before, after, hderives⟩

end Grammar

namespace NumberedGrammar.Represents

variable (hrepresents : numbered.Represents grammar)
include hrepresents

theorem exists_decode_of_knows {symbol : Symbol} (hknows : grammar.Knows symbol) :
    ∃ origin, numbered.numbering.Uses origin ∧ numbered.numbering.decode origin = symbol := by
  cases symbol with
  | terminal name =>
      obtain ⟨rule, hrule, hname⟩ := hknows
      obtain ⟨origin, horigin, rfl⟩ := hrepresents.mem_rules.mp hrule
      obtain ⟨symbol, hsymbol, hdecode⟩ := List.mem_map.mp hname
      exact ⟨symbol, hrepresents.uses origin horigin symbol hsymbol, hdecode⟩
  | nonterminal name =>
      obtain ⟨rule, hrule, rfl⟩ := hknows
      obtain ⟨origin, horigin, rfl⟩ := hrepresents.mem_rules.mp hrule
      exact ⟨.nonterminal origin.lhs, hrepresents.lhs_lt origin horigin, rfl⟩

theorem exists_map_decode_of_knows {symbols : List Symbol}
    (hknows : ∀ symbol ∈ symbols, grammar.Knows symbol) :
    ∃ origins : List NumberedSymbol, (∀ origin ∈ origins, numbered.numbering.Uses origin) ∧
      origins.map numbered.numbering.decode = symbols := by
  induction symbols with
  | nil => exact ⟨[], by simp, rfl⟩
  | cons symbol symbols ih =>
      rw [List.forall_mem_cons] at hknows
      obtain ⟨origin, huses, rfl⟩ := hrepresents.exists_decode_of_knows hknows.1
      obtain ⟨origins, husesAll, rfl⟩ := ih hknows.2
      exact ⟨origin :: origins, List.forall_mem_cons.mpr ⟨huses, husesAll⟩, rfl⟩

end NumberedGrammar.Represents

theorem Numbering.lookahead_eq_terminal_iff {numbering : Numbering} {id : Nat} {name : String} :
    numbering.lookahead id = .terminal name ↔ numbering.terminals[id]? = some name := by
  unfold lookahead
  cases numbering.terminals[id]? <;> simp

namespace Analysis

theorem mem_terminalNames_iff {set : LookaheadSet} {name : String} :
    name ∈ analysis.terminalNames set ↔
      ∃ id, set.contains id = true ∧ analysis.numbering.lookahead id = .terminal name := by
  simp only [terminalNames, List.mem_filterMap, LookaheadSet.mem_toList,
    Numbering.lookahead_eq_terminal_iff]

section OfNumbered

variable (hrepresents : numbered.Represents grammar)
include hrepresents

theorem mem_terminalNames_firstOf {symbols : List NumberedSymbol}
    (huses : ∀ symbol ∈ symbols, numbered.numbering.Uses symbol) {name : String} :
    name ∈ (ofNumbered numbered).terminalNames
        (numbered.firstOf numbered.nullables numbered.firstSets symbols) ↔
      ∃ rest, grammar.Derives (symbols.map numbered.numbering.decode) (.terminal name :: rest) := by
  rw [mem_terminalNames_iff]
  constructor
  · rintro ⟨id, hcontains, hname⟩
    obtain ⟨name', rest, hname', hderives⟩ :=
      hrepresents.derives_terminal_of_contains huses hcontains
    obtain rfl := Lookahead.terminal.inj (hname.symm.trans hname')
    exact ⟨rest, hderives⟩
  · rintro ⟨rest, hderives⟩
    obtain ⟨id, hname, hcontains⟩ := hrepresents.contains_of_derives_terminal huses hderives
    exact ⟨id, hcontains, hname⟩

/-- The first set of a nonterminal is that of the sequence of the nonterminal alone. -/
theorem firstNames_ofNumbered (nonterminal : Nat) {name : String} :
    name ∈ (ofNumbered numbered).firstNames nonterminal ↔
      name ∈ (ofNumbered numbered).terminalNames
        (numbered.firstOf numbered.nullables numbered.firstSets [.nonterminal nonterminal]) := by
  have hempty (id : Nat) :
      ¬(numbered.firstOf numbered.nullables numbered.firstSets []).contains id = true := by
    simp [NumberedGrammar.firstOf, NumberedGrammar.emptySet, LookaheadSet.contains_empty]
  rw [firstNames, mem_terminalNames_iff, mem_terminalNames_iff]
  refine exists_congr fun id => and_congr_left fun _ => ?_
  rw [NumberedGrammar.contains_firstOf_nonterminal hrepresents.firstTable_within (by simp),
    or_iff_left fun hboth => hempty id hboth.2]
  rfl

theorem isNullable_ofNumbered {nonterminal : Nat}
    (hnonterminal : nonterminal < numbered.nonterminalCount) :
    (ofNumbered numbered).isNullable nonterminal = true ↔
      grammar.Derives [.nonterminal (numbered.numbering.nonterminalName nonterminal)] [] := by
  have huses : ∀ symbol ∈ [NumberedSymbol.nonterminal nonterminal],
      numbered.numbering.Uses symbol := List.forall_mem_singleton.mpr hnonterminal
  have hvanish := hrepresents.canVanish_iff_derives huses
  rw [NumberedGrammar.canVanish_nonterminal_cons, canVanish, List.all_nil, Bool.and_true]
    at hvanish
  exact hvanish

end OfNumbered

section OfGrammar

variable (hanalysis : ofGrammar grammar = .ok analysis) {name : String} {id : Nat}
include hanalysis

theorem isNullable_iff (hid : analysis.nonterminalId? name = some id) :
    analysis.isNullable id = true ↔ grammar.Derives [.nonterminal name] [] := by
  obtain ⟨numbered, hrepresents, rfl⟩ := exists_represents hanalysis
  obtain ⟨hlt, rfl⟩ := nonterminalName_of_nonterminalId? hid
  exact isNullable_ofNumbered hrepresents hlt

theorem mem_firstNames_iff (hid : analysis.nonterminalId? name = some id) {next : String} :
    next ∈ analysis.firstNames id ↔
      ∃ rest, grammar.Derives [.nonterminal name] (.terminal next :: rest) := by
  obtain ⟨numbered, hrepresents, rfl⟩ := exists_represents hanalysis
  obtain ⟨hlt, rfl⟩ := nonterminalName_of_nonterminalId? hid
  have huses : ∀ symbol ∈ [NumberedSymbol.nonterminal id], numbered.numbering.Uses symbol :=
    List.forall_mem_singleton.mpr hlt
  rw [firstNames_ofNumbered hrepresents, mem_terminalNames_firstOf hrepresents huses]
  rfl

theorem exists_isNullable? {symbols : List Symbol}
    (hknows : ∀ symbol ∈ symbols, grammar.Knows symbol) :
    ∃ flag, analysis.isNullable? symbols = some flag ∧
      (flag = true ↔ grammar.Derives symbols []) := by
  obtain ⟨numbered, hrepresents, rfl⟩ := exists_represents hanalysis
  obtain ⟨origins, huses, rfl⟩ := hrepresents.exists_map_decode_of_knows hknows
  refine ⟨canVanish numbered.nullables origins, ?_, hrepresents.canVanish_iff_derives huses⟩
  rw [isNullable?, symbols?_decode hrepresents huses]
  rfl

theorem exists_firstOf? {symbols : List Symbol}
    (hknows : ∀ symbol ∈ symbols, grammar.Knows symbol) :
    ∃ names, analysis.firstOf? symbols = some names ∧
      ∀ next, next ∈ names ↔ ∃ rest, grammar.Derives symbols (.terminal next :: rest) := by
  obtain ⟨numbered, hrepresents, rfl⟩ := exists_represents hanalysis
  obtain ⟨origins, huses, rfl⟩ := hrepresents.exists_map_decode_of_knows hknows
  refine ⟨_, ?_, fun next => mem_terminalNames_firstOf hrepresents huses⟩
  rw [firstOf?, symbols?_decode hrepresents huses]
  rfl

end OfGrammar

/-- A nonterminal is marked as nullable when it derives the empty sequence, and known symbols are
said to vanish when they derive it. -/
theorem isNullable_exact (hanalysis : ofGrammar grammar = .ok analysis) :
    (∀ rule ∈ grammar.rules, ∃ id, analysis.nonterminalId? rule.lhs = some id ∧
        (analysis.isNullable id = true ↔ grammar.Derives [.nonterminal rule.lhs] [])) ∧
      ∀ symbols, (∀ symbol ∈ symbols, grammar.Knows symbol) →
        ∃ flag, analysis.isNullable? symbols = some flag ∧
          (flag = true ↔ grammar.Derives symbols []) := by
  refine ⟨fun rule hrule => ?_, fun symbols hknows => exists_isNullable? hanalysis hknows⟩
  obtain ⟨id, hid⟩ := (exists_nonterminalId?_iff hanalysis).mpr ⟨rule, hrule, rfl⟩
  exact ⟨id, hid, isNullable_iff hanalysis hid⟩

theorem pairs_isNullable_exact :
    Analysis.pairs.isNullable 0 = true ∧
      Grammar.pairs.Derives [.nonterminal "s"] [] ∧
      Grammar.pairs.Derives [.nonterminal "s", .nonterminal "s"] [] ∧
      Analysis.pairs.isNullable? [.nonterminal "s", .terminal "b"] = some false ∧
      ¬Grammar.pairs.Derives [.nonterminal "s", .terminal "b"] [] := by
  have hnullable : Analysis.pairs.isNullable 0 = true := by decide +kernel
  have hvanishes : Analysis.pairs.isNullable? [.nonterminal "s", .nonterminal "s"] = some true := by
    decide +kernel
  have hremains : Analysis.pairs.isNullable? [.nonterminal "s", .terminal "b"] = some false := by
    decide +kernel
  obtain ⟨hrules, hsymbols⟩ := isNullable_exact ofGrammar_pairs
  obtain ⟨id, hid, hexact⟩ := hrules ⟨"s", []⟩ (by decide)
  obtain rfl : 0 = id := Option.some.inj (hid ▸ by decide +kernel)
  obtain ⟨flag, hflag, hderives⟩ := hsymbols [.nonterminal "s", .nonterminal "s"] (by
    simp [Grammar.Knows, Grammar.pairs])
  obtain ⟨flag', hflag', hderives'⟩ := hsymbols [.nonterminal "s", .terminal "b"] (by
    simp [Grammar.Knows, Grammar.pairs])
  obtain rfl := Option.some.inj (hvanishes.symm.trans hflag)
  obtain rfl := Option.some.inj (hremains.symm.trans hflag')
  exact ⟨hnullable, hexact.mp hnullable, hderives.mp rfl, hremains, by simpa using hderives'⟩

/-- The first set of a nonterminal holds the terminals that begin something it derives in one step
or more. The first set of known symbols holds the terminals that begin something they derive. -/
theorem firstNames_exact (hanalysis : ofGrammar grammar = .ok analysis) :
    (∀ rule ∈ grammar.rules, ∃ id, analysis.nonterminalId? rule.lhs = some id ∧
        ∀ next, next ∈ analysis.firstNames id ↔
          ∃ rest, grammar.ProperlyDerives [.nonterminal rule.lhs] (.terminal next :: rest)) ∧
      ∀ symbols, (∀ symbol ∈ symbols, grammar.Knows symbol) →
        ∃ names, analysis.firstOf? symbols = some names ∧
          ∀ next, next ∈ names ↔ ∃ rest, grammar.Derives symbols (.terminal next :: rest) := by
  refine ⟨fun rule hrule => ?_, fun symbols hknows => exists_firstOf? hanalysis hknows⟩
  obtain ⟨id, hid⟩ := (exists_nonterminalId?_iff hanalysis).mpr ⟨rule, hrule, rfl⟩
  refine ⟨id, hid, fun next => ?_⟩
  rw [mem_firstNames_iff hanalysis hid]
  exact exists_congr fun rest => (Grammar.properlyDerives_iff (by simp)).symm

theorem pairs_firstNames_exact :
    Analysis.pairs.firstNames 0 = ["a"] ∧
      (∃ rest, Grammar.pairs.ProperlyDerives [.nonterminal "s"] (.terminal "a" :: rest)) ∧
      Analysis.pairs.firstOf? [.nonterminal "s", .terminal "b"] = some ["a", "b"] ∧
      ∃ rest, Grammar.pairs.Derives [.nonterminal "s", .terminal "b"] (.terminal "b" :: rest) := by
  have hnames : Analysis.pairs.firstNames 0 = ["a"] := by decide +kernel
  have hfirst : Analysis.pairs.firstOf? [.nonterminal "s", .terminal "b"] = some ["a", "b"] := by
    decide +kernel
  obtain ⟨hrules, hsymbols⟩ := firstNames_exact ofGrammar_pairs
  obtain ⟨id, hid, hexact⟩ := hrules ⟨"s", []⟩ (by decide)
  obtain rfl : 0 = id := Option.some.inj (hid ▸ by decide +kernel)
  have hknows : ∀ symbol ∈ [Symbol.nonterminal "s", .terminal "b"], Grammar.pairs.Knows symbol := by
    simp [Grammar.Knows, Grammar.pairs]
  obtain ⟨names, hsome, hspelled⟩ := hsymbols _ hknows
  obtain rfl := Option.some.inj (hfirst.symm.trans hsome)
  exact ⟨hnames, (hexact "a").mp (by simp [hnames]), hfirst, (hspelled "b").mp (by simp)⟩

/-- A terminal is in the follow set of a nonterminal when some nonterminal derives the two side by
side, the end of the input when the start symbol derives something that ends in the nonterminal.
Where the start symbol reaches all nonterminals, the two side by side are derived from it. -/
theorem followLookaheads_exact (hanalysis : ofGrammar grammar = .ok analysis) {name : String}
    (hname : ∃ rule ∈ grammar.rules, rule.lhs = name) :
    ∃ id, analysis.nonterminalId? name = some id ∧
      (∀ next, .terminal next ∈ analysis.followLookaheads id ↔
        ∃ rule ∈ grammar.rules, ∃ before after, grammar.Derives [.nonterminal rule.lhs]
          (before ++ .nonterminal name :: .terminal next :: after)) ∧
      (.endOfInput ∈ analysis.followLookaheads id ↔
        ∃ start before, grammar.start? = some start ∧
          grammar.Derives [.nonterminal start] (before ++ [.nonterminal name])) ∧
      ((∀ rule ∈ grammar.rules, grammar.Reachable rule.lhs) →
        ∀ next, .terminal next ∈ analysis.followLookaheads id ↔
          ∃ start before after, grammar.start? = some start ∧
            grammar.Derives [.nonterminal start]
              (before ++ .nonterminal name :: .terminal next :: after)) := by
  obtain ⟨id, hid⟩ := (exists_nonterminalId?_iff hanalysis).mpr hname
  refine ⟨id, hid, fun next => ?_, ?_, fun hreachable next => ?_⟩
  · rw [mem_followLookaheads_iff hanalysis hid]
    exact Grammar.follows_terminal_iff
  · rw [mem_followLookaheads_iff hanalysis hid]
    exact Grammar.follows_endOfInput_iff
  · rw [mem_followLookaheads_iff hanalysis hid, Grammar.follows_terminal_iff]
    exact Grammar.adjoins_iff_of_reachable hreachable

theorem pairs_followLookaheads_exact :
    Analysis.pairs.followLookaheads 0 = [.terminal "b", .endOfInput] ∧
      (∃ start before after, Grammar.pairs.start? = some start ∧
        Grammar.pairs.Derives [.nonterminal start]
          (before ++ .nonterminal "s" :: .terminal "b" :: after)) ∧
      ¬∃ start before after, Grammar.pairs.start? = some start ∧
        Grammar.pairs.Derives [.nonterminal start]
          (before ++ .nonterminal "s" :: .terminal "a" :: after) := by
  have hfollow : Analysis.pairs.followLookaheads 0 = [.terminal "b", .endOfInput] := by
    decide +kernel
  have hreachable : ∀ rule ∈ Grammar.pairs.rules, Grammar.pairs.Reachable rule.lhs := by
    have hlhs : ∀ rule ∈ Grammar.pairs.rules, rule.lhs = "s" := by decide
    intro rule hrule
    rw [hlhs rule hrule]
    exact ⟨"s", [], [], rfl, .refl _⟩
  obtain ⟨id, hid, _, _, hexact⟩ :=
    followLookaheads_exact ofGrammar_pairs ⟨⟨"s", []⟩, by decide, rfl⟩
  obtain rfl : 0 = id := Option.some.inj (hid ▸ by decide +kernel)
  refine ⟨hfollow, (hexact hreachable "b").mp (by simp [hfollow]), fun hderives => ?_⟩
  have hmem := (hexact hreachable "a").mpr hderives
  simp [hfollow] at hmem

end Analysis

end TopDown
