import TopDown.Proofs.Acceptance
import TopDown.Proofs.Conflicts
import TopDown.Proofs.Exactness

/-!
# The numbers of a grammar

A grammar is refused for the first nonterminal without a rule, or its names, symbols and rules get
numbers that stand for them exactly. The main statement says when each happens, and what the numbers
are: names are numbered in the order in which they appear first.
-/

namespace TopDown

/-- The names of a list, in the order in which they appear there first. -/
structure FirstAppearances (names appearances : List String) : Prop where
  mem_iff : ∀ {name}, name ∈ names ↔ name ∈ appearances
  /-- Each name is listed once, because no name appears before itself. -/
  pairwise : names.Pairwise fun name other => appearances.idxOf name < appearances.idxOf other

theorem firstAppearances_eraseDups (names : List String) :
    FirstAppearances names.eraseDups names := by
  induction names using List.reverseRecOn with
  | nil => exact ⟨Iff.rfl, List.Pairwise.nil⟩
  | append_singleton names last ih =>
      have hkept {name : String} (hname : name ∈ names) :
          (names ++ [last]).idxOf name = names.idxOf name := List.idxOf_append_of_mem hname
      have hpairwise : names.eraseDups.Pairwise fun name other =>
          (names ++ [last]).idxOf name < (names ++ [last]).idxOf other := by
        refine ih.pairwise.imp_of_mem fun hname hother hlt => ?_
        rwa [hkept (ih.mem_iff.mp hname), hkept (ih.mem_iff.mp hother)]
      refine ⟨List.mem_eraseDups, ?_⟩
      rw [eraseDups_concat]
      split
      · exact hpairwise
      · rename_i hlast
        rw [List.pairwise_append]
        refine ⟨hpairwise, List.pairwise_singleton .., fun name hname other hother => ?_⟩
        obtain rfl := List.mem_singleton.mp hother
        rw [hkept (ih.mem_iff.mp hname), List.idxOf_append_of_notMem hlast]
        exact Nat.lt_add_right _ (List.idxOf_lt_length_of_mem (ih.mem_iff.mp hname))

/-! ### The first defect

Rules are translated one after another, symbol by symbol, and the first symbol without a number
decides. Only a nonterminal can be without one. -/

/-- What follows a conversion does not add to its failures. -/
theorem map_eq_error_iff {α β ε : Type} {converted : Except ε α} {build : α → β} {error : ε} :
    (do let result ← converted; return build result) = Except.error error ↔
      converted = .error error := by
  cases converted with
  | error other =>
      constructor <;>
      · rintro ⟨⟩
        rfl
  | ok result => exact iff_of_false nofun nofun

/-- A conversion of a list fails at the first element that cannot be converted. -/
theorem mapM_eq_error_iff {α β ε : Type} {convert : α → Except ε β} {values : List α} {error : ε} :
    values.mapM convert = .error error ↔
      ∃ before value after, values = before ++ value :: after ∧
        (∀ earlier ∈ before, ∃ result, convert earlier = .ok result) ∧
        convert value = .error error := by
  induction values with
  | nil =>
      rw [List.mapM_nil]
      refine iff_of_false nofun ?_
      rintro ⟨before, value, after, hsplit, _⟩
      simp at hsplit
  | cons value values ih =>
      rw [List.mapM_cons]
      cases hvalue : convert value with
      | error first =>
          constructor
          · intro hfirst
            cases hfirst
            exact ⟨[], value, values, rfl, by simp, hvalue⟩
          · rintro ⟨before, other, after, hsplit, hbefore, hother⟩
            cases before with
            | nil =>
                cases hsplit
                rw [hvalue] at hother
                exact hother ▸ rfl
            | cons earlier before =>
                cases hsplit
                obtain ⟨result, hresult⟩ := hbefore value List.mem_cons_self
                rw [hvalue] at hresult
                cases hresult
      | ok result =>
          -- the first failure of the rest is the first failure of the whole
          refine (map_eq_error_iff.trans ih).trans ?_
          constructor
          · rintro ⟨before, other, after, rfl, hbefore, hother⟩
            exact ⟨value :: before, other, after, rfl,
              List.forall_mem_cons.mpr ⟨⟨result, hvalue⟩, hbefore⟩, hother⟩
          · rintro ⟨before, other, after, hsplit, hbefore, hother⟩
            cases before with
            | nil =>
                cases hsplit
                rw [hvalue] at hother
                cases hother
            | cons earlier before =>
                cases hsplit
                exact ⟨before, other, after, rfl, (List.forall_mem_cons.mp hbefore).2, hother⟩

namespace Numbering

variable {numbering : Numbering} {rule : Rule} {symbol : Symbol} {defect : GrammarDefect}

theorem rule_eq_error_iff :
    numbering.rule rule = .error defect ↔
      rule.production.mapM (numbering.symbolOf rule) = .error defect :=
  map_eq_error_iff

theorem symbolOf_eq_error_iff :
    numbering.symbolOf rule symbol = .error defect ↔
      numbering.symbol? symbol = none ∧ defect = .undefinedNonterminal symbol.name rule := by
  unfold symbolOf
  cases numbering.symbol? symbol <;> simp [eq_comm]

end Numbering

namespace Grammar

variable {grammar : Grammar} {rule : Rule} {name : String} {defect : GrammarDefect}

/-- Every nonterminal of the sequence has a rule. -/
def Defines (grammar : Grammar) (symbols : List Symbol) : Prop :=
  ∀ name, .nonterminal name ∈ symbols → ∃ rule ∈ grammar.rules, rule.lhs = name

/-- The rule is the first that uses a nonterminal without a rule, and the name is the leftmost of
them. -/
inductive FirstUndefined (grammar : Grammar) (name : String) (rule : Rule) : Prop
  | intro {before after : List Rule} {front rest : List Symbol}
      (hrules : grammar.rules = before ++ rule :: after)
      (hbefore : ∀ earlier ∈ before, grammar.Defines earlier.production)
      (hproduction : rule.production = front ++ .nonterminal name :: rest)
      (hfront : grammar.Defines front) (hname : ¬∃ other ∈ grammar.rules, other.lhs = name)

theorem exists_symbol?_iff_knows {symbol : Symbol} :
    (∃ id, grammar.numbering.symbol? symbol = some id) ↔ grammar.Knows symbol := by
  rw [← Option.isSome_iff_exists]
  cases symbol with
  | terminal name =>
      rw [Numbering.symbol?, Option.isSome_map, Numbering.terminalId?, List.isSome_idxOf?,
        numbering, List.mem_eraseDups, List.mem_flatMap]
      refine exists_congr fun rule => and_congr_right fun _ => ?_
      rw [List.mem_filterMap]
      constructor
      · rintro ⟨symbol, hsymbol, hname⟩
        cases symbol with
        | terminal other => exact Option.some.inj hname ▸ hsymbol
        | nonterminal other => cases hname
      · exact fun hsymbol => ⟨.terminal name, hsymbol, rfl⟩
  | nonterminal name =>
      rw [Numbering.symbol?, Option.isSome_map, Numbering.nonterminalId?, List.isSome_idxOf?]
      exact mem_nonterminals_numbering

/-- The nonterminals of a production decide whether all of it has numbers. -/
theorem exists_symbol?_iff (hrule : rule ∈ grammar.rules) {symbols : List Symbol}
    (hsymbols : symbols ⊆ rule.production) :
    (∀ symbol ∈ symbols, ∃ id, grammar.numbering.symbol? symbol = some id) ↔
      grammar.Defines symbols := by
  constructor
  · exact fun hexists name hname => exists_symbol?_iff_knows.mp (hexists _ hname)
  · intro hdefines symbol hsymbol
    rw [exists_symbol?_iff_knows]
    cases symbol with
    | terminal name => exact ⟨rule, hrule, hsymbols hsymbol⟩
    | nonterminal name => exact hdefines name hsymbol

theorem symbol?_eq_none_iff (hrule : rule ∈ grammar.rules) {symbol : Symbol}
    (hsymbol : symbol ∈ rule.production) :
    grammar.numbering.symbol? symbol = none ↔
      ∃ name, symbol = .nonterminal name ∧ ¬∃ other ∈ grammar.rules, other.lhs = name := by
  rw [← Option.not_isSome_iff_eq_none, Option.isSome_iff_exists, exists_symbol?_iff_knows]
  cases symbol with
  | terminal name =>
      refine iff_of_false (not_not_intro ⟨rule, hrule, hsymbol⟩) ?_
      rintro ⟨other, hother, _⟩
      cases hother
  | nonterminal name => simp [Knows]

theorem exists_rule_iff (hrule : rule ∈ grammar.rules) :
    (∃ numbered, grammar.numbering.rule rule = .ok numbered) ↔ grammar.Defines rule.production := by
  rw [Numbering.exists_rule_iff, exists_mapM_eq_ok_iff,
    ← exists_symbol?_iff hrule (List.Subset.refl _)]
  exact forall₂_congr fun _ _ => Numbering.exists_symbolOf_iff

theorem rule_eq_error_iff (hrule : rule ∈ grammar.rules) :
    grammar.numbering.rule rule = .error defect ↔
      ∃ front name rest, rule.production = front ++ .nonterminal name :: rest ∧
        grammar.Defines front ∧ (¬∃ other ∈ grammar.rules, other.lhs = name) ∧
        defect = .undefinedNonterminal name rule := by
  rw [Numbering.rule_eq_error_iff, mapM_eq_error_iff]
  simp only [Numbering.exists_symbolOf_iff, Numbering.symbolOf_eq_error_iff]
  constructor
  · rintro ⟨front, symbol, rest, hsplit, hfront, hnone, rfl⟩
    obtain ⟨name, rfl, hname⟩ := (symbol?_eq_none_iff hrule (by simp [hsplit])).mp hnone
    exact ⟨front, name, rest, hsplit, (exists_symbol?_iff hrule (by simp [hsplit])).mp hfront,
      hname, rfl⟩
  · rintro ⟨front, name, rest, hsplit, hdefines, hname, rfl⟩
    exact ⟨front, .nonterminal name, rest, hsplit,
      (exists_symbol?_iff hrule (by simp [hsplit])).mpr hdefines,
      (symbol?_eq_none_iff hrule (by simp [hsplit])).mpr ⟨name, rfl, hname⟩, rfl⟩

theorem number_eq_error_iff :
    grammar.number = .error defect ↔
      (grammar.rules = [] ∧ defect = .noRules) ∨
        ∃ name rule, grammar.FirstUndefined name rule ∧
          defect = .undefinedNonterminal name rule := by
  have hsplit : grammar.rules.mapM grammar.numbering.rule = .error defect ↔
      ∃ name rule, grammar.FirstUndefined name rule ∧
        defect = .undefinedNonterminal name rule := by
    rw [mapM_eq_error_iff]
    constructor
    · rintro ⟨before, rule, after, hrules, hbefore, hdefect⟩
      rw [rule_eq_error_iff (by simp [hrules])] at hdefect
      obtain ⟨front, name, rest, hproduction, hfront, hname, rfl⟩ := hdefect
      refine ⟨name, rule, .intro hrules (fun earlier hearlier => ?_) hproduction hfront hname, rfl⟩
      exact (exists_rule_iff (by simp [hrules, hearlier])).mp (hbefore earlier hearlier)
    · rintro ⟨name, rule, ⟨hrules, hbefore, hproduction, hfront, hname⟩, rfl⟩
      refine ⟨_, rule, _, hrules, fun earlier hearlier => ?_,
        (rule_eq_error_iff (by simp [hrules])).mpr ⟨_, name, _, hproduction, hfront, hname, rfl⟩⟩
      exact (exists_rule_iff (by simp [hrules, hearlier])).mpr (hbefore earlier hearlier)
  rw [number]
  split
  · rename_i hempty
    rw [List.isEmpty_iff] at hempty
    constructor
    · rintro ⟨⟩
      exact .inl ⟨hempty, rfl⟩
    · rintro (⟨_, rfl⟩ | ⟨name, rule, ⟨hrules, _, _, _, _⟩, rfl⟩)
      · rfl
      · simp [hempty] at hrules
  · rename_i hrules
    rw [List.isEmpty_iff] at hrules
    rw [map_eq_error_iff, hsplit, or_iff_right fun hboth => hrules hboth.1]

theorem numbering_of_number {numbered : NumberedGrammar} (hnumber : grammar.number = .ok numbered) :
    numbered.numbering = grammar.numbering := by
  unfold number at hnumber
  split at hnumber
  · cases hnumber
  · cases hrules : grammar.rules.mapM grammar.numbering.rule with
    | error defect =>
        rw [hrules] at hnumber
        cases hnumber
    | ok rules =>
        rw [hrules] at hnumber
        cases hnumber
        rfl

end Grammar

namespace Analysis

variable {grammar : Grammar} {analysis : Analysis} {defect : GrammarDefect}

/-- The numbers of an analysis stand for the names, the symbols and the rules of the grammar. -/
structure Interns (analysis : Analysis) (grammar : Grammar) : Prop where
  nonterminals : FirstAppearances analysis.numbering.nonterminals (grammar.rules.map Rule.lhs)
  terminals : FirstAppearances analysis.terminals
    (grammar.rules.flatMap fun rule => rule.production.filterMap Symbol.terminal?)
  nonterminals_eq : analysis.nonterminals = List.range analysis.numbering.nonterminals.length
  nonterminalId?_iff : ∀ {name id},
    analysis.nonterminalId? name = some id ↔ analysis.nonterminalName? id = some name
  start : analysis.nonterminalName? Numbering.start = grammar.start?
  /-- Behind the terminals comes the end of the input. -/
  lookaheadId?_iff : ∀ {seen id}, analysis.numbering.lookaheadId? seen = some id ↔
    (analysis.terminals.map Lookahead.terminal ++ [.endOfInput])[id]? = some seen
  symbol?_iff : ∀ {symbol id}, analysis.numbering.symbol? symbol = some id ↔
    analysis.numbering.Uses id ∧ analysis.numbering.decode id = symbol
  exists_symbol?_iff : ∀ {symbol}, (∃ id, analysis.numbering.symbol? symbol = some id) ↔
    grammar.Knows symbol
  rules_eq : analysis.rules = List.range grammar.rules.length
  rule?_eq : ∀ {index}, analysis.rule? index = grammar.rules[index]?
  map_decodeRule : analysis.grammar.rules.map analysis.numbering.decodeRule = grammar.rules
  uses : ∀ rule ∈ analysis.grammar.rules, rule.lhs ∈ analysis.nonterminals ∧
    ∀ symbol ∈ rule.production, analysis.numbering.Uses symbol
  alternatives_pairwise : ∀ {id}, (analysis.alternatives id).Pairwise (· < ·)
  mem_alternatives_iff : ∀ {name id index}, analysis.nonterminalId? name = some id →
    (index ∈ analysis.alternatives id ↔ grammar.IsAlternative name index)
  existsUnique_alternatives : ∀ {index}, index ∈ analysis.rules →
    ∃! id, id ∈ analysis.nonterminals ∧ index ∈ analysis.alternatives id
  /-- The first pass has noted the same names and rules. -/
  registered : (Register.ofGrammar grammar).nonterminals = analysis.nonterminals.map fun id =>
    (analysis.numbering.nonterminalName id, analysis.alternatives id)

theorem ofGrammar_eq_error_iff :
    ofGrammar grammar = .error defect ↔ grammar.number = .error defect := by
  unfold ofGrammar
  cases grammar.number with
  | error other =>
      constructor <;>
      · rintro ⟨⟩
        rfl
  | ok numbered => exact iff_of_false nofun nofun

theorem ofGrammar_eq_noRules_iff : ofGrammar grammar = .error .noRules ↔ grammar.rules = [] := by
  rw [ofGrammar_eq_error_iff, Grammar.number_eq_error_iff, and_iff_left rfl,
    or_iff_left (by rintro ⟨name, rule, _, ⟨⟩⟩)]

theorem ofGrammar_eq_undefinedNonterminal_iff {name : String} {rule : Rule} :
    ofGrammar grammar = .error (.undefinedNonterminal name rule) ↔
      grammar.FirstUndefined name rule := by
  rw [ofGrammar_eq_error_iff, Grammar.number_eq_error_iff, or_iff_right (by rintro ⟨_, ⟨⟩⟩)]
  constructor
  · rintro ⟨name, rule, hfirst, ⟨⟩⟩
    exact hfirst
  · exact fun hfirst => ⟨name, rule, hfirst, rfl⟩

theorem exists_undefinedNonterminal_iff :
    (∃ name rule, ofGrammar grammar = .error (.undefinedNonterminal name rule)) ↔
      ∃ rule ∈ grammar.rules, ∃ name, .nonterminal name ∈ rule.production ∧
        ¬∃ other ∈ grammar.rules, other.lhs = name := by
  constructor
  · rintro ⟨name, rule, hdefect⟩
    obtain ⟨hrules, _, hproduction, _, hname⟩ :=
      ofGrammar_eq_undefinedNonterminal_iff.mp hdefect
    exact ⟨rule, by simp [hrules], name, by simp [hproduction], hname⟩
  · rintro ⟨rule, hrule, name, hmem, hname⟩
    cases hresult : ofGrammar grammar with
    | ok analysis =>
        obtain ⟨_, hclosed⟩ := exists_ofGrammar_iff.mp ⟨analysis, hresult⟩
        exact absurd (hclosed rule hrule name hmem) hname
    | error defect =>
        cases defect with
        | noRules =>
            rw [ofGrammar_eq_noRules_iff] at hresult
            simp [hresult] at hrule
        | undefinedNonterminal name rule => exact ⟨name, rule, rfl⟩

theorem numbering_eq (hanalysis : ofGrammar grammar = .ok analysis) :
    analysis.numbering = grammar.numbering := by
  unfold ofGrammar at hanalysis
  cases hnumber : grammar.number with
  | error defect =>
      rw [hnumber] at hanalysis
      cases hanalysis
  | ok numbered =>
      rw [hnumber] at hanalysis
      cases hanalysis
      exact Grammar.numbering_of_number hnumber

section Represents

variable {numbered : NumberedGrammar} (hrepresents : numbered.Represents grammar)
include hrepresents

theorem lookaheadId?_eq_some_iff_getElem? {seen : Lookahead} {id : Nat} :
    numbered.numbering.lookaheadId? seen = some id ↔
      (numbered.numbering.terminals.map Lookahead.terminal ++ [.endOfInput])[id]? = some seen := by
  rw [Numbering.lookaheadId?_eq_some_iff hrepresents.terminals_nodup]
  have hend : numbered.numbering.lookahead numbered.numbering.terminals.length = .endOfInput :=
    Numbering.lookahead_endOfInput
  rcases Nat.lt_trichotomy id numbered.numbering.terminals.length with hid | rfl | hid
  · have hname := List.getElem?_eq_getElem hid
    rw [Numbering.lookahead_terminal hname, List.getElem?_append_left (by simpa using hid),
      List.getElem?_map, hname]
    simp [Numbering.lookaheadCount, Nat.lt_succ_of_lt hid]
  · rw [hend]
    simp [Numbering.lookaheadCount]
  · rw [List.getElem?_eq_none (by simpa using Nat.succ_le_of_lt hid)]
    exact iff_of_false (fun hboth => Nat.not_lt.mpr hid hboth.1) (by simp)

theorem symbol?_eq_some_iff {symbol : Symbol} {id : NumberedSymbol} :
    numbered.numbering.symbol? symbol = some id ↔
      numbered.numbering.Uses id ∧ numbered.numbering.decode id = symbol := by
  constructor
  · exact fun hid => (Numbering.decode_of_symbol? hid).symm
  · rintro ⟨huses, rfl⟩
    exact symbol?_decode hrepresents huses

theorem existsUnique_alternatives {index : Nat} (hindex : index < grammar.rules.length) :
    ∃! id, id ∈ (ofNumbered numbered).nonterminals ∧ index ∈ numbered.alternatives id := by
  obtain ⟨origin, horigin, _⟩ :=
    hrepresents.exists_getElem?_rules (List.getElem?_eq_getElem hindex)
  have hlt := hrepresents.lhs_lt origin (List.mem_of_getElem? horigin)
  refine ⟨origin.lhs, ⟨List.mem_range.mpr hlt,
    NumberedGrammar.mem_alternatives.mpr ⟨origin, horigin, rfl⟩⟩, ?_⟩
  rintro id ⟨_, hid⟩
  obtain ⟨rule, hrule, rfl⟩ := NumberedGrammar.mem_alternatives.mp hid
  rw [horigin, Option.some.injEq] at hrule
  rw [hrule]

theorem alternatives_eq {id : Nat} (hid : id < numbered.nonterminalCount) :
    numbered.alternatives id = grammar.rulesOf (numbered.numbering.nonterminalName id) := by
  rw [NumberedGrammar.alternatives, Grammar.rulesOf, ← hrepresents.map_decodeRule,
    List.zipIdx_map, List.filterMap_map]
  refine List.filterMap_congr fun entry hentry => ?_
  have hlhs := hrepresents.lhs_lt entry.1 (List.fst_mem_of_mem_zipIdx hentry)
  have hname : entry.1.lhs = id ↔ numbered.numbering.nonterminalName entry.1.lhs =
      numbered.numbering.nonterminalName id :=
    ⟨congrArg _, hrepresents.nonterminalName_inj hlhs hid⟩
  exact if_congr hname rfl rfl

omit hrepresents in
theorem map_nonterminalName : (ofNumbered numbered).nonterminals.map
    numbered.numbering.nonterminalName = numbered.numbering.nonterminals := by
  change (List.range numbered.nonterminalCount).map _ = _
  refine List.ext_getElem (by simp [NumberedGrammar.nonterminalCount]) fun id _ hid => ?_
  rw [List.getElem_map, List.getElem_range]
  exact Numbering.nonterminalName_eq_of_getElem? (List.getElem?_eq_getElem hid)

theorem registered (hnumbering : numbered.numbering = grammar.numbering) :
    (Register.ofGrammar grammar).nonterminals = (ofNumbered numbered).nonterminals.map fun id =>
      (numbered.numbering.nonterminalName id, numbered.alternatives id) := by
  have halternatives : ∀ id ∈ (ofNumbered numbered).nonterminals,
      (numbered.numbering.nonterminalName id, numbered.alternatives id) =
        (numbered.numbering.nonterminalName id,
          grammar.rulesOf (numbered.numbering.nonterminalName id)) := fun id hid => by
    rw [alternatives_eq hrepresents (List.mem_range.mp hid)]
  rw [Register.ofGrammar_eq, Register.complete, List.map_congr_left halternatives, ← hnumbering,
    ← map_nonterminalName, List.map_map]
  rfl

end Represents

theorem interns_of_ofGrammar (hanalysis : ofGrammar grammar = .ok analysis) :
    analysis.Interns grammar := by
  have hnumbering := numbering_eq hanalysis
  obtain ⟨numbered, hrepresents, rfl⟩ := exists_represents hanalysis
  have hlength : numbered.rules.length = grammar.rules.length := by
    rw [← hrepresents.map_decodeRule, List.length_map]
  exact
    { nonterminals := by
        rw [hnumbering]
        exact firstAppearances_eraseDups _
      terminals := by
        rw [terminals, hnumbering]
        exact firstAppearances_eraseDups _
      nonterminals_eq := rfl
      nonterminalId?_iff := ⟨getElem?_of_idxOf?, idxOf?_of_getElem? hrepresents.nonterminals_nodup⟩
      start := hrepresents.start_eq
      lookaheadId?_iff := lookaheadId?_eq_some_iff_getElem? hrepresents
      symbol?_iff := symbol?_eq_some_iff hrepresents
      exists_symbol?_iff := by
        rw [hnumbering]
        exact Grammar.exists_symbol?_iff_knows
      rules_eq := congrArg List.range hlength
      rule?_eq := rule?_eq hanalysis _
      map_decodeRule := hrepresents.map_decodeRule
      uses := fun rule hrule =>
        ⟨List.mem_range.mpr (hrepresents.lhs_lt rule hrule), hrepresents.uses rule hrule⟩
      alternatives_pairwise := NumberedGrammar.pairwise_alternatives numbered _
      mem_alternatives_iff := by
        intro name id index hid
        obtain ⟨hlt, rfl⟩ := nonterminalName_of_nonterminalId? hid
        exact hrepresents.mem_alternatives_iff hlt
      existsUnique_alternatives := fun hindex =>
        existsUnique_alternatives hrepresents (hlength ▸ List.mem_range.mp hindex)
      registered := registered hrepresents hnumbering }

/-- A grammar without rules is refused, and so is one that uses a nonterminal without a rule; the
first such use is reported. In every other grammar all names, symbols and rules get numbers. -/
theorem ofGrammar_exact (grammar : Grammar) :
    ofGrammar grammar = ofNumbered <$> grammar.numberInPasses ∧
      (ofGrammar grammar = .error .noRules ↔ grammar.rules = []) ∧
      (∀ name rule, ofGrammar grammar = .error (.undefinedNonterminal name rule) ↔
        grammar.FirstUndefined name rule) ∧
      ((∃ name rule, ofGrammar grammar = .error (.undefinedNonterminal name rule)) ↔
        ∃ rule ∈ grammar.rules, ∃ name, .nonterminal name ∈ rule.production ∧
          ¬∃ other ∈ grammar.rules, other.lhs = name) ∧
      (grammar.rules ≠ [] → grammar.IsClosed →
        ∃ analysis, ofGrammar grammar = .ok analysis ∧ analysis.Interns grammar) := by
  refine ⟨?_, ofGrammar_eq_noRules_iff, fun _ _ => ofGrammar_eq_undefinedNonterminal_iff,
    exists_undefinedNonterminal_iff, fun hrules hclosed => ?_⟩
  · rw [Grammar.numberInPasses_eq]
    rfl
  · obtain ⟨analysis, hanalysis⟩ := exists_ofGrammar_iff.mpr ⟨hrules, hclosed⟩
    exact ⟨analysis, hanalysis, interns_of_ofGrammar hanalysis⟩

end Analysis

/-- Two names that are used both for terminals and for nonterminals. The alternatives of the first
are apart. -/
def Grammar.shared : Grammar :=
  { rules :=
      [{ lhs := "a", production := [.terminal "b", .nonterminal "b"] },
        { lhs := "b", production := [.terminal "a"] },
        { lhs := "a", production := [] }] }

def Analysis.shared : Analysis :=
  .ofNumbered
    { grammar := .shared
      numbering := { terminals := ["b", "a"], nonterminals := ["a", "b"] }
      rules :=
        [{ lhs := 0, production := [.terminal 0, .nonterminal 1] },
          { lhs := 1, production := [.terminal 1] },
          { lhs := 0, production := [] }] }

theorem Analysis.ofGrammar_shared : Analysis.ofGrammar .shared = .ok .shared := by
  rfl

theorem Grammar.shared_isClosed : Grammar.shared.IsClosed := by
  have hrules : ∀ rule ∈ Grammar.shared.rules, ∀ symbol ∈ rule.production,
      symbol = .terminal "b" ∨ symbol = .nonterminal "b" ∨ symbol = .terminal "a" := by decide
  intro rule hrule name hname
  rcases hrules rule hrule _ hname with hname | hname | hname <;> cases hname
  exact ⟨⟨"b", [.terminal "a"]⟩, by decide, rfl⟩

/-- In the numbers of the shared names nothing is mixed up. -/
theorem Analysis.shared_exact :
    Analysis.ofGrammar .shared = .ok .shared ∧ Analysis.shared.Interns .shared ∧
      Analysis.shared.alternatives 0 = [0, 2] ∧ Analysis.shared.alternatives 1 = [1] := by
  obtain ⟨_, _, _, _, hexists⟩ := Analysis.ofGrammar_exact .shared
  obtain ⟨analysis, hanalysis, hinterns⟩ := hexists (by decide) Grammar.shared_isClosed
  obtain rfl := Except.ok.inj (ofGrammar_shared.symm.trans hanalysis)
  exact ⟨hanalysis, hinterns, by decide +kernel, by decide +kernel⟩

end TopDown
