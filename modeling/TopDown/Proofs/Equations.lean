import TopDown.Proofs.Interning
import TopDown.Proofs.Reordering

/-!
# The equations of an analysis

The tables of an analysis and its answers about sequences fit together. What a sequence can begin
with comes from its parts, what a nonterminal can begin with from its rules, and the predict set of
a rule from first and follow sets. The main statement collects these equations, and it says that
every set is listed in the order of its numbers.
-/

namespace TopDown

variable {grammar : Grammar} {analysis : Analysis} {numbered : NumberedGrammar}

/-- The lookaheads are listed once each, in the order of their numbers. -/
structure Analysis.InOrder (analysis : Analysis) (seen : List Lookahead) : Prop where
  nodup : seen.Nodup
  ascending : ∃ ids : List Nat, ids.Pairwise (· < ·) ∧
    seen.map analysis.numbering.lookaheadId? = ids.map some
  endOfInput_last : ∀ {before after}, seen = before ++ .endOfInput :: after → after = []

theorem Numbering.le_endOfInput {numbering : Numbering} {seen : Lookahead} {id : Nat}
    (hid : numbering.lookaheadId? seen = some id) : id ≤ numbering.endOfInput := by
  cases seen with
  | terminal name => exact Nat.le_of_lt (List.getElem?_eq_some_iff.mp (getElem?_of_idxOf? hid)).1
  | endOfInput => exact Nat.le_of_eq (Option.some.inj hid).symm

namespace Analysis

theorem inOrder_of_ids {seen : List Lookahead} {ids : List Nat} (hascending : ids.Pairwise (· < ·))
    (hids : seen.map analysis.numbering.lookaheadId? = ids.map some) : analysis.InOrder seen where
  nodup := by
    have hnodup : (ids.map some).Nodup :=
      (hascending.imp Nat.ne_of_lt).map _ fun _ _ hne hsame => hne (Option.some.inj hsame)
    rw [← hids] at hnodup
    exact hnodup.of_map
  ascending := ⟨ids, hascending, hids⟩
  endOfInput_last := by
    rintro before (_ | ⟨next, after⟩) rfl
    · rfl
    · simp only [List.map_append, List.map_cons] at hids
      obtain ⟨front, back, rfl, _, hback⟩ := List.map_eq_append_iff.mp hids.symm
      obtain ⟨last, behind, rfl, hlast, hbehind⟩ := List.map_eq_cons_iff.mp hback
      obtain ⟨beyond, others, rfl, hbeyond, _⟩ := List.map_eq_cons_iff.mp hbehind
      have hlt : last < beyond :=
        List.rel_of_pairwise_cons (List.pairwise_append.mp hascending).2.1 List.mem_cons_self
      have hle := Numbering.le_endOfInput hbeyond.symm
      have hend : last = analysis.numbering.endOfInput := Option.some.inj hlast
      omega

section OfNumbered

variable (hrepresents : numbered.Represents grammar) {set : LookaheadSet}
include hrepresents

theorem inOrder_lookaheads
    (hset : ∀ {id}, set.contains id = true → id < numbered.numbering.lookaheadCount) :
    (ofNumbered numbered).InOrder ((ofNumbered numbered).lookaheads set) := by
  refine inOrder_of_ids set.pairwise_toList ?_
  rw [lookaheads, List.map_map]
  refine List.map_congr_left fun id hid => ?_
  exact (Numbering.lookaheadId?_eq_some_iff hrepresents.terminals_nodup).mpr
    ⟨hset (LookaheadSet.mem_toList.mp hid), rfl⟩

theorem map_lookaheadId?_filterMap (ids : List Nat) :
    ((ids.filterMap (numbered.numbering.terminals[·]?)).map Lookahead.terminal).map
        numbered.numbering.lookaheadId? =
      (ids.filter (· < numbered.numbering.terminals.length)).map some := by
  induction ids with
  | nil => rfl
  | cons id ids ih =>
      by_cases hid : id < numbered.numbering.terminals.length
      · have hname := List.getElem?_eq_getElem hid
        rw [List.filterMap_cons_some hname, List.filter_cons_of_pos (by simpa using hid),
          List.map_cons, List.map_cons, List.map_cons, ih]
        exact congrArg (· :: _) (idxOf?_of_getElem? hrepresents.terminals_nodup hname)
      · rw [List.filterMap_cons_none (List.getElem?_eq_none (Nat.le_of_not_lt hid)),
          List.filter_cons_of_neg (by simpa using hid), ih]

theorem inOrder_terminalNames :
    (ofNumbered numbered).InOrder
      (((ofNumbered numbered).terminalNames set).map Lookahead.terminal) :=
  inOrder_of_ids (set.pairwise_toList.filter _) (map_lookaheadId?_filterMap hrepresents set.toList)

end OfNumbered

theorem symbols?_append (left right : List Symbol) :
    analysis.symbols? (left ++ right) = (do
      let leftIds ← analysis.symbols? left
      let rightIds ← analysis.symbols? right
      return leftIds ++ rightIds) :=
  List.mapM_append

theorem isNullable?_append (left right : List Symbol) :
    analysis.isNullable? (left ++ right) = (do
      let leftFlag ← analysis.isNullable? left
      let rightFlag ← analysis.isNullable? right
      return leftFlag && rightFlag) := by
  simp only [isNullable?, symbols?_append]
  cases analysis.symbols? left with
  | none => rfl
  | some leftIds =>
      cases analysis.symbols? right with
      | none => rfl
      | some rightIds =>
          exact congrArg some (NumberedGrammar.canVanish_append analysis.nullable.table _ _)

section OfGrammar

variable (hanalysis : ofGrammar grammar = .ok analysis)
include hanalysis

theorem symbols?_eq_none_iff {symbols : List Symbol} :
    analysis.symbols? symbols = none ↔ ∃ symbol ∈ symbols, ¬grammar.Knows symbol := by
  have hknows (symbol : Symbol) :
      (∃ id, analysis.numbering.symbol? symbol = some id) ↔ grammar.Knows symbol :=
    (interns_of_ofGrammar hanalysis).exists_symbol?_iff
  induction symbols with
  | nil => simp [symbols?]
  | cons symbol symbols ih =>
      have hcons : analysis.symbols? (symbol :: symbols) = none ↔
          analysis.numbering.symbol? symbol = none ∨ analysis.symbols? symbols = none := by
        rw [symbols?, symbols?, List.mapM_cons]
        cases analysis.numbering.symbol? symbol <;>
          cases symbols.mapM analysis.numbering.symbol? <;> simp
      have hnone : analysis.numbering.symbol? symbol = none ↔ ¬grammar.Knows symbol := by
        rw [← hknows, ← Option.isSome_iff_exists, Option.not_isSome_iff_eq_none]
      rw [List.exists_mem_cons_iff, hcons, hnone]
      exact or_congr_right ih

theorem firstOf?_eq_none_iff {symbols : List Symbol} :
    analysis.firstOf? symbols = none ↔ ∃ symbol ∈ symbols, ¬grammar.Knows symbol := by
  rw [← symbols?_eq_none_iff hanalysis, firstOf?, Option.map_eq_none_iff]

theorem knows_of_firstOf? {symbols : List Symbol} {names : List String}
    (hnames : analysis.firstOf? symbols = some names) :
    ∀ symbol ∈ symbols, grammar.Knows symbol := by
  by_contra hunknown
  rw [not_forall₂] at hunknown
  have hnone := (firstOf?_eq_none_iff hanalysis).mpr (by simpa using hunknown)
  rw [hnone] at hnames
  cases hnames

/-- What two sequences in a row can begin with: the second counts where the first can vanish. -/
theorem firstOf?_append {left right : List Symbol} {names : List String}
    (hnames : analysis.firstOf? (left ++ right) = some names) :
    ∃ leftNames rightNames, analysis.firstOf? left = some leftNames ∧
      analysis.firstOf? right = some rightNames ∧
      ∀ name, name ∈ names ↔
        name ∈ leftNames ∨ analysis.isNullable? left = some true ∧ name ∈ rightNames := by
  have hknows := knows_of_firstOf? hanalysis hnames
  rw [List.forall_mem_append] at hknows
  obtain ⟨numbered, hrepresents, rfl⟩ := exists_represents hanalysis
  obtain ⟨leftIds, hleft, rfl⟩ := hrepresents.exists_map_decode_of_knows hknows.1
  obtain ⟨rightIds, hright, rfl⟩ := hrepresents.exists_map_decode_of_knows hknows.2
  have huses := List.forall_mem_append.mpr ⟨hleft, hright⟩
  rw [← List.map_append, firstOf?, symbols?_decode hrepresents huses, Option.map_some,
    Option.some.injEq] at hnames
  subst hnames
  rw [firstOf?, firstOf?, isNullable?, symbols?_decode hrepresents hleft,
    symbols?_decode hrepresents hright, Option.map_some, Option.map_some, Option.map_some]
  refine ⟨_, _, rfl, rfl, fun name => ?_⟩
  have happend (id : Nat) :
      (numbered.firstOf numbered.nullables numbered.firstSets (leftIds ++ rightIds)).contains id =
        true ↔ _ :=
    NumberedGrammar.contains_firstOf_append hrepresents.firstTable_within huses
  rw [mem_terminalNames_iff, mem_terminalNames_iff, mem_terminalNames_iff, Option.some.injEq]
  constructor
  · rintro ⟨id, hcontains, hname⟩
    rcases (happend id).mp hcontains with hcontains | ⟨hvanish, hcontains⟩
    · exact .inl ⟨id, hcontains, hname⟩
    · exact .inr ⟨hvanish, id, hcontains, hname⟩
  · rintro (⟨id, hcontains, hname⟩ | ⟨hvanish, id, hcontains, hname⟩)
    · exact ⟨id, (happend id).mpr (.inl hcontains), hname⟩
    · exact ⟨id, (happend id).mpr (.inr ⟨hvanish, hcontains⟩), hname⟩

end OfGrammar

end Analysis

/-! ### Nonterminals and their rules

A nonterminal derives what its productions derive, and the first step of a derivation says which
production it is. So what is known of a nonterminal is put together from its rules. -/

theorem Rewriting.step_singleton {σ : Type} {replaces : σ → List σ → Prop} {symbol : σ}
    {next : List σ} (hstep : Rewriting.Step replaces [symbol] next) : replaces symbol next := by
  generalize hform : [symbol] = form at hstep
  obtain ⟨before, after, hreplaces⟩ := hstep
  obtain ⟨rfl, hrest⟩ | ⟨_, hnil⟩ := List.singleton_eq_append_iff.mp hform
  · obtain ⟨rfl, rfl⟩ := List.cons_eq_cons.mp hrest.symm
    simpa using hreplaces
  · cases hnil

/-- What a nonterminal derives, the production of some rule of it derives. -/
theorem Grammar.derives_nonterminal_iff {name : String} {form : List Symbol}
    (hne : form ≠ [.nonterminal name]) :
    grammar.Derives [.nonterminal name] form ↔
      ∃ rule ∈ grammar.rules, rule.lhs = name ∧ grammar.Derives rule.production form := by
  constructor
  · intro hderives
    rcases hderives.cases_head with hsame | ⟨next, hstep, hrest⟩
    · exact absurd hsame.symm hne
    · generalize hsymbol : Symbol.nonterminal name = symbol at hstep
      obtain ⟨hrule⟩ := Rewriting.step_singleton hstep
      exact ⟨_, hrule, (Symbol.nonterminal.inj hsymbol).symm, hrest⟩
  · rintro ⟨rule, hrule, rfl, hderives⟩
    exact (derives_of_rule hrule).trans hderives

theorem NumberedGrammar.firstOf_nonterminal {nullable : Array Bool} {first : Array LookaheadSet}
    (hfirst : numbered.EachWithin first) (id : Nat) :
    numbered.firstOf nullable first [.nonterminal id] = numbered.setAt first id := by
  have hempty : numbered.firstOf nullable first [] = numbered.emptySet := rfl
  rw [firstOf, hempty]
  split
  · refine LookaheadSet.eq_of_contains (LookaheadSet.size_union _ _).symm fun position => ?_
    rw [Bool.eq_iff_iff, (within_setAt hfirst id).contains_union_iff numbered.within_emptySet]
    simp [emptySet, LookaheadSet.contains_empty]
  · rfl

namespace Analysis

section OfGrammar

variable (hanalysis : ofGrammar grammar = .ok analysis)
include hanalysis

theorem exists_name_of_mem {id : Nat} (hid : id ∈ analysis.nonterminals) :
    ∃ name, analysis.nonterminalId? name = some id := by
  have hinterns := interns_of_ofGrammar hanalysis
  rw [hinterns.nonterminals_eq, List.mem_range] at hid
  exact ⟨_, hinterns.nonterminalId?_iff.mpr (List.getElem?_eq_getElem hid)⟩

theorem knows_production {rule : Rule} (hrule : rule ∈ grammar.rules) :
    ∀ symbol ∈ rule.production, grammar.Knows symbol := by
  obtain ⟨_, hclosed⟩ := exists_ofGrammar_iff.mp ⟨analysis, hanalysis⟩
  intro symbol hsymbol
  cases symbol with
  | terminal name => exact ⟨rule, hrule, hsymbol⟩
  | nonterminal name => exact hclosed rule hrule name hsymbol

theorem firstOf?_nonterminal {name : String} {id : Nat}
    (hid : analysis.nonterminalId? name = some id) :
    analysis.firstOf? [.nonterminal name] = some (analysis.firstNames id) := by
  obtain ⟨numbered, hrepresents, rfl⟩ := exists_represents hanalysis
  have hnumber : (ofNumbered numbered).numbering.nonterminalId? name = some id := hid
  have hsymbols : (ofNumbered numbered).symbols? [.nonterminal name] = some [.nonterminal id] := by
    simp [symbols?, Numbering.symbol?, hnumber]
  rw [firstOf?, hsymbols, Option.map_some]
  exact congrArg (some <| terminalNames _ ·)
    (NumberedGrammar.firstOf_nonterminal hrepresents.firstTable_within id)

theorem exists_alternative_iff {name : String} {id : Nat}
    (hid : analysis.nonterminalId? name = some id) (holds : Rule → Prop) :
    (∃ index ∈ analysis.alternatives id, ∃ rule, analysis.rule? index = some rule ∧ holds rule) ↔
      ∃ rule ∈ grammar.rules, rule.lhs = name ∧ holds rule := by
  have hinterns := interns_of_ofGrammar hanalysis
  constructor
  · rintro ⟨index, hindex, rule, hrule, hholds⟩
    obtain ⟨other, hother, hlhs⟩ := (hinterns.mem_alternatives_iff hid).mp hindex
    rw [hinterns.rule?_eq, hother, Option.some.injEq] at hrule
    subst hrule
    exact ⟨other, List.mem_of_getElem? hother, hlhs, hholds⟩
  · rintro ⟨rule, hrule, hlhs, hholds⟩
    obtain ⟨index, hindex⟩ := List.mem_iff_getElem?.mp hrule
    exact ⟨index, (hinterns.mem_alternatives_iff hid).mpr ⟨rule, hindex, hlhs⟩, rule,
      hinterns.rule?_eq.trans hindex, hholds⟩

theorem mem_firstNames_iff_rules {id : Nat} (hid : id ∈ analysis.nonterminals) {next : String} :
    next ∈ analysis.firstNames id ↔
      ∃ index ∈ analysis.alternatives id, ∃ rule, analysis.rule? index = some rule ∧
        ∃ names, analysis.firstOf? rule.production = some names ∧ next ∈ names := by
  obtain ⟨name, hname⟩ := exists_name_of_mem hanalysis hid
  rw [mem_firstNames_iff hanalysis hname, exists_alternative_iff hanalysis hname fun rule =>
    ∃ names, analysis.firstOf? rule.production = some names ∧ next ∈ names]
  constructor
  · rintro ⟨rest, hderives⟩
    obtain ⟨rule, hrule, hlhs, hderives⟩ := (Grammar.derives_nonterminal_iff (by simp)).mp hderives
    obtain ⟨names, hnames, hexact⟩ := exists_firstOf? hanalysis (knows_production hanalysis hrule)
    exact ⟨rule, hrule, hlhs, names, hnames, (hexact next).mpr ⟨rest, hderives⟩⟩
  · rintro ⟨rule, hrule, hlhs, names, hnames, hnext⟩
    obtain ⟨names', hnames', hexact⟩ := exists_firstOf? hanalysis (knows_production hanalysis hrule)
    obtain rfl := Option.some.inj (hnames.symm.trans hnames')
    obtain ⟨rest, hderives⟩ := (hexact next).mp hnext
    exact ⟨rest, (Grammar.derives_nonterminal_iff (by simp)).mpr ⟨rule, hrule, hlhs, hderives⟩⟩

theorem isNullable_iff_rules {id : Nat} (hid : id ∈ analysis.nonterminals) :
    analysis.isNullable id = true ↔
      ∃ index ∈ analysis.alternatives id, ∃ rule, analysis.rule? index = some rule ∧
        analysis.isNullable? rule.production = some true := by
  obtain ⟨name, hname⟩ := exists_name_of_mem hanalysis hid
  rw [isNullable_iff hanalysis hname, exists_alternative_iff hanalysis hname fun rule =>
    analysis.isNullable? rule.production = some true, Grammar.derives_nonterminal_iff (by simp)]
  refine exists_congr fun rule => and_congr_right fun hrule => and_congr_right fun _ => ?_
  exact (isNullable?_production_iff hanalysis hrule).symm

theorem mem_predictAnyLookaheads_iff_rules {id : Nat} (hid : id ∈ analysis.nonterminals)
    {seen : Lookahead} :
    seen ∈ analysis.predictAnyLookaheads id ↔
      ∃ index ∈ analysis.alternatives id, seen ∈ analysis.predictLookaheads index := by
  obtain ⟨name, hname⟩ := exists_name_of_mem hanalysis hid
  have hinterns := interns_of_ofGrammar hanalysis
  rw [mem_predictAnyLookaheads_iff hanalysis hname,
    ← exists_alternative_iff hanalysis hname (grammar.Predicts · seen)]
  refine exists_congr fun index => and_congr_right fun hindex => ?_
  obtain ⟨rule, hrule, _⟩ := (hinterns.mem_alternatives_iff hname).mp hindex
  rw [mem_predictLookaheads_iff hanalysis hrule, hinterns.rule?_eq, hrule]
  simp

theorem predict_eq {index : Nat} (hindex : index ∈ analysis.rules) :
    ∃ rule id names flag, analysis.rule? index = some rule ∧
      analysis.nonterminalId? rule.lhs = some id ∧
      analysis.firstOf? rule.production = some names ∧
      analysis.isNullable? rule.production = some flag ∧
      ∀ seen, seen ∈ analysis.predictLookaheads index ↔
        (∃ name ∈ names, seen = .terminal name) ∨
          flag = true ∧ seen ∈ analysis.followLookaheads id := by
  have hinterns := interns_of_ofGrammar hanalysis
  rw [hinterns.rules_eq, List.mem_range] at hindex
  have hget := List.getElem?_eq_getElem hindex
  generalize grammar.rules[index] = rule at hget
  have hrule := List.mem_of_getElem? hget
  obtain ⟨id, hid⟩ := (exists_nonterminalId?_iff hanalysis).mpr ⟨rule, hrule, rfl⟩
  have hknows := knows_production hanalysis hrule
  obtain ⟨names, hnames, hfirst⟩ := exists_firstOf? hanalysis hknows
  obtain ⟨flag, hflag, hnullable⟩ := exists_isNullable? hanalysis hknows
  refine ⟨rule, id, names, flag, hinterns.rule?_eq.trans hget, hid, hnames, hflag, fun seen => ?_⟩
  rw [mem_predictLookaheads_iff hanalysis hget, Grammar.Predicts, Grammar.shows_iff, hnullable,
    mem_followLookaheads_iff hanalysis hid]
  refine or_congr_left (exists_congr fun name => ?_)
  rw [hfirst name]
  constructor
  · rintro ⟨rest, hseen, hderives⟩
    exact ⟨⟨rest, hderives⟩, hseen⟩
  · rintro ⟨⟨rest, hderives⟩, hseen⟩
    exact ⟨rest, hseen, hderives⟩

end OfGrammar

/-- The tables and the answers about sequences fit together, and sets are listed in order. -/
structure Equations (analysis : Analysis) (grammar : Grammar) : Prop where
  /-- A symbol that is not known leaves no answer, wherever it stands. -/
  firstOf?_eq_none_iff : ∀ {left right}, analysis.firstOf? (left ++ right) = none ↔
    ∃ symbol ∈ left ++ right, ¬grammar.Knows symbol
  firstOf?_append : ∀ {left right names}, analysis.firstOf? (left ++ right) = some names →
    ∃ leftNames rightNames, analysis.firstOf? left = some leftNames ∧
      analysis.firstOf? right = some rightNames ∧
      ∀ name, name ∈ names ↔
        name ∈ leftNames ∨ analysis.isNullable? left = some true ∧ name ∈ rightNames
  isNullable?_append : ∀ {left right}, analysis.isNullable? (left ++ right) = (do
    let leftFlag ← analysis.isNullable? left
    let rightFlag ← analysis.isNullable? right
    return leftFlag && rightFlag)
  firstOf?_nonterminal : ∀ {name id}, analysis.nonterminalId? name = some id →
    analysis.firstOf? [.nonterminal name] = some (analysis.firstNames id)
  mem_firstNames_iff : ∀ {id}, id ∈ analysis.nonterminals → ∀ next,
    next ∈ analysis.firstNames id ↔
      ∃ index ∈ analysis.alternatives id, ∃ rule, analysis.rule? index = some rule ∧
        ∃ names, analysis.firstOf? rule.production = some names ∧ next ∈ names
  isNullable_iff : ∀ {id}, id ∈ analysis.nonterminals →
    (analysis.isNullable id = true ↔
      ∃ index ∈ analysis.alternatives id, ∃ rule, analysis.rule? index = some rule ∧
        analysis.isNullable? rule.production = some true)
  /-- A predict set is a first set, with a follow set beside it if the production can vanish. -/
  mem_predictLookaheads_iff : ∀ {index}, index ∈ analysis.rules →
    ∃ rule id names flag, analysis.rule? index = some rule ∧
      analysis.nonterminalId? rule.lhs = some id ∧
      analysis.firstOf? rule.production = some names ∧
      analysis.isNullable? rule.production = some flag ∧
      ∀ seen, seen ∈ analysis.predictLookaheads index ↔
        (∃ name ∈ names, seen = .terminal name) ∨
          flag = true ∧ seen ∈ analysis.followLookaheads id
  mem_predictAnyLookaheads_iff : ∀ {id}, id ∈ analysis.nonterminals → ∀ seen,
    seen ∈ analysis.predictAnyLookaheads id ↔
      ∃ index ∈ analysis.alternatives id, seen ∈ analysis.predictLookaheads index
  inOrder_firstOf? : ∀ {symbols names}, analysis.firstOf? symbols = some names →
    analysis.InOrder (names.map .terminal)
  inOrder_firstNames : ∀ {id}, id ∈ analysis.nonterminals →
    analysis.InOrder ((analysis.firstNames id).map .terminal)
  inOrder_followLookaheads : ∀ {id}, id ∈ analysis.nonterminals →
    analysis.InOrder (analysis.followLookaheads id)
  inOrder_predictLookaheads : ∀ {index}, index ∈ analysis.rules →
    analysis.InOrder (analysis.predictLookaheads index)
  inOrder_predictAnyLookaheads : ∀ {id}, id ∈ analysis.nonterminals →
    analysis.InOrder (analysis.predictAnyLookaheads id)

theorem equations_exact (hanalysis : ofGrammar grammar = .ok analysis) :
    analysis.Equations grammar where
  firstOf?_eq_none_iff := firstOf?_eq_none_iff hanalysis
  firstOf?_append := firstOf?_append hanalysis
  isNullable?_append := isNullable?_append _ _
  firstOf?_nonterminal := firstOf?_nonterminal hanalysis
  mem_firstNames_iff hid _ := mem_firstNames_iff_rules hanalysis hid
  isNullable_iff := isNullable_iff_rules hanalysis
  mem_predictLookaheads_iff := predict_eq hanalysis
  mem_predictAnyLookaheads_iff hid _ := mem_predictAnyLookaheads_iff_rules hanalysis hid
  inOrder_firstOf? hnames := by
    obtain ⟨numbered, hrepresents, rfl⟩ := exists_represents hanalysis
    obtain ⟨ids, _, rfl⟩ := Option.map_eq_some_iff.mp hnames
    exact inOrder_terminalNames hrepresents
  inOrder_firstNames _ := by
    obtain ⟨numbered, hrepresents, rfl⟩ := exists_represents hanalysis
    exact inOrder_terminalNames hrepresents
  inOrder_followLookaheads _ := by
    obtain ⟨numbered, hrepresents, rfl⟩ := exists_represents hanalysis
    exact inOrder_lookaheads hrepresents
      (NumberedGrammar.within_setAt hrepresents.followTable_within _).lt_of_contains
  inOrder_predictLookaheads _ := by
    obtain ⟨numbered, hrepresents, rfl⟩ := exists_represents hanalysis
    exact inOrder_lookaheads hrepresents
      (NumberedGrammar.within_setAt (predict_within hrepresents) _).lt_of_contains
  inOrder_predictAnyLookaheads hid := by
    obtain ⟨numbered, hrepresents, rfl⟩ := exists_represents hanalysis
    exact inOrder_lookaheads hrepresents
      (lt_of_contains_predictAny hrepresents (List.mem_range.mp hid))

/-- In the grammar of pairs what follows a pair predicts the empty production. -/
theorem pairs_equations :
    Analysis.pairs.Equations .pairs ∧
      Analysis.pairs.firstOf? [.nonterminal "s", .terminal "b"] = some ["a", "b"] ∧
      Analysis.pairs.firstOf? [.terminal "a", .nonterminal "t"] = none ∧
      Analysis.pairs.predictLookaheads 1 = [.terminal "b", .endOfInput] :=
  ⟨equations_exact ofGrammar_pairs, by decide +kernel, by decide +kernel, by decide +kernel⟩

end Analysis

end TopDown
