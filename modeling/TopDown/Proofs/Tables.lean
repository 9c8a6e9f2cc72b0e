import TopDown.Proofs.Choice

/-!
# The tables by name

What the tables of an analysis say of a grammar, in the names of the grammar: the follow sets, the
predict sets, and the rules that overlap earlier ones.
-/

namespace TopDown

/-- A rule and an earlier one of the same nonterminal are predicted by one lookahead. -/
def Grammar.Clashes (grammar : Grammar) (index : Nat) (rule : Rule) : Prop :=
  grammar.rules[index]? = some rule ∧ ∃ earlier other seen,
    earlier < index ∧ grammar.rules[earlier]? = some other ∧ other.lhs = rule.lhs ∧
      grammar.Predicts other seen ∧ grammar.Predicts rule seen

variable {grammar : Grammar} {numbered : NumberedGrammar}

namespace NumberedGrammar

variable {predict : Array LookaheadSet} {seen : LookaheadSet} {index : Nat}

theorem mem_overlapsFrom_cons {rule : Nat} {rules : List Nat} :
    index ∈ (numbered.overlapsFrom predict seen (rule :: rules)).map Overlap.rule ↔
      (index = rule ∧ ¬seen.isDisjoint (numbered.setAt predict rule) = true) ∨
        index ∈ (numbered.overlapsFrom predict (seen.union (numbered.setAt predict rule))
          rules).map Overlap.rule := by
  rw [overlapsFrom]
  split
  · rename_i hdisjoint
    simp [hdisjoint]
  · rename_i hoverlap
    simp [hoverlap]

theorem not_isDisjoint_iff {left right : LookaheadSet} :
    ¬left.isDisjoint right = true ↔
      ∃ id, left.contains id = true ∧ right.contains id = true := by
  rw [LookaheadSet.isDisjoint_iff]
  simp

/-- A rule is marked when its set shares something with what was seen before it. -/
theorem mem_overlapsFrom_iff (hpredict : numbered.EachWithin predict)
    (hseen : seen.Within numbered.numbering.lookaheadCount) {rules : List Nat} :
    index ∈ (numbered.overlapsFrom predict seen rules).map Overlap.rule ↔
      ∃ before after, rules = before ++ index :: after ∧
        ∃ id, (seen.contains id = true ∨
            ∃ earlier ∈ before, (numbered.setAt predict earlier).contains id = true) ∧
          (numbered.setAt predict index).contains id = true := by
  induction rules generalizing seen with
  | nil => simp [overlapsFrom]
  | cons rule rules ih =>
      have hset := within_setAt hpredict rule
      rw [mem_overlapsFrom_cons, not_isDisjoint_iff, ih (hseen.union hset)]
      simp only [hseen.contains_union_iff hset]
      constructor
      · rintro (⟨rfl, id, hid, hindex⟩ | ⟨before, after, rfl, id, hid, hindex⟩)
        · exact ⟨[], rules, rfl, id, .inl hid, hindex⟩
        · refine ⟨rule :: before, after, rfl, id, ?_, hindex⟩
          rw [List.exists_mem_cons_iff, ← or_assoc]
          exact hid
      · rintro ⟨before, after, hsplit, id, hid, hindex⟩
        cases before with
        | nil =>
            obtain ⟨rfl, rfl⟩ := List.cons.inj hsplit
            exact .inl ⟨rfl, id, by simpa using hid, hindex⟩
        | cons first before =>
            obtain ⟨rfl, rfl⟩ := List.cons.inj hsplit
            rw [List.exists_mem_cons_iff, ← or_assoc] at hid
            exact .inr ⟨before, after, rfl, id, hid, hindex⟩

theorem mem_overlaps_iff (hpredict : numbered.EachWithin predict) {nonterminal : Nat} :
    index ∈ (numbered.overlaps predict nonterminal).map Overlap.rule ↔
      index ∈ numbered.alternatives nonterminal ∧
        ∃ earlier ∈ numbered.alternatives nonterminal, earlier < index ∧
          ∃ id, (numbered.setAt predict earlier).contains id = true ∧
            (numbered.setAt predict index).contains id = true := by
  have hempty (id : Nat) : ¬numbered.emptySet.contains id = true := by
    simp [emptySet, LookaheadSet.contains_empty]
  rw [overlaps, mem_overlapsFrom_iff hpredict numbered.within_emptySet]
  constructor
  · rintro ⟨before, after, hsplit, id, hid, hindex⟩
    obtain ⟨earlier, hearlier, hcontains⟩ := hid.resolve_left (hempty id)
    obtain ⟨hmem, hlt⟩ := (mem_before_iff hsplit).mp hearlier
    exact ⟨by simp [hsplit], earlier, hmem, hlt, id, hcontains, hindex⟩
  · rintro ⟨hmem, earlier, hearlier, hlt, id, hcontains, hindex⟩
    obtain ⟨before, after, hsplit⟩ := List.append_of_mem hmem
    exact ⟨before, after, hsplit, id,
      .inr ⟨earlier, (mem_before_iff hsplit).mpr ⟨hearlier, hlt⟩, hcontains⟩, hindex⟩

end NumberedGrammar

namespace Analysis

theorem overlapsOf_ofNumbered {nonterminal : Nat}
    (hnonterminal : nonterminal < numbered.nonterminalCount) :
    (ofNumbered numbered).overlapsOf nonterminal =
      numbered.overlaps (ofNumbered numbered).predict nonterminal := by
  simp [overlapsOf, ofNumbered, hnonterminal]

section OfNumbered

variable (hrepresents : numbered.Represents grammar)
include hrepresents

theorem mem_followLookaheads_ofNumbered {nonterminal : Nat}
    (hnonterminal : nonterminal < numbered.nonterminalCount) {seen : Lookahead} :
    seen ∈ (ofNumbered numbered).followLookaheads nonterminal ↔
      grammar.Follows (numbered.numbering.nonterminalName nonterminal) seen := by
  simp only [followLookaheads, lookaheads, List.mem_map, LookaheadSet.mem_toList]
  constructor
  · rintro ⟨id, hcontains, rfl⟩
    have hentry : numbered.FollowEntry grammar nonterminal
        (numbered.setAt numbered.followSets nonterminal) :=
      NumberedGrammar.EachEntry.setAt hrepresents.followTable_sound
        (NumberedGrammar.followEntry_emptySet nonterminal)
    exact hentry.follows hcontains
  · intro hfollows
    obtain ⟨id, hlookahead, hcontains⟩ :=
      hrepresents.exists_contains_follow hfollows hnonterminal rfl
    exact ⟨id, hcontains, hlookahead⟩

theorem mem_predictLookaheads_ofNumbered {index : Nat} {rule : NumberedRule}
    (hrule : numbered.rules[index]? = some rule) {seen : Lookahead} :
    seen ∈ (ofNumbered numbered).predictLookaheads index ↔
      grammar.Predicts (numbered.numbering.decodeRule rule) seen := by
  have hmem := List.mem_of_getElem? hrule
  simp only [predictLookaheads, lookaheads, List.mem_map, LookaheadSet.mem_toList]
  constructor
  · rintro ⟨id, hcontains, rfl⟩
    have hlt := (NumberedGrammar.within_setAt (predict_within hrepresents) index).lt_of_contains
      hcontains
    exact (contains_predict_iff hrepresents hrule hlt).mp hcontains
  · intro hpredicts
    obtain ⟨id, hid⟩ := exists_lookaheadId? hrepresents hmem hpredicts
    obtain ⟨hlt, rfl⟩ := (Numbering.lookaheadId?_eq_some_iff hrepresents.terminals_nodup).mp hid
    exact ⟨id, (contains_predict_iff hrepresents hrule hlt).mpr hpredicts, rfl⟩

theorem mem_ambiguousRules_ofNumbered {nonterminal index : Nat}
    (hnonterminal : nonterminal < numbered.nonterminalCount) :
    index ∈ (ofNumbered numbered).ambiguousRules nonterminal ↔
      ∃ rule, rule.lhs = numbered.numbering.nonterminalName nonterminal ∧
        grammar.Clashes index rule := by
  rw [ambiguousRules, overlapsOf_ofNumbered hnonterminal,
    NumberedGrammar.mem_overlaps_iff (predict_within hrepresents)]
  simp only [NumberedGrammar.mem_alternatives]
  constructor
  · rintro ⟨⟨rule, hrule, rfl⟩, earlier, ⟨other, hother, hlhs⟩, hlt, id, hcontains, hcontains'⟩
    have hid := (NumberedGrammar.within_setAt (predict_within hrepresents) index).lt_of_contains
      hcontains'
    exact ⟨_, rfl, hrepresents.getElem?_rules hrule, earlier, _, _, hlt,
      hrepresents.getElem?_rules hother, by rw [Numbering.decodeRule, hlhs]; rfl,
      (contains_predict_iff hrepresents hother hid).mp hcontains,
      (contains_predict_iff hrepresents hrule hid).mp hcontains'⟩
  · rintro ⟨rule, hname, hrule, earlier, other, seen, hlt, hother, hlhs, hseen, hseen'⟩
    obtain ⟨origin, horigin, rfl⟩ := hrepresents.exists_getElem?_rules hrule
    obtain ⟨origin', horigin', rfl⟩ := hrepresents.exists_getElem?_rules hother
    have hmem := List.mem_of_getElem? horigin
    have hmem' := List.mem_of_getElem? horigin'
    have hsame := hrepresents.nonterminalName_inj (hrepresents.lhs_lt _ hmem) hnonterminal hname
    have hsame' := hrepresents.nonterminalName_inj (hrepresents.lhs_lt _ hmem') hnonterminal
      (hlhs.trans hname)
    obtain ⟨id, hid⟩ := exists_lookaheadId? hrepresents hmem hseen'
    obtain ⟨hidlt, rfl⟩ := (Numbering.lookaheadId?_eq_some_iff hrepresents.terminals_nodup).mp hid
    exact ⟨⟨origin, horigin, hsame⟩, earlier, ⟨origin', horigin', hsame'⟩, hlt, id,
      (contains_predict_iff hrepresents horigin' hidlt).mpr hseen,
      (contains_predict_iff hrepresents horigin hidlt).mpr hseen'⟩

theorem symbol?_decode {symbol : NumberedSymbol} (huses : numbered.numbering.Uses symbol) :
    numbered.numbering.symbol? (numbered.numbering.decode symbol) = some symbol := by
  cases symbol with
  | terminal id =>
      have hname := List.getElem?_eq_getElem huses
      rw [Numbering.decode, hname, Option.getD_some, Numbering.symbol?, Numbering.terminalId?,
        idxOf?_of_getElem? hrepresents.terminals_nodup hname, Option.map_some]
  | nonterminal id =>
      have hname := List.getElem?_eq_getElem huses
      rw [Numbering.decode, Numbering.nonterminalName_eq_of_getElem? hname, Numbering.symbol?,
        Numbering.nonterminalId?, idxOf?_of_getElem? hrepresents.nonterminals_nodup hname,
        Option.map_some]

theorem symbols?_decode {symbols : List NumberedSymbol}
    (huses : ∀ symbol ∈ symbols, numbered.numbering.Uses symbol) :
    (ofNumbered numbered).symbols? (symbols.map numbered.numbering.decode) = some symbols := by
  induction symbols with
  | nil => rfl
  | cons symbol symbols ih =>
      rw [List.forall_mem_cons] at huses
      have hsymbols := ih huses.2
      have hsymbol : (ofNumbered numbered).numbering.symbol?
          (numbered.numbering.decode symbol) = some symbol := symbol?_decode hrepresents huses.1
      rw [symbols?] at hsymbols ⊢
      rw [List.map_cons, List.mapM_cons, hsymbol, hsymbols]
      rfl

theorem isNullable?_ofNumbered {symbols : List NumberedSymbol}
    (huses : ∀ symbol ∈ symbols, numbered.numbering.Uses symbol) :
    (ofNumbered numbered).isNullable? (symbols.map numbered.numbering.decode) = some true ↔
      grammar.Derives (symbols.map numbered.numbering.decode) [] := by
  rw [isNullable?, symbols?_decode hrepresents huses, Option.map_some, Option.some.injEq]
  exact hrepresents.canVanish_iff_derives huses

end OfNumbered

variable {analysis : Analysis} {name : String} {id : Nat}

theorem nonterminalName_of_nonterminalId?
    (hid : (ofNumbered numbered).nonterminalId? name = some id) :
    id < numbered.nonterminalCount ∧ numbered.numbering.nonterminalName id = name := by
  have hname : numbered.numbering.nonterminals[id]? = some name := getElem?_of_idxOf? hid
  exact ⟨(List.getElem?_eq_some_iff.mp hname).1, Numbering.nonterminalName_eq_of_getElem? hname⟩

section OfGrammar

variable (hanalysis : ofGrammar grammar = .ok analysis)
include hanalysis

theorem rule?_eq (index : Nat) : analysis.rule? index = grammar.rules[index]? := by
  obtain ⟨numbered, hrepresents, rfl⟩ := exists_represents hanalysis
  rw [← hrepresents.grammar_eq]
  rfl

theorem exists_nonterminalId?_iff :
    (∃ id, analysis.nonterminalId? name = some id) ↔ ∃ rule ∈ grammar.rules, rule.lhs = name := by
  obtain ⟨numbered, hrepresents, rfl⟩ := exists_represents hanalysis
  rw [← hrepresents.mem_nonterminals, ← List.isSome_idxOf?, Option.isSome_iff_exists]
  rfl

theorem mem_followLookaheads_iff (hid : analysis.nonterminalId? name = some id)
    {seen : Lookahead} : seen ∈ analysis.followLookaheads id ↔ grammar.Follows name seen := by
  obtain ⟨numbered, hrepresents, rfl⟩ := exists_represents hanalysis
  obtain ⟨hlt, hname⟩ := nonterminalName_of_nonterminalId? hid
  rw [mem_followLookaheads_ofNumbered hrepresents hlt, hname]

theorem mem_predictLookaheads_iff {index : Nat} {rule : Rule}
    (hrule : grammar.rules[index]? = some rule) {seen : Lookahead} :
    seen ∈ analysis.predictLookaheads index ↔ grammar.Predicts rule seen := by
  obtain ⟨numbered, hrepresents, rfl⟩ := exists_represents hanalysis
  obtain ⟨origin, horigin, rfl⟩ := hrepresents.exists_getElem?_rules hrule
  exact mem_predictLookaheads_ofNumbered hrepresents horigin

theorem mem_ambiguousRules_iff (hid : analysis.nonterminalId? name = some id) {index : Nat} :
    index ∈ analysis.ambiguousRules id ↔
      ∃ rule, rule.lhs = name ∧ grammar.Clashes index rule := by
  obtain ⟨numbered, hrepresents, rfl⟩ := exists_represents hanalysis
  obtain ⟨hlt, hname⟩ := nonterminalName_of_nonterminalId? hid
  rw [mem_ambiguousRules_ofNumbered hrepresents hlt, hname]

theorem isNullable?_production_iff {rule : Rule} (hrule : rule ∈ grammar.rules) :
    analysis.isNullable? rule.production = some true ↔ grammar.Derives rule.production [] := by
  obtain ⟨numbered, hrepresents, rfl⟩ := exists_represents hanalysis
  obtain ⟨origin, horigin, rfl⟩ := hrepresents.mem_rules.mp hrule
  exact isNullable?_ofNumbered hrepresents (hrepresents.uses origin horigin)

end OfGrammar

end Analysis

end TopDown
