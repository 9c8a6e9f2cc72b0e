import Mathlib.Data.List.Forall2
import TopDown.Proofs.Tables

/-!
# Conflicts

A rule is marked when its predict set shares something with the union of those before it. The main
statement says that these are the rules that overlap some earlier rule of their nonterminal, and
that each of them is reported with what it shares with all of them.
-/

namespace TopDown

/-- The number is that of a rule of the nonterminal. -/
def Grammar.IsAlternative (grammar : Grammar) (name : String) (index : Nat) : Prop :=
  ∃ rule, grammar.rules[index]? = some rule ∧ rule.lhs = name

namespace Analysis

/-- Some lookahead predicts both rules. -/
def Meet (analysis : Analysis) (first second : Nat) : Prop :=
  ∃ seen, seen ∈ analysis.predictLookaheads first ∧ seen ∈ analysis.predictLookaheads second

/-- The marked rules of a nonterminal are those that meet an earlier one, in their order. Rules that
are not marked are told apart by every lookahead. -/
structure Marks (analysis : Analysis) (grammar : Grammar) (name : String) (marked : List Nat) :
    Prop where
  ascending : marked.Pairwise (· < ·)
  mem_iff : ∀ index, index ∈ marked ↔ grammar.IsAlternative name index ∧
    ∃ earlier < index, grammar.IsAlternative name earlier ∧ analysis.Meet earlier index
  apart : ∀ first second, first ≠ second → grammar.IsAlternative name first →
    grammar.IsAlternative name second → first ∉ marked → second ∉ marked →
      ¬analysis.Meet first second

/-- The conflict of a rule gives what its predict set shares with those of all earlier rules of its
nonterminal, in the order of its predict set. -/
structure Reports (analysis : Analysis) (grammar : Grammar) (index : Nat) (conflict : Conflict) :
    Prop where
  rule_eq : grammar.rules[index]? = some conflict.rule
  ne_nil : conflict.overlap ≠ []
  sublist : conflict.overlap.Sublist (analysis.predictLookaheads index)
  mem_iff : ∀ seen, seen ∈ conflict.overlap ↔ seen ∈ analysis.predictLookaheads index ∧
    ∃ earlier < index, grammar.IsAlternative conflict.rule.lhs earlier ∧
      seen ∈ analysis.predictLookaheads earlier

/-- The conflicts along some rules, by a walk that keeps a union of its own and asks of a rule only
whether it is marked. -/
def conflictsAlong (analysis : Analysis) (marked : List Nat) :
    LookaheadSet → List Nat → List Conflict
  | _, [] => []
  | seen, rule :: rest =>
      let set := analysis.grammar.setAt analysis.predict rule
      let later := conflictsAlong analysis marked (seen.union set) rest
      if marked.contains rule then
        match analysis.rule? rule with
        | some named => { rule := named, overlap := analysis.lookaheads (seen.inter set) } :: later
        | none => later
      else later

/-- The conflicts of all nonterminals, by a second walk through their rules. -/
def conflictsByWalk (analysis : Analysis) : List Conflict :=
  analysis.nonterminals.flatMap fun nonterminal =>
    analysis.conflictsAlong (analysis.ambiguousRules nonterminal) analysis.grammar.emptySet
      (analysis.alternatives nonterminal)

end Analysis

variable {grammar : Grammar} {numbered : NumberedGrammar} {analysis : Analysis}

namespace NumberedGrammar

variable {predict : Array LookaheadSet} {seen : LookaheadSet} {rules : List Nat}
  {overlap : Overlap}

theorem Represents.mem_alternatives_iff (hrepresents : numbered.Represents grammar)
    {nonterminal index : Nat} (hnonterminal : nonterminal < numbered.nonterminalCount) :
    index ∈ numbered.alternatives nonterminal ↔
      grammar.IsAlternative (numbered.numbering.nonterminalName nonterminal) index := by
  rw [mem_alternatives]
  constructor
  · rintro ⟨rule, hrule, rfl⟩
    exact ⟨_, hrepresents.getElem?_rules hrule, rfl⟩
  · rintro ⟨rule, hrule, hname⟩
    obtain ⟨origin, horigin, rfl⟩ := hrepresents.exists_getElem?_rules hrule
    have hlt := hrepresents.lhs_lt origin (List.mem_of_getElem? horigin)
    exact ⟨origin, horigin, hrepresents.nonterminalName_inj hlt hnonterminal hname⟩

theorem rules_overlapsFrom_sublist :
    ((numbered.overlapsFrom predict seen rules).map Overlap.rule).Sublist rules := by
  induction rules generalizing seen with
  | nil => exact .slnil
  | cons rule rules ih =>
      rw [overlapsFrom]
      split
      · exact ih.cons rule
      · exact ih.cons_cons rule

/-- An overlap shares the part of its set that is in the union of the sets in front of it. -/
theorem exists_split_of_mem_overlapsFrom
    (hoverlap : overlap ∈ numbered.overlapsFrom predict seen rules) :
    ∃ before after, rules = before ++ overlap.rule :: after ∧
      overlap.shared =
        (before.foldl (fun set rule => set.union (numbered.setAt predict rule)) seen).inter
          (numbered.setAt predict overlap.rule) := by
  induction rules generalizing seen with
  | nil => simp [overlapsFrom] at hoverlap
  | cons rule rules ih =>
      have hlater (hmem : overlap ∈ numbered.overlapsFrom predict
          (seen.union (numbered.setAt predict rule)) rules) :
          ∃ before after, rule :: rules = before ++ overlap.rule :: after ∧
            overlap.shared = (before.foldl (fun set rule =>
              set.union (numbered.setAt predict rule)) seen).inter
                (numbered.setAt predict overlap.rule) := by
        obtain ⟨before, after, rfl, hshared⟩ := ih hmem
        exact ⟨rule :: before, after, rfl, hshared⟩
      rw [overlapsFrom] at hoverlap
      split at hoverlap
      · exact hlater hoverlap
      · rcases List.mem_cons.mp hoverlap with rfl | hmem
        · exact ⟨[], rules, rfl, rfl⟩
        · exact hlater hmem

theorem contains_shared_iff (hpredict : numbered.EachWithin predict) {nonterminal id : Nat}
    (hoverlap : overlap ∈ numbered.overlaps predict nonterminal) :
    overlap.shared.contains id = true ↔
      (numbered.setAt predict overlap.rule).contains id = true ∧
        ∃ earlier < overlap.rule, earlier ∈ numbered.alternatives nonterminal ∧
          (numbered.setAt predict earlier).contains id = true := by
  obtain ⟨before, after, hsplit, hshared⟩ := exists_split_of_mem_overlapsFrom hoverlap
  have hempty : ¬numbered.emptySet.contains id = true := by
    simp [emptySet, LookaheadSet.contains_empty]
  rw [hshared, LookaheadSet.contains_inter, Bool.and_eq_true, and_comm,
    Analysis.contains_foldl_union hpredict numbered.within_emptySet, or_iff_right hempty]
  refine and_congr_right fun _ => exists_congr fun earlier => ?_
  rw [mem_before_iff hsplit, and_comm (b := earlier < overlap.rule), and_assoc]

end NumberedGrammar

theorem forall₂_map_filterMap {α β γ : Type} {relate : β → γ → Prop} {name : α → β}
    {convert : α → Option γ} {values : List α}
    (hvalues : ∀ value ∈ values,
      ∃ converted, convert value = some converted ∧ relate (name value) converted) :
    List.Forall₂ relate (values.map name) (values.filterMap convert) := by
  induction values with
  | nil => exact .nil
  | cons value values ih =>
      rw [List.forall_mem_cons] at hvalues
      obtain ⟨⟨converted, hconvert, hrelate⟩, hrest⟩ := hvalues
      rw [List.map_cons, List.filterMap_cons_some hconvert]
      exact .cons hrelate (ih hrest)

theorem forall₂_flatMap {α β γ : Type} {relate : β → γ → Prop} {left : α → List β}
    {right : α → List γ} {values : List α}
    (hvalues : ∀ value ∈ values, List.Forall₂ relate (left value) (right value)) :
    List.Forall₂ relate (values.flatMap left) (values.flatMap right) := by
  induction values with
  | nil => exact .nil
  | cons value values ih =>
      rw [List.forall_mem_cons] at hvalues
      rw [List.flatMap_cons, List.flatMap_cons]
      exact List.rel_append hvalues.1 (ih hvalues.2)

namespace Analysis

/-- The second walk finds the overlaps of the first, if it marks them. -/
theorem conflictsAlong_eq {marked rules : List Nat} {seen : LookaheadSet} (hnodup : rules.Nodup)
    (hmarked : ∀ rule ∈ rules, rule ∈ marked ↔
      rule ∈ (analysis.grammar.overlapsFrom analysis.predict seen rules).map Overlap.rule) :
    analysis.conflictsAlong marked seen rules =
      (analysis.grammar.overlapsFrom analysis.predict seen rules).filterMap fun overlap =>
        (analysis.rule? overlap.rule).map fun rule =>
          { rule := rule, overlap := analysis.lookaheads overlap.shared } := by
  induction rules generalizing seen with
  | nil => rfl
  | cons rule rules ih =>
      obtain ⟨hfresh, hnodup⟩ := List.nodup_cons.mp hnodup
      rw [List.forall_mem_cons] at hmarked
      simp only [NumberedGrammar.mem_overlapsFrom_cons] at hmarked
      have hrest := @ih (seen.union (analysis.grammar.setAt analysis.predict rule)) hnodup
        fun other hother => by
          have hne : other ≠ rule := fun hsame => hfresh (hsame ▸ hother)
          simpa [hne] using hmarked.2 other hother
      have hlater : rule ∉ (analysis.grammar.overlapsFrom analysis.predict
          (seen.union (analysis.grammar.setAt analysis.predict rule)) rules).map Overlap.rule :=
        fun hmem => hfresh (NumberedGrammar.rules_overlapsFrom_sublist.subset hmem)
      have hrule : rule ∈ marked ↔
          ¬seen.isDisjoint (analysis.grammar.setAt analysis.predict rule) = true := by
        simpa [hlater] using hmarked.1
      rw [conflictsAlong, NumberedGrammar.overlapsFrom, hrest]
      by_cases hdisjoint : seen.isDisjoint (analysis.grammar.setAt analysis.predict rule) = true
      · simp [hrule, hdisjoint]
      · cases hnamed : analysis.rule? rule <;> simp [hrule, hdisjoint, hnamed]

/-! ### Conflicts by numbers

The analysis compares a rule with the union of the predict sets before it. A lookahead is in the
union if it is in one of the sets, so this is the same as comparing the rule with each of the
earlier ones. -/

section OfNumbered

variable (hrepresents : numbered.Represents grammar)
include hrepresents

theorem lookahead_mem_predictLookaheads_iff {index id : Nat}
    (hid : id < numbered.numbering.lookaheadCount) :
    numbered.numbering.lookahead id ∈ (ofNumbered numbered).predictLookaheads index ↔
      (numbered.setAt (ofNumbered numbered).predict index).contains id = true := by
  rw [predictLookaheads, lookaheads, List.mem_map]
  constructor
  · rintro ⟨other, hother, hsame⟩
    rw [LookaheadSet.mem_toList] at hother
    have hlt := (NumberedGrammar.within_setAt (predict_within hrepresents) index).lt_of_contains
      hother
    rw [← hrepresents.lookahead_inj hlt hid hsame]
    exact hother
  · intro hcontains
    exact ⟨id, LookaheadSet.mem_toList.mpr hcontains, rfl⟩

theorem meet_ofNumbered_iff {first second : Nat} :
    (ofNumbered numbered).Meet first second ↔
      ∃ id, (numbered.setAt (ofNumbered numbered).predict first).contains id = true ∧
        (numbered.setAt (ofNumbered numbered).predict second).contains id = true := by
  have hwithin := NumberedGrammar.within_setAt (predict_within hrepresents) first
  constructor
  · rintro ⟨seen, hfirst, hsecond⟩
    obtain ⟨id, hid, rfl⟩ := List.mem_map.mp hfirst
    rw [LookaheadSet.mem_toList] at hid
    exact ⟨id, hid, (lookahead_mem_predictLookaheads_iff hrepresents
      (hwithin.lt_of_contains hid)).mp hsecond⟩
  · rintro ⟨id, hfirst, hsecond⟩
    have hid := hwithin.lt_of_contains hfirst
    exact ⟨_, (lookahead_mem_predictLookaheads_iff hrepresents hid).mpr hfirst,
      (lookahead_mem_predictLookaheads_iff hrepresents hid).mpr hsecond⟩

section Nonterminal

variable {nonterminal : Nat} (hnonterminal : nonterminal < numbered.nonterminalCount)
include hnonterminal

theorem mem_ambiguousRules_iff_meet {index : Nat} :
    index ∈ (ofNumbered numbered).ambiguousRules nonterminal ↔
      grammar.IsAlternative (numbered.numbering.nonterminalName nonterminal) index ∧
        ∃ earlier < index,
          grammar.IsAlternative (numbered.numbering.nonterminalName nonterminal) earlier ∧
            (ofNumbered numbered).Meet earlier index := by
  rw [ambiguousRules, overlapsOf_ofNumbered hnonterminal,
    NumberedGrammar.mem_overlaps_iff (predict_within hrepresents)]
  simp only [hrepresents.mem_alternatives_iff hnonterminal, meet_ofNumbered_iff hrepresents,
    and_left_comm]

/-- Of two rules that meet, the later one is marked. -/
theorem marks_ofNumbered :
    (ofNumbered numbered).Marks grammar (numbered.numbering.nonterminalName nonterminal)
      ((ofNumbered numbered).ambiguousRules nonterminal) where
  ascending := by
    rw [ambiguousRules, overlapsOf_ofNumbered hnonterminal]
    exact (numbered.pairwise_alternatives nonterminal).sublist
      NumberedGrammar.rules_overlapsFrom_sublist
  mem_iff _ := mem_ambiguousRules_iff_meet hrepresents hnonterminal
  apart := by
    rintro first second hne hfirst hsecond hunmarked hunmarked' ⟨seen, hseen, hseen'⟩
    rcases Nat.lt_or_gt_of_ne hne with hlt | hgt
    · exact hunmarked' ((mem_ambiguousRules_iff_meet hrepresents hnonterminal).mpr
        ⟨hsecond, first, hlt, hfirst, seen, hseen, hseen'⟩)
    · exact hunmarked ((mem_ambiguousRules_iff_meet hrepresents hnonterminal).mpr
        ⟨hfirst, second, hgt, hsecond, seen, hseen', hseen⟩)

theorem exists_reports {overlap : Overlap}
    (hoverlap : overlap ∈ (ofNumbered numbered).overlapsOf nonterminal) :
    ∃ conflict,
      ((ofNumbered numbered).rule? overlap.rule).map (fun rule =>
        { rule := rule, overlap := (ofNumbered numbered).lookaheads overlap.shared }) =
          some conflict ∧
        (ofNumbered numbered).Reports grammar overlap.rule conflict := by
  have hpredict := predict_within hrepresents
  have hwithin := NumberedGrammar.within_setAt hpredict overlap.rule
  have hmarked : overlap.rule ∈ (ofNumbered numbered).ambiguousRules nonterminal :=
    List.mem_map_of_mem hoverlap
  obtain ⟨⟨named, hnamed, hname⟩, earlier, hlt, hearlier, hmeet⟩ :=
    (mem_ambiguousRules_iff_meet hrepresents hnonterminal).mp hmarked
  rw [overlapsOf_ofNumbered hnonterminal] at hoverlap
  have hmem (seen : Lookahead) : seen ∈ (ofNumbered numbered).lookaheads overlap.shared ↔
      seen ∈ (ofNumbered numbered).predictLookaheads overlap.rule ∧ ∃ earlier < overlap.rule,
        grammar.IsAlternative named.lhs earlier ∧
          seen ∈ (ofNumbered numbered).predictLookaheads earlier := by
    rw [hname, predictLookaheads, lookaheads, lookaheads, List.mem_map, List.mem_map]
    simp only [LookaheadSet.mem_toList, NumberedGrammar.contains_shared_iff hpredict hoverlap,
      ← hrepresents.mem_alternatives_iff hnonterminal]
    constructor
    · rintro ⟨id, ⟨hid, earlier, hlt, hearlier, hcontains⟩, rfl⟩
      exact ⟨⟨id, hid, rfl⟩, earlier, hlt, hearlier,
        (lookahead_mem_predictLookaheads_iff hrepresents (hwithin.lt_of_contains hid)).mpr
          hcontains⟩
    · rintro ⟨⟨id, hid, rfl⟩, earlier, hlt, hearlier, hseen⟩
      exact ⟨id, ⟨hid, earlier, hlt, hearlier,
        (lookahead_mem_predictLookaheads_iff hrepresents (hwithin.lt_of_contains hid)).mp
          hseen⟩, rfl⟩
  obtain ⟨seen, hseen, hseen'⟩ := hmeet
  obtain ⟨_, _, _, hshared⟩ := NumberedGrammar.exists_split_of_mem_overlapsFrom hoverlap
  refine ⟨⟨named, (ofNumbered numbered).lookaheads overlap.shared⟩, ?_, hnamed, ?_, ?_, hmem⟩
  · rw [rule?, NumberedGrammar.rule?, ofNumbered, hrepresents.grammar_eq, hnamed]
    rfl
  · exact List.ne_nil_of_mem ((hmem seen).mpr ⟨hseen', earlier, hlt, hname ▸ hearlier, hseen⟩)
  · dsimp only
    rw [hshared]
    exact (LookaheadSet.toList_inter_sublist _ _).map _

end Nonterminal

theorem forall₂_reports :
    List.Forall₂ ((ofNumbered numbered).Reports grammar)
      ((ofNumbered numbered).nonterminals.flatMap (ofNumbered numbered).ambiguousRules)
      (ofNumbered numbered).conflicts :=
  forall₂_flatMap fun _ hmem => forall₂_map_filterMap fun _ hoverlap =>
    exists_reports hrepresents (List.mem_range.mp hmem) hoverlap

omit hrepresents in
theorem conflictsByWalk_ofNumbered :
    (ofNumbered numbered).conflictsByWalk = (ofNumbered numbered).conflicts := by
  rw [conflictsByWalk, conflicts, List.flatMap_def, List.flatMap_def]
  refine congrArg List.flatten (List.map_congr_left fun nonterminal hmem => ?_)
  have hoverlaps : (ofNumbered numbered).overlapsOf nonterminal =
      numbered.overlaps (ofNumbered numbered).predict nonterminal :=
    overlapsOf_ofNumbered (List.mem_range.mp hmem)
  have hnodup : ((ofNumbered numbered).alternatives nonterminal).Nodup :=
    (numbered.pairwise_alternatives nonterminal).imp Nat.ne_of_lt
  rw [ambiguousRules, hoverlaps]
  exact conflictsAlong_eq hnodup fun _ _ => Iff.rfl

theorem conflicts_eq_nil_iff_ofNumbered :
    (ofNumbered numbered).conflicts = [] ↔ (ofNumbered numbered).isAmbiguous = false := by
  have hlength := (forall₂_reports hrepresents).length_eq
  rw [← List.length_eq_zero_iff, ← hlength, List.length_eq_zero_iff, List.flatMap_eq_nil_iff,
    isAmbiguous_ofNumbered hrepresents, predictive_iff hrepresents]
  refine forall_congr' fun nonterminal => ?_
  rw [nonterminals, List.mem_range]
  refine forall_congr' fun hlt => ?_
  have hoverlaps : (ofNumbered numbered).overlapsOf nonterminal =
      numbered.overlaps (ofNumbered numbered).predict nonterminal := overlapsOf_ofNumbered hlt
  rw [ambiguousRules, List.map_eq_nil_iff, hoverlaps]

end OfNumbered

section OfGrammar

variable (hanalysis : ofGrammar grammar = .ok analysis)
include hanalysis

theorem exists_marks {rule : Rule} (hrule : rule ∈ grammar.rules) :
    ∃ id, analysis.nonterminalId? rule.lhs = some id ∧
      analysis.Marks grammar rule.lhs (analysis.ambiguousRules id) := by
  obtain ⟨id, hid⟩ := (exists_nonterminalId?_iff hanalysis).mpr ⟨rule, hrule, rfl⟩
  obtain ⟨numbered, hrepresents, rfl⟩ := exists_represents hanalysis
  obtain ⟨hlt, hname⟩ := nonterminalName_of_nonterminalId? hid
  exact ⟨id, hid, hname ▸ marks_ofNumbered hrepresents hlt⟩

theorem isAmbiguous_iff_meet :
    analysis.isAmbiguous = true ↔ ∃ name first second, first ≠ second ∧
      grammar.IsAlternative name first ∧ grammar.IsAlternative name second ∧
        analysis.Meet first second := by
  rw [← Bool.not_eq_false, (describes_of_ofGrammar hanalysis).isAmbiguous_eq_false]
  constructor
  · intro hnot
    by_contra hnone
    refine hnot fun first second rule rule' hfirst hsecond hlhs seen hseen hseen' => ?_
    by_contra hne
    exact hnone ⟨rule.lhs, first, second, hne, ⟨rule, hfirst, rfl⟩, ⟨rule', hsecond, hlhs.symm⟩,
      seen, (mem_predictLookaheads_iff hanalysis hfirst).mpr hseen,
      (mem_predictLookaheads_iff hanalysis hsecond).mpr hseen'⟩
  · rintro ⟨name, first, second, hne, ⟨rule, hfirst, hlhs⟩, ⟨rule', hsecond, hlhs'⟩, seen, hseen,
      hseen'⟩ hpredictive
    exact hne (hpredictive first second rule rule' hfirst hsecond (hlhs.trans hlhs'.symm) seen
      ((mem_predictLookaheads_iff hanalysis hfirst).mp hseen)
      ((mem_predictLookaheads_iff hanalysis hsecond).mp hseen'))

theorem conflicts_eq_nil_iff : analysis.conflicts = [] ↔ analysis.isAmbiguous = false := by
  obtain ⟨numbered, hrepresents, rfl⟩ := exists_represents hanalysis
  exact conflicts_eq_nil_iff_ofNumbered hrepresents

theorem ofGrammar_eq_ambiguous_iff {conflicts : List Conflict} :
    Parser.ofGrammar grammar = .error (.ambiguous conflicts) ↔
      conflicts = analysis.conflicts ∧ analysis.conflicts ≠ [] := by
  rw [Ne, conflicts_eq_nil_iff hanalysis, Bool.not_eq_false, Parser.ofGrammar, hanalysis]
  dsimp only
  rw [Parser.ofAnalysis]
  split
  · rename_i hambiguous
    simp [hambiguous, eq_comm]
  · rename_i hunambiguous
    simp [hunambiguous]

end OfGrammar

/-- The rules found by the running union are those that meet some earlier rule, and the conflicts
report, rule by rule, what each of them shares with all earlier ones. An analysis is ambiguous when
two rules of a nonterminal meet, and a grammar is refused a parser when there are conflicts. -/
theorem conflicts_exact (hanalysis : ofGrammar grammar = .ok analysis) :
    (∀ rule ∈ grammar.rules, ∃ id, analysis.nonterminalId? rule.lhs = some id ∧
        analysis.Marks grammar rule.lhs (analysis.ambiguousRules id)) ∧
      (analysis.isAmbiguous = true ↔ ∃ name first second, first ≠ second ∧
        grammar.IsAlternative name first ∧ grammar.IsAlternative name second ∧
          analysis.Meet first second) ∧
      List.Forall₂ (analysis.Reports grammar)
        (analysis.nonterminals.flatMap analysis.ambiguousRules) analysis.conflicts ∧
      analysis.conflictsByWalk = analysis.conflicts ∧
      ∀ conflicts, Parser.ofGrammar grammar = .error (.ambiguous conflicts) ↔
        conflicts = analysis.conflicts ∧ analysis.conflicts ≠ [] := by
  refine ⟨fun rule hrule => exists_marks hanalysis hrule, isAmbiguous_iff_meet hanalysis, ?_, ?_,
    fun conflicts => ofGrammar_eq_ambiguous_iff hanalysis⟩
  · obtain ⟨numbered, hrepresents, rfl⟩ := exists_represents hanalysis
    exact forall₂_reports hrepresents
  · obtain ⟨numbered, hrepresents, rfl⟩ := exists_represents hanalysis
    exact conflictsByWalk_ofNumbered

end Analysis

/-- Lists of letters with a repeated rule and a left-recursive one. -/
def Grammar.repeated : Grammar :=
  { rules :=
      [{ lhs := "s", production := [.terminal "a"] },
        { lhs := "s", production := [.nonterminal "s", .terminal "b"] },
        { lhs := "s", production := [.terminal "a"] }] }

def Analysis.repeated : Analysis :=
  .ofNumbered
    { grammar := .repeated
      numbering := Grammar.repeated.numbering
      rules :=
        [{ lhs := 0, production := [.terminal 0] },
          { lhs := 0, production := [.nonterminal 0, .terminal 1] },
          { lhs := 0, production := [.terminal 0] }] }

theorem Analysis.ofGrammar_repeated : Analysis.ofGrammar .repeated = .ok .repeated := by
  rfl

namespace Analysis

theorem repeated_conflicts_exact :
    Analysis.repeated.ambiguousRules 0 = [1, 2] ∧
      (∃ earlier < 2, Grammar.repeated.IsAlternative "s" earlier ∧
        Analysis.repeated.Meet earlier 2) ∧
      Analysis.repeated.conflicts =
        [{ rule := ⟨"s", [.nonterminal "s", .terminal "b"]⟩, overlap := [.terminal "a"] },
          { rule := ⟨"s", [.terminal "a"]⟩, overlap := [.terminal "a"] }] ∧
      List.Forall₂ (Analysis.repeated.Reports .repeated) [1, 2] Analysis.repeated.conflicts ∧
      Parser.ofGrammar .repeated = .error (.ambiguous Analysis.repeated.conflicts) := by
  have hmarked : Analysis.repeated.ambiguousRules 0 = [1, 2] := by decide +kernel
  have hconflicts : Analysis.repeated.conflicts =
      [{ rule := ⟨"s", [.nonterminal "s", .terminal "b"]⟩, overlap := [.terminal "a"] },
        { rule := ⟨"s", [.terminal "a"]⟩, overlap := [.terminal "a"] }] := by decide +kernel
  have hall : Analysis.repeated.nonterminals.flatMap Analysis.repeated.ambiguousRules =
      [1, 2] := by
    decide +kernel
  obtain ⟨hmarks, _, hreports, _, hrefused⟩ := conflicts_exact ofGrammar_repeated
  obtain ⟨id, hid, hexact⟩ := hmarks ⟨"s", [.terminal "a"]⟩ (by decide)
  obtain rfl : 0 = id := Option.some.inj (hid ▸ by decide +kernel)
  exact ⟨hmarked, ((hexact.mem_iff 2).mp (by simp [hmarked])).2, hconflicts, hall ▸ hreports,
    (hrefused _).mpr ⟨rfl, by simp [hconflicts]⟩⟩

end Analysis

end TopDown
