import TopDown.Proofs.Choice
import TopDown.Proofs.Sweeps
import TopDown.Trace

/-!
# How fast the tables converge

A nullable flag is a mark of its own, and the lookaheads are the marks of a set. What a rule adds
for one lookahead depends only on which sets have that lookahead, so every table is complete after
as many sweeps as there are nonterminals. The main statement says so of the counts that are
reported.
-/

namespace TopDown

/-- A raised flag is a mark. -/
def flagMarking : Marking Bool Unit where
  Has flag _ := flag = true
  Valid _ := True
  valid_absorb _ _ := trivial
  has_absorb _ _ := by simp [Absorbing.absorb]
  absorb_unchanged {old value} hunchanged := by
    cases old <;> cases value <;> simp_all [Absorbing.absorb]
  exists_new {old value} _ _ hchanged := by
    cases old <;> cases value <;> simp_all [Absorbing.absorb]

/-- The lookaheads of a set are its marks. -/
def lookaheadMarking (capacity : Nat) : Marking LookaheadSet Nat where
  Has set id := set.contains id = true
  Valid := LookaheadSet.Within capacity
  valid_absorb := LookaheadSet.Within.union
  has_absorb hold hvalue _ := hold.contains_union_iff hvalue
  absorb_unchanged := LookaheadSet.absorb_fst_of_unchanged
  exists_new := LookaheadSet.Within.exists_contains_of_absorb

namespace NumberedGrammar

variable {grammar : Grammar} {numbered : NumberedGrammar}

abbrev marking (numbered : NumberedGrammar) : Marking LookaheadSet Nat :=
  lookaheadMarking numbered.numbering.lookaheadCount

theorem flagMarking_at_iff {table : Array Bool} {index : Nat} {mark : Unit} :
    flagMarking.At table index mark ↔ table.getD index false = true := by
  rw [Marking.At, Array.getD_eq_getD_getElem?]
  cases table[index]? <;> simp [flagMarking]

theorem marking_at_iff {table : Array LookaheadSet} {index id : Nat} :
    numbered.marking.At table index id ↔ (numbered.setAt table index).contains id = true := by
  rw [Marking.At, setAt, Array.getD_eq_getD_getElem?]
  cases table[index]? <;> simp [marking, lookaheadMarking, emptySet, LookaheadSet.contains_empty]

/-! ### Rules decide about each mark by itself

Whether an update gives its target a mark is decided by where this one mark stands in the table. So
the sweeps of different marks do not depend on one another. -/

theorem canVanish_congr {table other : Array Bool} {mark : Unit}
    (hagree : flagMarking.Agree mark table other) (symbols : List NumberedSymbol) :
    canVanish table symbols = canVanish other symbols := by
  rw [canVanish, canVanish]
  congr 1
  funext symbol
  cases symbol with
  | terminal id => rfl
  | nonterminal id =>
      rw [Bool.eq_iff_iff, ← flagMarking_at_iff, ← flagMarking_at_iff]
      exact hagree.at_iff id

theorem markwise_nullableUpdate (rule : NumberedRule) :
    flagMarking.Markwise rule.nullableUpdate where
  valid _ := trivial
  has_iff _ _ hagree := Eq.to_iff (congrArg (· = true) (canVanish_congr hagree rule.production))

theorem contains_firstOf_congr {nullable : Array Bool} {table other : Array LookaheadSet} {id : Nat}
    (htable : numbered.EachWithin table) (hother : numbered.EachWithin other)
    (hagree : numbered.marking.Agree id table other) {symbols : List NumberedSymbol}
    (huses : ∀ symbol ∈ symbols, numbered.numbering.Uses symbol) :
    (numbered.firstOf nullable table symbols).contains id = true ↔
      (numbered.firstOf nullable other symbols).contains id = true := by
  induction symbols with
  | nil => rfl
  | cons symbol symbols ih =>
      rw [List.forall_mem_cons] at huses
      cases symbol with
      | terminal terminal => rfl
      | nonterminal nonterminal =>
          rw [contains_firstOf_nonterminal htable huses.2,
            contains_firstOf_nonterminal hother huses.2, ih huses.2, ← marking_at_iff,
            ← marking_at_iff, hagree.at_iff]

theorem length_sweeps_nullableTable_le :
    numbered.nullableTable.sweeps.length ≤ numbered.nonterminalCount + 1 := by
  have hupdates : ∀ update ∈ numbered.rules.map NumberedRule.nullableUpdate,
      flagMarking.Markwise update :=
    List.forall_mem_map.mpr fun rule _ => markwise_nullableUpdate rule
  have htable : flagMarking.ValidTable (Array.replicate numbered.nonterminalCount false) :=
    fun _ _ _ => trivial
  have hle := Marking.length_sweeps_saturate_le hupdates htable
  rwa [Array.size_replicate] at hle

theorem eachWithin_emptyTable : numbered.EachWithin numbered.emptyTable := by
  intro index set hset
  rw [emptyTable, Array.getElem?_replicate] at hset
  split at hset <;> cases hset
  exact numbered.within_emptySet

theorem eachWithin_followStart : numbered.EachWithin numbered.followStart := by
  intro index set hset
  obtain ⟨_, rfl⟩ | ⟨_, rfl⟩ := eq_of_followStart hset
  · exact numbered.within_emptySet.insert (Nat.lt_succ_self _)
  · exact numbered.within_emptySet

namespace Represents

variable (hrepresents : numbered.Represents grammar)
include hrepresents

theorem markwise_firstUpdate (nullable : Array Bool) {rule : NumberedRule}
    (hrule : rule ∈ numbered.rules) :
    numbered.marking.Markwise (numbered.firstUpdate nullable rule) where
  valid htable := within_firstOf htable (hrepresents.uses rule hrule)
  has_iff htable hother hagree :=
    contains_firstOf_congr htable hother hagree (hrepresents.uses rule hrule)

theorem markwise_followUpdate (nullable : Array Bool) {first : Array LookaheadSet}
    (hfirst : numbered.EachWithin first) {rule : NumberedRule} (hrule : rule ∈ numbered.rules)
    {nonterminal : Nat} {rest : List NumberedSymbol}
    (hmem : (nonterminal, rest) ∈ occurrences rule.production) :
    numbered.marking.Markwise
      (numbered.followUpdate nullable first rule.lhs (nonterminal, rest)) where
  valid htable := within_followUpdate nullable rule.lhs nonterminal hfirst htable
    (hrepresents.uses_of_mem_occurrences hrule hmem)
  has_iff htable hother hagree := by
    have huses := hrepresents.uses_of_mem_occurrences hrule hmem
    have hlhs := hagree.at_iff rule.lhs
    rw [marking_at_iff, marking_at_iff] at hlhs
    exact (contains_followUpdate_iff hfirst htable huses).trans
      ((or_congr_right (and_congr_right fun _ => hlhs)).trans
        (contains_followUpdate_iff hfirst hother huses).symm)

theorem length_sweeps_firstTable_le (nullable : Array Bool) :
    (numbered.firstTable nullable).sweeps.length ≤ numbered.nonterminalCount + 1 := by
  have hupdates : ∀ update ∈ numbered.rules.map (numbered.firstUpdate nullable),
      numbered.marking.Markwise update :=
    List.forall_mem_map.mpr fun _ hrule => hrepresents.markwise_firstUpdate nullable hrule
  have hle := Marking.length_sweeps_saturate_le hupdates eachWithin_emptyTable
  rwa [emptyTable, Array.size_replicate] at hle

theorem length_sweeps_followTable_le (nullable : Array Bool) {first : Array LookaheadSet}
    (hfirst : numbered.EachWithin first) :
    (numbered.followTable nullable first).sweeps.length ≤ numbered.nonterminalCount + 1 := by
  have hupdates : ∀ update ∈ numbered.followUpdates nullable first,
      numbered.marking.Markwise update := by
    intro update hupdate
    obtain ⟨rule, hrule, nonterminal, rest, hmem, rfl⟩ := mem_followUpdates.mp hupdate
    exact hrepresents.markwise_followUpdate nullable hfirst hrule hmem
  have hle := Marking.length_sweeps_saturate_le hupdates eachWithin_followStart
  rwa [followStart, Array.size_modify, emptyTable, Array.size_replicate] at hle

end Represents

end NumberedGrammar

/-- The number of sweeps after which a table is reported to be complete. -/
def Event.sweepCount? : Event → Option Nat
  | .nullableConverged sweeps => some sweeps
  | .firstConverged sweeps => some sweeps
  | .followConverged sweeps => some sweeps
  | _ => none

theorem Saturated.sweepCounts_events {α : Type} (saturated : Saturated α)
    (sweep : Nat → Array α → Event) (converged : Nat → Event)
    (hsweep : ∀ number table, (sweep number table).sweepCount? = none)
    (hconverged : ∀ sweeps, (converged sweeps).sweepCount? = some sweeps) :
    (saturated.events sweep converged).filterMap Event.sweepCount? =
      [saturated.sweeps.length] := by
  have hsweeps : (saturated.sweeps.mapIdx fun index table => sweep (index + 1) table).filterMap
      Event.sweepCount? = [] := by
    rw [List.filterMap_eq_nil_iff]
    intro event hevent
    obtain ⟨index, hlt, rfl⟩ := List.mem_mapIdx.mp hevent
    exact hsweep _ _
  rw [Saturated.events, List.filterMap_append, hsweeps]
  simp [hconverged]

namespace Analysis

variable {grammar : Grammar} {analysis : Analysis}

/-- The reports name the numbers of sweeps that the three tables have taken, in order. -/
theorem sweepCounts_events (analysis : Analysis) :
    analysis.events.filterMap Event.sweepCount? =
      [analysis.nullable.sweeps.length, analysis.first.sweeps.length,
        analysis.follow.sweeps.length] := by
  have hoverlaps : analysis.overlapEvents.filterMap Event.sweepCount? = [] := by
    rw [List.filterMap_eq_nil_iff]
    intro event hevent
    obtain ⟨nonterminal, _, hevent⟩ := List.mem_flatMap.mp hevent
    obtain ⟨overlap, _, hevent⟩ := List.mem_filterMap.mp hevent
    obtain ⟨rule, _, rfl⟩ := Option.map_eq_some_iff.mp hevent
    rfl
  rw [events, List.filterMap_cons_none rfl, List.filterMap_append, List.filterMap_append,
    List.filterMap_append, hoverlaps,
    analysis.nullable.sweepCounts_events .nullableSweep .nullableConverged (fun _ _ => rfl)
      fun _ => rfl,
    analysis.first.sweepCounts_events .firstSweep .firstConverged (fun _ _ => rfl) fun _ => rfl,
    analysis.follow.sweepCounts_events .followSweep .followConverged (fun _ _ => rfl) fun _ => rfl]
  rfl

/-- However many rules and terminals a grammar has, and whatever their order, each table is complete
after at most one sweep more than there are nonterminals. -/
theorem sweepCounts_le (hanalysis : ofGrammar grammar = .ok analysis) :
    analysis.events.filterMap Event.sweepCount? =
        [analysis.nullable.sweeps.length, analysis.first.sweeps.length,
          analysis.follow.sweeps.length] ∧
      ∀ count ∈ analysis.events.filterMap Event.sweepCount?,
        1 ≤ count ∧ count ≤ analysis.nonterminals.length + 1 := by
  obtain ⟨numbered, hrepresents, rfl⟩ := exists_represents hanalysis
  have hcount : (ofNumbered numbered).nonterminals.length = numbered.nonterminalCount :=
    List.length_range
  refine ⟨sweepCounts_events _, ?_⟩
  rw [sweepCounts_events, hcount, List.forall_mem_cons, List.forall_mem_cons,
    List.forall_mem_singleton]
  exact ⟨⟨length_sweeps_pos _ _, NumberedGrammar.length_sweeps_nullableTable_le⟩,
    ⟨length_sweeps_pos _ _, hrepresents.length_sweeps_firstTable_le _⟩,
    ⟨length_sweeps_pos _ _,
      hrepresents.length_sweeps_followTable_le _ hrepresents.firstTable_within⟩⟩

/-- The single nonterminal of the grammar of pairs has nothing to wait for. -/
theorem pairs_sweepCounts_le :
    Analysis.pairs.events.filterMap Event.sweepCount? = [2, 2, 2] ∧
      ∀ count ∈ Analysis.pairs.events.filterMap Event.sweepCount?, 1 ≤ count ∧ count ≤ 1 + 1 := by
  obtain ⟨hcounts, hbounds⟩ := sweepCounts_le Analysis.ofGrammar_pairs
  refine ⟨?_, hbounds⟩
  rw [hcounts]
  decide +kernel

end Analysis

end TopDown
