import TopDown.Analysis.Predict
import TopDown.Proofs.First
import TopDown.Proofs.Lookahead

/-!
# What follows and what predicts

The saturated follow sets hold the lookaheads that follow the nonterminals, and the predict set of a
rule holds the lookaheads at which it is to be expanded.
-/

namespace TopDown

namespace Numbering

variable {numbering : Numbering} {id : Nat} {seen : Lookahead} {name : String}

theorem lookahead_terminal (hname : numbering.terminals[id]? = some name) :
    numbering.lookahead id = .terminal name := by
  rw [lookahead, hname]

theorem lookahead_endOfInput : numbering.lookahead numbering.endOfInput = .endOfInput := by
  rw [lookahead, endOfInput, List.getElem?_eq_none (Nat.le_refl _)]

theorem lookaheadId?_eq_some_iff (hnodup : numbering.terminals.Nodup) :
    numbering.lookaheadId? seen = some id ↔
      id < numbering.lookaheadCount ∧ numbering.lookahead id = seen := by
  cases seen with
  | terminal name =>
      constructor
      · intro hid
        have hname := getElem?_of_idxOf? hid
        have hlt := (List.getElem?_eq_some_iff.mp hname).1
        exact ⟨Nat.lt_succ_of_lt hlt, lookahead_terminal hname⟩
      · rintro ⟨_, hlookahead⟩
        unfold lookahead at hlookahead
        split at hlookahead
        · rename_i other hname
          rw [Lookahead.terminal.injEq] at hlookahead
          rw [hlookahead] at hname
          exact idxOf?_of_getElem? hnodup hname
        · cases hlookahead
  | endOfInput =>
      rw [lookaheadId?, Option.some.injEq]
      constructor
      · rintro rfl
        exact ⟨Nat.lt_succ_self _, lookahead_endOfInput⟩
      · rintro ⟨hlt, hlookahead⟩
        unfold lookahead at hlookahead
        split at hlookahead
        · cases hlookahead
        · rename_i hnone
          rw [List.getElem?_eq_none_iff] at hnone
          rw [lookaheadCount] at hlt
          rw [endOfInput]
          omega

end Numbering

theorem mem_occurrences {symbols rest : List NumberedSymbol} {nonterminal : Nat} :
    (nonterminal, rest) ∈ occurrences symbols ↔
      ∃ before, symbols = before ++ .nonterminal nonterminal :: rest := by
  induction symbols with
  | nil => simp [occurrences]
  | cons symbol symbols ih =>
      cases symbol with
      | terminal id =>
          rw [occurrences, ih]
          constructor
          · rintro ⟨before, rfl⟩
            exact ⟨.terminal id :: before, rfl⟩
          · rintro ⟨before, hsplit⟩
            cases before with
            | nil => cases hsplit
            | cons first before =>
                rw [List.cons_append, List.cons.injEq] at hsplit
                exact ⟨before, hsplit.2⟩
      | nonterminal id =>
          rw [occurrences, List.mem_cons, ih]
          constructor
          · rintro (hhere | ⟨before, rfl⟩)
            · cases hhere
              exact ⟨[], rfl⟩
            · exact ⟨.nonterminal id :: before, rfl⟩
          · rintro ⟨before, hsplit⟩
            cases before with
            | nil =>
                cases hsplit
                exact .inl rfl
            | cons first before =>
                rw [List.cons_append, List.cons.injEq] at hsplit
                exact .inr ⟨before, hsplit.2⟩

namespace NumberedGrammar

variable {grammar : Grammar} {numbered : NumberedGrammar}

abbrev followSets (numbered : NumberedGrammar) : Array LookaheadSet :=
  (numbered.followTable numbered.nullables numbered.firstSets).table

/-- What an entry of the table of follow sets has to be. -/
structure FollowEntry (numbered : NumberedGrammar) (grammar : Grammar) (nonterminal : Nat)
    (set : LookaheadSet) : Prop where
  within : set.Within numbered.numbering.lookaheadCount
  follows : ∀ {id}, set.contains id = true →
    grammar.Follows (numbered.numbering.nonterminalName nonterminal)
      (numbered.numbering.lookahead id)

namespace Represents

theorem derives_terminal_of_contains (hrepresents : numbered.Represents grammar)
    {symbols : List NumberedSymbol} {id : Nat}
    (huses : ∀ symbol ∈ symbols, numbered.numbering.Uses symbol)
    (hcontains :
      (numbered.firstOf numbered.nullables numbered.firstSets symbols).contains id = true) :
    ∃ name rest, numbered.numbering.lookahead id = .terminal name ∧
      grammar.Derives (symbols.map numbered.numbering.decode) (.terminal name :: rest) := by
  obtain ⟨rest, hderives⟩ := (hrepresents.contains_firstOf_iff huses).mp hcontains
  have hlt : id < numbered.numbering.terminals.length :=
    hrepresents.uses_of_derives huses hderives (.terminal id) (by simp)
  have hname := List.getElem?_eq_getElem hlt
  have hdecoded := hrepresents.decode_derives hderives
  rw [List.map_cons, Numbering.decode, hname, Option.getD_some] at hdecoded
  exact ⟨_, _, Numbering.lookahead_terminal hname, hdecoded⟩

theorem contains_of_derives_terminal (hrepresents : numbered.Represents grammar)
    {symbols : List NumberedSymbol} {name : String} {rest : List Symbol}
    (huses : ∀ symbol ∈ symbols, numbered.numbering.Uses symbol)
    (hderives : grammar.Derives (symbols.map numbered.numbering.decode) (.terminal name :: rest)) :
    ∃ id, numbered.numbering.lookahead id = .terminal name ∧
      (numbered.firstOf numbered.nullables numbered.firstSets symbols).contains id = true := by
  obtain ⟨origin, horigin, hnumbered, huses'⟩ := hrepresents.exists_derives huses hderives
  obtain ⟨symbol, origin, rfl, hsymbol, rfl⟩ := List.map_eq_cons_iff.mp horigin.symm
  rw [List.forall_mem_cons] at huses'
  cases symbol with
  | nonterminal id => cases hsymbol
  | terminal id =>
      have hname := List.getElem?_eq_getElem huses'.1
      rw [Numbering.decode, hname, Option.getD_some, Symbol.terminal.injEq] at hsymbol
      refine ⟨id, ?_, (hrepresents.contains_firstOf_iff huses).mpr ⟨origin, hnumbered⟩⟩
      rw [Numbering.lookahead_terminal hname, hsymbol]

theorem canVanish_iff_derives (hrepresents : numbered.Represents grammar)
    {symbols : List NumberedSymbol} (huses : ∀ symbol ∈ symbols, numbered.numbering.Uses symbol) :
    canVanish numbered.nullables symbols = true ↔
      grammar.Derives (symbols.map numbered.numbering.decode) [] := by
  rw [hrepresents.canVanish_iff]
  constructor
  · exact fun hderives => hrepresents.decode_derives hderives
  · intro hderives
    obtain ⟨origin, hnil, hnumbered, _⟩ := hrepresents.exists_derives huses hderives
    obtain rfl := List.map_eq_nil_iff.mp hnil.symm
    exact hnumbered

theorem exists_occurrence (hrepresents : numbered.Represents grammar) {rule : NumberedRule}
    (hrule : rule ∈ numbered.rules) {before after : List Symbol} {nonterminal : Nat}
    (hnonterminal : nonterminal < numbered.nonterminalCount)
    (hsplit : (numbered.numbering.decodeRule rule).production =
      before ++ .nonterminal (numbered.numbering.nonterminalName nonterminal) :: after) :
    ∃ rest, (nonterminal, rest) ∈ occurrences rule.production ∧
      after = rest.map numbered.numbering.decode ∧
      ∀ symbol ∈ rest, numbered.numbering.Uses symbol := by
  obtain ⟨left, right, hproduction, _, hright⟩ := List.map_eq_append_iff.mp hsplit
  obtain ⟨symbol, rest, rfl, hsymbol, rfl⟩ := List.map_eq_cons_iff.mp hright
  have huses := hrepresents.uses rule hrule
  rw [hproduction] at huses
  refine ⟨rest, ?_, rfl, fun other hother => huses other (by simp [hother])⟩
  cases symbol with
  | terminal id => cases hsymbol
  | nonterminal id =>
      rw [Numbering.decode, Symbol.nonterminal.injEq] at hsymbol
      have hid : id < numbered.nonterminalCount := huses (.nonterminal id) (by simp)
      obtain rfl := hrepresents.nonterminalName_inj hid hnonterminal hsymbol
      exact mem_occurrences.mpr ⟨left, hproduction⟩

end Represents

theorem within_followUpdate (nullable : Array Bool) {first follow : Array LookaheadSet}
    (lhs nonterminal : Nat) {rest : List NumberedSymbol} (hfirst : numbered.EachWithin first)
    (hfollow : numbered.EachWithin follow)
    (huses : ∀ symbol ∈ rest, numbered.numbering.Uses symbol) :
    ((numbered.followUpdate nullable first lhs (nonterminal, rest)).value follow).Within
      numbered.numbering.lookaheadCount := by
  rw [followUpdate]
  dsimp only
  split
  · exact (within_firstOf hfirst huses).union (within_setAt hfollow lhs)
  · exact within_firstOf hfirst huses

theorem contains_followUpdate_iff {nullable : Array Bool} {first follow : Array LookaheadSet}
    {lhs nonterminal id : Nat} {rest : List NumberedSymbol} (hfirst : numbered.EachWithin first)
    (hfollow : numbered.EachWithin follow)
    (huses : ∀ symbol ∈ rest, numbered.numbering.Uses symbol) :
    ((numbered.followUpdate nullable first lhs (nonterminal, rest)).value follow).contains id =
        true ↔
      (numbered.firstOf nullable first rest).contains id = true ∨
        canVanish nullable rest = true ∧ (numbered.setAt follow lhs).contains id = true := by
  rw [followUpdate]
  dsimp only
  split
  · rename_i hvanish
    rw [(within_firstOf hfirst huses).contains_union_iff (within_setAt hfollow lhs)]
    simp [hvanish]
  · rename_i hvanish
    simp [hvanish]

theorem followEntry_emptySet (nonterminal : Nat) :
    numbered.FollowEntry grammar nonterminal numbered.emptySet where
  within := LookaheadSet.within_empty _
  follows := by
    intro id hcontains
    rw [emptySet, LookaheadSet.contains_empty] at hcontains
    exact absurd hcontains Bool.false_ne_true

theorem followEntry_start (hrepresents : numbered.Represents grammar) :
    numbered.FollowEntry grammar Numbering.start
      (numbered.emptySet.insert numbered.numbering.endOfInput) where
  within := (LookaheadSet.within_empty _).insert (Nat.lt_succ_self _)
  follows := by
    intro id hcontains
    have hlt : numbered.numbering.endOfInput < numbered.numbering.lookaheadCount :=
      Nat.lt_succ_self _
    rw [emptySet, (LookaheadSet.within_empty _).contains_insert_iff hlt,
      LookaheadSet.contains_empty] at hcontains
    rcases hcontains with rfl | hcontains
    · rw [Numbering.lookahead_endOfInput]
      exact .endOfInput hrepresents.start?_eq
    · exact absurd hcontains Bool.false_ne_true

theorem eq_of_followStart {nonterminal : Nat} {set : LookaheadSet}
    (hset : numbered.followStart[nonterminal]? = some set) :
    (nonterminal = Numbering.start ∧
        set = numbered.emptySet.insert numbered.numbering.endOfInput) ∨
      nonterminal ≠ Numbering.start ∧ set = numbered.emptySet := by
  rw [followStart, Array.getElem?_modify, emptyTable, Array.getElem?_replicate] at hset
  split at hset
  · rename_i hstart
    split at hset
    · rw [Option.map_some, Option.some.injEq] at hset
      exact .inl ⟨hstart.symm, hset.symm⟩
    · cases hset
  · rename_i hstart
    split at hset
    · rw [Option.some.injEq] at hset
      exact .inr ⟨fun hsame => hstart hsame.symm, hset.symm⟩
    · cases hset

namespace Represents

theorem mem_followUpdates {nullable : Array Bool} {first : Array LookaheadSet}
    {update : Update LookaheadSet} :
    update ∈ numbered.followUpdates nullable first ↔
      ∃ rule ∈ numbered.rules, ∃ nonterminal rest,
        (nonterminal, rest) ∈ occurrences rule.production ∧
        numbered.followUpdate nullable first rule.lhs (nonterminal, rest) = update := by
  simp [followUpdates]

theorem uses_of_mem_occurrences (hrepresents : numbered.Represents grammar) {rule : NumberedRule}
    (hrule : rule ∈ numbered.rules) {nonterminal : Nat} {rest : List NumberedSymbol}
    (hmem : (nonterminal, rest) ∈ occurrences rule.production) :
    ∀ symbol ∈ rest, numbered.numbering.Uses symbol := by
  obtain ⟨before, hproduction⟩ := mem_occurrences.mp hmem
  intro symbol hsymbol
  exact hrepresents.uses rule hrule symbol (by simp [hproduction, hsymbol])

/-- An update adds only lookaheads that follow the nonterminal. -/
theorem follows_of_contains_followUpdate (hrepresents : numbered.Represents grammar)
    {rule : NumberedRule} (hrule : rule ∈ numbered.rules) {nonterminal id : Nat}
    {rest : List NumberedSymbol} (hmem : (nonterminal, rest) ∈ occurrences rule.production)
    {table : Array LookaheadSet} (htable : EachEntry (numbered.FollowEntry grammar) table)
    (hcontains : ((numbered.followUpdate numbered.nullables numbered.firstSets rule.lhs
      (nonterminal, rest)).value table).contains id = true) :
    grammar.Follows (numbered.numbering.nonterminalName nonterminal)
      (numbered.numbering.lookahead id) := by
  have huses := hrepresents.uses_of_mem_occurrences hrule hmem
  have hwithin : numbered.EachWithin table := fun index set hset => (htable index set hset).within
  obtain ⟨before, hproduction⟩ := mem_occurrences.mp hmem
  have hdecoded := hrepresents.decodeRule_mem hrule
  have hsplit : (numbered.numbering.decodeRule rule).production =
      before.map numbered.numbering.decode ++
        .nonterminal (numbered.numbering.nonterminalName nonterminal) ::
          rest.map numbered.numbering.decode := by
    rw [Numbering.decodeRule, hproduction, List.map_append, List.map_cons, Numbering.decode]
  rw [contains_followUpdate_iff hrepresents.firstTable_within hwithin huses] at hcontains
  rcases hcontains with hcontains | ⟨hvanish, hcontains⟩
  · obtain ⟨name, later, hlookahead, hderives⟩ :=
      hrepresents.derives_terminal_of_contains huses hcontains
    rw [hlookahead]
    exact .beside hdecoded hsplit hderives
  · have hentry : numbered.FollowEntry grammar rule.lhs (numbered.setAt table rule.lhs) :=
      EachEntry.setAt htable (followEntry_emptySet rule.lhs)
    exact .behind hdecoded hsplit ((hrepresents.canVanish_iff_derives huses).mp hvanish)
      (hentry.follows hcontains)

theorem followTable_sound (hrepresents : numbered.Represents grammar) :
    EachEntry (numbered.FollowEntry grammar) numbered.followSets := by
  refine eachEntry_saturate ?_ ?_
  · intro update hupdate table htable old hold
    obtain ⟨rule, hrule, nonterminal, rest, hmem, rfl⟩ := mem_followUpdates.mp hupdate
    have hvalue := within_followUpdate numbered.nullables rule.lhs nonterminal
      hrepresents.firstTable_within (fun index set hset => (htable index set hset).within)
      (hrepresents.uses_of_mem_occurrences hrule hmem)
    refine ⟨hold.within.union hvalue, fun {id} hcontains => ?_⟩
    rcases (hold.within.contains_union_iff hvalue).mp hcontains with hcontains | hcontains
    · exact hold.follows hcontains
    · exact hrepresents.follows_of_contains_followUpdate hrule hmem htable hcontains
  · intro nonterminal set hset
    rcases eq_of_followStart hset with ⟨rfl, rfl⟩ | ⟨_, rfl⟩
    · exact followEntry_start hrepresents
    · exact followEntry_emptySet nonterminal

theorem followTable_within (hrepresents : numbered.Represents grammar) :
    numbered.EachWithin numbered.followSets :=
  fun index set hset => (hrepresents.followTable_sound index set hset).within

theorem size_followSets : numbered.followSets.size = numbered.nonterminalCount := by
  rw [followSets, followTable, size_saturate, followStart, Array.size_modify, emptyTable,
    Array.size_replicate]

theorem contains_follow_of_occurrence (hrepresents : numbered.Represents grammar)
    {rule : NumberedRule} (hrule : rule ∈ numbered.rules) {nonterminal id : Nat}
    {rest : List NumberedSymbol} (hnonterminal : nonterminal < numbered.nonterminalCount)
    (hmem : (nonterminal, rest) ∈ occurrences rule.production)
    (hcontains : ((numbered.followUpdate numbered.nullables numbered.firstSets rule.lhs
      (nonterminal, rest)).value numbered.followSets).contains id = true) :
    (numbered.setAt numbered.followSets nonterminal).contains id = true := by
  have hlt : nonterminal < numbered.followSets.size := size_followSets ▸ hnonterminal
  have hget := Array.getElem?_eq_getElem hlt
  have hupdate : numbered.followUpdate numbered.nullables numbered.firstSets rule.lhs
      (nonterminal, rest) ∈ numbered.followUpdates numbered.nullables numbered.firstSets :=
    mem_followUpdates.mpr ⟨rule, hrule, nonterminal, rest, hmem, rfl⟩
  have hstable := LookaheadSet.absorb_fst_of_unchanged (absorb_saturate_unchanged hupdate hget)
  have hwithin := hrepresents.followTable_within nonterminal _ hget
  have hvalue := within_followUpdate numbered.nullables rule.lhs nonterminal
    hrepresents.firstTable_within hrepresents.followTable_within
    (hrepresents.uses_of_mem_occurrences hrule hmem)
  rw [setAt_eq_of_getElem? hget, ← hstable]
  exact (hwithin.contains_union_iff hvalue).mpr (.inr hcontains)

theorem contains_follow_start (hrepresents : numbered.Represents grammar) :
    (numbered.setAt numbered.followSets Numbering.start).contains numbered.numbering.endOfInput =
      true := by
  have hkept : EachEntry (fun nonterminal set =>
      set.Within numbered.numbering.lookaheadCount ∧ (nonterminal = Numbering.start →
        set.contains numbered.numbering.endOfInput = true)) numbered.followSets := by
    refine eachEntry_saturate ?_ ?_
    · intro update hupdate table htable old hold
      obtain ⟨rule, hrule, nonterminal, rest, hmem, rfl⟩ := mem_followUpdates.mp hupdate
      have hvalue := within_followUpdate numbered.nullables rule.lhs nonterminal
        hrepresents.firstTable_within (fun index set hset => (htable index set hset).1)
        (hrepresents.uses_of_mem_occurrences hrule hmem)
      exact ⟨hold.1.union hvalue, fun hstart =>
        (hold.1.contains_union_iff hvalue).mpr (.inl (hold.2 hstart))⟩
    · intro nonterminal set hset
      have hlt : numbered.numbering.endOfInput < numbered.numbering.lookaheadCount :=
        Nat.lt_succ_self _
      have hempty : numbered.emptySet.Within numbered.numbering.lookaheadCount :=
        LookaheadSet.within_empty _
      rcases eq_of_followStart hset with ⟨rfl, rfl⟩ | ⟨hother, rfl⟩
      · exact ⟨hempty.insert hlt, fun _ => (hempty.contains_insert_iff hlt).mpr (.inl rfl)⟩
      · exact ⟨hempty, fun hstart => absurd hstart hother⟩
  have hlt : Numbering.start < numbered.followSets.size := size_followSets ▸ hrepresents.start_lt
  have hget := Array.getElem?_eq_getElem hlt
  rw [setAt_eq_of_getElem? hget]
  exact (hkept Numbering.start _ hget).2 rfl

/-- Whatever follows a nonterminal is in its follow set. -/
theorem exists_contains_follow (hrepresents : numbered.Represents grammar) {name : String}
    {seen : Lookahead} (hfollows : grammar.Follows name seen) {nonterminal : Nat}
    (hnonterminal : nonterminal < numbered.nonterminalCount)
    (hname : numbered.numbering.nonterminalName nonterminal = name) :
    ∃ id, numbered.numbering.lookahead id = seen ∧
      (numbered.setAt numbered.followSets nonterminal).contains id = true := by
  induction hfollows generalizing nonterminal with
  | endOfInput hstart =>
      rw [hrepresents.start?_eq, Option.some.injEq] at hstart
      obtain rfl := hrepresents.nonterminalName_inj hnonterminal hrepresents.start_lt
        (hname.trans hstart.symm)
      exact ⟨_, Numbering.lookahead_endOfInput, hrepresents.contains_follow_start⟩
  | beside hrule hsplit hafter =>
      obtain ⟨rule, hmem, rfl⟩ := hrepresents.mem_rules.mp hrule
      subst hname
      obtain ⟨rest, hoccurrence, rfl, huses⟩ :=
        hrepresents.exists_occurrence hmem hnonterminal hsplit
      obtain ⟨id, hlookahead, hcontains⟩ := hrepresents.contains_of_derives_terminal huses hafter
      refine ⟨id, hlookahead,
        hrepresents.contains_follow_of_occurrence hmem hnonterminal hoccurrence ?_⟩
      rw [contains_followUpdate_iff hrepresents.firstTable_within hrepresents.followTable_within
        huses]
      exact .inl hcontains
  | behind hrule hsplit hafter _ ih =>
      obtain ⟨rule, hmem, rfl⟩ := hrepresents.mem_rules.mp hrule
      subst hname
      obtain ⟨rest, hoccurrence, rfl, huses⟩ :=
        hrepresents.exists_occurrence hmem hnonterminal hsplit
      obtain ⟨id, hlookahead, hcontains⟩ := ih (hrepresents.lhs_lt rule hmem) rfl
      refine ⟨id, hlookahead,
        hrepresents.contains_follow_of_occurrence hmem hnonterminal hoccurrence ?_⟩
      rw [contains_followUpdate_iff hrepresents.firstTable_within hrepresents.followTable_within
        huses]
      exact .inr ⟨(hrepresents.canVanish_iff_derives huses).mpr hafter, hcontains⟩

end Represents

end NumberedGrammar

end TopDown
