import TopDown.Analysis.First
import TopDown.Proofs.LookaheadSet
import TopDown.Proofs.NumberedDerivation
import TopDown.Proofs.Saturation

/-!
# What vanishes and what comes first

The saturated tables say what can be derived: a sequence of symbols can vanish when it derives the
empty sequence, and its first set holds the terminals that begin something it derives.
-/

namespace TopDown.NumberedGrammar

variable {grammar : Grammar} {numbered : NumberedGrammar}

abbrev nullables (numbered : NumberedGrammar) : Array Bool :=
  numbered.nullableTable.table

abbrev firstSets (numbered : NumberedGrammar) : Array LookaheadSet :=
  (numbered.firstTable numbered.nullables).table

theorem canVanish_append (nullable : Array Bool) (left right : List NumberedSymbol) :
    canVanish nullable (left ++ right) = (canVanish nullable left && canVanish nullable right) :=
  List.all_append

theorem canVanish_nonterminal_cons (nullable : Array Bool) (id : Nat) (rest : List NumberedSymbol) :
    canVanish nullable (.nonterminal id :: rest) =
      (nullable.getD id false && canVanish nullable rest) :=
  List.all_cons

theorem derives_nil_of_canVanish {nullable : Array Bool}
    (hnullable : EachEntry (fun id flag => flag = true → numbered.Derives [.nonterminal id] [])
      nullable)
    {symbols : List NumberedSymbol} (hvanish : canVanish nullable symbols = true) :
    numbered.Derives symbols [] := by
  induction symbols with
  | nil => exact .refl []
  | cons symbol symbols ih =>
      rw [canVanish, List.all_cons, Bool.and_eq_true] at hvanish
      obtain ⟨hsymbol, hrest⟩ := hvanish
      cases symbol with
      | terminal id => exact absurd hsymbol Bool.false_ne_true
      | nonterminal id =>
          dsimp only at hsymbol
          rw [Array.getD_eq_getD_getElem?] at hsymbol
          cases hflag : nullable[id]? with
          | none =>
              rw [hflag] at hsymbol
              exact absurd hsymbol Bool.false_ne_true
          | some flag =>
              rw [hflag, Option.getD_some] at hsymbol
              exact (hnullable id flag hflag hsymbol).cons (ih hrest)

theorem nullableTable_sound (numbered : NumberedGrammar) :
    EachEntry (fun id flag => flag = true → numbered.Derives [.nonterminal id] [])
      numbered.nullables := by
  refine eachEntry_saturate ?_ ?_
  · intro update hupdate table htable old hold hflag
    obtain ⟨rule, hrule, rfl⟩ := List.mem_map.mp hupdate
    change (old || canVanish table rule.production) = true at hflag
    rw [Bool.or_eq_true] at hflag
    rcases hflag with hflag | hflag
    · exact hold hflag
    · exact (derives_of_rule hrule).trans (derives_nil_of_canVanish htable hflag)
  · intro id flag hflag
    rw [Array.getElem?_replicate] at hflag
    split at hflag <;> simp_all

namespace Represents

theorem nullable_of_canVanish (hrepresents : numbered.Represents grammar) {rule : NumberedRule}
    (hrule : rule ∈ numbered.rules)
    (hvanish : canVanish numbered.nullables rule.production = true) :
    numbered.nullables.getD rule.lhs false = true := by
  have hsize : numbered.nullables.size = numbered.nonterminalCount := by
    rw [nullables, nullableTable, size_saturate, Array.size_replicate]
  have hlt : rule.lhs < numbered.nullables.size := hsize ▸ hrepresents.lhs_lt rule hrule
  have hget := Array.getElem?_eq_getElem hlt
  have hupdate : rule.nullableUpdate ∈ numbered.rules.map NumberedRule.nullableUpdate :=
    List.mem_map_of_mem hrule
  have hstable := absorb_saturate_unchanged hupdate hget
  change (!_ && canVanish numbered.nullables rule.production) = false at hstable
  rw [hvanish, Bool.and_true, Bool.not_eq_false'] at hstable
  rw [Array.getD_eq_getD_getElem?, hget, Option.getD_some, hstable]

/-- A sequence can vanish exactly when it derives the empty sequence. -/
theorem canVanish_iff (hrepresents : numbered.Represents grammar) {symbols : List NumberedSymbol} :
    canVanish numbered.nullables symbols = true ↔ numbered.Derives symbols [] := by
  refine ⟨derives_nil_of_canVanish numbered.nullableTable_sound, fun hderives => ?_⟩
  refine hderives.carry_back (fun form => canVanish numbered.nullables form = true)
    (fun hstep hvanish => ?_) rfl
  obtain ⟨before, after, hreplaces⟩ := hstep
  obtain ⟨hrule⟩ := hreplaces
  rw [canVanish_append, canVanish_append, Bool.and_eq_true, Bool.and_eq_true] at hvanish
  obtain ⟨⟨hbefore, hproduction⟩, hafter⟩ := hvanish
  rw [canVanish_append, hbefore, Bool.true_and, canVanish_nonterminal_cons, Bool.and_eq_true]
  exact ⟨hrepresents.nullable_of_canVanish hrule hproduction, hafter⟩

end Represents

/-! ### First sets

That a first set has nothing but what its nonterminal can begin with is kept by every sweep. That it
has all of it follows from the last sweep, which changes nothing. -/

section FirstOf

variable {nullable : Array Bool} {table first : Array LookaheadSet}
  {symbols rest : List NumberedSymbol} {id : Nat}

/-- All sets of a table have room for the lookaheads of the grammar, and hold no others. -/
def EachWithin (numbered : NumberedGrammar) (table : Array LookaheadSet) : Prop :=
  EachEntry (fun _ set => set.Within numbered.numbering.lookaheadCount) table

theorem setAt_eq_of_getElem? {set : LookaheadSet} (hget : table[id]? = some set) :
    numbered.setAt table id = set := by
  rw [setAt, Array.getD_eq_getD_getElem?, hget, Option.getD_some]

theorem EachEntry.setAt {allowed : Nat → LookaheadSet → Prop}
    (htable : EachEntry allowed table) (hempty : allowed id numbered.emptySet) :
    allowed id (numbered.setAt table id) := by
  rw [NumberedGrammar.setAt, Array.getD_eq_getD_getElem?]
  cases hget : table[id]? with
  | none => exact hempty
  | some set => exact htable id set hget

theorem within_emptySet (numbered : NumberedGrammar) :
    numbered.emptySet.Within numbered.numbering.lookaheadCount :=
  LookaheadSet.within_empty _

theorem within_setAt (htable : numbered.EachWithin table) (id : Nat) :
    (numbered.setAt table id).Within numbered.numbering.lookaheadCount :=
  EachEntry.setAt htable numbered.within_emptySet

theorem within_firstOf (hfirst : numbered.EachWithin first)
    (huses : ∀ symbol ∈ symbols, numbered.numbering.Uses symbol) :
    (numbered.firstOf nullable first symbols).Within numbered.numbering.lookaheadCount := by
  induction symbols with
  | nil => exact LookaheadSet.within_empty _
  | cons symbol symbols ih =>
      rw [List.forall_mem_cons] at huses
      cases symbol with
      | terminal id => exact (LookaheadSet.within_empty _).insert (Nat.lt_succ_of_lt huses.1)
      | nonterminal id =>
          rw [firstOf]
          split
          · exact (within_setAt hfirst id).union (ih huses.2)
          · exact within_setAt hfirst id

theorem contains_firstOf_terminal {terminal : Nat}
    (huses : numbered.numbering.Uses (.terminal terminal)) :
    (numbered.firstOf nullable first (.terminal terminal :: rest)).contains id = true ↔
      terminal = id := by
  have hlt : terminal < numbered.numbering.lookaheadCount := Nat.lt_succ_of_lt huses
  rw [firstOf, emptySet, (LookaheadSet.within_empty _).contains_insert_iff hlt,
    LookaheadSet.contains_empty]
  simp

theorem contains_firstOf_nonterminal {nonterminal : Nat} (hfirst : numbered.EachWithin first)
    (huses : ∀ symbol ∈ rest, numbered.numbering.Uses symbol) :
    (numbered.firstOf nullable first (.nonterminal nonterminal :: rest)).contains id = true ↔
      (numbered.setAt first nonterminal).contains id = true ∨
        nullable.getD nonterminal false = true ∧
          (numbered.firstOf nullable first rest).contains id = true := by
  rw [firstOf]
  split
  · rename_i hnullable
    rw [(within_setAt hfirst nonterminal).contains_union_iff (within_firstOf hfirst huses)]
    simp [hnullable]
  · rename_i hnullable
    simp [hnullable]

theorem contains_firstOf_append {left right : List NumberedSymbol}
    (hfirst : numbered.EachWithin first)
    (huses : ∀ symbol ∈ left ++ right, numbered.numbering.Uses symbol) :
    (numbered.firstOf nullable first (left ++ right)).contains id = true ↔
      (numbered.firstOf nullable first left).contains id = true ∨
        canVanish nullable left = true ∧
          (numbered.firstOf nullable first right).contains id = true := by
  induction left with
  | nil =>
      rw [List.nil_append, firstOf, emptySet, LookaheadSet.contains_empty]
      simp [canVanish]
  | cons symbol left ih =>
      rw [List.cons_append] at huses ⊢
      rw [List.forall_mem_cons] at huses
      have hleft : ∀ symbol ∈ left, numbered.numbering.Uses symbol :=
        fun symbol hmem => huses.2 symbol (List.mem_append_left right hmem)
      cases symbol with
      | terminal terminal =>
          rw [contains_firstOf_terminal huses.1, contains_firstOf_terminal huses.1]
          simp [canVanish]
      | nonterminal nonterminal =>
          rw [contains_firstOf_nonterminal hfirst huses.2,
            contains_firstOf_nonterminal hfirst hleft,
            ih huses.2, canVanish_nonterminal_cons, Bool.and_eq_true, and_or_left, ← or_assoc,
            and_assoc]

end FirstOf

/-- What an entry of the table of first sets has to be. -/
structure FirstEntry (numbered : NumberedGrammar) (nonterminal : Nat) (set : LookaheadSet) :
    Prop where
  within : set.Within numbered.numbering.lookaheadCount
  derives : ∀ {id}, set.contains id = true →
    ∃ rest, numbered.Derives [.nonterminal nonterminal] (.terminal id :: rest)

theorem firstEntry_emptySet (nonterminal : Nat) :
    numbered.FirstEntry nonterminal numbered.emptySet where
  within := LookaheadSet.within_empty _
  derives := by
    intro id hcontains
    rw [emptySet, LookaheadSet.contains_empty] at hcontains
    exact absurd hcontains Bool.false_ne_true

theorem derives_of_contains_firstOf {nullable : Array Bool} {first : Array LookaheadSet}
    (hnullable : EachEntry (fun id flag => flag = true → numbered.Derives [.nonterminal id] [])
      nullable)
    (hfirst : EachEntry numbered.FirstEntry first) {symbols : List NumberedSymbol} {id : Nat}
    (huses : ∀ symbol ∈ symbols, numbered.numbering.Uses symbol)
    (hcontains : (numbered.firstOf nullable first symbols).contains id = true) :
    ∃ rest, numbered.Derives symbols (.terminal id :: rest) := by
  have hwithin : numbered.EachWithin first := fun index set hset => (hfirst index set hset).within
  induction symbols with
  | nil =>
      rw [firstOf, emptySet, LookaheadSet.contains_empty] at hcontains
      exact absurd hcontains Bool.false_ne_true
  | cons symbol symbols ih =>
      rw [List.forall_mem_cons] at huses
      cases symbol with
      | terminal terminal =>
          rw [contains_firstOf_terminal huses.1] at hcontains
          exact ⟨symbols, hcontains ▸ .refl _⟩
      | nonterminal nonterminal =>
          rw [contains_firstOf_nonterminal hwithin huses.2] at hcontains
          rcases hcontains with hcontains | ⟨hflag, hcontains⟩
          · have hentry : numbered.FirstEntry nonterminal (numbered.setAt first nonterminal) :=
              EachEntry.setAt hfirst (firstEntry_emptySet nonterminal)
            obtain ⟨rest, hderives⟩ := hentry.derives hcontains
            exact ⟨rest ++ symbols, hderives.append_right symbols⟩
          · obtain ⟨rest, hderives⟩ := ih huses.2 hcontains
            have hvanish : canVanish nullable [.nonterminal nonterminal] = true := by
              simpa [canVanish] using hflag
            exact ⟨rest, (derives_nil_of_canVanish hnullable hvanish).cons hderives⟩

namespace Represents

theorem firstTable_sound (hrepresents : numbered.Represents grammar) :
    EachEntry numbered.FirstEntry numbered.firstSets := by
  refine eachEntry_saturate ?_ ?_
  · intro update hupdate table htable old hold
    obtain ⟨rule, hrule, rfl⟩ := List.mem_map.mp hupdate
    have huses := hrepresents.uses rule hrule
    have hvalue : (numbered.firstOf numbered.nullables table rule.production).Within
        numbered.numbering.lookaheadCount :=
      within_firstOf (fun index set hset => (htable index set hset).within) huses
    refine ⟨hold.within.union hvalue, fun {id} hcontains => ?_⟩
    rcases (hold.within.contains_union_iff hvalue).mp hcontains with hcontains | hcontains
    · exact hold.derives hcontains
    · obtain ⟨rest, hderives⟩ :=
        derives_of_contains_firstOf numbered.nullableTable_sound htable huses hcontains
      exact ⟨rest, (derives_of_rule hrule).trans hderives⟩
  · intro nonterminal set hset
    rw [emptyTable, Array.getElem?_replicate] at hset
    split at hset
    · rw [Option.some.injEq] at hset
      exact hset ▸ firstEntry_emptySet nonterminal
    · cases hset

theorem firstTable_within (hrepresents : numbered.Represents grammar) :
    numbered.EachWithin numbered.firstSets :=
  fun index set hset => (hrepresents.firstTable_sound index set hset).within

theorem contains_first_of_production (hrepresents : numbered.Represents grammar)
    {rule : NumberedRule} (hrule : rule ∈ numbered.rules) {id : Nat}
    (hcontains :
      (numbered.firstOf numbered.nullables numbered.firstSets rule.production).contains id = true) :
    (numbered.setAt numbered.firstSets rule.lhs).contains id = true := by
  have hsize : numbered.firstSets.size = numbered.nonterminalCount := by
    rw [firstSets, firstTable, size_saturate, emptyTable, Array.size_replicate]
  have hlt := hsize ▸ hrepresents.lhs_lt rule hrule
  have hget := Array.getElem?_eq_getElem hlt
  have hupdate : numbered.firstUpdate numbered.nullables rule ∈
      numbered.rules.map (numbered.firstUpdate numbered.nullables) :=
    List.mem_map_of_mem hrule
  have hstable := LookaheadSet.absorb_fst_of_unchanged (absorb_saturate_unchanged hupdate hget)
  have hwithin := hrepresents.firstTable_within rule.lhs _ hget
  have hvalue : (numbered.firstOf numbered.nullables numbered.firstSets rule.production).Within
      numbered.numbering.lookaheadCount :=
    within_firstOf hrepresents.firstTable_within (hrepresents.uses rule hrule)
  rw [setAt_eq_of_getElem? hget, ← hstable]
  exact (hwithin.contains_union_iff hvalue).mpr (.inr hcontains)

theorem contains_firstOf_of_step (hrepresents : numbered.Represents grammar)
    {form next : List NumberedSymbol} {id : Nat}
    (huses : ∀ symbol ∈ form, numbered.numbering.Uses symbol)
    (hstep : Rewriting.Step numbered.Replaces form next)
    (hnext : (∀ symbol ∈ next, numbered.numbering.Uses symbol) →
      (numbered.firstOf numbered.nullables numbered.firstSets next).contains id = true) :
    (numbered.firstOf numbered.nullables numbered.firstSets form).contains id = true := by
  obtain ⟨before, after, hreplaces⟩ := hstep
  obtain @⟨rule, hrule⟩ := hreplaces
  have hproduction := hrepresents.uses rule hrule
  have hafter : ∀ symbol ∈ after, numbered.numbering.Uses symbol :=
    fun symbol hmem => huses symbol (by simp [hmem])
  have hrest : ∀ symbol ∈ rule.production ++ after, numbered.numbering.Uses symbol := by
    intro symbol hmem
    exact (List.mem_append.mp hmem).elim (hproduction symbol) (hafter symbol)
  have hall : ∀ symbol ∈ before ++ (rule.production ++ after), numbered.numbering.Uses symbol := by
    intro symbol hmem
    rcases List.mem_append.mp hmem with hbefore | hmem
    · exact huses symbol (by simp [hbefore])
    · exact hrest symbol hmem
  rw [List.append_assoc] at hnext
  have hcontains := hnext hall
  have hwithin := hrepresents.firstTable_within
  rw [contains_firstOf_append hwithin hall, contains_firstOf_append hwithin hrest] at hcontains
  rw [contains_firstOf_append hwithin huses, contains_firstOf_nonterminal hwithin hafter]
  -- what the production begins with is in the first set of the left-hand side
  rcases hcontains with hbefore | ⟨hbefore, hinside | ⟨hvanish, hbehind⟩⟩
  · exact .inl hbefore
  · exact .inr ⟨hbefore, .inl (hrepresents.contains_first_of_production hrule hinside)⟩
  · exact .inr ⟨hbefore, .inr ⟨hrepresents.nullable_of_canVanish hrule hvanish, hbehind⟩⟩

/-- The first set of a sequence holds the terminals that begin something it derives. -/
theorem contains_firstOf_iff (hrepresents : numbered.Represents grammar)
    {symbols : List NumberedSymbol} {id : Nat}
    (huses : ∀ symbol ∈ symbols, numbered.numbering.Uses symbol) :
    (numbered.firstOf numbered.nullables numbered.firstSets symbols).contains id = true ↔
      ∃ rest, numbered.Derives symbols (.terminal id :: rest) := by
  constructor
  · exact derives_of_contains_firstOf numbered.nullableTable_sound
      hrepresents.firstTable_sound huses
  · rintro ⟨rest, hderives⟩
    refine hderives.carry_back (fun form => (∀ symbol ∈ form, numbered.numbering.Uses symbol) →
      (numbered.firstOf numbered.nullables numbered.firstSets form).contains id = true)
      (fun hstep hnext huses => hrepresents.contains_firstOf_of_step huses hstep hnext) ?_ huses
    intro huses
    rw [List.forall_mem_cons] at huses
    rw [contains_firstOf_terminal huses.1]

end Represents

end TopDown.NumberedGrammar
