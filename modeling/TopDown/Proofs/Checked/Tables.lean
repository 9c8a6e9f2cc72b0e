import TopDown.Proofs.Checked.Saturation
import TopDown.Proofs.Follow

/-!
# Checked tables

The tables of an analysis are computed by reading other tables by number. The checked forms give
nothing when a number lies outside of the table that it is looked up in. The main statements say
that the checked sweeps of a grammar always give its tables, and that first sets never hold the end
of the input.
-/

namespace TopDown

namespace LookaheadSet

/-- Adds a number if there is a block for it. -/
def checkedInsert (set : LookaheadSet) (id : Nat) : Option LookaheadSet :=
  if id / blockBits < set.blocks.size then some (set.insert id) else none

/-- Whether another set has all the blocks that a union with it reads. -/
def fits (set other : LookaheadSet) : Bool :=
  decide (set.blocks.size ≤ other.blocks.size)

def checkedUnion (set other : LookaheadSet) : Option LookaheadSet :=
  if set.fits other then some (set.union other) else none

namespace Within

variable {capacity id : Nat} {set other : LookaheadSet}

theorem checkedInsert_eq (hset : set.Within capacity) (hid : id < capacity) :
    set.checkedInsert id = some (set.insert id) :=
  if_pos (hset.div_lt_size hid)

theorem fits (hset : set.Within capacity) (hother : other.Within capacity) :
    set.fits other = true :=
  decide_eq_true (Nat.le_of_eq (hset.size_eq_size hother).symm)

theorem checkedUnion_eq (hset : set.Within capacity) (hother : other.Within capacity) :
    set.checkedUnion other = some (set.union other) :=
  if_pos (hset.fits hother)

end Within

end LookaheadSet

instance : CheckedAbsorbing Bool where
  fits _ _ := true

instance : CheckedAbsorbing LookaheadSet where
  fits := LookaheadSet.fits

/-- The walk ends at the first symbol that is not a nullable nonterminal. -/
def checkedCanVanish (nullable : Array Bool) : List NumberedSymbol → Option Bool
  | [] => some true
  | .terminal _ :: _ => some false
  | .nonterminal id :: rest => do
      let vanishes ← nullable[id]?
      if vanishes then checkedCanVanish nullable rest else return false

namespace NumberedGrammar

/-- Takes what symbols can begin with into a set, which has to fit into every set that is read. -/
def checkedFirstInto (nullable : Array Bool) (first : Array LookaheadSet) :
    LookaheadSet → List NumberedSymbol → Option LookaheadSet
  | result, [] => some result
  | result, .terminal id :: _ => result.checkedInsert id
  | result, .nonterminal id :: rest => do
      let grown ← result.checkedUnion (← first[id]?)
      let vanishes ← nullable[id]?
      if vanishes then checkedFirstInto nullable first grown rest else return grown

def checkedFirstOf (grammar : NumberedGrammar) (nullable : Array Bool)
    (first : Array LookaheadSet) (symbols : List NumberedSymbol) : Option LookaheadSet :=
  checkedFirstInto nullable first grammar.emptySet symbols

/-- What symbols can begin with, and if they can vanish, also what comes behind a nonterminal. -/
def checkedShown (grammar : NumberedGrammar) (nullable : Array Bool)
    (first follow : Array LookaheadSet) (lhs : Nat) (symbols : List NumberedSymbol) :
    Option LookaheadSet := do
  let start ← grammar.checkedFirstOf nullable first symbols
  let vanishes ← checkedCanVanish nullable symbols
  if vanishes then start.checkedUnion (← follow[lhs]?) else return start

def checkedNullableUpdate (rule : NumberedRule) : CheckedUpdate Bool :=
  { target := rule.lhs
    value := fun nullable => checkedCanVanish nullable rule.production }

def checkedNullableTable (grammar : NumberedGrammar) : Option (Saturated Bool) :=
  checkedSaturate (grammar.rules.map checkedNullableUpdate)
    (Array.replicate grammar.nonterminalCount false)

def checkedFirstUpdate (grammar : NumberedGrammar) (nullable : Array Bool)
    (rule : NumberedRule) : CheckedUpdate LookaheadSet :=
  { target := rule.lhs
    value := fun first => grammar.checkedFirstOf nullable first rule.production }

def checkedFirstTable (grammar : NumberedGrammar) (nullable : Array Bool) :
    Option (Saturated LookaheadSet) :=
  checkedSaturate (grammar.rules.map (grammar.checkedFirstUpdate nullable)) grammar.emptyTable

def checkedFollowUpdate (grammar : NumberedGrammar) (nullable : Array Bool)
    (first : Array LookaheadSet) (lhs : Nat) (occurrence : Nat × List NumberedSymbol) :
    CheckedUpdate LookaheadSet :=
  { target := occurrence.1
    value := fun follow => grammar.checkedShown nullable first follow lhs occurrence.2 }

def checkedFollowUpdates (grammar : NumberedGrammar) (nullable : Array Bool)
    (first : Array LookaheadSet) : List (CheckedUpdate LookaheadSet) :=
  grammar.rules.flatMap fun rule =>
    (occurrences rule.production).map (grammar.checkedFollowUpdate nullable first rule.lhs)

def checkedFollowStart (grammar : NumberedGrammar) : Option (Array LookaheadSet) := do
  let old ← grammar.emptyTable[Numbering.start]?
  let set ← old.checkedInsert grammar.numbering.endOfInput
  return grammar.emptyTable.setIfInBounds Numbering.start set

def checkedFollowTable (grammar : NumberedGrammar) (nullable : Array Bool)
    (first : Array LookaheadSet) : Option (Saturated LookaheadSet) := do
  checkedSaturate (grammar.checkedFollowUpdates nullable first) (← grammar.checkedFollowStart)

end NumberedGrammar

/-! ### Numbers in range

What is looked up is in range because of what the tables are: a table has an entry for every
nonterminal, its sets have the blocks of all lookaheads, and first sets hold terminals alone. Every
sweep keeps this. -/

namespace NumberedGrammar

/-- A set with the blocks of all lookaheads that holds terminals alone. -/
structure TerminalSet (numbered : NumberedGrammar) (set : LookaheadSet) : Prop where
  within : set.Within numbered.numbering.lookaheadCount
  not_endOfInput : set.contains numbered.numbering.endOfInput = false

/-- A table of the given number of sets of lookaheads. -/
abbrev IsSetTable (numbered : NumberedGrammar) (count : Nat) (table : Array LookaheadSet) : Prop :=
  IsTable count (LookaheadSet.Within numbered.numbering.lookaheadCount) table

variable {grammar : Grammar} {numbered : NumberedGrammar} {nullable : Array Bool}
  {first follow : Array LookaheadSet} {symbols : List NumberedSymbol}

theorem TerminalSet.lt_of_contains {set : LookaheadSet} (hset : numbered.TerminalSet set)
    {id : Nat} (hcontains : set.contains id = true) :
    id < numbered.numbering.terminals.length := by
  have hlt : id < numbered.numbering.terminals.length + 1 := hset.within.lt_of_contains hcontains
  have hne : id ≠ numbered.numbering.terminals.length := by
    rintro rfl
    exact Bool.false_ne_true (hset.not_endOfInput.symm.trans hcontains)
  omega

theorem terminalSet_emptySet (numbered : NumberedGrammar) :
    numbered.TerminalSet numbered.emptySet where
  within := numbered.within_emptySet
  not_endOfInput := LookaheadSet.contains_empty ..

theorem TerminalSet.union {set other : LookaheadSet} (hset : numbered.TerminalSet set)
    (hother : numbered.TerminalSet other) : numbered.TerminalSet (set.union other) where
  within := hset.within.union hother.within
  not_endOfInput := by
    rw [LookaheadSet.contains_union (hset.within.size_eq_size hother.within),
      hset.not_endOfInput, hother.not_endOfInput, Bool.or_false]

theorem terminalSet_insert {id : Nat} (hid : id < numbered.numbering.terminals.length) :
    numbered.TerminalSet (numbered.emptySet.insert id) where
  within := numbered.within_emptySet.insert (Nat.lt_succ_of_lt hid)
  not_endOfInput := by
    have hblock := numbered.within_emptySet.div_lt_size (Nat.lt_succ_of_lt hid)
    rw [LookaheadSet.contains_insert hblock, numbered.terminalSet_emptySet.not_endOfInput,
      Bool.or_false]
    exact decide_eq_false (Nat.ne_of_lt hid)

section SetAt

variable {table : Array LookaheadSet} {count id : Nat} {allowed : LookaheadSet → Prop}
  (htable : IsTable count allowed table) (hid : id < count)
include htable hid

theorem getElem?_eq_setAt (numbered : NumberedGrammar) :
    table[id]? = some (numbered.setAt table id) := by
  obtain ⟨set, hset, _⟩ := htable.getElem? hid
  rw [setAt_eq_of_getElem? hset, hset]

theorem allowed_setAt (numbered : NumberedGrammar) : allowed (numbered.setAt table id) := by
  obtain ⟨set, hset, hallowed⟩ := htable.getElem? hid
  rwa [setAt_eq_of_getElem? hset]

end SetAt

theorem terminalSet_firstOf (nullable : Array Bool)
    (hfirst : IsTable numbered.nonterminalCount numbered.TerminalSet first)
    (huses : ∀ symbol ∈ symbols, numbered.numbering.Uses symbol) :
    numbered.TerminalSet (numbered.firstOf nullable first symbols) := by
  induction symbols with
  | nil => exact numbered.terminalSet_emptySet
  | cons symbol rest ih =>
      rw [List.forall_mem_cons] at huses
      cases symbol with
      | terminal id => exact terminalSet_insert huses.1
      | nonterminal id =>
          have hset := allowed_setAt hfirst huses.1 numbered
          rw [firstOf]
          split
          · exact hset.union (ih huses.2)
          · exact hset

theorem checkedCanVanish_eq (hnullable : nullable.size = numbered.nonterminalCount)
    (huses : ∀ symbol ∈ symbols, numbered.numbering.Uses symbol) :
    checkedCanVanish nullable symbols = some (canVanish nullable symbols) := by
  induction symbols with
  | nil => rfl
  | cons symbol rest ih =>
      rw [List.forall_mem_cons] at huses
      cases symbol with
      | terminal id => rfl
      | nonterminal id =>
          have hlt : id < nullable.size := hnullable ▸ huses.1
          rw [checkedCanVanish, ih huses.2, canVanish_nonterminal_cons,
            Array.getD_eq_getD_getElem?, Array.getElem?_eq_getElem hlt]
          cases nullable[id] <;> rfl

section First

variable (hnullable : nullable.size = numbered.nonterminalCount)
  (hfirst : IsTable numbered.nonterminalCount numbered.TerminalSet first)
  (huses : ∀ symbol ∈ symbols, numbered.numbering.Uses symbol)
include hnullable hfirst huses

theorem checkedFirstInto_eq {result : LookaheadSet}
    (hresult : result.Within numbered.numbering.lookaheadCount) :
    checkedFirstInto nullable first result symbols =
      some (result.union (numbered.firstOf nullable first symbols)) := by
  induction symbols generalizing result with
  | nil => exact congrArg some hresult.union_empty.symm
  | cons symbol rest ih =>
      rw [List.forall_mem_cons] at huses
      obtain ⟨hsymbol, hrest⟩ := huses
      cases symbol with
      | terminal id =>
          have hid : id < numbered.numbering.terminals.length := hsymbol
          rw [checkedFirstInto, hresult.checkedInsert_eq (Nat.lt_succ_of_lt hid)]
          exact congrArg some (hresult.union_insert_empty (Nat.lt_succ_of_lt hid)).symm
      | nonterminal id =>
          have hid : id < numbered.nonterminalCount := hsymbol
          have hset := (allowed_setAt hfirst hid numbered).within
          have hgrown := ih hrest (hresult.union hset)
          rw [hresult.union_assoc hset (terminalSet_firstOf nullable hfirst hrest).within]
            at hgrown
          rw [checkedFirstInto, getElem?_eq_setAt hfirst hid numbered, firstOf,
            Array.getD_eq_getD_getElem?, Array.getElem?_eq_getElem (hnullable ▸ hid)]
          simp only [Option.bind_eq_bind, Option.bind_some, hresult.checkedUnion_eq hset]
          cases nullable[id] with
          | true => exact hgrown
          | false => rfl

theorem checkedFirstOf_eq :
    numbered.checkedFirstOf nullable first symbols =
      some (numbered.firstOf nullable first symbols) := by
  have hfirstOf := (terminalSet_firstOf nullable hfirst huses).within
  rw [checkedFirstOf, checkedFirstInto_eq hnullable hfirst huses numbered.within_emptySet]
  exact congrArg some hfirstOf.empty_union

end First

section Shown

variable (hfirst : IsTable numbered.nonterminalCount numbered.TerminalSet first)
  (hfollow : numbered.IsSetTable numbered.nonterminalCount follow) {lhs : Nat}
  (hlhs : lhs < numbered.nonterminalCount)
  (huses : ∀ symbol ∈ symbols, numbered.numbering.Uses symbol)
include hfirst hfollow hlhs huses

theorem within_shown (nullable : Array Bool) :
    (if canVanish nullable symbols then
        (numbered.firstOf nullable first symbols).union (numbered.setAt follow lhs)
      else numbered.firstOf nullable first symbols).Within numbered.numbering.lookaheadCount := by
  have hstart := (terminalSet_firstOf nullable hfirst huses).within
  split
  · exact hstart.union (allowed_setAt hfollow hlhs numbered)
  · exact hstart

theorem checkedShown_eq (hnullable : nullable.size = numbered.nonterminalCount) :
    numbered.checkedShown nullable first follow lhs symbols =
      some (if canVanish nullable symbols then
          (numbered.firstOf nullable first symbols).union (numbered.setAt follow lhs)
        else numbered.firstOf nullable first symbols) := by
  have hunion := (terminalSet_firstOf nullable hfirst huses).within.checkedUnion_eq
    (allowed_setAt hfollow hlhs numbered)
  simp only [checkedShown, checkedFirstOf_eq hnullable hfirst huses,
    checkedCanVanish_eq hnullable huses, getElem?_eq_setAt hfollow hlhs numbered,
    Option.bind_eq_bind, Option.bind_some, hunion]
  split <;> rfl

end Shown

theorem forall₂_map {ι α β : Type} {related : α → β → Prop} {left : ι → α} {right : ι → β}
    {values : List ι} (hvalues : ∀ value ∈ values, related (left value) (right value)) :
    List.Forall₂ related (values.map left) (values.map right) := by
  rw [List.forall₂_map_left_iff, List.forall₂_map_right_iff, List.forall₂_same]
  exact hvalues

theorem compatible_flags : Compatible fun _ : Bool => True where
  fits _ _ := rfl
  absorb _ _ := trivial

theorem compatible_terminalSet (numbered : NumberedGrammar) :
    Compatible numbered.TerminalSet where
  fits hold hvalue := hold.within.fits hvalue.within
  absorb hold hvalue := hold.union hvalue

theorem compatible_within (capacity : Nat) : Compatible (LookaheadSet.Within capacity) where
  fits hold hvalue := hold.fits hvalue
  absorb hold hvalue := hold.union hvalue

theorem isTable_followStart :
    numbered.IsSetTable numbered.nonterminalCount numbered.followStart where
  size_eq := by rw [followStart, Array.size_modify, emptyTable, Array.size_replicate]
  each := by
    intro nonterminal set hset
    rcases eq_of_followStart hset with ⟨rfl, rfl⟩ | ⟨_, rfl⟩
    · exact numbered.within_emptySet.insert (Nat.lt_succ_self _)
    · exact numbered.within_emptySet

namespace Represents

variable (hrepresents : numbered.Represents grammar)
include hrepresents

theorem mirrors_nullableUpdates :
    List.Forall₂ (CheckedUpdate.Mirrors numbered.nonterminalCount fun _ => True)
      (numbered.rules.map checkedNullableUpdate)
      (numbered.rules.map NumberedRule.nullableUpdate) :=
  forall₂_map fun rule hrule =>
    { target_eq := rfl
      target_lt := hrepresents.lhs_lt rule hrule
      value_eq := fun htable => checkedCanVanish_eq htable.size_eq (hrepresents.uses rule hrule)
      allowed_value := fun _ => trivial }

theorem checkedNullableTable_eq : numbered.checkedNullableTable = some numbered.nullableTable :=
  checkedSaturate_eq compatible_flags hrepresents.mirrors_nullableUpdates
    (isTable_replicate _ trivial)

theorem isTable_nullableTable :
    ∀ table ∈ numbered.nullableTable.tables,
      IsTable numbered.nonterminalCount (fun _ => True) table :=
  isTable_saturate compatible_flags hrepresents.mirrors_nullableUpdates
    (isTable_replicate _ trivial)

section First

variable (hnullable : nullable.size = numbered.nonterminalCount)
include hnullable

theorem mirrors_firstUpdates :
    List.Forall₂ (CheckedUpdate.Mirrors numbered.nonterminalCount numbered.TerminalSet)
      (numbered.rules.map (numbered.checkedFirstUpdate nullable))
      (numbered.rules.map (numbered.firstUpdate nullable)) :=
  forall₂_map fun rule hrule =>
    { target_eq := rfl
      target_lt := hrepresents.lhs_lt rule hrule
      value_eq := fun htable => checkedFirstOf_eq hnullable htable (hrepresents.uses rule hrule)
      allowed_value := fun htable =>
        terminalSet_firstOf nullable htable (hrepresents.uses rule hrule) }

theorem checkedFirstTable_eq :
    numbered.checkedFirstTable nullable = some (numbered.firstTable nullable) :=
  checkedSaturate_eq numbered.compatible_terminalSet (hrepresents.mirrors_firstUpdates hnullable)
    (isTable_replicate _ numbered.terminalSet_emptySet)

theorem isTable_firstTable :
    ∀ table ∈ (numbered.firstTable nullable).tables,
      IsTable numbered.nonterminalCount numbered.TerminalSet table :=
  isTable_saturate numbered.compatible_terminalSet (hrepresents.mirrors_firstUpdates hnullable)
    (isTable_replicate _ numbered.terminalSet_emptySet)

end First

theorem checkedFollowStart_eq : numbered.checkedFollowStart = some numbered.followStart := by
  have hstart : numbered.emptyTable[Numbering.start]? = some numbered.emptySet := by
    rw [emptyTable, Array.getElem?_replicate, if_pos hrepresents.start_lt]
  have hinsert := numbered.within_emptySet.checkedInsert_eq
    (Nat.lt_succ_self numbered.numbering.endOfInput)
  simp only [checkedFollowStart, hstart, Option.bind_eq_bind, Option.bind_some, hinsert]
  refine congrArg some (Array.ext_getElem? fun index => ?_)
  rw [followStart, Array.getElem?_modify, Array.getElem?_setIfInBounds]
  split
  · rename_i hindex
    subst hindex
    rw [hstart, Option.map_some, if_pos (Array.getElem?_eq_some_iff.mp hstart).1]
  · rfl

section Follow

variable (hnullable : nullable.size = numbered.nonterminalCount)
  (hfirst : IsTable numbered.nonterminalCount numbered.TerminalSet first)
include hnullable hfirst

theorem mirrors_followUpdate {rule : NumberedRule} (hrule : rule ∈ numbered.rules)
    {occurrence : Nat × List NumberedSymbol} (hmem : occurrence ∈ occurrences rule.production) :
    (numbered.checkedFollowUpdate nullable first rule.lhs occurrence).Mirrors
      numbered.nonterminalCount (LookaheadSet.Within numbered.numbering.lookaheadCount)
      (numbered.followUpdate nullable first rule.lhs occurrence) := by
  obtain ⟨nonterminal, rest⟩ := occurrence
  obtain ⟨before, hproduction⟩ := mem_occurrences.mp hmem
  have huses := hrepresents.uses_of_mem_occurrences hrule hmem
  have hlhs := hrepresents.lhs_lt rule hrule
  exact
    { target_eq := rfl
      target_lt := hrepresents.uses rule hrule (.nonterminal nonterminal) (by simp [hproduction])
      value_eq := fun hfollow => checkedShown_eq hfirst hfollow hlhs huses hnullable
      allowed_value := fun hfollow => within_shown hfirst hfollow hlhs huses nullable }

theorem mirrors_followUpdates :
    List.Forall₂ (CheckedUpdate.Mirrors numbered.nonterminalCount
        (LookaheadSet.Within numbered.numbering.lookaheadCount))
      (numbered.checkedFollowUpdates nullable first) (numbered.followUpdates nullable first) := by
  -- both lists run over the same rules, each with what is known of it as a rule of the grammar
  have hrules : List.Forall₂ (fun left right => left = right ∧ left ∈ numbered.rules)
      numbered.rules numbered.rules :=
    List.forall₂_same.mpr fun rule hrule => ⟨rfl, hrule⟩
  refine List.rel_flatMap hrules ?_
  rintro rule _ ⟨rfl, hrule⟩
  exact forall₂_map fun occurrence hmem =>
    hrepresents.mirrors_followUpdate hnullable hfirst hrule hmem

theorem isTable_followTable :
    ∀ table ∈ (numbered.followTable nullable first).tables,
      numbered.IsSetTable numbered.nonterminalCount table :=
  isTable_saturate (compatible_within _)
    (hrepresents.mirrors_followUpdates hnullable hfirst) isTable_followStart

theorem checkedFollowTable_eq :
    numbered.checkedFollowTable nullable first = some (numbered.followTable nullable first) := by
  rw [checkedFollowTable, hrepresents.checkedFollowStart_eq, Option.bind_eq_bind,
    Option.bind_some]
  exact checkedSaturate_eq (compatible_within _)
    (hrepresents.mirrors_followUpdates hnullable hfirst) isTable_followStart

end Follow

end Represents

end NumberedGrammar

end TopDown
