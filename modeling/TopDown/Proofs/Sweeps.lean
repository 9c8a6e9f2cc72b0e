import Mathlib.Data.Finset.Card
import Mathlib.Logic.Function.Iterate
import Mathlib.Order.Monotone.Basic
import TopDown.Proofs.Saturation

/-!
# The number of sweeps

Entries of a table carry marks, and to absorb a value is to take over its marks. When an update
decides about each mark by where that mark stands in the table, the marks spread independently: a
sweep that leaves a mark where it is leaves it there for good. The main statement says that there is
then at most one sweep more than there are entries.
-/

namespace TopDown

variable {α ι : Type} [Absorbing α]

/-- A reading of values as sets of marks, by which a change is a new mark. -/
structure Marking (α ι : Type) [Absorbing α] where
  Has : α → ι → Prop
  Valid : α → Prop
  valid_absorb : ∀ {old value : α}, Valid old → Valid value → Valid (Absorbing.absorb old value).1
  has_absorb : ∀ {old value : α}, Valid old → Valid value → ∀ mark,
    (Has (Absorbing.absorb old value).1 mark ↔ Has old mark ∨ Has value mark)
  absorb_unchanged : ∀ {old value : α}, (Absorbing.absorb old value).2 = false →
    (Absorbing.absorb old value).1 = old
  exists_new : ∀ {old value : α}, Valid old → Valid value → (Absorbing.absorb old value).2 = true →
    ∃ mark, Has value mark ∧ ¬Has old mark

namespace Marking

variable (marking : Marking α ι)

def ValidTable (table : Array α) : Prop :=
  EachEntry (fun _ => marking.Valid) table

/-- The entry of the given index has the mark. -/
def At (table : Array α) (index : Nat) (mark : ι) : Prop :=
  ∃ entry, table[index]? = some entry ∧ marking.Has entry mark

/-- Two tables of one size have a mark at the same places. -/
structure Agree (mark : ι) (table other : Array α) : Prop where
  size_eq : table.size = other.size
  at_iff : ∀ index, marking.At table index mark ↔ marking.At other index mark

/-- The update decides about each mark by where that mark stands. -/
structure Markwise (update : Update α) : Prop where
  valid : ∀ {table}, marking.ValidTable table → marking.Valid (update.value table)
  has_iff : ∀ {table other mark}, marking.ValidTable table → marking.ValidTable other →
    marking.Agree mark table other →
      (marking.Has (update.value table) mark ↔ marking.Has (update.value other) mark)

variable {marking} {table other : Array α} {index : Nat} {mark : ι}

section Update

variable {update : Update α} (hupdate : marking.Markwise update)
  (htable : marking.ValidTable table)
include hupdate htable

theorem validTable_apply : marking.ValidTable (update.apply table).1 :=
  Update.eachEntry_apply (fun _ hold => marking.valid_absorb hold (hupdate.valid htable)) htable

/-- An update adds the marks of its value to its target. -/
theorem at_apply_iff :
    marking.At (update.apply table).1 index mark ↔ marking.At table index mark ∨
      (index = update.target ∧ index < table.size ∧ marking.Has (update.value table) mark) := by
  unfold Update.apply
  split
  · rename_i old hold
    have hlt := (Array.getElem?_eq_some_iff.mp hold).1
    have hnew := marking.has_absorb (htable _ _ hold) (hupdate.valid htable) mark
    dsimp only
    split
    · by_cases hindex : index = update.target
      · subst hindex
        rw [At, At, Array.getElem?_setIfInBounds_self_of_lt hlt, hold]
        simp [hlt, hnew]
      · simp [At, hindex, Ne.symm hindex]
    · rename_i hunchanged
      rw [Bool.not_eq_true] at hunchanged
      rw [marking.absorb_unchanged hunchanged] at hnew
      refine ⟨.inl, ?_⟩
      rintro (hat | ⟨rfl, _, hvalue⟩)
      · exact hat
      · exact ⟨old, hold, hnew.mpr (.inr hvalue)⟩
  · rename_i hnone
    rw [Array.getElem?_eq_none_iff] at hnone
    refine ⟨.inl, ?_⟩
    rintro (hat | ⟨rfl, hlt, _⟩)
    · exact hat
    · exact absurd hlt (Nat.not_lt.mpr hnone)

theorem exists_new_of_apply (hchanged : (update.apply table).2 = true) :
    ∃ index mark, marking.At (update.apply table).1 index mark ∧ ¬marking.At table index mark := by
  have hvalue := hupdate.valid htable
  have hstep (mark : ι) : marking.At (update.apply table).1 update.target mark ↔ _ :=
    at_apply_iff hupdate htable
  unfold Update.apply at hchanged
  split at hchanged
  · rename_i old hold
    dsimp only at hchanged
    split at hchanged
    · rename_i habsorb
      obtain ⟨mark, hhas, hnot⟩ := marking.exists_new (htable _ _ hold) hvalue habsorb
      have hlt := (Array.getElem?_eq_some_iff.mp hold).1
      refine ⟨update.target, mark, (hstep mark).mpr (.inr ⟨rfl, hlt, hhas⟩), ?_⟩
      rintro ⟨entry, hentry, hmark⟩
      rw [hold, Option.some.injEq] at hentry
      exact hnot (hentry ▸ hmark)
    · exact absurd hchanged Bool.false_ne_true
  · exact absurd hchanged Bool.false_ne_true

theorem agree_apply (hother : marking.ValidTable other) (hagree : marking.Agree mark table other) :
    marking.Agree mark (update.apply table).1 (update.apply other).1 where
  size_eq := by rw [update.size_apply, update.size_apply, hagree.size_eq]
  at_iff index := by
    rw [at_apply_iff hupdate htable, at_apply_iff hupdate hother, hagree.at_iff, hagree.size_eq,
      hupdate.has_iff htable hother hagree]

end Update

section Sweep

variable {updates : List (Update α)} (hupdates : ∀ update ∈ updates, marking.Markwise update)
include hupdates

theorem validTable_sweep (htable : marking.ValidTable table) :
    marking.ValidTable (sweep updates table).1 :=
  sweep_induction marking.ValidTable
    (fun update hupdate _ hvalid => validTable_apply (hupdates update hupdate) hvalid) htable

theorem at_sweep (htable : marking.ValidTable table) (hat : marking.At table index mark) :
    marking.At (sweep updates table).1 index mark := by
  have hkept := sweep_induction
    (fun later => marking.ValidTable later ∧ marking.At later index mark)
    (fun update hupdate later hlater =>
      have hmarkwise := hupdates update hupdate
      ⟨validTable_apply hmarkwise hlater.1, (at_apply_iff hmarkwise hlater.1).mpr (.inl hlater.2)⟩)
    ⟨htable, hat⟩
  exact hkept.2

/-- Where a mark goes in a sweep depends on where it stood. -/
theorem agree_sweep (htable : marking.ValidTable table) (hother : marking.ValidTable other)
    (hagree : marking.Agree mark table other) :
    marking.Agree mark (sweep updates table).1 (sweep updates other).1 := by
  induction updates generalizing table other with
  | nil => exact hagree
  | cons update rest ih =>
      rw [List.forall_mem_cons] at hupdates
      obtain ⟨hupdate, hrest⟩ := hupdates
      exact ih hrest (validTable_apply hupdate htable) (validTable_apply hupdate hother)
        (agree_apply hupdate htable hother hagree)

theorem exists_new_of_sweep (htable : marking.ValidTable table)
    (hchanged : (sweep updates table).2 = true) :
    ∃ index mark, marking.At (sweep updates table).1 index mark ∧
      ¬marking.At table index mark := by
  induction updates generalizing table with
  | nil => exact absurd hchanged Bool.false_ne_true
  | cons update rest ih =>
      rw [List.forall_mem_cons] at hupdates
      obtain ⟨hupdate, hrest⟩ := hupdates
      have hvalid := validTable_apply hupdate htable
      simp only [sweep, Bool.or_eq_true] at hchanged ⊢
      rcases hchanged with hfirst | hothers
      · obtain ⟨index, mark, hnew, hnot⟩ := exists_new_of_apply hupdate htable hfirst
        exact ⟨index, mark, at_sweep hrest hvalid hnew, hnot⟩
      · obtain ⟨index, mark, hnew, hnot⟩ := ih hrest hvalid hothers
        exact ⟨index, mark, hnew, fun hat => hnot ((at_apply_iff hupdate htable).mpr (.inl hat))⟩

end Sweep

end Marking

/-! ### Sweep after sweep

The entries that a mark has spread to become more with every sweep until they stay the same, so no
more sweeps spread it than there are entries. -/

/-- The table after a number of sweeps. -/
def swept (updates : List (Update α)) (table : Array α) (count : Nat) : Array α :=
  (fun table => (sweep updates table).1)^[count] table

theorem swept_succ (updates : List (Update α)) (table : Array α) (count : Nat) :
    swept updates table (count + 1) = (sweep updates (swept updates table count)).1 :=
  Function.iterate_succ_apply' ..

theorem size_swept (updates : List (Update α)) (table : Array α) (count : Nat) :
    (swept updates table count).size = table.size := by
  induction count with
  | zero => rfl
  | succ count ih =>
      rw [swept_succ]
      exact sweep_induction (fun later => later.size = table.size)
        (fun update _ later hsize => (update.size_apply later).trans hsize) ih

theorem length_sweeps_pos (updates : List (Update α)) (table : Array α) :
    1 ≤ (saturate updates table).sweeps.length := by
  rw [saturate]
  dsimp only
  split <;> simp

theorem length_sweeps_le_of_unchanged {updates : List (Update α)} {table : Array α} (count : Nat)
    (hunchanged : (sweep updates (swept updates table count)).2 = false) :
    (saturate updates table).sweeps.length ≤ count + 1 := by
  fun_induction saturate updates table generalizing count with
  | case1 table first hchanged rest ih =>
      cases count with
      | zero => exact absurd (hunchanged.symm.trans hchanged) Bool.false_ne_true
      | succ count => exact Nat.succ_le_succ (ih count hunchanged)
  | case2 table last hlast => exact Nat.le_add_left 1 count

namespace Marking

variable {marking : Marking α ι} {updates : List (Update α)} {table : Array α}

section Swept

variable (hupdates : ∀ update ∈ updates, marking.Markwise update)
  (htable : marking.ValidTable table)
include hupdates htable

theorem validTable_swept (count : Nat) : marking.ValidTable (swept updates table count) := by
  induction count with
  | zero => exact htable
  | succ count ih =>
      rw [swept_succ]
      exact validTable_sweep hupdates ih

open Classical in
/-- The indices at which a mark stands after a number of sweeps. -/
noncomputable def spread (marking : Marking α ι) (updates : List (Update α)) (table : Array α)
    (mark : ι) (count : Nat) : Finset Nat :=
  {index ∈ Finset.range table.size | marking.At (swept updates table count) index mark}

omit hupdates htable in
theorem mem_spread {index count : Nat} {mark : ι} :
    index ∈ marking.spread updates table mark count ↔
      marking.At (swept updates table count) index mark := by
  classical
  rw [spread, Finset.mem_filter, Finset.mem_range, and_iff_right_iff_imp]
  rintro ⟨entry, hentry, _⟩
  rw [← size_swept updates table count]
  exact (Array.getElem?_eq_some_iff.mp hentry).1

theorem spread_subset (mark : ι) (count : Nat) :
    marking.spread updates table mark count ⊆ marking.spread updates table mark (count + 1) := by
  intro index hindex
  rw [mem_spread] at hindex ⊢
  rw [swept_succ]
  exact at_sweep hupdates (validTable_swept hupdates htable count) hindex

/-- A mark that stays where it is in one sweep stays there in the next. -/
theorem spread_stable {mark : ι} {count : Nat}
    (hstays : marking.spread updates table mark count =
      marking.spread updates table mark (count + 1)) :
    marking.spread updates table mark (count + 1) =
      marking.spread updates table mark (count + 2) := by
  have hagree : marking.Agree mark (swept updates table count)
      (swept updates table (count + 1)) := by
    refine ⟨by rw [size_swept, size_swept], fun index => ?_⟩
    rw [← mem_spread, ← mem_spread, hstays]
  have hnext := agree_sweep hupdates (validTable_swept hupdates htable count)
    (validTable_swept hupdates htable (count + 1)) hagree
  rw [← swept_succ, ← swept_succ] at hnext
  ext index
  rw [mem_spread, mem_spread, hnext.at_iff]

/-- A mark has reached all its places after as many sweeps as there are entries. -/
theorem spread_size (mark : ι) :
    marking.spread updates table mark (table.size + 1) =
      marking.spread updates table mark table.size := by
  have hsubset := spread_subset hupdates htable mark
  have hbound (count : Nat) : (marking.spread updates table mark count).card ≤ table.size := by
    classical
    rw [spread]
    exact (Finset.card_filter_le _ _).trans_eq (Finset.card_range _)
  have hstable (count : Nat)
      (hcard : (marking.spread updates table mark count).card =
        (marking.spread updates table mark (count + 1)).card) :
      (marking.spread updates table mark (count + 1)).card =
        (marking.spread updates table mark (count + 2)).card :=
    congrArg Finset.card (spread_stable hupdates htable
      (Finset.eq_of_subset_of_card_le (hsubset count) hcard.ge))
  have hcard := Nat.stabilises_of_monotone
    (monotone_nat_of_le_succ fun count => Finset.card_le_card (hsubset count)) hbound hstable
    (Nat.le_succ table.size)
  exact (Finset.eq_of_subset_of_card_le (hsubset table.size) hcard.le).symm

/-- No more sweeps are needed than there are entries, and one that changes nothing. -/
theorem length_sweeps_saturate_le :
    (saturate updates table).sweeps.length ≤ table.size + 1 := by
  refine length_sweeps_le_of_unchanged table.size ?_
  -- a change in the last sweep would be a new mark, and by then no mark moves any more
  by_contra hchanged
  rw [Bool.not_eq_false] at hchanged
  obtain ⟨index, mark, hnew, hnot⟩ :=
    exists_new_of_sweep hupdates (validTable_swept hupdates htable table.size) hchanged
  rw [← swept_succ, ← mem_spread, spread_size hupdates htable mark, mem_spread] at hnew
  exact hnot hnew

end Swept

end Marking

end TopDown
