import Mathlib.Data.List.Forall2
import TopDown.Proofs.Saturation

/-!
# Checked saturation

A sweep reads and writes a table by number, and a number can lie outside of the table. Checked
sweeps give nothing as soon as one does. The main statement says that checked updates saturate a
table just as updates do when their numbers and values fit the table.
-/

namespace TopDown

variable {α : Type} {count : Nat} {allowed : α → Prop} {table : Array α}

/-- A table with the given number of entries, all of them allowed. -/
structure IsTable (count : Nat) (allowed : α → Prop) (table : Array α) : Prop where
  size_eq : table.size = count
  each : EachEntry (fun _ => allowed) table

theorem IsTable.getElem? (htable : IsTable count allowed table) {index : Nat}
    (hindex : index < count) : ∃ entry, table[index]? = some entry ∧ allowed entry := by
  have hlt : index < table.size := htable.size_eq ▸ hindex
  exact ⟨table[index], Array.getElem?_eq_getElem hlt,
    htable.each index _ (Array.getElem?_eq_getElem hlt)⟩

theorem isTable_replicate (count : Nat) {entry : α} (hentry : allowed entry) :
    IsTable count allowed (Array.replicate count entry) where
  size_eq := Array.size_replicate
  each := by
    intro index other hother
    rw [Array.getElem?_replicate] at hother
    split at hother
    · exact Option.some.inj hother ▸ hentry
    · cases hother

theorem isTable_map {ι : Type} {convert : ι → α} {values : List ι}
    (hvalues : ∀ value ∈ values, allowed (convert value)) :
    IsTable values.length allowed (values.map convert).toArray where
  size_eq := by rw [List.size_toArray, List.length_map]
  each := by
    intro index entry hentry
    rw [List.getElem?_toArray] at hentry
    exact List.forall_mem_map.mpr hvalues entry (List.mem_of_getElem? hentry)

theorem isTable_map_range (count : Nat) {convert : Nat → α}
    (hconvert : ∀ index, allowed (convert index)) :
    IsTable count allowed ((List.range count).map convert).toArray := by
  have htable := isTable_map fun index (_ : index ∈ List.range count) => hconvert index
  rwa [List.length_range] at htable

/-- The table that no sweep changes any more, and the tables on the way to it. -/
def Saturated.tables (saturated : Saturated α) : List (Array α) :=
  saturated.table :: saturated.sweeps

/-- The last sweep leaves the table that no sweep changes any more. -/
theorem table_mem_sweeps [Absorbing α] (updates : List (Update α)) (table : Array α) :
    (saturate updates table).table ∈ (saturate updates table).sweeps := by
  fun_induction saturate updates table with
  | case1 table swept hchanged rest ih => exact List.mem_cons_of_mem _ ih
  | case2 table swept hunchanged => exact List.mem_singleton_self _

/-- Values for which it can be checked that one of them absorbs another without reading what the
other one does not have. -/
class CheckedAbsorbing (α : Type) extends Absorbing α where
  fits : α → α → Bool

/-- An update whose value may depend on a place that the table does not have. -/
structure CheckedUpdate (α : Type) where
  target : Nat
  value : Array α → Option α

variable [CheckedAbsorbing α]

/-- Applies an update if the table has all the places that it needs. -/
def CheckedUpdate.apply (update : CheckedUpdate α) (table : Array α) :
    Option (Array α × Bool) := do
  let old ← table[update.target]?
  let value ← update.value table
  if CheckedAbsorbing.fits old value then
    let absorbed := Absorbing.absorb old value
    if absorbed.2 then return (table.setIfInBounds update.target absorbed.1, true)
    else return (table, false)
  else none

def checkedSweep : List (CheckedUpdate α) → Array α → Option (Array α × Bool)
  | [], table => some (table, false)
  | update :: rest, table => do
      let first ← update.apply table
      let others ← checkedSweep rest first.1
      return (others.1, first.2 || others.2)

/-! ### Termination

A checked update that is applied does what some update does, so checked sweeps use up room as sweeps
do. -/

theorem CheckedUpdate.exists_apply_eq {checked : CheckedUpdate α} {table : Array α}
    {result : Array α × Bool} (hresult : checked.apply table = some result) :
    ∃ update : Update α, update.apply table = result := by
  simp only [CheckedUpdate.apply, Option.bind_eq_bind, Option.bind_eq_some_iff] at hresult
  obtain ⟨old, hold, value, -, hresult⟩ := hresult
  -- the value has been read, so an update that always has this value does the same
  refine ⟨{ target := checked.target, value := fun _ => value }, ?_⟩
  simp only [Update.apply, hold]
  split at hresult
  · split at hresult
    · rename_i habsorbed
      rw [if_pos habsorbed]
      exact Option.some.inj hresult
    · rename_i habsorbed
      rw [if_neg habsorbed]
      exact Option.some.inj hresult
  · cases hresult

theorem exists_sweep_eq {checked : List (CheckedUpdate α)} {table : Array α}
    {result : Array α × Bool} (hresult : checkedSweep checked table = some result) :
    ∃ updates : List (Update α), sweep updates table = result := by
  induction checked generalizing table result with
  | nil => exact ⟨[], Option.some.inj hresult⟩
  | cons update rest ih =>
      simp only [checkedSweep, Option.bind_eq_bind, Option.bind_eq_some_iff] at hresult
      obtain ⟨first, hfirst, others, hothers, hresult⟩ := hresult
      obtain ⟨update, rfl⟩ := CheckedUpdate.exists_apply_eq hfirst
      obtain ⟨updates, rfl⟩ := ih hothers
      exact ⟨update :: updates, Option.some.inj hresult⟩

theorem tableRoom_lt_of_checkedSweep {checked : List (CheckedUpdate α)} {table : Array α}
    {swept : Array α × Bool} (hswept : checkedSweep checked table = some swept)
    (hchanged : swept.2 = true) : tableRoom swept.1 < tableRoom table := by
  obtain ⟨updates, rfl⟩ := exists_sweep_eq hswept
  exact tableRoom_sweep_lt hchanged

/-- Repeats checked sweeps until one changes nothing. -/
def checkedSaturate (updates : List (CheckedUpdate α)) (table : Array α) : Option (Saturated α) :=
  match _hswept : checkedSweep updates table with
  | none => none
  | some swept =>
      if swept.2 then
        (checkedSaturate updates swept.1).map fun rest =>
          { table := rest.table, sweeps := swept.1 :: rest.sweeps }
      else some { table := swept.1, sweeps := [swept.1] }
termination_by tableRoom table
decreasing_by exact tableRoom_lt_of_checkedSweep _hswept ‹_›

theorem checkedSaturate_of_checkedSweep {checked : List (CheckedUpdate α)} {table : Array α}
    {swept : Array α × Bool} (hswept : checkedSweep checked table = some swept) :
    checkedSaturate checked table =
      if swept.2 then
        (checkedSaturate checked swept.1).map fun rest =>
          { table := rest.table, sweeps := swept.1 :: rest.sweeps }
      else some { table := swept.1, sweeps := [swept.1] } := by
  rw [checkedSaturate]
  split
  · rename_i hnone
    rw [hnone] at hswept
    cases hswept
  · rename_i found hfound
    rw [hfound] at hswept
    cases hswept
    rfl

/-- Allowed values can absorb each other, and stay allowed when they do. -/
structure Compatible (allowed : α → Prop) : Prop where
  fits : ∀ {old value}, allowed old → allowed value → CheckedAbsorbing.fits old value = true
  absorb : ∀ {old value}, allowed old → allowed value → allowed (Absorbing.absorb old value).1

/-- On tables of a kind, a checked update finds what it reads, and does what an update does. -/
structure CheckedUpdate.Mirrors (count : Nat) (allowed : α → Prop) (checked : CheckedUpdate α)
    (update : Update α) : Prop where
  target_eq : checked.target = update.target
  target_lt : update.target < count
  value_eq : ∀ {table}, IsTable count allowed table →
    checked.value table = some (update.value table)
  allowed_value : ∀ {table}, IsTable count allowed table → allowed (update.value table)

variable {checked : List (CheckedUpdate α)} {updates : List (Update α)}

section Saturate

variable (hcompatible : Compatible allowed)
include hcompatible

theorem CheckedUpdate.Mirrors.isTable_apply {checked : CheckedUpdate α} {update : Update α}
    (hmirrors : checked.Mirrors count allowed update) (htable : IsTable count allowed table) :
    IsTable count allowed (update.apply table).1 where
  size_eq := by rw [update.size_apply, htable.size_eq]
  each := Update.eachEntry_apply
    (fun _ hold => hcompatible.absorb hold (hmirrors.allowed_value htable)) htable.each

theorem CheckedUpdate.Mirrors.apply_eq {checked : CheckedUpdate α} {update : Update α}
    (hmirrors : checked.Mirrors count allowed update) (htable : IsTable count allowed table) :
    checked.apply table = some (update.apply table) := by
  obtain ⟨old, hold, hallowed⟩ := htable.getElem? hmirrors.target_lt
  have hfits := hcompatible.fits hallowed (hmirrors.allowed_value htable)
  simp only [CheckedUpdate.apply, Update.apply, hmirrors.target_eq, hold,
    hmirrors.value_eq htable, Option.bind_eq_bind, Option.bind_some, hfits, if_true]
  split <;> rfl

section Updates

variable (hmirrors : List.Forall₂ (CheckedUpdate.Mirrors count allowed) checked updates)
include hmirrors

theorem isTable_sweep (htable : IsTable count allowed table) :
    IsTable count allowed (sweep updates table).1 := by
  induction hmirrors generalizing table with
  | nil => exact htable
  | cons hupdate _ ih => exact ih (hupdate.isTable_apply hcompatible htable)

theorem checkedSweep_eq (htable : IsTable count allowed table) :
    checkedSweep checked table = some (sweep updates table) := by
  induction hmirrors generalizing table with
  | nil => rfl
  | cons hupdate _ ih =>
      rw [checkedSweep, hupdate.apply_eq hcompatible htable, Option.bind_eq_bind, Option.bind_some,
        ih (hupdate.isTable_apply hcompatible htable)]
      rfl

theorem isTable_of_mem_sweeps (htable : IsTable count allowed table) :
    ∀ swept ∈ (saturate updates table).sweeps, IsTable count allowed swept := by
  fun_induction saturate updates table with
  | case1 table swept hchanged rest ih =>
      have hswept := isTable_sweep hcompatible hmirrors htable
      rw [List.forall_mem_cons]
      exact ⟨hswept, ih hswept⟩
  | case2 table swept hunchanged =>
      rw [List.forall_mem_singleton]
      exact isTable_sweep hcompatible hmirrors htable

/-- All tables of a saturation are of the kind of the first one. -/
theorem isTable_saturate (htable : IsTable count allowed table) :
    ∀ swept ∈ (saturate updates table).tables, IsTable count allowed swept := by
  have hsweeps := isTable_of_mem_sweeps hcompatible hmirrors htable
  exact List.forall_mem_cons.mpr ⟨hsweeps _ (table_mem_sweeps updates table), hsweeps⟩

theorem checkedSaturate_eq (htable : IsTable count allowed table) :
    checkedSaturate checked table = some (saturate updates table) := by
  fun_induction saturate updates table with
  | case1 table swept hchanged rest ih =>
      rw [checkedSaturate_of_checkedSweep (checkedSweep_eq hcompatible hmirrors htable),
        if_pos hchanged, ih (isTable_sweep hcompatible hmirrors htable)]
      rfl
  | case2 table swept hunchanged =>
      rw [checkedSaturate_of_checkedSweep (checkedSweep_eq hcompatible hmirrors htable),
        if_neg hunchanged]

end Updates

end Saturate

end TopDown
