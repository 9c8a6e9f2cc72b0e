/-!
# Saturation

Tables are computed by sweeps. A sweep applies a list of updates to a table one after another, each
update letting one entry absorb a value that depends on the table as it stands. Sweeps are repeated
until one changes nothing, which happens because entries can absorb something new only finitely
often.
-/

namespace TopDown

/-- Values that absorb others and report whether they have changed; each change uses up room. -/
class Absorbing (α : Type) where
  absorb : α → α → α × Bool
  room : α → Nat
  room_absorb_lt : ∀ {value other : α},
    (absorb value other).2 = true → room (absorb value other).1 < room value

/-- What one entry of a table is to absorb, given the table. -/
structure Update (α : Type) where
  target : Nat
  value : Array α → α

variable {α : Type} [Absorbing α]

/-- Applies an update, and tells whether the table has changed. -/
def Update.apply (update : Update α) (table : Array α) : Array α × Bool :=
  match table[update.target]? with
  | some old =>
      let absorbed := Absorbing.absorb old (update.value table)
      if absorbed.2 then (table.setIfInBounds update.target absorbed.1, true) else (table, false)
  | none => (table, false)

/-- Applies the updates in order, and tells whether any of them has changed the table. -/
def sweep : List (Update α) → Array α → Array α × Bool
  | [], table => (table, false)
  | update :: rest, table =>
      let first := update.apply table
      let others := sweep rest first.1
      (others.1, first.2 || others.2)

def valuesRoom : List α → Nat
  | [] => 0
  | value :: rest => Absorbing.room value + valuesRoom rest

def tableRoom (table : Array α) : Nat :=
  valuesRoom table.toList

theorem valuesRoom_set_lt {values : List α} {index : Nat} {old new : α}
    (hold : values[index]? = some old) (hless : Absorbing.room new < Absorbing.room old) :
    valuesRoom (values.set index new) < valuesRoom values := by
  induction values generalizing index with
  | nil => simp at hold
  | cons value rest ih =>
      cases index with
      | zero =>
          simp only [List.getElem?_cons_zero, Option.some.injEq] at hold
          subst hold
          simp only [List.set_cons_zero, valuesRoom]
          omega
      | succ index =>
          simp only [List.getElem?_cons_succ] at hold
          have := ih hold
          simp only [List.set_cons_succ, valuesRoom]
          omega

theorem Update.apply_unchanged {update : Update α} {table : Array α}
    (hunchanged : (update.apply table).2 = false) : (update.apply table).1 = table := by
  unfold apply at hunchanged ⊢
  grind

theorem Update.tableRoom_apply_lt {update : Update α} {table : Array α}
    (hchanged : (update.apply table).2 = true) :
    tableRoom (update.apply table).1 < tableRoom table := by
  unfold apply at hchanged ⊢
  split at hchanged
  · rename_i old hold
    dsimp only at hchanged ⊢
    split at hchanged
    · rename_i habsorbed
      simp only [habsorbed, if_true, tableRoom, Array.toList_setIfInBounds]
      exact valuesRoom_set_lt (by simpa using hold) (Absorbing.room_absorb_lt habsorbed)
    · simp at hchanged
  · simp at hchanged

theorem sweep_unchanged {updates : List (Update α)} {table : Array α}
    (hunchanged : (sweep updates table).2 = false) : (sweep updates table).1 = table := by
  induction updates generalizing table with
  | nil => rfl
  | cons update rest ih =>
      simp only [sweep, Bool.or_eq_false_iff] at hunchanged ⊢
      rw [ih hunchanged.2, Update.apply_unchanged hunchanged.1]

theorem tableRoom_sweep_lt {updates : List (Update α)} {table : Array α}
    (hchanged : (sweep updates table).2 = true) :
    tableRoom (sweep updates table).1 < tableRoom table := by
  induction updates generalizing table with
  | nil => simp [sweep] at hchanged
  | cons update rest ih =>
      simp only [sweep, Bool.or_eq_true] at hchanged ⊢
      have hfirst : tableRoom (update.apply table).1 ≤ tableRoom table := by
        cases hflag : (update.apply table).2 with
        | false => exact Nat.le_of_eq (congrArg tableRoom (Update.apply_unchanged hflag))
        | true => exact Nat.le_of_lt (Update.tableRoom_apply_lt hflag)
      cases hothers : (sweep rest (update.apply table).1).2 with
      | true => exact Nat.lt_of_lt_of_le (ih hothers) hfirst
      | false =>
          rw [sweep_unchanged hothers]
          exact Update.tableRoom_apply_lt (by simpa [hothers] using hchanged)

/-- A table that no sweep changes any more, and the table after each sweep that led to it. -/
structure Saturated (α : Type) where
  table : Array α
  sweeps : List (Array α)

/-- Repeats sweeps until one changes nothing. -/
def saturate (updates : List (Update α)) (table : Array α) : Saturated α :=
  let swept := sweep updates table
  if swept.2 then
    let rest := saturate updates swept.1
    { table := rest.table, sweeps := swept.1 :: rest.sweeps }
  else { table := swept.1, sweeps := [swept.1] }
termination_by tableRoom table
decreasing_by exact tableRoom_sweep_lt ‹_›

end TopDown
