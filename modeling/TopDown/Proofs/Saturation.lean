import TopDown.Analysis.Saturation

/-!
# Laws of saturation

What every update keeps holds of a saturated table, and no update changes a saturated table any
more.
-/

namespace TopDown

variable {α : Type} [Absorbing α] {updates : List (Update α)}

/-- An invariant of a table that says something about each of its entries. -/
def EachEntry (allowed : Nat → α → Prop) (table : Array α) : Prop :=
  ∀ index entry, table[index]? = some entry → allowed index entry

theorem Update.size_apply (update : Update α) (table : Array α) :
    (update.apply table).1.size = table.size := by
  unfold apply
  split
  · dsimp only
    split
    · exact Array.size_setIfInBounds ..
    · rfl
  · rfl

theorem Update.eachEntry_apply {allowed : Nat → α → Prop} {update : Update α} {table : Array α}
    (habsorb : ∀ old, allowed update.target old →
      allowed update.target (Absorbing.absorb old (update.value table)).1)
    (htable : EachEntry allowed table) : EachEntry allowed (update.apply table).1 := by
  unfold apply
  split
  · rename_i old hold
    dsimp only
    split
    · intro index entry hentry
      rw [Array.getElem?_setIfInBounds] at hentry
      split at hentry
      · rename_i hindex
        split at hentry
        · rw [Option.some.injEq] at hentry
          rw [← hentry, ← hindex]
          exact habsorb old (htable _ _ hold)
        · cases hentry
      · exact htable index entry hentry
    · exact htable
  · exact htable

theorem sweep_induction (invariant : Array α → Prop)
    (hstep : ∀ update ∈ updates, ∀ table, invariant table → invariant (update.apply table).1)
    {table : Array α} (hstart : invariant table) : invariant (sweep updates table).1 := by
  induction updates generalizing table with
  | nil => exact hstart
  | cons update rest ih =>
      rw [List.forall_mem_cons] at hstep
      exact ih hstep.2 (hstep.1 table hstart)

theorem saturate_induction (invariant : Array α → Prop)
    (hstep : ∀ update ∈ updates, ∀ table, invariant table → invariant (update.apply table).1)
    {table : Array α} (hstart : invariant table) : invariant (saturate updates table).table := by
  fun_induction saturate updates table with
  | case1 table swept hchanged rest ih => exact ih (sweep_induction invariant hstep hstart)
  | case2 table swept hunchanged => exact sweep_induction invariant hstep hstart

theorem size_saturate (table : Array α) : (saturate updates table).table.size = table.size := by
  refine saturate_induction (fun later => later.size = table.size) ?_ rfl
  intro update _ later hsize
  rw [update.size_apply, hsize]

theorem eachEntry_saturate {allowed : Nat → α → Prop} {table : Array α}
    (habsorb : ∀ update ∈ updates, ∀ table, EachEntry allowed table →
      ∀ old, allowed update.target old →
        allowed update.target (Absorbing.absorb old (update.value table)).1)
    (hstart : EachEntry allowed table) : EachEntry allowed (saturate updates table).table :=
  saturate_induction _
    (fun update hupdate table htable => Update.eachEntry_apply (habsorb update hupdate table htable)
      htable) hstart

theorem apply_unchanged_of_sweep {table : Array α} (hunchanged : (sweep updates table).2 = false) :
    ∀ update ∈ updates, (update.apply table).2 = false := by
  induction updates generalizing table with
  | nil => simp
  | cons update rest ih =>
      simp only [sweep, Bool.or_eq_false_iff] at hunchanged
      have hrest := ih hunchanged.2
      rw [Update.apply_unchanged hunchanged.1] at hrest
      rw [List.forall_mem_cons]
      exact ⟨hunchanged.1, hrest⟩

theorem apply_saturate_unchanged (table : Array α) :
    ∀ update ∈ updates, (update.apply (saturate updates table).table).2 = false := by
  fun_induction saturate updates table with
  | case1 table swept hchanged rest ih => exact ih
  | case2 table swept hunchanged =>
      rw [Bool.not_eq_true] at hunchanged
      rw [sweep_unchanged hunchanged]
      exact apply_unchanged_of_sweep hunchanged

/-- An entry of a saturated table has nothing new to absorb. -/
theorem absorb_saturate_unchanged {table : Array α} {update : Update α} (hupdate : update ∈ updates)
    {old : α} (hold : (saturate updates table).table[update.target]? = some old) :
    (Absorbing.absorb old (update.value (saturate updates table).table)).2 = false := by
  have hunchanged := apply_saturate_unchanged table update hupdate
  unfold Update.apply at hunchanged
  rw [hold] at hunchanged
  dsimp only at hunchanged
  split at hunchanged
  · exact absurd hunchanged.symm Bool.false_ne_true
  · rename_i hsame
    rwa [Bool.not_eq_true] at hsame

end TopDown
