import TopDown.LookaheadSet.Basic

/-!
# Members of a set of lookaheads

The members are found by a walk that looks for the lowest bit that it has not yet seen. The main
statement says that the walk goes upwards.
-/

namespace TopDown.LookaheadSet

theorem toNat_bitMask {bit : Nat} (hbit : bit < blockBits) : (bitMask bit).toNat = 1 <<< bit := by
  simp only [blockBits] at hbit
  have hlt : 2 ^ bit < 2 ^ 64 := Nat.pow_lt_pow_right (by omega) hbit
  simp only [bitMask, UInt64.toNat_shiftLeft, UInt64.toNat_one, Nat.one_shiftLeft]
  rw [UInt64.toNat_ofNat_of_lt' (by simp [UInt64.size]; omega), Nat.mod_eq_of_lt hbit,
    Nat.mod_eq_of_lt hlt]

theorem hasBit_eq_testBit {bit : Nat} (block : UInt64) (hbit : bit < blockBits) :
    hasBit block bit = block.toNat.testBit bit := by
  rw [hasBit, Bool.eq_iff_iff, bne_iff_ne, ne_eq, ← UInt64.toNat_inj, UInt64.toNat_and,
    toNat_bitMask hbit, Nat.one_shiftLeft]
  constructor
  · intro hne
    obtain ⟨position, hposition⟩ := Nat.exists_testBit_of_ne_zero hne
    rw [Nat.testBit_and, Nat.testBit_two_pow] at hposition
    grind
  · intro hset hzero
    have := congrArg (Nat.testBit · bit) hzero
    simp [Nat.testBit_and, hset] at this

/-- The bits of a block at or above `bit`. -/
def bitsFrom (block : UInt64) (bit : Nat) : UInt64 :=
  block &&& ~~~(bitMask bit - 1)

theorem hasBit_bitsFrom {bit position : Nat} (block : UInt64) (hbit : bit < blockBits)
    (hposition : position < blockBits) :
    hasBit (bitsFrom block bit) position = (hasBit block position && decide (bit ≤ position)) := by
  rw [bitsFrom, hasBit_eq_testBit _ hposition, hasBit_eq_testBit _ hposition, UInt64.toNat_and,
    Nat.testBit_and, UInt64.toNat_not]
  have hpow : (bitMask bit).toNat = 2 ^ bit := by rw [toNat_bitMask hbit, Nat.one_shiftLeft]
  have hone : (bitMask bit - 1).toNat = 2 ^ bit - 1 := by
    rw [UInt64.toNat_sub_of_le, hpow]
    · rfl
    · rw [UInt64.le_iff_toNat_le, hpow]
      exact Nat.one_le_two_pow
  have hlt : 2 ^ bit - 1 < 2 ^ 64 := hone ▸ (bitMask bit - 1).toNat_lt
  have hsub : UInt64.size - 1 - (2 ^ bit - 1) = 2 ^ 64 - (2 ^ bit - 1 + 1) := by
    simp only [UInt64.size]
    omega
  rw [hone, hsub, Nat.testBit_two_pow_sub_succ hlt, Nat.testBit_two_pow_sub_one]
  simp only [blockBits] at hposition
  grind

/-- The position of the lowest bit of a block, and the number of its bits if there is none. -/
def trailingZeros (block : UInt64) : Nat :=
  ((List.range blockBits).find? (hasBit block)).getD blockBits

theorem hasBit_trailingZeros {block : UInt64} (hzeros : trailingZeros block < blockBits) :
    hasBit block (trailingZeros block) = true := by
  unfold trailingZeros at hzeros ⊢
  cases hfind : (List.range blockBits).find? (hasBit block) with
  | none => simp [hfind] at hzeros
  | some bit => exact List.find?_some hfind

/-- The position of the lowest bit of a block at or above `bit`. -/
def lowestBitFrom (block : UInt64) (bit : Nat) : Nat :=
  trailingZeros (bitsFrom block bit)

theorem le_lowestBitFrom {block : UInt64} {bit : Nat} (hbit : bit < blockBits)
    (hlowest : lowestBitFrom block bit < blockBits) : bit ≤ lowestBitFrom block bit := by
  have hset : hasBit (bitsFrom block bit) (lowestBitFrom block bit) = true :=
    hasBit_trailingZeros hlowest
  rw [hasBit_bitsFrom block hbit hlowest] at hset
  exact of_decide_eq_true (Bool.and_eq_true_iff.mp hset).2

/-- A place in a walk through a set: a block, and the first of its bits that is still to be seen. -/
structure Walk where
  index : Nat
  bit : Nat
deriving DecidableEq, Repr

def Walk.start : Walk :=
  { index := 0, bit := 0 }

/-- The first member from a place on, and the place behind it. -/
def next? (set : LookaheadSet) (walk : Walk) : Option (Nat × Walk) :=
  if walk.index < set.blocks.size then
    let bit :=
      if walk.bit < blockBits then lowestBitFrom (set.block walk.index) walk.bit else blockBits
    if bit < blockBits then
      some (walk.index * blockBits + bit, { index := walk.index, bit := bit + 1 })
    else set.next? { index := walk.index + 1, bit := 0 }
  else none
termination_by set.blocks.size - walk.index

/-- A bound on the members that a walk has still to see. -/
def walkRoom (set : LookaheadSet) (walk : Walk) : Nat :=
  (set.blocks.size - walk.index) * (blockBits + 1) + (blockBits - walk.bit)

theorem walkRoom_lt_of_next? {set : LookaheadSet} {walk after : Walk} {id : Nat}
    (hnext : set.next? walk = some (id, after)) : set.walkRoom after < set.walkRoom walk := by
  fun_induction next? set walk with
  | case1 walk hindex bit hbit =>
      simp only [Option.some.injEq, Prod.mk.injEq] at hnext
      obtain ⟨_, rfl⟩ := hnext
      have hstart : walk.bit < blockBits := by
        by_cases hlt : walk.bit < blockBits
        · exact hlt
        · simp [bit, hlt] at hbit
      have hle : walk.bit ≤ bit := by
        simp only [bit, hstart, ↓reduceDIte] at hbit ⊢
        exact le_lowestBitFrom hstart hbit
      simp only [walkRoom]
      omega
  | case2 walk hindex bit hbit ih =>
      refine Nat.lt_of_lt_of_le (ih hnext) ?_
      simp only [walkRoom]
      have hblocks : set.blocks.size - walk.index = set.blocks.size - (walk.index + 1) + 1 := by
        omega
      rw [hblocks, Nat.succ_mul]
      omega
  | case3 walk hindex => simp at hnext

/-- The members that a walk has still to see. -/
def membersFrom (set : LookaheadSet) (walk : Walk) : List Nat :=
  match _hnext : set.next? walk with
  | some (id, after) => id :: set.membersFrom after
  | none => []
termination_by set.walkRoom walk
decreasing_by exact walkRoom_lt_of_next? _hnext

/-- The members of a set, in ascending order. -/
def toList (set : LookaheadSet) : List Nat :=
  set.membersFrom .start

/-- The members between braces. -/
def render (set : LookaheadSet) : String :=
  "\x7b" ++ ", ".intercalate (set.toList.map toString) ++ "\x7d"

end TopDown.LookaheadSet
