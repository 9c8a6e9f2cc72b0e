import Mathlib.Data.List.Sort
import TopDown.LookaheadSet.Members

/-!
# Laws of sets of lookaheads

Sets with the same number of blocks behave like sets of numbers, and the walk through a set meets
its members and nothing else.
-/

namespace TopDown.LookaheadSet

variable {set other : LookaheadSet} {id position capacity : Nat}

theorem mod_blockBits_lt (id : Nat) : id % blockBits < blockBits :=
  Nat.mod_lt id (by decide)

theorem hasBit_zero (bit : Nat) : hasBit 0 bit = false := by
  simp [hasBit]

theorem hasBit_or (left right : UInt64) {bit : Nat} (hbit : bit < blockBits) :
    hasBit (left ||| right) bit = (hasBit left bit || hasBit right bit) := by
  rw [hasBit_eq_testBit _ hbit, hasBit_eq_testBit _ hbit, hasBit_eq_testBit _ hbit,
    UInt64.toNat_or, Nat.testBit_or]

theorem hasBit_and (left right : UInt64) {bit : Nat} (hbit : bit < blockBits) :
    hasBit (left &&& right) bit = (hasBit left bit && hasBit right bit) := by
  rw [hasBit_eq_testBit _ hbit, hasBit_eq_testBit _ hbit, hasBit_eq_testBit _ hbit,
    UInt64.toNat_and, Nat.testBit_and]

theorem hasBit_bitMask {bit position : Nat} (hbit : bit < blockBits)
    (hposition : position < blockBits) :
    hasBit (bitMask bit) position = decide (bit = position) := by
  rw [hasBit_eq_testBit _ hposition, toNat_bitMask hbit, Nat.one_shiftLeft, Nat.testBit_two_pow]

theorem bitMask_ne_zero {bit : Nat} (hbit : bit < blockBits) : bitMask bit ≠ 0 := by
  intro hzero
  have hself := hasBit_bitMask hbit hbit
  rw [hzero, hasBit_zero, decide_eq_true rfl] at hself
  exact Bool.false_ne_true hself

theorem testBit_toNat_of_le {block : UInt64} {bit : Nat} (hbit : blockBits ≤ bit) :
    block.toNat.testBit bit = false := by
  apply Nat.testBit_lt_two_pow
  have hlt : block.toNat < 2 ^ 64 := block.toNat_lt
  have hle : 2 ^ 64 ≤ 2 ^ bit := Nat.pow_le_pow_right (by decide) hbit
  exact Nat.lt_of_lt_of_le hlt hle

theorem eq_of_hasBit {left right : UInt64}
    (hbits : ∀ bit < blockBits, hasBit left bit = hasBit right bit) : left = right := by
  apply UInt64.toNat_inj.mp
  apply Nat.eq_of_testBit_eq
  intro bit
  by_cases hbit : bit < blockBits
  · rw [← hasBit_eq_testBit _ hbit, ← hasBit_eq_testBit _ hbit, hbits bit hbit]
  · rw [testBit_toNat_of_le (Nat.le_of_not_lt hbit), testBit_toNat_of_le (Nat.le_of_not_lt hbit)]

theorem or_bitMask_eq_iff {block : UInt64} {bit : Nat} (hbit : bit < blockBits) :
    block ||| bitMask bit = block ↔ hasBit block bit = true := by
  constructor
  · intro hsame
    have hor := hasBit_or block (bitMask bit) hbit
    rwa [hsame, hasBit_bitMask hbit hbit, decide_eq_true rfl, Bool.or_true] at hor
  · intro hset
    refine eq_of_hasBit fun position hposition => ?_
    rw [hasBit_or _ _ hposition, hasBit_bitMask hbit hposition]
    by_cases hsame : bit = position
    · rw [← hsame, hset, Bool.true_or]
    · rw [decide_eq_false hsame, Bool.or_false]

theorem eq_zero_of_hasBit {block : UInt64}
    (hbits : ∀ bit < blockBits, hasBit block bit = false) : block = 0 :=
  eq_of_hasBit fun bit hbit => by rw [hbits bit hbit, hasBit_zero]

theorem block_eq_getElem {index : Nat} (hindex : index < set.blocks.size) :
    set.block index = set.blocks[index] := by
  rw [block, Array.getD_eq_getD_getElem?, Array.getElem?_eq_getElem hindex, Option.getD_some]

theorem block_eq_zero_of_size_le {index : Nat} (hindex : set.blocks.size ≤ index) :
    set.block index = 0 := by
  rw [block, Array.getD_eq_getD_getElem?, Array.getElem?_eq_none hindex]
  rfl

theorem contains_eq_false_of_size_le (hid : set.blocks.size ≤ id / blockBits) :
    set.contains id = false := by
  rw [contains, block_eq_zero_of_size_le hid, hasBit_zero]

theorem contains_eq_hasBit {index bit : Nat} (hbit : bit < blockBits) :
    set.contains (index * blockBits + bit) = hasBit (set.block index) bit := by
  simp only [blockBits] at hbit
  have hdiv : (index * blockBits + bit) / blockBits = index := by
    simp only [blockBits]
    omega
  have hmod : (index * blockBits + bit) % blockBits = bit := by
    simp only [blockBits]
    omega
  rw [contains, hdiv, hmod]

/-- Sets with the same number of blocks are equal when they have the same members. -/
theorem eq_of_contains (hsize : other.blocks.size = set.blocks.size)
    (hsame : ∀ id, set.contains id = other.contains id) : set = other := by
  have hblock (index : Nat) : set.block index = other.block index := by
    refine eq_of_hasBit fun bit hbit => ?_
    have hbits := hsame (index * blockBits + bit)
    rwa [contains_eq_hasBit hbit, contains_eq_hasBit hbit] at hbits
  obtain ⟨blocks⟩ := set
  obtain ⟨others⟩ := other
  rw [mk.injEq]
  refine Array.ext hsize.symm fun index hleft hright => ?_
  have hindex := hblock index
  rwa [block_eq_getElem hleft, block_eq_getElem hright] at hindex

theorem size_empty (capacity : Nat) :
    (empty capacity).blocks.size = (capacity + (blockBits - 1)) / blockBits := by
  simp [empty]

theorem size_insert (set : LookaheadSet) (id : Nat) :
    (set.insert id).blocks.size = set.blocks.size := by
  unfold insert add
  split <;> simp

theorem size_union (set other : LookaheadSet) :
    (set.union other).blocks.size = set.blocks.size := by
  simp [union]

theorem size_inter (set other : LookaheadSet) :
    (set.inter other).blocks.size = set.blocks.size := by
  simp [inter]

theorem contains_empty (capacity id : Nat) : (empty capacity).contains id = false := by
  have hblock : (empty capacity).block (id / blockBits) = 0 := by
    simp only [block, empty, Array.getD_eq_getD_getElem?, Array.getElem?_replicate]
    split <;> rfl
  rw [contains, hblock, hasBit_zero]

theorem contains_clear (set : LookaheadSet) (id : Nat) : set.clear.contains id = false := by
  have hblock : set.clear.block (id / blockBits) = 0 := by
    rw [block, clear, Array.getD_eq_getD_getElem?, Array.getElem?_map]
    cases set.blocks[id / blockBits]? <;> rfl
  rw [contains, hblock, hasBit_zero]

theorem block_union (hsize : other.blocks.size = set.blocks.size) (index : Nat) :
    (set.union other).block index = set.block index ||| other.block index := by
  by_cases hindex : index < set.blocks.size
  · simp [block, union, hindex]
  · have hle := Nat.le_of_not_lt hindex
    rw [block_eq_zero_of_size_le (by rwa [size_union]), block_eq_zero_of_size_le hle,
      block_eq_zero_of_size_le (by rwa [hsize])]
    rfl

theorem contains_union (hsize : other.blocks.size = set.blocks.size) (id : Nat) :
    (set.union other).contains id = (set.contains id || other.contains id) := by
  rw [contains, block_union hsize, hasBit_or _ _ (mod_blockBits_lt id)]
  rfl

theorem block_inter (set other : LookaheadSet) (index : Nat) :
    (set.inter other).block index = set.block index &&& other.block index := by
  by_cases hindex : index < set.blocks.size
  · simp [block, inter, hindex]
  · have hle := Nat.le_of_not_lt hindex
    rw [block_eq_zero_of_size_le (by rwa [size_inter]), block_eq_zero_of_size_le hle]
    simp

theorem contains_inter (set other : LookaheadSet) (id : Nat) :
    (set.inter other).contains id = (set.contains id && other.contains id) := by
  rw [contains, block_inter, hasBit_and _ _ (mod_blockBits_lt id)]
  rfl

theorem block_insert (hid : id / blockBits < set.blocks.size) (index : Nat) :
    (set.insert id).block index =
      if id / blockBits = index then set.block index ||| bitMask (id % blockBits)
      else set.block index := by
  have hget : set.blocks[id / blockBits]? = some set.blocks[id / blockBits] :=
    Array.getElem?_eq_getElem hid
  simp only [insert, add, hget, block, Array.getD_eq_getD_getElem?, Array.getElem?_setIfInBounds]
  split
  · rename_i hindex
    subst hindex
    simp [hid]
  · rfl

theorem contains_insert (hid : id / blockBits < set.blocks.size) (position : Nat) :
    (set.insert id).contains position = (decide (id = position) || set.contains position) := by
  have hsame : id = position ↔
      id / blockBits = position / blockBits ∧ id % blockBits = position % blockBits := by
    constructor
    · rintro rfl
      exact ⟨rfl, rfl⟩
    · rintro ⟨hdiv, hmod⟩
      rw [← Nat.div_add_mod id blockBits, hdiv, hmod, Nat.div_add_mod]
  rw [contains, block_insert hid]
  by_cases hdiv : id / blockBits = position / blockBits
  · rw [if_pos hdiv, hasBit_or _ _ (mod_blockBits_lt position),
      hasBit_bitMask (mod_blockBits_lt id) (mod_blockBits_lt position), Bool.or_comm]
    simp only [hsame, hdiv, true_and]
    rfl
  · rw [if_neg hdiv]
    simp only [hsame, hdiv, false_and, decide_false, Bool.false_or]
    rfl

/-- Adding a number changes a set that does not have it. -/
theorem add_changed_iff (hid : id / blockBits < set.blocks.size) :
    (set.add id).2 = true ↔ ¬set.contains id = true := by
  rw [add, Array.getElem?_eq_getElem hid, contains, block_eq_getElem hid,
    ← or_bitMask_eq_iff (mod_blockBits_lt id)]
  exact bne_iff_ne

theorem isDisjoint_iff :
    set.isDisjoint other = true ↔ ∀ id, ¬ (set.contains id = true ∧ other.contains id = true) := by
  simp only [isDisjoint, List.all_eq_true, List.mem_range, beq_iff_eq]
  constructor
  · intro hdisjoint id hboth
    have hand : hasBit (set.block (id / blockBits) &&& other.block (id / blockBits))
        (id % blockBits) = true := by
      rw [hasBit_and _ _ (mod_blockBits_lt id), Bool.and_eq_true]
      exact hboth
    by_cases hindex : id / blockBits < set.blocks.size
    · rw [hdisjoint _ hindex, hasBit_zero] at hand
      exact Bool.false_ne_true hand
    · rw [contains_eq_false_of_size_le (Nat.le_of_not_lt hindex)] at hboth
      exact Bool.false_ne_true hboth.1
  · intro hdisjoint index _
    apply eq_zero_of_hasBit
    intro bit hbit
    have hdiv : (index * blockBits + bit) / blockBits = index := by
      simp only [blockBits] at hbit ⊢
      omega
    have hmod : (index * blockBits + bit) % blockBits = bit := by
      simp only [blockBits] at hbit ⊢
      omega
    have hnot := hdisjoint (index * blockBits + bit)
    rw [contains, contains, hdiv, hmod, ← Bool.and_eq_true, Bool.not_eq_true,
      ← hasBit_and _ _ hbit] at hnot
    exact hnot

/-! ### Sets of one capacity

Sets that have the same number of blocks, and no bit at or above the capacity, are the same if they
have the same members. -/

/-- A set with the blocks of its capacity and with members below it. -/
structure Within (capacity : Nat) (set : LookaheadSet) : Prop where
  size_eq : set.blocks.size = (capacity + (blockBits - 1)) / blockBits
  lt_of_contains : ∀ {id}, set.contains id = true → id < capacity

theorem within_empty (capacity : Nat) : Within capacity (empty capacity) where
  size_eq := size_empty capacity
  lt_of_contains := by
    intro id hcontains
    rw [contains_empty] at hcontains
    exact absurd hcontains Bool.false_ne_true

namespace Within

theorem size_eq_size (hset : Within capacity set) (hother : Within capacity other) :
    other.blocks.size = set.blocks.size := by
  rw [hset.size_eq, hother.size_eq]

theorem div_lt_size (hset : Within capacity set) (hid : id < capacity) :
    id / blockBits < set.blocks.size := by
  rw [hset.size_eq]
  simp only [blockBits]
  omega

theorem contains_insert_iff (hset : Within capacity set) (hid : id < capacity) :
    (set.insert id).contains position = true ↔ id = position ∨ set.contains position = true := by
  rw [contains_insert (hset.div_lt_size hid), Bool.or_eq_true, decide_eq_true_iff]

theorem contains_union_iff (hset : Within capacity set) (hother : Within capacity other) :
    (set.union other).contains id = true ↔ set.contains id = true ∨ other.contains id = true := by
  rw [contains_union (hset.size_eq_size hother), Bool.or_eq_true]

theorem insert (hset : Within capacity set) (hid : id < capacity) :
    Within capacity (set.insert id) where
  size_eq := by rw [size_insert, hset.size_eq]
  lt_of_contains := by
    intro position hcontains
    rcases (hset.contains_insert_iff hid).mp hcontains with rfl | hold
    · exact hid
    · exact hset.lt_of_contains hold

theorem union (hset : Within capacity set) (hother : Within capacity other) :
    Within capacity (set.union other) where
  size_eq := by rw [size_union, hset.size_eq]
  lt_of_contains := by
    intro position hcontains
    rcases (hset.contains_union_iff hother).mp hcontains with hleft | hright
    · exact hset.lt_of_contains hleft
    · exact hother.lt_of_contains hright

theorem inter (hset : Within capacity set) : Within capacity (set.inter other) where
  size_eq := by rw [size_inter, hset.size_eq]
  lt_of_contains := by
    intro id hcontains
    rw [contains_inter, Bool.and_eq_true] at hcontains
    exact hset.lt_of_contains hcontains.1

theorem ext (hset : Within capacity set) (hother : Within capacity other)
    (hcontains : ∀ id, set.contains id = other.contains id) : set = other :=
  eq_of_contains (hset.size_eq_size hother) hcontains

theorem union_empty (hset : Within capacity set) : set.union (.empty capacity) = set := by
  have hempty := within_empty capacity
  refine (hset.union hempty).ext hset fun id => ?_
  rw [contains_union (hset.size_eq_size hempty), contains_empty, Bool.or_false]

theorem empty_union (hset : Within capacity set) :
    (LookaheadSet.empty capacity).union set = set := by
  have hempty := within_empty capacity
  refine (hempty.union hset).ext hset fun id => ?_
  rw [contains_union (hempty.size_eq_size hset), contains_empty, Bool.false_or]

theorem union_assoc (hset : Within capacity set) (hother : Within capacity other)
    {third : LookaheadSet} (hthird : Within capacity third) :
    (set.union other).union third = set.union (other.union third) := by
  have hboth := hset.union hother
  have hlater := hother.union hthird
  refine (hboth.union hthird).ext (hset.union hlater) fun id => ?_
  rw [contains_union (hboth.size_eq_size hthird), contains_union (hset.size_eq_size hother),
    contains_union (hset.size_eq_size hlater), contains_union (hother.size_eq_size hthird),
    Bool.or_assoc]

theorem union_insert_empty (hset : Within capacity set) (hid : id < capacity) :
    set.union ((LookaheadSet.empty capacity).insert id) = set.insert id := by
  have hempty := within_empty capacity
  have hsingle := hempty.insert hid
  refine (hset.union hsingle).ext (hset.insert hid) fun position => ?_
  rw [contains_union (hset.size_eq_size hsingle), contains_insert (hempty.div_lt_size hid),
    contains_insert (hset.div_lt_size hid), contains_empty, Bool.or_false, Bool.or_comm]

/-- A change is a new member. -/
theorem exists_contains_of_absorb (hset : Within capacity set) (hother : Within capacity other)
    (hchanged : (set.absorb other).2 = true) :
    ∃ id, other.contains id = true ∧ ¬set.contains id = true := by
  by_contra hnone
  have hsame : set.union other = set := by
    refine eq_of_contains (size_union set other).symm fun id => ?_
    rw [Bool.eq_iff_iff, hset.contains_union_iff hother]
    constructor
    · rintro (hleft | hright)
      · exact hleft
      · by_contra hnot
        exact hnone ⟨id, hright, hnot⟩
    · exact .inl
  rw [absorb, hsame, bne_self_eq_false] at hchanged
  exact Bool.false_ne_true hchanged

end Within

/-! ### The walk through a set

A walk looks for the lowest bit at or above its place in the current block, and goes on to the next
block if there is none. -/

theorem hasBit_eq_false_of_lt_trailingZeros {block : UInt64} {bit : Nat}
    (hbit : bit < trailingZeros block) : hasBit block bit = false := by
  unfold trailingZeros at hbit
  cases hfind : (List.range blockBits).find? (hasBit block) with
  | none =>
      rw [hfind, Option.getD_none] at hbit
      simpa using List.find?_range_eq_none.mp hfind bit hbit
  | some lowest =>
      rw [hfind, Option.getD_some] at hbit
      simpa using (List.find?_range_eq_some.mp hfind).2.2 bit hbit

theorem hasBit_eq_false_of_lt_lowestBitFrom {block : UInt64} {bit place : Nat}
    (hplace : place < blockBits) (hle : place ≤ bit) (hbit : bit < blockBits)
    (hlt : bit < lowestBitFrom block place) : hasBit block bit = false := by
  have hclear := hasBit_eq_false_of_lt_trailingZeros hlt
  rw [hasBit_bitsFrom block hplace hbit, decide_eq_true hle, Bool.and_true] at hclear
  exact hclear

theorem hasBit_lowestBitFrom {block : UInt64} {place : Nat} (hplace : place < blockBits)
    (hlowest : lowestBitFrom block place < blockBits) :
    hasBit block (lowestBitFrom block place) = true := by
  have hset : hasBit (bitsFrom block place) (lowestBitFrom block place) = true :=
    hasBit_trailingZeros hlowest
  rw [hasBit_bitsFrom block hplace hlowest, Bool.and_eq_true] at hset
  exact hset.1

/-- The smallest number that a walk has still to see. -/
def Walk.place (walk : Walk) : Nat :=
  walk.index * blockBits + walk.bit

theorem exists_bit_of_le {walk : Walk} (hplace : walk.place ≤ position)
    (hlt : position < (walk.index + 1) * blockBits) :
    ∃ bit, walk.bit ≤ bit ∧ bit < blockBits ∧ position = walk.index * blockBits + bit := by
  refine ⟨position - walk.index * blockBits, ?_, ?_, ?_⟩
  all_goals
    simp only [Walk.place, blockBits] at hplace hlt ⊢
    omega

theorem contains_eq_false_of_lowestBitFrom {walk : Walk}
    (hlowest : walk.bit < blockBits → blockBits ≤ lowestBitFrom (set.block walk.index) walk.bit)
    (hplace : walk.place ≤ position) (hlt : position < (walk.index + 1) * blockBits) :
    set.contains position = false := by
  obtain ⟨bit, hle, hbit, rfl⟩ := exists_bit_of_le hplace hlt
  rw [contains_eq_hasBit hbit]
  have hstart : walk.bit < blockBits := by omega
  exact hasBit_eq_false_of_lt_lowestBitFrom hstart hle hbit
    (Nat.lt_of_lt_of_le hbit (hlowest hstart))

/-- A walk goes to the next member and passes over numbers that are not in the set. -/
theorem contains_of_next? {walk after : Walk} (hwalk : walk.bit ≤ blockBits)
    (hnext : set.next? walk = some (id, after)) :
    set.contains id = true ∧ walk.place ≤ id ∧ after.place = id + 1 ∧ after.bit ≤ blockBits ∧
      ∀ position, walk.place ≤ position → position < id → set.contains position = false := by
  fun_induction next? set walk with
  | case1 walk hindex bit hbit =>
      rw [Option.some.injEq, Prod.mk.injEq] at hnext
      obtain ⟨rfl, rfl⟩ := hnext
      have hstart : walk.bit < blockBits := by
        by_contra hge
        simp [bit, hge] at hbit
      simp only [bit, hstart, ↓reduceDIte] at hbit ⊢
      have hle := le_lowestBitFrom hstart hbit
      refine ⟨?_, ?_, ?_, hbit, ?_⟩
      · rw [contains_eq_hasBit hbit]
        exact hasBit_lowestBitFrom hstart hbit
      · simp only [Walk.place]
        omega
      · simp only [Walk.place]
        omega
      · intro position hplace hlt
        have hblock : position < (walk.index + 1) * blockBits := by
          rw [Nat.succ_mul]
          omega
        obtain ⟨other, hother, hbelow, rfl⟩ := exists_bit_of_le hplace hblock
        rw [contains_eq_hasBit hbelow]
        exact hasBit_eq_false_of_lt_lowestBitFrom hstart hother hbelow (by omega)
  | case2 walk hindex bit hbit ih =>
      obtain ⟨hcontains, hle, hafter, hlast, hclear⟩ := ih (Nat.zero_le _) hnext
      have hplace : walk.place ≤ (walk.index + 1) * blockBits := by
        simp only [Walk.place, Nat.succ_mul]
        omega
      have hlowest : walk.bit < blockBits →
          blockBits ≤ lowestBitFrom (set.block walk.index) walk.bit := by
        intro hstart
        simpa [bit, hstart] using hbit
      refine ⟨hcontains, Nat.le_trans hplace hle, hafter, hlast, fun position hfrom hlt => ?_⟩
      by_cases hblock : position < (walk.index + 1) * blockBits
      · exact contains_eq_false_of_lowestBitFrom hlowest hfrom hblock
      · exact hclear position (Nat.le_of_not_lt hblock) hlt
  | case3 walk hindex => simp at hnext

/-- A walk ends where no member is left. -/
theorem contains_eq_false_of_next?_eq_none {walk : Walk} (hnext : set.next? walk = none)
    (hplace : walk.place ≤ position) : set.contains position = false := by
  fun_induction next? set walk with
  | case1 walk hindex bit hbit => simp at hnext
  | case2 walk hindex bit hbit ih =>
      by_cases hblock : position < (walk.index + 1) * blockBits
      · refine contains_eq_false_of_lowestBitFrom (fun hstart => ?_) hplace hblock
        simpa [bit, hstart] using hbit
      · exact ih hnext (Nat.le_of_not_lt hblock)
  | case3 walk hindex =>
      apply contains_eq_false_of_size_le
      simp only [Walk.place, blockBits] at hplace ⊢
      omega

theorem membersFrom_of_none {walk : Walk} (hnext : set.next? walk = none) :
    set.membersFrom walk = [] := by
  rw [membersFrom]
  split
  · rename_i hsome
    rw [hnext] at hsome
    cases hsome
  · rfl

theorem membersFrom_of_some {walk after : Walk} (hnext : set.next? walk = some (id, after)) :
    set.membersFrom walk = id :: set.membersFrom after := by
  rw [membersFrom]
  split
  · rename_i hsome
    rw [hnext] at hsome
    cases hsome
    rfl
  · rename_i hnone
    rw [hnext] at hnone
    cases hnone

theorem mem_membersFrom {walk : Walk} (hwalk : walk.bit ≤ blockBits) :
    id ∈ set.membersFrom walk ↔ walk.place ≤ id ∧ set.contains id = true := by
  fun_induction membersFrom set walk with
  | case1 walk member after hnext ih =>
      obtain ⟨hcontains, hle, hafter, hlast, hclear⟩ := contains_of_next? hwalk hnext
      rw [List.mem_cons, ih hlast, hafter]
      constructor
      · rintro (rfl | ⟨hlt, hid⟩)
        · exact ⟨hle, hcontains⟩
        · exact ⟨by omega, hid⟩
      · rintro ⟨hplace, hid⟩
        rcases Nat.lt_trichotomy id member with hlt | heq | hgt
        · rw [hclear id hplace hlt] at hid
          exact absurd hid Bool.false_ne_true
        · exact .inl heq
        · exact .inr ⟨hgt, hid⟩
  | case2 walk hnext =>
      constructor
      · intro hmem
        simp at hmem
      · rintro ⟨hplace, hid⟩
        rw [contains_eq_false_of_next?_eq_none hnext hplace] at hid
        exact absurd hid Bool.false_ne_true

theorem mem_toList : id ∈ set.toList ↔ set.contains id = true := by
  rw [toList, mem_membersFrom (Nat.zero_le _)]
  simp [Walk.place, Walk.start]

theorem pairwise_membersFrom {walk : Walk} (hwalk : walk.bit ≤ blockBits) :
    (set.membersFrom walk).Pairwise (· < ·) := by
  fun_induction membersFrom set walk with
  | case1 walk member after hnext ih =>
      obtain ⟨_, _, hafter, hlast, _⟩ := contains_of_next? hwalk hnext
      refine List.pairwise_cons.mpr ⟨fun later hlater => ?_, ih hlast⟩
      have hplace := ((mem_membersFrom hlast).mp hlater).1
      omega
  | case2 walk hnext => exact .nil

/-- A walk meets the members in ascending order. -/
theorem pairwise_toList (set : LookaheadSet) : set.toList.Pairwise (· < ·) :=
  pairwise_membersFrom (Nat.zero_le _)

/-- What two sets share is met in the order of either. -/
theorem toList_inter_sublist (set other : LookaheadSet) :
    (set.inter other).toList.Sublist other.toList := by
  have hsubset : (set.inter other).toList ⊆ other.toList := by
    intro id hid
    rw [mem_toList, contains_inter, Bool.and_eq_true] at hid
    exact mem_toList.mpr hid.2
  have hsorted := pairwise_toList (set.inter other)
  have hnodup : (set.inter other).toList.Nodup := hsorted.imp Nat.ne_of_lt
  exact List.sublist_of_subperm_of_pairwise (List.subperm_of_subset hnodup hsubset) hsorted
    (pairwise_toList other)

end TopDown.LookaheadSet
