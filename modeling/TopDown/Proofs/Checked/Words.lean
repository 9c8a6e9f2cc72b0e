import TopDown.Proofs.LookaheadSet

/-!
# Sets of lookaheads in words

Operations that go over the blocks of a set one by one and compute with words, which hold numbers up
to a limit. They have no result if a number is beyond the limit, if a difference is below zero, if a
bit is shifted out of its block, or if a block is not there. A member is given back as one of a
number of ids, which cuts off what is beyond them. The main statements say that on sets of one
capacity the operations always have a result, and which one, if a word can hold the number that the
blocks of an empty set are counted by and the members are ids.
-/

namespace TopDown.LookaheadSet

namespace Words

/-- A number, if a word can hold it. -/
def held? (limit number : Nat) : Option Nat :=
  if number ≤ limit then some number else none

/-- The block that has the one bit, if a block has that bit. -/
def shifted? (bit : Nat) : Option UInt64 :=
  if bit < blockBits then some (bitMask bit) else none

/-- The block of a number and its bit there. -/
def locate? (id : Nat) : Option (Nat × UInt64) := do
  let mask ← shifted? (id % blockBits)
  return (id / blockBits, mask)

def empty? (limit capacity : Nat) : Option LookaheadSet := do
  match ← held? limit (capacity + blockBits) with
  | 0 => none
  | last + 1 => return { blocks := Array.replicate (last / blockBits) 0 }

/-- A number without a block is in no set. -/
def contains? (set : LookaheadSet) (id : Nat) : Option Bool := do
  let (index, mask) ← locate? id
  return set.blocks[index]?.any fun block => block &&& mask != 0

def add? (set : LookaheadSet) (id : Nat) : Option (LookaheadSet × Bool) := do
  let (index, mask) ← locate? id
  let old ← set.blocks[index]?
  let new := old ||| mask
  return ({ blocks := set.blocks.setIfInBounds index new }, new != old)

/-- Takes the blocks of another set, from an index on, into a run of blocks, and tells whether one
of these has changed. -/
def absorbFrom? (other : LookaheadSet) : Nat → List UInt64 → Option (List UInt64 × Bool)
  | _, [] => some ([], false)
  | index, old :: rest => do
      let block ← other.blocks[index]?
      let later ← absorbFrom? other (index + 1) rest
      return ((old ||| block) :: later.1, (old ||| block) != old || later.2)

def absorb? (set other : LookaheadSet) : Option (LookaheadSet × Bool) := do
  let absorbed ← absorbFrom? other 0 set.blocks.toList
  return ({ blocks := absorbed.1.toArray }, absorbed.2)

/-- What two sets share, in as many blocks as both have. -/
def inter (set other : LookaheadSet) : LookaheadSet :=
  { blocks := Array.zipWith (· &&& ·) set.blocks other.blocks }

def isDisjoint (set other : LookaheadSet) : Bool :=
  (Array.zip set.blocks other.blocks).all fun pair => pair.1 &&& pair.2 == 0

/-- The position of the lowest bit of a block at or above `bit`. -/
def lowestBitFrom? (block : UInt64) (bit : Nat) : Option Nat := do
  let mask ← shifted? bit
  if mask = 0 then none else return trailingZeros (block &&& ~~~(mask - 1))

/-- The first bit that a walk has still to see in its block. -/
def bitFrom? (set : LookaheadSet) (walk : Walk) : Option Nat := do
  let block ← set.blocks[walk.index]?
  if walk.bit < blockBits then lowestBitFrom? block walk.bit else return blockBits

/-- The id of a bit in the block of a walk, and the place behind it. -/
def memberAt? (limit ids : Nat) (walk : Walk) (bit : Nat) : Option (Option Nat × Walk) := do
  let behind ← held? limit (bit + 1)
  let start ← held? limit (walk.index * blockBits)
  let number ← held? limit (start + bit)
  return (some (number % ids), { index := walk.index, bit := behind })

/-- One call: the next member unless there is none left, and the place where the walk is then. -/
def next? (limit ids : Nat) (set : LookaheadSet) (walk : Walk) : Option (Option Nat × Walk) :=
  if walk.index < set.blocks.size then
    match bitFrom? set walk with
    | none => none
    | some bit =>
        if bit < blockBits then memberAt? limit ids walk bit
        else if walk.index + 1 ≤ limit then
          next? limit ids set { index := walk.index + 1, bit := 0 }
        else none
  else some (none, walk)
termination_by set.blocks.size - walk.index

/-- The answers to a number of calls in a row. -/
def calls? (limit ids : Nat) (set : LookaheadSet) : Nat → Walk → Option (List (Option Nat))
  | 0, _ => some []
  | count + 1, walk => do
      let call ← next? limit ids set walk
      let later ← calls? limit ids set count call.2
      return call.1 :: later

variable {limit ids number bit id capacity : Nat} {set other : LookaheadSet} {walk after : Walk}

theorem held?_eq (hle : number ≤ limit) : held? limit number = some number :=
  if_pos hle

theorem shifted?_eq (hbit : bit < blockBits) : shifted? bit = some (bitMask bit) :=
  if_pos hbit

theorem locate?_eq (id : Nat) : locate? id = some (id / blockBits, bitMask (id % blockBits)) := by
  rw [locate?, shifted?_eq (mod_blockBits_lt id)]
  rfl

theorem lowestBitFrom?_eq (block : UInt64) (hbit : bit < blockBits) :
    lowestBitFrom? block bit = some (lowestBitFrom block bit) := by
  rw [lowestBitFrom?, shifted?_eq hbit]
  exact if_neg (bitMask_ne_zero hbit)

theorem empty?_eq (hlimit : capacity + blockBits ≤ limit) :
    empty? limit capacity = some (.empty capacity) := by
  rw [empty?, held?_eq hlimit]
  rfl

theorem contains?_eq (set : LookaheadSet) (id : Nat) :
    contains? set id = some (set.contains id) := by
  rw [contains?, locate?_eq, LookaheadSet.contains, block, Array.getD_eq_getD_getElem?]
  cases hblock : set.blocks[id / blockBits]? with
  | none =>
      rw [Option.getD_none, hasBit_zero]
      simp [hblock]
  | some block =>
      rw [Option.getD_some]
      simp [hblock, hasBit]

theorem add?_eq (hid : id / blockBits < set.blocks.size) : add? set id = some (set.add id) := by
  have hblock := Array.getElem?_eq_getElem hid
  rw [add?, locate?_eq, add, hblock]
  simp [hblock]

theorem absorbFrom?_eq (other : LookaheadSet) {index : Nat} {blocks : List UInt64}
    (hindex : index + blocks.length ≤ other.blocks.size) :
    absorbFrom? other index blocks =
      some (blocks.mapIdx fun place block => block ||| other.block (index + place),
        decide ((blocks.mapIdx fun place block => block ||| other.block (index + place)) ≠
          blocks)) := by
  induction blocks generalizing index with
  | nil => rfl
  | cons old rest ih =>
      rw [List.length_cons] at hindex
      have hblock : other.blocks[index]? = some (other.block index) := by
        rw [block, Array.getD_eq_getD_getElem?, Array.getElem?_eq_getElem (by omega),
          Option.getD_some]
      have hshift : (fun place block => block ||| other.block (index + 1 + place)) =
          fun place block => block ||| other.block (index + (place + 1)) := by
        funext place block
        rw [Nat.add_right_comm, Nat.add_assoc]
      rw [absorbFrom?, hblock, ih (by omega), hshift, List.mapIdx_cons, Nat.add_zero]
      simp [bne, Bool.beq_eq_decide_eq]

theorem union_eq (set other : LookaheadSet) :
    set.union other = { blocks := (set.blocks.toList.mapIdx fun index block =>
      block ||| other.block index).toArray } := by
  rw [union, mk.injEq]
  apply Array.toList_inj.mp
  simp

theorem absorb?_eq (hsize : other.blocks.size = set.blocks.size) :
    absorb? set other = some (set.absorb other) := by
  have hblocks := @absorbFrom?_eq other 0 set.blocks.toList
    (by rw [Nat.zero_add, Array.length_toList, hsize])
  simp only [Nat.zero_add] at hblocks
  rw [absorb?, hblocks, absorb, union_eq]
  obtain ⟨⟨blocks⟩⟩ := set
  simp [bne, Bool.beq_eq_decide_eq]

theorem inter_eq (hsize : other.blocks.size = set.blocks.size) :
    inter set other = set.inter other := by
  rw [inter, LookaheadSet.inter, mk.injEq]
  apply Array.ext
  · simp [hsize]
  · intro index hleft hright
    have hindex : index < other.blocks.size := by
      rw [Array.size_zipWith] at hleft
      omega
    simp [block_eq_getElem hindex]

theorem isDisjoint_eq (hsize : other.blocks.size = set.blocks.size) :
    isDisjoint set other = set.isDisjoint other := by
  rw [Bool.eq_iff_iff, isDisjoint, LookaheadSet.isDisjoint, Array.all_eq_true, List.all_eq_true]
  simp only [Array.size_zip, hsize, Nat.min_self, Array.getElem_zip, beq_iff_eq, List.mem_range]
  refine forall₂_congr fun index hindex => ?_
  rw [block_eq_getElem hindex, block_eq_getElem (hsize ▸ hindex)]

/-! ### Walks

A call may pass several blocks before it finds a member. It goes through the same places as a walk
with unbounded numbers, so what is known of that walk says which numbers have to be held. -/

theorem bitFrom?_eq (hindex : walk.index < set.blocks.size) :
    bitFrom? set walk = some (if walk.bit < blockBits
      then lowestBitFrom (set.block walk.index) walk.bit else blockBits) := by
  rw [bitFrom?, Array.getElem?_eq_getElem hindex, block_eq_getElem hindex]
  by_cases hbit : walk.bit < blockBits
  · simp [hbit, lowestBitFrom?_eq]
  · simp [hbit]

section Limit

variable (hset : set.Within capacity) (hlimit : capacity + blockBits ≤ limit)
include hset hlimit

theorem succ_index_le (hindex : walk.index < set.blocks.size) : walk.index + 1 ≤ limit := by
  rw [hset.size_eq] at hindex
  simp only [blockBits] at hindex hlimit
  omega

/-- A call behind the last member gives nothing, and so does every later one. -/
theorem next?_of_none (hwalk : walk.bit ≤ blockBits) (hnext : set.next? walk = none) :
    ∃ last, next? limit ids set walk = some (none, last) ∧ last.bit ≤ blockBits ∧
      set.next? last = none := by
  fun_induction LookaheadSet.next? set walk with
  | case1 walk hindex bit hbit => cases hnext
  | case2 walk hindex bit hbit ih =>
      obtain ⟨last, hlast, hends⟩ := ih (Nat.zero_le _) hnext
      refine ⟨last, ?_, hends⟩
      rw [next?, if_pos hindex, bitFrom?_eq hindex]
      exact (if_neg hbit).trans ((if_pos (succ_index_le hset hlimit hindex)).trans hlast)
  | case3 walk hindex =>
      refine ⟨walk, ?_, hwalk, ?_⟩
      · rw [next?, if_neg hindex]
      · rw [LookaheadSet.next?, if_neg hindex]

variable (hids : ∀ member, set.contains member = true → member < ids)
include hids

theorem memberAt?_eq (hbit : bit < blockBits)
    (hcontains : set.contains (walk.index * blockBits + bit) = true) :
    memberAt? limit ids walk bit =
      some (some (walk.index * blockBits + bit), { index := walk.index, bit := bit + 1 }) := by
  have hid := hset.lt_of_contains hcontains
  have hbehind : bit + 1 ≤ limit := calc
    bit + 1 ≤ blockBits := hbit
    _ ≤ limit := by omega
  have hstart : walk.index * blockBits ≤ limit := by omega
  have hmember : walk.index * blockBits + bit ≤ limit := by omega
  rw [memberAt?, held?_eq hbehind, held?_eq hstart]
  simp [held?_eq hmember, Nat.mod_eq_of_lt (hids _ hcontains)]

/-- A call gives the next member, and goes where the walk goes. -/
theorem next?_of_some (hwalk : walk.bit ≤ blockBits)
    (hnext : set.next? walk = some (id, after)) :
    next? limit ids set walk = some (some id, after) := by
  have hcontains := (contains_of_next? hwalk hnext).1
  clear hwalk
  fun_induction LookaheadSet.next? set walk with
  | case1 walk hindex bit hbit =>
      rw [Option.some.injEq, Prod.mk.injEq] at hnext
      obtain ⟨rfl, rfl⟩ := hnext
      rw [next?, if_pos hindex, bitFrom?_eq hindex]
      exact (if_pos hbit).trans (memberAt?_eq hset hlimit hids hbit hcontains)
  | case2 walk hindex bit hbit ih =>
      rw [next?, if_pos hindex, bitFrom?_eq hindex]
      exact (if_neg hbit).trans ((if_pos (succ_index_le hset hlimit hindex)).trans (ih hnext))
  | case3 walk hindex => cases hnext

/-- Calls in a row give the members that the walk has still to see, and then nothing. -/
theorem calls?_eq (hwalk : walk.bit ≤ blockBits) (count : Nat) :
    calls? limit ids set count walk =
      some ((List.range count).map fun call => (set.membersFrom walk)[call]?) := by
  induction count generalizing walk with
  | zero => rfl
  | succ count ih =>
      rw [calls?, List.range_succ_eq_map, List.map_cons, List.map_map]
      cases hnext : set.next? walk with
      | none =>
          obtain ⟨last, hcall, hlast, hends⟩ := next?_of_none hset hlimit hwalk hnext
          have hlater := ih hlast
          rw [membersFrom_of_none hends] at hlater
          rw [hcall, Option.bind_eq_bind, Option.bind_some, hlater, membersFrom_of_none hnext]
          rfl
      | some step =>
          obtain ⟨id, after⟩ := step
          obtain ⟨_, _, _, hafter, _⟩ := contains_of_next? hwalk hnext
          rw [next?_of_some hset hlimit hids hwalk hnext, Option.bind_eq_bind, Option.bind_some,
            ih hafter, membersFrom_of_some hnext]
          rfl

end Limit

end Words

end TopDown.LookaheadSet
