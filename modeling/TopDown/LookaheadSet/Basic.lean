/-!
# Sets of lookaheads

Lookaheads are numbered, and a set of them is kept as bits in blocks of 64. All sets of one grammar
have the same number of blocks. The main statement says that taking in another set uses up room
whenever it reports a change.
-/

namespace TopDown

structure LookaheadSet where
  blocks : Array UInt64
deriving DecidableEq, Repr

namespace LookaheadSet

def blockBits : Nat := 64

/-- The empty set, with blocks for the numbers below `capacity`. -/
def empty (capacity : Nat) : LookaheadSet :=
  { blocks := Array.replicate ((capacity + (blockBits - 1)) / blockBits) 0 }

def clear (set : LookaheadSet) : LookaheadSet :=
  { blocks := set.blocks.map fun _ => 0 }

/-- The block of the given index; blocks that are not there hold nothing. -/
def block (set : LookaheadSet) (index : Nat) : UInt64 :=
  set.blocks.getD index 0

/-- The block that has the one bit. -/
def bitMask (bit : Nat) : UInt64 :=
  1 <<< UInt64.ofNat bit

def hasBit (block : UInt64) (bit : Nat) : Bool :=
  block &&& bitMask bit != 0

def contains (set : LookaheadSet) (id : Nat) : Bool :=
  hasBit (set.block (id / blockBits)) (id % blockBits)

/-- Adds a number below the capacity, and tells whether the set has changed. -/
def add (set : LookaheadSet) (id : Nat) : LookaheadSet × Bool :=
  match set.blocks[id / blockBits]? with
  | some old =>
      let new := old ||| bitMask (id % blockBits)
      ({ blocks := set.blocks.setIfInBounds (id / blockBits) new }, new != old)
  | none => (set, false)

def insert (set : LookaheadSet) (id : Nat) : LookaheadSet :=
  (set.add id).1

def union (set other : LookaheadSet) : LookaheadSet :=
  { blocks := set.blocks.mapIdx fun index block => block ||| other.block index }

/-- Takes in the members of another set, and tells whether the set has changed. -/
def absorb (set other : LookaheadSet) : LookaheadSet × Bool :=
  (set.union other, set.union other != set)

def inter (set other : LookaheadSet) : LookaheadSet :=
  { blocks := set.blocks.mapIdx fun index block => block &&& other.block index }

def isDisjoint (set other : LookaheadSet) : Bool :=
  (List.range set.blocks.size).all fun index => set.block index &&& other.block index == 0

/-- How much a run of blocks can still grow. -/
def blocksRoom : List UInt64 → Nat
  | [] => 0
  | block :: rest => (UInt64.size - block.toNat) + blocksRoom rest

def room (set : LookaheadSet) : Nat :=
  blocksRoom set.blocks.toList

theorem blocksRoom_mapIdx_lt {grow : Nat → UInt64 → UInt64}
    (grow_le : ∀ index block, block.toNat ≤ (grow index block).toNat) (blocks : List UInt64) :
    blocks.mapIdx grow = blocks ∨ blocksRoom (blocks.mapIdx grow) < blocksRoom blocks := by
  induction blocks generalizing grow with
  | nil => exact .inl rfl
  | cons block rest ih =>
      have hfirst := grow_le 0 block
      have hlt : (grow 0 block).toNat < UInt64.size := (grow 0 block).toNat_lt
      have hrest := @ih (fun index => grow (index + 1)) fun index => grow_le (index + 1)
      rw [List.mapIdx_cons]
      simp only [blocksRoom]
      rcases hrest with hsame | hless
      · rw [hsame]
        by_cases hblock : grow 0 block = block
        · exact .inl (by rw [hblock])
        · have : (grow 0 block).toNat ≠ block.toNat := fun h => hblock (UInt64.toNat_inj.mp h)
          exact .inr (by omega)
      · exact .inr (by omega)

theorem room_absorb_lt {set other : LookaheadSet} (hchanged : (set.absorb other).2 = true) :
    (set.absorb other).1.room < set.room := by
  have hne : set.union other ≠ set := by simpa [absorb] using hchanged
  have hgrow := @blocksRoom_mapIdx_lt (fun index block => block ||| other.block index)
    (fun index block => by
      rw [UInt64.toNat_or]
      exact Nat.left_le_or) set.blocks.toList
  rcases hgrow with hsame | hless
  · refine absurd ?_ hne
    cases set
    simp only [union, LookaheadSet.mk.injEq]
    apply Array.toList_inj.mp
    simpa using hsame
  · simpa [absorb, room, union] using hless

theorem absorb_fst_of_unchanged {set other : LookaheadSet}
    (hunchanged : (set.absorb other).2 = false) : (set.absorb other).1 = set := by
  simpa [absorb] using hunchanged

end LookaheadSet

end TopDown
