import Mathlib.Data.Finset.Sort
import TopDown.Proofs.Checked.Words

/-!
# Sets of lookaheads as finite sets

Sets of one capacity are made from empty ones by inserting ids, clearing, unions and intersections.
The main statement says that whatever is made in this way answers as the finite set of its members
does, and that it is made and asked without a fault in words.
-/

namespace TopDown.LookaheadSet

section Members

variable {capacity id : Nat} {set other : LookaheadSet} {members others : Finset Nat}

/-- A set of a capacity and the finite set of its members. -/
structure Holds (capacity : Nat) (set : LookaheadSet) (members : Finset Nat) : Prop extends
    Within capacity set where
  contains_iff : ∀ id, set.contains id = true ↔ id ∈ members

namespace Holds

theorem empty (capacity : Nat) : Holds capacity (.empty capacity) ∅ where
  toWithin := within_empty capacity
  contains_iff id := by simp [contains_empty]

theorem insert (hset : Holds capacity set members) (hid : id < capacity) :
    Holds capacity (set.insert id) (Insert.insert id members) where
  toWithin := hset.toWithin.insert hid
  contains_iff position := by
    rw [hset.contains_insert_iff hid, hset.contains_iff, Finset.mem_insert, eq_comm]

theorem clear (hset : Holds capacity set members) : Holds capacity set.clear ∅ where
  size_eq := by rw [LookaheadSet.clear, Array.size_map, hset.size_eq]
  lt_of_contains hcontains := by
    rw [contains_clear] at hcontains
    exact absurd hcontains Bool.false_ne_true
  contains_iff id := by simp [contains_clear]

theorem union (hset : Holds capacity set members) (hother : Holds capacity other others) :
    Holds capacity (set.union other) (members ∪ others) where
  toWithin := hset.toWithin.union hother.toWithin
  contains_iff id := by
    rw [hset.contains_union_iff hother.toWithin, hset.contains_iff, hother.contains_iff,
      Finset.mem_union]

theorem inter (hset : Holds capacity set members) (hother : Holds capacity other others) :
    Holds capacity (set.inter other) (members ∩ others) where
  toWithin := hset.toWithin.inter
  contains_iff id := by
    rw [contains_inter, Bool.and_eq_true, hset.contains_iff, hother.contains_iff,
      Finset.mem_inter]

/-- Sets that hold the same members are the same blocks. -/
theorem eq_iff (hset : Holds capacity set members) (hother : Holds capacity other others) :
    set = other ↔ members = others := by
  constructor
  · rintro rfl
    ext id
    rw [← hset.contains_iff, hother.contains_iff]
  · rintro rfl
    refine hset.toWithin.ext hother.toWithin fun id => ?_
    rw [Bool.eq_iff_iff, hset.contains_iff, hother.contains_iff]

theorem add_grows_iff (hset : Holds capacity set members) (hid : id < capacity) :
    (set.add id).2 = true ↔ members ⊂ Insert.insert id members := by
  rw [add_changed_iff (hset.div_lt_size hid), hset.contains_iff, Finset.ssubset_iff_subset_ne,
    and_iff_right (Finset.subset_insert id members), ne_comm, Finset.insert_ne_self]

theorem absorb_grows_iff (hset : Holds capacity set members)
    (hother : Holds capacity other others) :
    (set.absorb other).2 = true ↔ members ⊂ members ∪ others := by
  rw [absorb, bne_iff_ne, ne_eq, (hset.union hother).eq_iff hset, Finset.ssubset_iff_subset_ne,
    and_iff_right Finset.subset_union_left, ne_comm]

theorem isDisjoint_iff (hset : Holds capacity set members) (hother : Holds capacity other others) :
    set.isDisjoint other = true ↔ Disjoint members others := by
  rw [LookaheadSet.isDisjoint_iff, Finset.disjoint_left]
  refine forall_congr' fun id => ?_
  rw [hset.contains_iff, hother.contains_iff, not_and]

theorem toList_eq (hset : Holds capacity set members) : set.toList = members.sort (· ≤ ·) := by
  have hmembers : set.toList.toFinset = members := by
    ext id
    rw [List.mem_toFinset, mem_toList, hset.contains_iff]
  have hsorted := pairwise_toList set
  rw [← hmembers]
  exact ((List.toFinset_sort (· ≤ ·) (hsorted.imp Nat.ne_of_lt)).mpr
    (hsorted.imp Nat.le_of_lt)).symm

end Holds

end Members

/-! ### Makings

A set is known by the way it is made. By induction on the making the set holds the members of the
finite set that is made in the same way, and it is made in words without a fault. -/

variable {ids capacity : Nat}

/-- A way to make a set of a capacity, with a number of ids to choose from. -/
inductive Making (ids capacity : Nat) where
  | empty
  | insert (making : Making ids capacity) (id : Fin ids) (hid : id < capacity)
  | clear (making : Making ids capacity)
  | union (making other : Making ids capacity)
  | inter (making other : Making ids capacity)

namespace Making

/-- The set that is made. -/
def set : Making ids capacity → LookaheadSet
  | empty => .empty capacity
  | insert making id _ => making.set.insert id
  | clear making => making.set.clear
  | union making other => making.set.union other.set
  | inter making other => making.set.inter other.set

/-- The finite set that is made in the same way. -/
def members : Making ids capacity → Finset Nat
  | empty => ∅
  | insert making id _ => Insert.insert id.val making.members
  | clear _ => ∅
  | union making other => making.members ∪ other.members
  | inter making other => making.members ∩ other.members

/-- The set that is made in words, if that works without a fault. -/
def inWords? (limit : Nat) : Making ids capacity → Option LookaheadSet
  | empty => Words.empty? limit capacity
  | insert making id _ => do
      let added ← Words.add? (← making.inWords? limit) id
      return added.1
  | clear making => do
      let set ← making.inWords? limit
      return set.clear
  | union making other => do
      let absorbed ← Words.absorb? (← making.inWords? limit) (← other.inWords? limit)
      return absorbed.1
  | inter making other => do
      return Words.inter (← making.inWords? limit) (← other.inWords? limit)

/-- Every making gives a set that holds the members that are made in the same way. -/
theorem holds (making : Making ids capacity) : Holds capacity making.set making.members := by
  induction making with
  | empty => exact .empty capacity
  | insert making id hid ih => exact ih.insert hid
  | clear making ih => exact ih.clear
  | union making other ih ihother => exact ih.union ihother
  | inter making other ih ihother => exact ih.inter ihother

/-- Only ids are members. -/
theorem lt_of_mem_members (making : Making ids capacity) :
    ∀ id ∈ making.members, id < ids := by
  induction making with
  | empty => exact fun id hid => absurd hid (Finset.notMem_empty id)
  | insert making id hid ih =>
      rw [members, Finset.forall_mem_insert]
      exact ⟨id.isLt, ih⟩
  | clear making ih => exact fun id hid => absurd hid (Finset.notMem_empty id)
  | union making other ih ihother =>
      intro id hid
      exact (Finset.mem_union.mp hid).elim (ih id) (ihother id)
  | inter making other ih ihother => exact fun id hid => ih id (Finset.mem_of_mem_inter_left hid)

theorem inWords?_eq {limit : Nat} (hlimit : capacity + blockBits ≤ limit)
    (making : Making ids capacity) : making.inWords? limit = some making.set := by
  induction making with
  | empty => exact Words.empty?_eq hlimit
  | insert making id hid ih =>
      have hadd := Words.add?_eq (making.holds.div_lt_size hid)
      simp [inWords?, ih, hadd, set, LookaheadSet.insert]
  | clear making ih => simp [inWords?, ih, set]
  | union making other ih ihother =>
      have habsorb := Words.absorb?_eq (making.holds.size_eq_size other.holds.toWithin)
      simp [inWords?, ih, ihother, habsorb, set, LookaheadSet.absorb]
  | inter making other ih ihother =>
      have hinter := Words.inter_eq (making.holds.size_eq_size other.holds.toWithin)
      simp [inWords?, ih, ihother, hinter, set]

/-- The answers of the set that is made are those of the finite set, also about another set. -/
structure AnswersAsMembers (making other : Making ids capacity) : Prop where
  contains_iff : ∀ id, making.set.contains id = true ↔ id ∈ making.members
  contains_beyond : ∀ beyond, making.set.contains (capacity + beyond) = false
  add_grows_iff : ∀ id : Fin capacity,
    (making.set.add id).2 = true ↔ making.members ⊂ Insert.insert id.val making.members
  absorb_grows_iff : (making.set.absorb other.set).2 = true ↔
    making.members ⊂ making.members ∪ other.members
  contains_inter_iff : ∀ id, (making.set.inter other.set).contains id = true ↔
    id ∈ making.members ∩ other.members
  isDisjoint_iff : making.set.isDisjoint other.set = true ↔
    Disjoint making.members other.members
  eq_iff : making.set = other.set ↔ making.members = other.members
  toList_eq : making.set.toList = making.members.sort (· ≤ ·)

/-- The set is made, asked and walked through in words that hold numbers up to a limit. -/
structure RunsInWords (limit : Nat) (making other : Making ids capacity) : Prop where
  made : making.inWords? limit = some making.set
  contains : ∀ id, Words.contains? making.set id = some (making.set.contains id)
  add : ∀ id : Fin capacity, Words.add? making.set id = some (making.set.add id)
  absorb : Words.absorb? making.set other.set = some (making.set.absorb other.set)
  inter : Words.inter making.set other.set = making.set.inter other.set
  isDisjoint : Words.isDisjoint making.set other.set = making.set.isDisjoint other.set
  calls : ∀ count, Words.calls? limit ids making.set count .start =
    some ((List.range count).map fun call => (making.members.sort (· ≤ ·))[call]?)

theorem answersAsMembers (making other : Making ids capacity) : making.AnswersAsMembers other where
  contains_iff := making.holds.contains_iff
  contains_beyond beyond := by
    rw [Bool.eq_false_iff]
    intro hcontains
    have hlt := making.holds.lt_of_contains hcontains
    omega
  add_grows_iff id := making.holds.add_grows_iff id.isLt
  absorb_grows_iff := making.holds.absorb_grows_iff other.holds
  contains_inter_iff := (making.holds.inter other.holds).contains_iff
  isDisjoint_iff := making.holds.isDisjoint_iff other.holds
  eq_iff := making.holds.eq_iff other.holds
  toList_eq := making.holds.toList_eq

theorem runsInWords {limit : Nat} (hlimit : capacity + blockBits ≤ limit)
    (making other : Making ids capacity) : making.RunsInWords limit other where
  made := inWords?_eq hlimit making
  contains := Words.contains?_eq making.set
  add id := Words.add?_eq (making.holds.div_lt_size id.isLt)
  absorb := Words.absorb?_eq (making.holds.size_eq_size other.holds.toWithin)
  inter := Words.inter_eq (making.holds.size_eq_size other.holds.toWithin)
  isDisjoint := Words.isDisjoint_eq (making.holds.size_eq_size other.holds.toWithin)
  calls count := by
    have hids : ∀ id, making.set.contains id = true → id < ids := by
      intro id hcontains
      exact making.lt_of_mem_members id ((making.holds.contains_iff id).mp hcontains)
    rw [Words.calls?_eq making.holds.toWithin hlimit hids (Nat.zero_le _),
      ← making.holds.toList_eq]
    rfl

/-- Whatever is made of sets of a capacity answers as the finite set that is made in the same way,
and no number beyond the one that the blocks of an empty set are counted by has to be held. -/
theorem acts_as_members (making other : Making ids capacity) (spare : Nat) :
    making.AnswersAsMembers other ∧
      making.RunsInWords (capacity + blockBits + spare) other :=
  ⟨making.answersAsMembers other, making.runsInWords (Nat.le_add_right ..) other⟩

example : (((empty.insert 129 (by decide)).insert 64 (by decide)).insert 63 (by decide) :
    Making 256 130).set.toList = [63, 64, 129] := by decide +kernel

end Making

end TopDown.LookaheadSet
