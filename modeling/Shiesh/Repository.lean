import Mathlib.Data.List.Basic

/-!
# Repositories

`Repository<Object, Parameter>`: a vector of pointers, indexed by object ids. An id is free when
there is a null pointer in its place; the place 0 is never used. The lowest free id is taken for
a new object, the vector grows only when there is none.
-/

namespace Shiesh

structure Repository (α : Type) where
  objects : List (Option α)
  -- "obj id 0 is not used"
  zero_unused : objects.head? = some none

namespace Repository

variable {α : Type}

def empty : Repository α := ⟨[none], rfl⟩

variable (r : Repository α)

def getObjectById (id : Nat) : Option α :=
  if id < 1 then none else r.objects[id]?.join

/-- `get_first_unused_object_id`, before `push_back` -/
def firstUnusedObjectId : Nat := r.objects.tail.findIdx Option.isNone + 1

/-- Assign to a place other than 0. -/
def assign (id : Nat) (x : Option α) : Repository α where
  objects := if id < 1 then r.objects else r.objects.set id x
  zero_unused := by
    split
    case isTrue => exact r.zero_unused
    case isFalse h =>
      rw [List.head?_eq_getElem?, List.getElem?_set_ne (by omega), ← List.head?_eq_getElem?]
      exact r.zero_unused

/-- The vector gets a null pointer at its end. -/
def pushBack : Repository α where
  objects := r.objects ++ [none]
  zero_unused := by
    rw [List.head?_append, r.zero_unused]
    rfl

/-- `create_object` -/
def createObject (a : α) : Repository α :=
  let id := r.firstUnusedObjectId
  (if id < r.objects.length then r else r.pushBack).assign id (some a)

/-- The ids that a loop over the vector visits -/
def ids : List Nat := List.range r.objects.length

/-- The objects themselves -/
def toList : List α := r.ids.filterMap r.getObjectById

variable (r : Repository α) {id : Nat} {a : α}

theorem length_pos : 0 < r.objects.length := by
  have h := r.zero_unused
  cases hobjects : r.objects with
  | nil =>
    rw [hobjects] at h
    cases h
  | cons x xs => exact Nat.succ_pos _

theorem getObjectById_eq_some {r : Repository α}
    (h : r.getObjectById id = some a) : 1 ≤ id ∧ r.objects[id]? = some (some a) := by
  rw [getObjectById] at h
  split at h
  case isTrue => cases h
  case isFalse hid => exact ⟨Nat.le_of_not_lt hid, Option.join_eq_some_iff.mp h⟩

theorem mem_ids {r : Repository α} (h : r.getObjectById id = some a) :
    id ∈ r.ids := by
  obtain ⟨hlt, -⟩ := List.getElem?_eq_some_iff.mp (getObjectById_eq_some h).2
  exact List.mem_range.mpr hlt

theorem getObjectById_empty (id : Nat) : (empty : Repository α).getObjectById id = none := by
  rw [getObjectById]
  split
  case isTrue => rfl
  case isFalse hid =>
    rw [empty, List.getElem?_eq_none (Nat.le_of_not_lt hid)]
    rfl

theorem mem_toList {r : Repository α} :
    a ∈ r.toList ↔ ∃ id, r.getObjectById id = some a := by
  rw [toList, List.mem_filterMap]
  constructor
  · intro h
    obtain ⟨id, -, hget⟩ := h
    exact ⟨id, hget⟩
  · intro h
    obtain ⟨id, hget⟩ := h
    exact ⟨id, mem_ids hget, hget⟩

/-- Only the place that is assigned to changes. -/
theorem getObjectById_assign {r : Repository α} (hid : 1 ≤ id)
    (hlt : id < r.objects.length) (x : Option α) (id' : Nat) :
    (r.assign id x).getObjectById id' = if id' = id then x else r.getObjectById id' := by
  have hset : (r.assign id x).objects = r.objects.set id x := if_neg (Nat.not_lt.mpr hid)
  rw [getObjectById, hset]
  by_cases heq : id' = id
  · subst heq
    rw [if_neg (Nat.not_lt.mpr hid), List.getElem?_set_self hlt, if_pos rfl]
    rfl
  · rw [List.getElem?_set_ne (Ne.symm heq), if_neg heq, getObjectById]

theorem getObjectById_assign_of_some {r : Repository α}
    (h : r.getObjectById id = some a) (x : Option α) (id' : Nat) :
    (r.assign id x).getObjectById id' = if id' = id then x else r.getObjectById id' :=
  getObjectById_assign (getObjectById_eq_some h).1 (List.mem_range.mp (mem_ids h)) x id'

theorem getObjectById_pushBack (id : Nat) : r.pushBack.getObjectById id = r.getObjectById id := by
  simp only [getObjectById, pushBack]
  split
  case isTrue => rfl
  case isFalse =>
    by_cases hlt : id < r.objects.length
    · rw [List.getElem?_append_left hlt]
    · have hnone : r.objects[id]? = none := List.getElem?_eq_none (Nat.le_of_not_lt hlt)
      rw [List.getElem?_append_right (Nat.le_of_not_lt hlt), hnone]
      cases id - r.objects.length with
      | zero => rfl
      | succ n => rfl

theorem firstUnusedObjectId_le : r.firstUnusedObjectId ≤ r.objects.length := by
  have hle : r.objects.tail.findIdx Option.isNone ≤ r.objects.tail.length := List.findIdx_le_length
  have := r.length_pos
  rw [List.length_tail] at hle
  rw [firstUnusedObjectId]
  omega

/-- **The id of a new object is free.** -/
theorem getObjectById_firstUnused : r.getObjectById r.firstUnusedObjectId = none := by
  rw [getObjectById, if_neg (by rw [firstUnusedObjectId]; omega), firstUnusedObjectId,
    ← List.getElem?_tail]
  by_cases hlt : r.objects.tail.findIdx Option.isNone < r.objects.tail.length
  · have hfree := List.findIdx_getElem (p := Option.isNone) (w := hlt)
    rw [List.getElem?_eq_getElem hlt, Option.isNone_iff_eq_none.mp hfree]
    rfl
  · rw [List.getElem?_eq_none (Nat.le_of_not_lt hlt)]
    rfl

theorem getObjectById_createObject (a : α) (id : Nat) :
    (r.createObject a).getObjectById id =
      if id = r.firstUnusedObjectId then some a else r.getObjectById id := by
  have hpos : 1 ≤ r.firstUnusedObjectId := by
    rw [firstUnusedObjectId]
    omega
  rw [createObject]
  by_cases hlt : r.firstUnusedObjectId < r.objects.length
  · rw [if_pos hlt, getObjectById_assign hpos hlt]
  · have hlast : r.firstUnusedObjectId < r.pushBack.objects.length := by
      have := r.firstUnusedObjectId_le
      rw [pushBack, List.length_append, List.length_singleton]
      omega
    rw [if_neg hlt, getObjectById_assign hpos hlast, getObjectById_pushBack]

end Repository

end Shiesh
