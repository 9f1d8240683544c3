import Mathlib.Data.List.Nodup
import Mathlib.Order.Lattice.Nat
import Shiesh.Basic
import Shiesh.Lib.Wp
import Shiesh.Repository

/-!
# Object ids

`universal_object_id` is the text of the id under which a `Repository` holds the object. An object
gets it when it is created, and a place is reserved for it before.

Which objects are live is said by a record of the calls, which knows nothing of places: an object is
entered when it is created, exchanged when it is replaced, and struck out when it is deleted.
-/

namespace Shiesh.Repository

open Shiesh.Lib Function List

/-- The class `Parameter`: every `create_derivation` hands the text on to the constructor of the
object, every `transform_object` returns the object itself or a copy. Both may throw. -/
structure Parameter (α : Type) (uid : α → String) where
  createDerivation : String → Except Halt α
  transformObject : α → Except Halt α
  create_uid : ∀ {text a}, createDerivation text = .ok a → uid a = text
  transform_uid : ∀ {a a'}, transformObject a = .ok a' → uid a' = uid a

/-- Objects that know their ids, and nothing else -/
def Parameter.text : Parameter String id where
  createDerivation text := .ok text
  transformObject text := .ok text
  create_uid h := by
    cases h
    rfl
  transform_uid h := by
    cases h
    rfl

variable {α : Type} {uid : α → String} {r : Repository α} {id : Nat} (fromString : String → Nat)

abbrev RepositoryM (α : Type) := EStateM Halt (Repository α)

/-- `create_object`, with its exceptions -/
def createOrThrow (p : Parameter α uid) : RepositoryM α α := do
  let r ← get
  let id := r.firstUnusedObjectId
  set (if id < r.objects.length then r else r.pushBack)
  let obj ← liftE (p.createDerivation (toString id))
  modify (·.assign id (some obj))
  pure obj

/-- `objects->at (id)`, when there is an object -/
def objectAt (id : Nat) : RepositoryM α α := do
  match (← get).objects[id]? with
  | none => throw (.exception "out_of_range")
  | some none => throw (.exception "Program error")
  | some (some obj) => pure obj

/-- `replace_object` -/
def replaceObject (id : Nat) (p : Parameter α uid) : RepositoryM α α := do
  let obj ← objectAt id
  let obj' ← liftE (p.transformObject obj)
  modify (·.assign id (some obj'))
  pure obj'

/-- `delete_object_by_id` -/
def deleteObjectById (id : Nat) : RepositoryM α Unit := do
  let _ ← objectAt (α := α) id
  modify (·.assign id none)

inductive Call (α : Type) (uid : α → String) where
  | create (p : Parameter α uid)
  | replace (id : Nat) (p : Parameter α uid)
  | delete (obj : α)
  | deleteById (id : Nat)

/-- `fromString` is the `operator >>` of the library. -/
def Call.step (fromString : String → Nat) : Call α uid → RepositoryM α Unit
  | .create p => do let _ ← createOrThrow p
  | .replace id p => do let _ ← replaceObject id p
  | .delete obj => deleteObjectById (fromString (uid obj))
  | .deleteById id => deleteObjectById id

/-- Calls one after the other, whether they throw or not -/
def calls (fromString : String → Nat) (cs : List (Call α uid)) : Repository α :=
  cs.foldl (fun r c => endState (c.step fromString) r) empty

example : (calls (fun _ => 1) [.create .text, .create .text, .delete "1", .create .text,
    .deleteById 2]).objects = [none, some "1", none] := by
  rfl

/-! ## The record -/

/-- The live objects, by their ids -/
abbrev Record (α : Type) := Nat → Option α

noncomputable def Record.lowestFree (live : Record α) : Nat := sInf {i | 1 ≤ i ∧ live i = none}

/-- What a call does to the record. One that throws changes nothing. -/
noncomputable def Call.record (fromString : String → Nat) (live : Record α) : Call α uid → Record α
  | .create p =>
    match p.createDerivation (toString live.lowestFree) with
    | .ok a => Function.update live live.lowestFree (some a)
    | .error _ => live
  | .replace id p =>
    match (live id).map p.transformObject with
    | some (.ok a) => Function.update live id (some a)
    | _ => live
  | .delete obj => Function.update live (fromString (uid obj)) none
  | .deleteById id => Function.update live id none

noncomputable def record (fromString : String → Nat) (cs : List (Call α uid)) : Record α :=
  cs.foldl (Call.record fromString) fun _ => none

/-! ## What a call does -/

theorem lt_firstUnused {j : Nat} (hlt : j + 1 < r.firstUnusedObjectId) :
    r.getObjectById (j + 1) ≠ none := by
  have hlt' : j < r.objects.tail.findIdx Option.isNone := Nat.lt_of_succ_lt_succ hlt
  have hused := not_of_lt_findIdx hlt'
  rw [getObjectById, if_neg (by omega), ← getElem?_tail,
    getElem?_eq_getElem (lt_of_lt_of_le hlt' findIdx_le_length)]
  intro hnone
  rw [Option.join_some, ← Option.isNone_iff_eq_none, hused] at hnone
  cases hnone

theorem isLeast_firstUnused (r : Repository α) :
    IsLeast {i | 1 ≤ i ∧ r.getObjectById i = none} r.firstUnusedObjectId := by
  refine ⟨⟨Nat.le_add_left _ _, r.getObjectById_firstUnused⟩, fun j hj => ?_⟩
  obtain ⟨hpos, hfree⟩ := hj
  refine Nat.le_of_not_lt fun hlt => ?_
  obtain ⟨i, rfl⟩ : ∃ i, j = i + 1 := ⟨j - 1, by omega⟩
  exact lt_firstUnused hlt hfree

theorem lowestFree_eq (r : Repository α) :
    Record.lowestFree r.getObjectById = r.firstUnusedObjectId :=
  r.isLeast_firstUnused.csInf_eq

theorem getObjectById_eq_update {r' : Repository α} {x : Option α}
    (h : ∀ j, r'.getObjectById j = if j = id then x else r.getObjectById j) :
    r'.getObjectById = update r.getObjectById id x := by
  funext j
  rw [h, update_apply]

theorem createOrThrow_spec (p : Parameter α uid) (r : Repository α) :
    wp (createOrThrow p)
      (fun a r' => p.createDerivation (toString r.firstUnusedObjectId) = .ok a ∧
        r'.getObjectById = update r.getObjectById r.firstUnusedObjectId (some a))
      (fun e r' => p.createDerivation (toString r.firstUnusedObjectId) = .error e ∧
        r'.getObjectById = r.getObjectById) r := by
  rw [createOrThrow, wp_read, wp_write, wp_bind]
  refine wp_liftE (fun a ha => ?_) fun e he => ⟨he, ?_⟩
  · rw [wp_update, wp_pure]
    exact ⟨ha, getObjectById_eq_update (getObjectById_createObject r a)⟩
  · split
    · rfl
    · exact funext (getObjectById_pushBack r)

theorem objectAt_spec (id : Nat) (r : Repository α) :
    wp (objectAt id) (fun a r' => r' = r ∧ r.getObjectById id = some a ∧
      ∀ x, (r.assign id x).getObjectById = update r.getObjectById id x)
      (fun _ r' => r' = r ∧ r.getObjectById id = none) r := by
  have hnone : r.objects[id]?.join = none → r.getObjectById id = none := fun h => by
    rw [getObjectById, h, ite_self]
  rw [objectAt, wp_read]
  split
  case h_1 hobj => exact (wp_throw _).mpr ⟨rfl, hnone (by rw [hobj]; rfl)⟩
  case h_2 hobj => exact (wp_throw _).mpr ⟨rfl, hnone (by rw [hobj]; rfl)⟩
  case h_3 obj hobj =>
    have hpos : 1 ≤ id := by
      refine Nat.one_le_iff_ne_zero.mpr fun hzero => ?_
      rw [hzero, ← List.head?_eq_getElem?, r.zero_unused] at hobj
      cases hobj
    obtain ⟨hlt, -⟩ := List.getElem?_eq_some_iff.mp hobj
    rw [wp_pure, getObjectById, if_neg (not_lt.mpr hpos), hobj]
    exact ⟨rfl, rfl, fun x => getObjectById_eq_update (getObjectById_assign hpos hlt x)⟩

theorem deleteObjectById_record (id : Nat) (r : Repository α) :
    wp (deleteObjectById id)
      (fun _ r' => r'.getObjectById = update r.getObjectById id none)
      (fun _ r' => r'.getObjectById = update r.getObjectById id none) r := by
  rw [deleteObjectById, wp_bind]
  refine wp_mono (objectAt_spec id r) (fun _ r1 h1 => ?_) fun _ r1 h1 => ?_
  · rw [wp_modify, h1.1]
    exact h1.2.2 none
  · rw [h1.1, ← h1.2, update_eq_self]

/-- **A call does what the record says**, whether it throws or not. -/
theorem step_record (c : Call α uid) (r : Repository α) :
    (endState (c.step fromString) r).getObjectById = c.record fromString r.getObjectById := by
  apply wp_endState_both
    (P := fun r' : Repository α => r'.getObjectById = c.record fromString r.getObjectById)
  cases c with
  | create p =>
    refine (wp_bind _ _).mpr (wp_mono (createOrThrow_spec p r) (fun a r' h => ?_) fun e r' h => ?_)
    · simp only [wp_pure, Call.record, lowestFree_eq, h.1, h.2]
    · simp only [Call.record, lowestFree_eq, h.1, h.2]
  | replace id p =>
    refine (wp_bind _ _).mpr ?_
    rw [replaceObject, wp_bind]
    refine wp_mono (objectAt_spec id r) (fun a r1 h1 => ?_) fun _ r1 h1 => ?_
    · obtain ⟨rfl, hget, hassign⟩ := h1
      rw [wp_bind]
      refine wp_liftE (fun a' ha' => ?_) fun e he => ?_
      · rw [wp_update, wp_pure, wp_pure, hassign]
        simp only [Call.record, hget, Option.map_some, ha']
      · simp only [Call.record, hget, Option.map_some, he]
    · simp only [Call.record, h1.1, h1.2, Option.map_none]
  | delete obj => exact deleteObjectById_record _ r
  | deleteById id => exact deleteObjectById_record id r

theorem calls_record (cs : List (Call α uid)) :
    (calls fromString cs).getObjectById = record fromString cs := by
  have hfold : ∀ r : Repository α,
      (cs.foldl (fun r c => endState (c.step fromString) r) r).getObjectById =
        cs.foldl (Call.record fromString) r.getObjectById := by
    induction cs with
    | nil => exact fun _ => rfl
    | cons c cs ih =>
      intro r
      rw [foldl_cons, foldl_cons, ih, step_record]
  rw [calls, hfold, record]
  congr 1
  exact funext getObjectById_empty

/-- Every object has the text of its id. -/
def Record.Named (uid : α → String) (live : Record α) : Prop :=
  ∀ i a, live i = some a → uid a = toString i

theorem Record.Named.update {live : Record α} {x : Option α} (h : live.Named uid)
    (hx : ∀ a, x = some a → uid a = toString id) : Named uid (update live id x) := by
  intro i a ha
  rw [update_apply] at ha
  split at ha
  case isTrue hi =>
    rw [hi]
    exact hx a ha
  case isFalse => exact h i a ha

theorem Record.Named.call {live : Record α} (h : live.Named uid) (fromString : String → Nat)
    (c : Call α uid) : (c.record fromString live).Named uid := by
  cases c with
  | create p =>
    rw [Call.record]
    split
    case h_1 a ha =>
      refine h.update fun b hb => ?_
      cases hb
      exact p.create_uid ha
    case h_2 => exact h
  | replace id p =>
    rw [Call.record]
    split
    case h_1 a ha =>
      obtain ⟨b, hb, hok⟩ := Option.map_eq_some_iff.mp ha
      refine h.update fun c hc => ?_
      cases hc
      rw [p.transform_uid hok]
      exact h id b hb
    case h_2 => exact h
  | delete obj => exact h.update fun _ ha => by cases ha
  | deleteById id => exact h.update fun _ ha => by cases ha

theorem record_named (cs : List (Call α uid)) :
    (record fromString cs).Named uid := by
  have hfold : ∀ live : Record α, live.Named uid →
      (cs.foldl (Call.record fromString) live).Named uid := by
    induction cs with
    | nil => exact fun _ h => h
    | cons c cs ih => exact fun _ h => ih _ (h.call fromString c)
  exact hfold _ fun _ _ ha => by cases ha

theorem toString_inj {i j : Nat} (h : toString i = toString j) : i = j := by
  have hdigits := congrArg (fun text => Nat.ofDigitChars 10 text.toList 0) h
  simpa [Nat.toString_eq_ofList_toDigits] using hdigits

/-- **Object ids.** After any calls, exactly the objects of the record are found, each under its
id, the ids are distinct, and a new object gets the lowest one that is free. -/
theorem object_ids (fromString : String → Nat) (cs : List (Call α uid)) :
    let r := calls fromString cs
    let live := record fromString cs
    (∀ i, r.getObjectById i = live i) ∧
    (∀ i a, live i = some a → 1 ≤ i ∧ uid a = toString i) ∧
    (r.toList.map uid).Nodup ∧
    IsLeast {i | 1 ≤ i ∧ live i = none} live.lowestFree ∧
    ∀ p : Parameter α uid, wp (createOrThrow p)
      (fun a r' => ∀ j, r'.getObjectById j = if j = live.lowestFree then some a else live j)
      (fun _ r' => ∀ j, r'.getObjectById j = live j) r := by
  intro r live
  have hlive : r.getObjectById = live := calls_record fromString cs
  have hnamed : live.Named uid := record_named fromString cs
  have hfree : live.lowestFree = r.firstUnusedObjectId := by rw [← hlive, lowestFree_eq]
  refine ⟨fun i => by rw [hlive], fun i a ha => ⟨?_, hnamed i a ha⟩, ?_, ?_, fun p => ?_⟩
  · rw [← hlive] at ha
    exact (getObjectById_eq_some ha).1
  · rw [toList, map_filterMap, hlive]
    refine List.Nodup.filterMap (fun i j text hi hj => ?_) nodup_range
    -- the text says where an object is
    obtain ⟨a, ha, rfl⟩ := Option.map_eq_some_iff.mp hi
    obtain ⟨b, hb, hab⟩ := Option.map_eq_some_iff.mp hj
    exact toString_inj ((hnamed i a ha).symm.trans (hab.symm.trans (hnamed j b hb)))
  · rw [hfree, ← hlive]
    exact r.isLeast_firstUnused
  · rw [hfree]
    refine wp_mono (createOrThrow_spec p r) (fun a r' h j => ?_) fun _ r' h j => ?_
    · rw [h.2, hlive, update_apply]
    · rw [h.2, hlive]

end Shiesh.Repository
