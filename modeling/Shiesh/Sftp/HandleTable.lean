import Shiesh.Sftp.Server

/-!
# The Table of Handles

`handles` grows and never shrinks; the indices of closed handles are kept in `unusedHandles` and
issued again, the smallest first. For a client the table is a map from numbers to what has been
opened: `handle_new` adds an entry under a number that was free, `handle_close` removes one.

The table refines that map as long as nobody asks `handle_new` for a handle of the kind
HANDLE_UNUSED: such an entry counts as closed, but its index is never issued again.
-/

namespace Shiesh.Sftp

open Shiesh.Lib Option List FileHandle

variable {ω : Type}

/-! ## The map -/

/-- What a handle was created with -/
structure Opened where
  use : HandleUse
  path : SFTPFilePath
  fileHandle : WinHandle
  dirp : WinHandle

inductive TableOp where
  | new (opened : Opened)
  | close (handle : Int)

/-- `handle_new` is asked for a file or a directory. -/
def TableOp.opens : TableOp → Bool
  | new opened => opened.use ≠ .unused
  | close _ => true

/-- The server, and the map that the results so far have made -/
structure TableRun (ω : Type) where
  sftp : SFTP ω
  map : Nat → Option Opened := fun _ => none

namespace TableRun

def onSftp {α : Type} (m : SftpM ω α) : EStateM SftpError (TableRun ω) α :=
  zoom sftp (fun s r => { r with sftp := s }) m

def step (os : Win32 ω) : TableOp → EStateM SftpError (TableRun ω) Unit
  | .new opened => do
    let i ← onSftp (handleNew opened.use opened.path opened.fileHandle opened.dirp)
    modify fun r =>
      { r with map := fun j => if (j : Int) = i then some opened else r.map j }
  | .close handle => do
    let _ ← onSftp (handleClose os handle)
    modify fun r => { r with map := fun j => if (j : Int) = handle then none else r.map j }

end TableRun

/-! ## The invariant -/

/-- An entry that is open, as it was created -/
def FileHandle.opened? (e : FileHandle) : Option Opened :=
  if e.use = .unused then none else some ⟨e.use, e.path, e.fileHandle, e.dirp⟩

/-- The entries that are open -/
def SFTP.openAt (s : SFTP ω) (i : Nat) : Option Opened := s.handles[i]?.bind FileHandle.opened?

/-- The index has an entry that is closed. -/
def SFTP.Closed (s : SFTP ω) (i : Nat) : Prop := ∃ e, s.handles[i]? = some e ∧ e.use = .unused

/-- `unusedHandles` is the set of the closed indices. -/
structure FreeOk (s : SFTP ω) : Prop where
  nodup : s.unusedHandles.Nodup
  closed : ∀ i, i ∈ s.unusedHandles ↔ s.Closed i

/-- A closed entry is not open. -/
theorem openAt_of_closed {s : SFTP ω} {i : Nat} (h : s.Closed i) : s.openAt i = none := by
  obtain ⟨e, he, huse⟩ := h
  rw [SFTP.openAt, he, bind_some, opened?, if_pos huse]

theorem handleIsOk_iff (s : SFTP ω) (i : Int) {use : HandleUse} (huse : use ≠ .unused) :
    s.handleIsOk i use = true ↔ 0 ≤ i ∧ ∃ o, s.openAt i.toNat = some o ∧ o.use = use := by
  rw [SFTP.handleIsOk, Bool.and_eq_true, decide_eq_true_iff, SFTP.openAt]
  cases s.handles[i.toNat]? with
  | none => simp
  | some e =>
    by_cases he : e.use = .unused
    · simp [opened?, he, huse.symm]
    · simp [opened?, he]

theorem openAt_use_ne {s : SFTP ω} {i : Nat} {o : Opened} (h : s.openAt i = some o) :
    o.use ≠ .unused := by
  rw [SFTP.openAt] at h
  obtain ⟨e, -, he⟩ := bind_eq_some_iff.mp h
  rw [opened?] at he
  split at he
  case isTrue => cases he
  case isFalse huse =>
    cases he
    exact huse

/-! ## handle_new -/

/-- What `handle_new` may do with the table: nothing, or an entry under a number that was free -/
def Issued (o : Opened) (s : SFTP ω) (i : Int) (s' : SFTP ω) : Prop :=
  (i < 0 ∧ s' = s) ∨
    ∃ n : Nat, i = n ∧ s.openAt n = none ∧ FreeOk s' ∧
      ∀ j, s'.openAt j = if j = n then some o else s.openAt j

section New

variable {s : SFTP ω} {o : Opened}

/-- The entry that `handle_new` makes -/
def Opened.entry (o : Opened) : FileHandle where
  use := o.use
  dirp := o.dirp
  fileHandle := o.fileHandle
  path := o.path

theorem entry_opened (ho : o.use ≠ .unused) : o.entry.opened? = some o := if_neg ho

/-- No index is free: the table grows. -/
theorem push_issued (hs : FreeOk s) (ho : o.use ≠ .unused) :
    Issued o s s.handles.length { s with handles := s.handles ++ [o.entry] } := by
  have hget (j : Nat) : (s.handles ++ [o.entry])[j]? =
      if j = s.handles.length then some o.entry else s.handles[j]? := by
    rw [getElem?_append]
    split
    case isTrue hlt => rw [if_neg (ne_of_lt hlt)]
    case isFalse hge =>
      by_cases hj : j = s.handles.length
      · simp [hj]
      · rw [if_neg hj, getElem?_eq_none (by simp; omega), getElem?_eq_none (by omega)]
  refine .inr ⟨s.handles.length, rfl, (by rw [SFTP.openAt, getElem?_eq_none (le_rfl), bind_none]),
    ⟨hs.nodup, ?_⟩, ?_⟩
  · intro j
    rw [hs.closed, SFTP.Closed, SFTP.Closed, hget]
    by_cases hj : j = s.handles.length
    · rw [if_pos hj, hj]
      simp [Opened.entry, ho]
    · rw [if_neg hj]
  · intro j
    rw [SFTP.openAt, hget]
    by_cases hj : j = s.handles.length
    · rw [if_pos hj, if_pos hj, bind_some, entry_opened ho]
    · rw [if_neg hj, if_neg hj]
      rfl

/-- The smallest free index is issued again. -/
theorem reuse_issued (hs : FreeOk s) {n : Nat} {rest : List Nat}
    (hfree : s.unusedHandles = n :: rest) (ho : o.use ≠ .unused) :
    Issued o s n { s with handles := s.handles.set n o.entry, unusedHandles := rest } := by
  have hclosed : s.Closed n := by
    rw [← hs.closed, hfree]
    exact List.mem_cons_self
  have hlt : n < s.handles.length := by
    obtain ⟨_, hsome, -⟩ := hclosed
    exact (List.getElem?_eq_some_iff.mp hsome).1
  have hget (j : Nat) :
      (s.handles.set n o.entry)[j]? = if j = n then some o.entry else s.handles[j]? := by
    rw [List.getElem?_set]
    by_cases hj : n = j
    · rw [if_pos hj, if_pos hj.symm, if_pos (hj ▸ hlt)]
    · rw [if_neg hj, if_neg (Ne.symm hj)]
  have hnodup : n ∉ rest ∧ rest.Nodup := by
    rw [← List.nodup_cons, ← hfree]
    exact hs.nodup
  refine .inr ⟨n, rfl, openAt_of_closed hclosed, ⟨hnodup.2, ?_⟩, ?_⟩
  · intro j
    rw [SFTP.Closed, hget]
    by_cases hj : j = n
    · -- it is in use now
      rw [if_pos hj, hj]
      simp [Opened.entry, ho, hnodup.1]
    · have hold := hs.closed j
      rw [hfree, List.mem_cons, or_iff_right hj] at hold
      rw [if_neg hj]
      exact hold
  · intro j
    rw [SFTP.openAt, hget]
    by_cases hj : j = n
    · rw [if_pos hj, if_pos hj, bind_some, entry_opened ho]
    · rw [if_neg hj, if_neg hj]
      rfl

theorem handleNew_issues (hs : FreeOk s) (ho : o.use ≠ .unused) :
    wp (handleNew o.use o.path o.fileHandle o.dirp) (Issued o s) never s := by
  rw [handleNew, wp_read, wp_ite]
  refine ⟨fun _ => (wp_pure _).mpr (.inl ⟨by decide, rfl⟩), fun _ => ?_⟩
  cases hfree : s.unusedHandles with
  | nil =>
    rw [wp_write, wp_pure]
    have hissued := push_issued hs ho
    rw [hfree] at hissued
    exact hissued
  | cons n rest =>
    rw [wp_write, wp_pure]
    exact reuse_issued hs hfree ho

end New

/-! ## handle_close -/

/-- What `handle_close` does with the table: the number is free afterwards. -/
def Freed (handle : Int) (s s' : SFTP ω) : Prop :=
  FreeOk s' ∧ ∀ j : Nat, s'.openAt j = if (j : Int) = handle then none else s.openAt j

section Close

variable {s : SFTP ω}

/-- `handle_unused`, for an entry that is open -/
theorem unused_freed (hs : FreeOk s) {n : Nat} {o : Opened} (hopen : s.openAt n = some o) :
    Freed n s { s with
      handles := s.handles.modify n fun e => { e with use := .unused }
      unusedHandles := s.unusedHandles.orderedInsert (· ≤ ·) n } := by
  have hget (j : Nat) : (s.handles.modify n fun e => { e with use := HandleUse.unused })[j]? =
      if n = j then s.handles[j]?.map fun e => { e with use := .unused } else s.handles[j]? := by
    rw [getElem?_modify]
    split
    · rfl
    · exact map_id' ..
  obtain ⟨e, he, hopened⟩ := bind_eq_some_iff.mp hopen
  have hnew : n ∉ s.unusedHandles := by
    rw [hs.closed]
    intro hclosed
    rw [openAt_of_closed hclosed] at hopen
    cases hopen
  refine ⟨⟨?_, ?_⟩, ?_⟩
  · exact (perm_orderedInsert _ _ _).nodup_iff.mpr (nodup_cons.mpr ⟨hnew, hs.nodup⟩)
  · intro j
    rw [mem_orderedInsert, hs.closed, SFTP.Closed, SFTP.Closed, hget]
    by_cases hj : n = j
    · subst hj
      simp [he]
    · rw [if_neg hj, or_iff_right (Ne.symm hj)]
  · intro j
    rw [SFTP.openAt, hget]
    by_cases hj : n = j
    · subst hj
      rw [if_pos rfl, if_pos rfl, he]
      rfl
    · rw [if_neg hj, if_neg (by omega)]
      rfl

/-- A number that is not open stays as it is. -/
theorem nothing_freed (hs : FreeOk s) {handle : Int} (hfile : s.handleIsOk handle .file = false)
    (hdir : s.handleIsOk handle .dir = false) : Freed handle s s := by
  refine ⟨hs, fun j => ?_⟩
  split
  case isFalse => rfl
  case isTrue hj =>
    subst hj
    cases hopen : s.openAt j with
    | none => rfl
    | some o =>
      have hok (use : HandleUse) (huse : use ≠ .unused) (ho : o.use = use) :
          s.handleIsOk j use = true :=
        (handleIsOk_iff s j huse).mpr ⟨by omega, o, by simpa using hopen, ho⟩
      cases huse : o.use with
      | unused => exact absurd huse (openAt_use_ne hopen)
      | file =>
        rw [hok .file (by decide) huse] at hfile
        cases hfile
      | dir =>
        rw [hok .dir (by decide) huse] at hdir
        cases hdir

theorem closeEntry_frees (os : Win32 ω) (hs : FreeOk s) {handle : Int} {use : HandleUse}
    (huse : use ≠ .unused) (hok : s.handleIsOk handle use = true) (h : WinHandle) :
    wp (closeEntry os handle h) (fun _ => Freed handle s) never s := by
  obtain ⟨hpos, o, hopen, -⟩ := (handleIsOk_iff s handle huse).mp hok
  have hnat : (handle.toNat : Int) = handle := Int.toNat_of_nonneg hpos
  rw [closeEntry, wp_bind, call, wp_read, wp_write, wp_pure, wp_bind, handleUnused,
    wp_bind, modifyHandle, wp_modify, wp_modify, wp_pure]
  have hfreed := unused_freed hs hopen
  rw [hnat] at hfreed
  -- the world and the last error are not in the table
  exact ⟨⟨hfreed.1.nodup, hfreed.1.closed⟩, hfreed.2⟩

theorem handleClose_frees (os : Win32 ω) (hs : FreeOk s) (handle : Int) :
    wp (handleClose os handle) (fun _ => Freed handle s) never s := by
  rw [handleClose, wp_read]
  have hrefused (hfile : s.handleIsOk handle .file = false)
      (hdir : s.handleIsOk handle .dir = false) :
      wp (do
          modify fun s : SFTP ω => { s with lastError := WinError.fileNotFound }
          pure false : SftpM ω Bool) (fun _ => Freed handle s) never s := by
    have hfreed := nothing_freed hs hfile hdir
    rw [wp_update, wp_pure]
    exact ⟨⟨hfreed.1.nodup, hfreed.1.closed⟩, hfreed.2⟩
  cases hat : s.handleAt handle with
  | none =>
    have hnone (use : HandleUse) : s.handleIsOk handle use = false := by
      rw [SFTP.handleIsOk, show s.handles[handle.toNat]? = none from hat, any_none,
        Bool.and_false]
    exact hrefused (hnone .file) (hnone .dir)
  | some e =>
    simp only
    cases hfile : s.handleIsOk handle .file with
    | true =>
      rw [if_pos rfl]
      exact closeEntry_frees os hs (by decide) hfile _
    | false =>
      rw [if_neg Bool.false_ne_true]
      cases hdir : s.handleIsOk handle .dir with
      | true =>
        rw [if_pos rfl]
        exact closeEntry_frees os hs (by decide) hdir _
      | false =>
        rw [if_neg Bool.false_ne_true]
        exact hrefused hfile hdir

end Close

/-! ## Runs -/

namespace TableRun

variable {os : Win32 ω}

/-- The table and the map agree. -/
structure Inv (r : TableRun ω) : Prop where
  free : FreeOk r.sftp
  agree : r.sftp.openAt = r.map

theorem start_inv (version : Int32) (world : ω) :
    Inv { sftp := { version := version, world := world } } where
  free := ⟨nodup_nil, fun i => by simp [SFTP.Closed]⟩
  agree := rfl

theorem step_inv {op : TableOp} (hop : op.opens = true) :
    Keeps Inv (step os op) (fun _ => False) := by
  intro r hr
  cases op with
  | new o =>
    have ho : o.use ≠ .unused := of_decide_eq_true hop
    rw [step, wp_bind, onSftp, wp_zoom]
    refine wp_mono_total (handleNew_issues hr.free ho) fun i s' hissued => ?_
    rw [wp_modify]
    obtain ⟨hneg, rfl⟩ | ⟨n, rfl, -, hfree, hopen⟩ := hissued
    · refine ⟨hr.free, ?_⟩
      funext j
      show r.sftp.openAt j = if (j : Int) = i then some o else r.map j
      rw [if_neg (by omega), hr.agree]
    · refine ⟨hfree, ?_⟩
      funext j
      show s'.openAt j = if (j : Int) = n then some o else r.map j
      rw [hopen, hr.agree]
      simp only [Int.natCast_inj]
  | close handle =>
    rw [step, wp_bind, onSftp, wp_zoom]
    refine wp_mono_total (handleClose_frees os hr.free handle) fun _ s' hfreed => ?_
    rw [wp_modify]
    refine ⟨hfreed.1, ?_⟩
    funext j
    rw [hfreed.2, hr.agree]

/-- What the table is for. -/
structure IsMap (r : TableRun ω) : Prop where
  /-- `unusedHandles` is the set of the indices with HANDLE_UNUSED. -/
  unused : r.sftp.unusedHandles.Nodup ∧ ∀ i, i ∈ r.sftp.unusedHandles ↔ r.sftp.Closed i
  /-- `handle_new` returns no index that is open. -/
  fresh : ∀ o : Opened, o.use ≠ .unused →
    wp (handleNew o.use o.path o.fileHandle o.dirp) (fun i _ => ∀ n : Nat, i = n → r.map n = none)
      (fun _ _ => False) r.sftp
  /-- What is open is in the table as it was created. -/
  kept : ∀ i o, r.map i = some o → ∃ e, r.sftp.handles[i]? = some e ∧
    e.use = o.use ∧ e.fileHandle = o.fileHandle ∧ e.dirp = o.dirp ∧ e.path = o.path
  /-- `handle_is_ok` accepts what is open, and nothing else. -/
  isOk : ∀ (i : Int) (use : HandleUse), use ≠ .unused →
    (r.sftp.handleIsOk i use = true ↔ 0 ≤ i ∧ ∃ o, r.map i.toNat = some o ∧ o.use = use)

theorem Inv.isMap {r : TableRun ω} (hr : Inv r) : IsMap r where
  unused := ⟨hr.free.nodup, hr.free.closed⟩
  fresh o ho := by
    refine wp_mono_total (handleNew_issues hr.free ho) fun i s' hissued n hn => ?_
    obtain ⟨hneg, -⟩ | ⟨m, hm, hnone, -⟩ := hissued
    · omega
    · rw [← hr.agree, show n = m by omega]
      exact hnone
  kept i o ho := by
    rw [← hr.agree] at ho
    obtain ⟨e, he, hopened⟩ := bind_eq_some_iff.mp ho
    rw [opened?] at hopened
    split at hopened
    case isTrue => cases hopened
    case isFalse =>
      cases hopened
      exact ⟨e, he, rfl, rfl, rfl, rfl⟩
  isOk i use huse := by
    rw [← hr.agree]
    exact handleIsOk_iff r.sftp i huse

/-- **The table of handles is a map**, after every sequence of `handle_new` for files and
directories and `handle_close` with any argument. -/
theorem table_is_map (os : Win32 ω) (version : Int32) (world : ω) (ops : List TableOp)
    (hops : ∀ op ∈ ops, op.opens = true) :
    wp (runAll (step os) ops) (fun _ => IsMap) (fun _ _ => False)
      { sftp := { version := version, world := world } } := by
  have hrun : Keeps Inv (runAll (step os) ops) (fun _ => False) :=
    Keeps.runAll_mem fun op hop => step_inv (hops op hop)
  exact wp_mono_total (hrun _ (start_inv version world)) fun _ r hr => hr.isMap

/-- A file is opened and closed, and its number goes to a directory. -/
def reopened : List TableOp :=
  [.new ⟨.file, someHome, 8, 0⟩, .close 0, .new ⟨.dir, someHome, 0, 12⟩]

theorem table_is_map_reopened :
    (∀ op ∈ reopened, op.opens = true) ∧
      wp (runAll (step (brokenSystem 5)) reopened) (fun _ => IsMap) (fun _ _ => False)
        { sftp := { version := 3, world := () } } :=
  ⟨by decide, table_is_map (brokenSystem 5) 3 () reopened (by decide)⟩

/-- An entry of the kind HANDLE_UNUSED is not in `unusedHandles`. -/
theorem unused_entry_not_free :
    let r := endState (runAll (step (brokenSystem 5)) [.new ⟨.unused, someHome, 8, 0⟩])
      { sftp := { version := 3, world := () } }
    r.sftp.handles.map use = [.unused] ∧ r.sftp.unusedHandles = [] := by
  decide +kernel

end TableRun

end Shiesh.Sftp
