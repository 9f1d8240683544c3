import Mathlib.Algebra.Order.Group.Multiset
import Mathlib.Tactic.Abel
import Shiesh.Lib.Resources
import Shiesh.Sftp.Listing

/-!
# System Handles

`CreateFileW` and `FindFirstFile` give handles of the system. `CloseHandle` and `FindClose` take
them back. A handle of the client owns what was opened for it: a file, or a directory, and for a
directory the search that goes on in it.

The search of a directory is not closed with it. And a search that has come to its end is closed
at once, which leaves 0 for its handle; with the next request 0 is closed.
-/

namespace Shiesh.Sftp

open Shiesh.Lib Shiesh.Channels List FileHandle
open Use (held Lawful)

variable {ω α : Type}

/-! ## §1 The books -/

/-- A handle of the system, with the kind of call that closes it -/
inductive Resource where
  | file (h : WinHandle)
  | search (h : WinHandle)
  deriving DecidableEq, Repr

/-- What was opened and closed, the latest first -/
abbrev Log := List (Use Resource)

/-- A call that gives a handle, or INVALID_HANDLE_VALUE -/
def opening (kind : WinHandle → Resource) (f : Api ω WinHandle) : Api (ω × Log) WinHandle :=
  fun w =>
  ((f w.1).1, (f w.1).2,
    if (f w.1).1.value = invalidHandleValue then w.2 else .acquire (kind (f w.1).1.value) :: w.2)

def closing (r : Resource) (f : Api ω Bool) : Api (ω × Log) Bool := fun w =>
  ((f w.1).1, (f w.1).2, .release r :: w.2)

/-- The same system, with a log of what is opened and closed -/
def Win32.watched (os : Win32 ω) : Win32 (ω × Log) :=
  { os.beside Log with
    createFile := fun name access disposition flags =>
      opening .file (os.createFile name access disposition flags)
    closeHandle := fun h => closing (.file h) (os.closeHandle h)
    findFirstFile := fun mask => opening .search (os.findFirstFile mask)
    findClose := fun h => closing (.search h) (os.findClose h) }

/-- The search of a directory, while it goes on -/
def ongoing (search : WinHandle) (done : Bool) : Multiset Resource :=
  if !done && search ≠ invalidHandleValue then {.search search} else 0

/-- What an entry of the table owns -/
def FileHandle.owns (e : FileHandle) : Multiset Resource :=
  match e.use with
  | .unused => 0
  | .file => {.file e.fileHandle}
  | .dir => {.file e.dirp} + ongoing e.searchHandle e.searchDone

def owners (es : List FileHandle) : Multiset Resource := (es.map FileHandle.owns).sum

theorem ongoing_done (search : WinHandle) : ongoing search true = 0 := rfl

theorem ongoing_invalid (done : Bool) : ongoing invalidHandleValue done = 0 := by
  cases done with
  | true => rfl
  | false => rfl

theorem ongoing_valid {search : WinHandle} (h : search ≠ invalidHandleValue) :
    ongoing search false = {.search search} := by
  rw [ongoing, if_pos (by simp [h])]

variable {e : FileHandle} {es : List FileHandle} {f : FileHandle → FileHandle}

theorem owns_dir (h : e.use = .dir) :
    e.owns = {.file e.dirp} + ongoing e.searchHandle e.searchDone := by
  rw [owns, h]

/-- One entry is changed, and the others keep what they own. -/
theorem owners_modify {i : Nat} (h : es[i]? = some e) (f : FileHandle → FileHandle) :
    owners (es.modify i f) + e.owns = owners es + (f e).owns := by
  induction es generalizing i with
  | nil => cases h
  | cons x es ih =>
    cases i with
    | zero =>
      cases h
      simp only [owners, modify_zero_cons, map_cons, sum_cons]
      abel
    | succ i =>
      have ih' := ih h
      simp only [owners, modify_succ_cons, map_cons, sum_cons] at ih' ⊢
      rw [add_assoc, ih', add_assoc]

theorem owners_modify_same (hf : ∀ e, (f e).owns = e.owns) (i : Nat)
    (es : List FileHandle) : owners (es.modify i f) = owners es := by
  cases h : es[i]? with
  | none => rw [modify_eq_self (getElem?_eq_none_iff.mp h)]
  | some e =>
    have hsum := owners_modify h f
    rw [hf] at hsum
    exact add_right_cancel hsum

/-- The balance: what is open is owned by the handles of the client, and besides there is `extra`,
which is yet to get an owner or to be closed. -/
structure Owes (extra : Multiset Resource) (s : SFTP (ω × Log)) : Prop where
  free : FreeOk s
  lawful : Lawful s.world.2
  balance : held s.world.2 = extra + owners s.handles

abbrev Balanced (s : SFTP (ω × Log)) : Prop := Owes 0 s

theorem Owes.congr {extra : Multiset Resource} {s s' : SFTP (ω × Log)} (hs : Owes extra s)
    (hhandles : s'.handles = s.handles) (hunused : s'.unusedHandles = s.unusedHandles)
    (hlog : s'.world.2 = s.world.2) : Owes extra s' := by
  refine ⟨⟨?_, fun i => ?_⟩, ?_, ?_⟩
  · rw [hunused]
    exact hs.free.nodup
  · rw [hunused, hs.free.closed, SFTP.Closed, SFTP.Closed, hhandles]
  · rw [hlog]
    exact hs.lawful
  · rw [hlog, hhandles]
    exact hs.balance

/-! ## §2 Calls -/

section Calls

variable {extra : Multiset Resource} {s : SFTP (ω × Log)}

theorem freeOk_modify (hf : ∀ e, (f e).use = e.use) (i : Nat)
    (hs : FreeOk s) : FreeOk { s with handles := s.handles.modify i f } := by
  refine ⟨hs.nodup, fun j => ?_⟩
  rw [hs.closed, SFTP.Closed, SFTP.Closed, getElem?_modify]
  cases s.handles[j]? with
  | none => simp
  | some e =>
    by_cases hij : i = j
    · simp [hij, hf]
    · simp [hij]

theorem owes_quiet (os : Win32 ω) (extra : Multiset Resource) :
    Quiet os.watched (Owes (ω := ω) extra) where
  after hf s hs := hs.congr rfl rfl (by cases hf <;> rfl)
  counts {f} hf i s hs := by
    have huse : ∀ e, (f e).use = e.use := fun e => by rw [hf e]
    have howns : ∀ e, (f e).owns = e.owns := fun e => by rw [hf e]; rfl
    refine ⟨freeOk_modify huse i hs.free, hs.lawful, ?_⟩
    rw [owners_modify_same howns]
    exact hs.balance

theorem owes_walk (os : Win32 ω) (extra : Multiset Resource) :
    Walk os.watched (Owes (ω := ω) extra) (Owes extra) where
  toQuiet := owes_quiet os extra
  ends _ hs := hs
  reads _ := onIqueue_keeps (fun _ _ hs => hs.congr rfl rfl rfl) _
  version _ _ hs := hs.congr rfl rfl rfl
  sends _ := sendMsg_keeps (fun _ _ hs => hs.congr rfl rfl rfl) _

/-- What a call that opens has given -/
def given (kind : WinHandle → Resource) (v : WinHandle) : Multiset Resource :=
  if v = invalidHandleValue then 0 else {kind v}

/-- What was opened has no owner yet. -/
theorem opening_owes {kind : WinHandle → Resource} {f : Api ω WinHandle} (hs : Owes 0 s) :
    wp (call (opening kind f)) (fun v s' => Owes (given kind v) s' ∧ s'.handles = s.handles)
      never s := by
  rw [wp_call]
  have hfree : FreeOk (s.after (opening kind f s.world)) := ⟨hs.free.nodup, hs.free.closed⟩
  by_cases hvalue : (f s.world.1).1.value = invalidHandleValue
  · have hlog : (opening kind f s.world).2.2 = s.world.2 := if_pos hvalue
    have hgiven : given kind (opening kind f s.world).1.value = 0 := if_pos hvalue
    rw [hgiven]
    exact ⟨hs.congr rfl rfl hlog, rfl⟩
  · have hlog : (opening kind f s.world).2.2 = .acquire (kind (f s.world.1).1.value) :: s.world.2 :=
      if_neg hvalue
    have hgiven : given kind (opening kind f s.world).1.value = {kind (f s.world.1).1.value} :=
      if_neg hvalue
    rw [hgiven]
    refine ⟨⟨hfree, ?_, ?_⟩, rfl⟩
    · rw [SFTP.after, hlog]
      exact hs.lawful
    · rw [SFTP.after, hlog, Use.held_acquire, hs.balance, zero_add, Multiset.singleton_add]

/-- What has no owner can be closed. -/
theorem closing_owes {r : Resource} {f : Api ω Bool} (hs : Owes {r} s) :
    wp (call (closing r f)) (fun _ s' => Owes 0 s' ∧ s'.handles = s.handles)
      never s := by
  rw [wp_call]
  have hheld : held s.world.2 = r ::ₘ (0 + owners s.handles) := by
    rw [hs.balance, zero_add, Multiset.singleton_add]
  have hreleased := hs.lawful.release hheld
  exact ⟨⟨⟨hs.free.nodup, hs.free.closed⟩, hreleased.1, hreleased.2⟩, rfl⟩

end Calls

/-! ## §3 Opening and closing -/

section Table

variable {os : Win32 ω} {home : SFTPFilePath} {s : SFTP (ω × Log)}

/-- What waits for an owner gets one, unless there are too many handles. -/
theorem handleNew_owes {o : Opened} (ho : o.use ≠ .unused) (hs : Owes o.entry.owns s) :
    wp (handleNew o.use o.path o.fileHandle o.dirp)
      (fun i s' => (i < 0 → s' = s) ∧ (¬i < 0 → Owes 0 s')) never s := by
  rw [handleNew, wp_read, wp_ite, wp_pure]
  refine ⟨fun _ => ⟨fun _ => rfl, fun hpos => absurd (by decide) hpos⟩, fun _ => ?_⟩
  cases hfree : s.unusedHandles with
  | nil =>
    rw [wp_write, wp_pure]
    refine ⟨fun hneg => absurd hneg (by omega), fun _ => ?_⟩
    obtain ⟨hneg, -⟩ | ⟨_, -, -, hfree', -⟩ := push_issued hs.free ho
    · omega
    · rw [hfree] at hfree'
      refine ⟨hfree', hs.lawful, ?_⟩
      show held s.world.2 = 0 + owners (s.handles ++ [o.entry])
      rw [hs.balance, owners, owners, map_append, sum_append, map_singleton,
        sum_singleton]
      abel
  | cons n rest =>
    rw [wp_write, wp_pure]
    refine ⟨fun hneg => absurd hneg (by omega), fun _ => ?_⟩
    obtain ⟨hneg, -⟩ | ⟨_, -, -, hfree', -⟩ := reuse_issued hs.free hfree ho
    · omega
    · refine ⟨hfree', hs.lawful, ?_⟩
      -- a free entry owns nothing
      obtain ⟨e, he, hunused⟩ : s.Closed n := by
        rw [← hs.free.closed, hfree]
        exact mem_cons_self
      have hmodify := owners_modify he fun _ => o.entry
      have hnone : e.owns = 0 := by rw [owns, hunused]
      have hset : s.handles.modify n (fun _ => o.entry) = s.handles.set n o.entry := by
        rw [modify_eq_set_getElem?, he]
        rfl
      rw [hset, hnone, add_zero] at hmodify
      show held s.world.2 = 0 + owners (s.handles.set n o.entry)
      rw [hs.balance, hmodify]
      abel

/-- `CreateFileW` and what becomes of its result -/
theorem openHandle_balanced (id : UInt32) {o : WinHandle → Opened}
    (ho : ∀ fh, (o fh).use ≠ .unused) (howns : ∀ fh, (o fh).entry.owns = {.file fh})
    (f : Api ω WinHandle) :
    Keeps Balanced (call (opening .file f) >>= fun fh => openHandle os.watched id fh
      (handleNew (o fh).use (o fh).path (o fh).fileHandle (o fh).dirp)) := by
  intro s hs
  have hw := owes_walk os 0
  refine wp_seq_total (opening_owes hs) fun fh s1 h1 => ?_
  rw [openHandle, wp_ite]
  refine ⟨fun hinvalid => ?_, fun hvalid => ?_⟩
  · have h1' := h1.1
    rw [given, if_pos hinvalid] at h1'
    exact lastStatus_keeps s1 h1'
  · have h1' := h1.1
    rw [given, if_neg hvalid, ← howns fh] at h1'
    refine wp_seq_total (handleNew_owes (ho fh) h1') fun i s2 h2 => ?_
    rw [wp_ite]
    refine ⟨fun hneg => ?_, fun hpos => ?_⟩
    · rw [h2.1 hneg, wp_bind]
      rw [howns fh] at h1'
      refine wp_mono_total (closing_owes h1') fun _ s3 h3 => ?_
      rw [wp_pure]
      exact h3.1
    · exact ((hw.sendHandle id i).bind fun _ => .pure _) s2 (h2.2 hpos)

theorem processOpen_balanced : Keeps Balanced (processOpen os.watched home) := by
  have hw := owes_walk os 0
  refine hw.guarded
    fun id => (hw.reads .string).bind fun name => (hw.reads .int).bind fun pflags => ?_
  refine (hw.reads .attrib).bind fun _ => (makePath_keeps _ home name).bind fun path => ?_
  refine (forCall_keeps path).bind fun w => ?_
  exact openHandle_balanced id (o := fun fh => ⟨.file, path, fh, 0⟩)
    (fun _ h => by cases h) (fun _ => rfl) _

theorem processOpendir_balanced : Keeps Balanced (processOpendir os.watched home) := by
  have hw := owes_walk os 0
  refine hw.guarded fun id => (hw.reads .string).bind fun name => ?_
  refine (makePath_keeps _ home name).bind fun path => (forCall_keeps path).bind fun w => ?_
  exact openHandle_balanced id (o := fun fh => ⟨.dir, path, 0, fh⟩)
    (fun _ h => by cases h) (fun _ => rfl) _

/-- An entry that owns one handle gives it back. -/
theorem closeEntry_balanced {i : Int} {e : FileHandle} {v : WinHandle} (hs : Balanced s)
    (hat : s.handleAt i = some e) (hused : e.use ≠ .unused) (hok : s.handleIsOk i e.use = true)
    (howns : e.owns = {.file v}) : wp (closeEntry os.watched i v) (fun _ => Balanced) never s := by
  have hfreed := closeEntry_frees os.watched hs.free hused hok v
  rw [closeEntry, wp_bind, wp_call, wp_bind, handleUnused, wp_bind, modifyHandle, wp_modify,
    wp_modify, wp_pure] at hfreed ⊢
  have hmodify := owners_modify hat fun e => { e with use := .unused }
  have hnone : owns { e with use := .unused } = 0 := rfl
  rw [hnone, add_zero, howns] at hmodify
  have hheld : held s.world.2 = .file v ::ₘ
      owners (s.handles.modify i.toNat fun e => { e with use := .unused }) := by
    rw [hs.balance, zero_add, ← hmodify, add_comm, Multiset.singleton_add]
  have hreleased := hs.lawful.release hheld
  refine ⟨hfreed.1, hreleased.1, ?_⟩
  rw [zero_add]
  exact hreleased.2

theorem isOk_use {i : Int} {e : FileHandle} {use : HandleUse} {s : SFTP ω}
    (hat : s.handleAt i = some e) (hok : s.handleIsOk i use = true) : e.use = use := by
  have hget : s.handles[i.toNat]? = some e := hat
  rw [SFTP.handleIsOk, hget, Bool.and_eq_true, Option.any_some, decide_eq_true_iff] at hok
  exact of_decide_eq_true hok.2

/-- A directory is closed properly when no search goes on in it. -/
theorem handleClose_balanced {i : Int} (hs : Balanced s)
    (hidle : ∀ e, s.handleAt i = some e → s.handleIsOk i .dir = true →
      ongoing e.searchHandle e.searchDone = 0) :
    wp (handleClose os.watched i) (fun _ => Balanced) never s := by
  have hnone : Keeps Balanced (do
      modify fun s : SFTP (ω × Log) => { s with lastError := WinError.fileNotFound }
      pure false : SftpM (ω × Log) Bool) (fun _ => False) := by
    refine .bind ?_ fun _ => .pure _
    exact .modify fun s hs => hs.congr rfl rfl rfl
  rw [handleClose, wp_read]
  cases hat : s.handleAt i with
  | none => exact hnone s hs
  | some e =>
    rw [wp_ite]
    refine ⟨fun hfile => ?_, fun _ => ?_⟩
    · have he := isOk_use hat hfile
      refine closeEntry_balanced hs hat (by rw [he]; decide) (he ▸ hfile) ?_
      rw [owns, he]
    · rw [wp_ite]
      refine ⟨fun hdir => ?_, fun _ => hnone s hs⟩
      have he := isOk_use hat hdir
      refine closeEntry_balanced hs hat (by rw [he]; decide) (he ▸ hdir) ?_
      rw [owns_dir he, hidle e hat hdir, add_zero]

end Table

/-! ## §4 Reading a directory -/

/-- The balance, and where the search of the directory `i` stands -/
structure Searching (extra : Multiset Resource) (i : Nat) (search : WinHandle) (done : Bool)
    (s : SFTP (ω × Log)) : Prop where
  owes : Owes extra s
  entry : ∃ e, s.handles[i]? = some e ∧ e.use = .dir ∧ e.searchHandle = search ∧ e.searchDone = done

section Directory

variable {os : Win32 ω} {s : SFTP (ω × Log)} {extra extra' : Multiset Resource} {i : Int}
  {search search' : WinHandle} {done done' : Bool}

theorem searching_quiet (os : Win32 ω) (extra : Multiset Resource) (i : Nat) (search : WinHandle)
    (done : Bool) : Quiet os.watched (Searching (ω := ω) extra i search done) where
  after hf s hs := ⟨(owes_quiet os extra).after hf s hs.owes, hs.entry⟩
  counts {f} hf j s hs := by
    refine ⟨(owes_quiet os extra).counts hf j s hs.owes, ?_⟩
    obtain ⟨e, hget, he⟩ := hs.entry
    by_cases hj : j = i
    · refine ⟨f e, ?_, ?_⟩
      · show (s.handles.modify j f)[i]? = some (f e)
        rw [hj, getElem?_modify_eq, hget]
        rfl
      · rw [hf e]
        exact he
    · refine ⟨e, ?_, he⟩
      show (s.handles.modify j f)[i]? = some e
      simp [hget, hj]

/-- The entry of the directory changes, and what it no longer owns is to be closed. -/
theorem modifyHandle_searching
    (hs : Searching extra i.toNat search done s)
    (hf : ∀ e, e.use = .dir → e.searchHandle = search → e.searchDone = done → (f e).use = .dir ∧
      (f e).dirp = e.dirp ∧ (f e).searchHandle = search' ∧ (f e).searchDone = done')
    (huse : ∀ e, (f e).use = e.use)
    (hbalance : extra + ongoing search done = extra' + ongoing search' done') :
    wp (modifyHandle i f) (fun _ => Searching extra' i.toNat search' done') never s := by
  obtain ⟨e, hget, hdir, hsearch, hdone⟩ := hs.entry
  obtain ⟨hdir', hdirp, hsearch', hdone'⟩ := hf e hdir hsearch hdone
  rw [modifyHandle, wp_modify]
  refine ⟨⟨freeOk_modify huse i.toNat hs.owes.free, hs.owes.lawful, ?_⟩, f e, ?_, hdir', hsearch',
    hdone'⟩
  · show held s.world.2 = extra' + owners (s.handles.modify i.toNat f)
    have hmodify := owners_modify hget f
    rw [owns_dir hdir, owns_dir hdir', hdirp, hsearch, hdone, hsearch', hdone'] at hmodify
    -- the directory itself is owned before and after
    refine add_right_cancel (b := {Resource.file e.dirp} + ongoing search done) ?_
    calc held s.world.2 + ({Resource.file e.dirp} + ongoing search done)
        = (extra + ongoing search done) + (owners s.handles + {Resource.file e.dirp}) := by
          rw [hs.owes.balance]
          abel
      _ = extra' + (owners s.handles + ({Resource.file e.dirp} + ongoing search' done')) := by
          rw [hbalance]
          abel
      _ = extra' + owners (s.handles.modify i.toNat f) +
            ({Resource.file e.dirp} + ongoing search done) := by
          rw [← hmodify]
          abel
  · show (s.handles.modify i.toNat f)[i.toNat]? = some (f e)
    rw [getElem?_modify_eq, hget]
    rfl

/-- When a search begins it is owned by the directory. -/
theorem startSearch_balanced (dirPath : SFTPFilePath) (hs : Searching 0 i.toNat search false s) :
    wp (startSearch os.watched i dirPath search false)
      (fun search' => Searching 0 i.toNat search' false) (fun _ => Balanced) s := by
  rw [startSearch, wp_ite]
  refine ⟨fun hnew => ?_, fun _ => (wp_pure _).mpr hs⟩
  have hinvalid : search = invalidHandleValue := by simpa using hnew
  obtain ⟨mask, hmask⟩ := getMaskForDirSearch_ok dirPath
  rw [hmask, wp_bind, liftPath, wp_pure]
  refine wp_seq_total (opening_owes hs.owes) fun v s1 h1 => ?_
  have hs1 : Searching (given .search v) i.toNat search false s1 :=
    ⟨h1.1, by rw [h1.2]; exact hs.entry⟩
  have hbalance : given .search v + ongoing search false = 0 + ongoing v false := by
    rw [hinvalid, ongoing_invalid, add_zero, zero_add]
    by_cases hv : v = invalidHandleValue
    · rw [given, if_pos hv, hv, ongoing_invalid]
    · rw [given, if_neg hv, ongoing_valid hv]
  refine wp_seq_total (modifyHandle_searching hs1 (fun e hdir _ hdone => ⟨hdir, rfl, rfl, hdone⟩)
    (fun _ => rfl) hbalance) fun _ s2 hs2 => ?_
  rw [wp_pure]
  exact hs2

/-- The loop takes an entry unless there are no more. -/
theorem findFiles_ends (os : Win32 ω) (search : WinHandle) (n : Nat) (s : SFTP ω) :
    wp (findFiles os search (n + 1)) (fun found _ => found.1 = [] → found.2 = true)
      any s := by
  rw [findFiles, wp_bind, wp_call]
  cases (os.findNextFile search s.world).1.value with
  | none => exact (wp_pure _).mpr fun _ => rfl
  | some st =>
    rw [wp_bind]
    refine wp_intro (fun _ _ _ => ?_) fun _ _ _ => trivial
    rw [wp_pure]
    exact fun hnil => by cases hnil

/-- A search that has come to its end no longer belongs to the directory. -/
theorem continueSearch_balanced (hs : Searching 0 i.toNat search false s) :
    wp (continueSearch os.watched i search false)
      (fun found s' => (found.1 = [] → search = invalidHandleValue ∨ found.2 = true) ∧
        Searching (if found.2 then ongoing search false else 0) i.toNat search found.2 s')
      never s := by
  rw [continueSearch, wp_ite]
  refine ⟨fun hvalid => ?_, fun hinvalid => ?_⟩
  · rw [wp_bind]
    have hkeeps := findFiles_keeps (E := fun _ => False) (searching_quiet os 0 i.toNat search false)
      search 100 s hs
    refine wp_and_mono hkeeps (findFiles_ends os.watched search 99 s) fun found s1 h1 => ?_
    have hbalance : 0 + ongoing search false =
        (if found.2 then ongoing search false else 0) + ongoing search found.2 := by
      cases found.2 with
      | true => rw [if_pos rfl, ongoing_done, add_zero, zero_add]
      | false => rw [if_neg Bool.false_ne_true]
    refine wp_seq_total (modifyHandle_searching h1.1 (fun e hdir hsearch _ =>
      ⟨hdir, rfl, hsearch, rfl⟩) (fun _ => rfl) hbalance) fun _ s2 hs2 => ?_
    rw [wp_pure]
    exact ⟨fun hnil => .inr (h1.2 hnil), hs2⟩
  · rw [wp_pure]
    refine ⟨fun _ => .inl ?_, hs⟩
    simpa using hinvalid

/-- What came to its end is closed. -/
theorem endSearch_balanced
    (hs : Searching (if done then ongoing search false else 0) i.toNat search done s) :
    wp (endSearch os.watched i search done)
      (fun _ s' => ∃ search', Searching 0 i.toNat search' done s' ∧
        (done = false → search' = search)) never s := by
  rw [endSearch, wp_ite]
  refine ⟨fun hclose => ?_, fun hopen => ?_⟩
  · obtain ⟨rfl, hvalid⟩ : done = true ∧ search ≠ invalidHandleValue := by simpa using hclose
    have howes := hs.owes
    rw [if_pos rfl, ongoing_valid hvalid] at howes
    refine wp_seq_total (closing_owes howes) fun _ s1 h1 => ?_
    have hs1 : Searching 0 i.toNat search true s1 := ⟨h1.1, by rw [h1.2]; exact hs.entry⟩
    have hbalance : (0 : Multiset Resource) + ongoing search true = 0 + ongoing 0 true := rfl
    refine wp_mono_total (modifyHandle_searching hs1 (fun e hdir _ hdone =>
      ⟨hdir, rfl, rfl, hdone⟩) (fun _ => rfl) hbalance) fun _ s2 hs2 => ?_
    exact ⟨0, hs2, fun h => by cases h⟩
  · rw [wp_pure]
    refine ⟨search, ⟨?_, hs.entry⟩, fun _ => rfl⟩
    have howes := hs.owes
    cases done with
    | false => exact howes
    | true =>
      have hinvalid : search = invalidHandleValue := by simpa using hopen
      rwa [if_pos rfl, hinvalid, ongoing_invalid] at howes

/-- **READDIR** keeps the balance when the search has not come to its end before. -/
theorem readEntries_balanced (id : UInt32) (dirPath : SFTPFilePath)
    (hs : Searching 0 i.toNat search false s) :
    wp (readEntries os.watched id i dirPath search false) (fun _ => Balanced) (fun _ => Balanced)
      s := by
  have hw := owes_walk os 0
  rw [readEntries]
  refine wp_seq (startSearch_balanced dirPath hs) fun search1 s1 hs1 => ?_
  refine wp_seq_total (continueSearch_balanced hs1) fun found s2 h2 => ?_
  refine wp_seq_total (endSearch_balanced h2.2) fun _ s3 h3 => ?_
  obtain ⟨search3, hs3, hsame⟩ := h3
  rw [wp_ite]
  refine ⟨fun _ => sendMsg_keeps
    (fun _ _ hs => hs.congr rfl rfl rfl) _ s3 hs3.owes, fun hnone => ?_⟩
  -- nothing was found: either there is no search, or it has been closed
  have hbalance : 0 + ongoing search3 found.2 = 0 + ongoing invalidHandleValue false := by
    rw [ongoing_invalid]
    cases hdone : found.2 with
    | true => rfl
    | false =>
      have hor := h2.1 (not_not.mp hnone)
      rw [hdone] at hor
      rw [hsame hdone, hor.resolve_right Bool.false_ne_true, ongoing_invalid]
  refine wp_seq_total (modifyHandle_searching hs3 (fun e hdir _ _ => ⟨hdir, rfl, rfl, rfl⟩)
    (fun _ => rfl) hbalance) fun _ s4 hs4 => ?_
  exact hw.sendStatus id Fx.eof s4 hs4.owes

end Directory

/-! ## §5 Requests -/

section Requests

variable {os : Win32 ω} {home : SFTPFilePath} {s : SFTP (ω × Log)}

/-- The number of a handle that a message has, if it has one -/
theorem getHandle_takes (os : Win32 ω) (s : SFTP ω) :
    wp (getHandle os)
      (fun i s' => ∃ handle rest, s.iqueue = putString handle ++ rest ∧ s' = s.withIqueue rest ∧
        Resolved os s handle i)
      any s := by
  have hstring := getString_takes s
  cases hrun : getString s with
  | error e s1 =>
    rw [getHandle, wp_bind, wp_of_error hrun]
    trivial
  | ok handle s1 =>
    obtain ⟨hlen, rest, hiqueue, -⟩ := (wp_of_ok hrun).mp hstring
    have hspec : wp (getHandle os) (fun i s' => s' = s.withIqueue rest ∧ Resolved os s handle i) _
        (s.withIqueue (putString handle ++ rest)) := getHandle_spec hlen
    rw [← hiqueue] at hspec
    exact wp_weaken hspec fun i s' h => ⟨handle, rest, hiqueue, h⟩

/-- A request that is made with care: no directory is closed while a search goes on in it, and none
is read when its search has come to its end. -/
structure Careful (os : Win32 ω) (msg : Bytes) (s : SFTP ω) : Prop where
  close : ∀ handle id rest e, msg = (Request.close handle).message id rest →
    refersTo os s handle .dir = true → s.handleAt (handleNumber os s handle) = some e →
    e.searchDone = true ∨ e.searchHandle = invalidHandleValue
  readdir : ∀ handle id rest e, msg = (Request.readdir handle).message id rest →
    refersTo os s handle .dir = true → s.handleAt (handleNumber os s handle) = some e →
    e.searchDone = false

theorem ongoing_eq_zero {search : WinHandle} {done : Bool}
    (h : done = true ∨ search = invalidHandleValue) : ongoing search done = 0 := by
  rcases h with rfl | rfl
  · exact ongoing_done search
  · exact ongoing_invalid done

/-- The beginning of a handler that has a handle: what it reads, and what follows from a condition
on what it reads -/
theorem wp_readHandle {C : FileHandle → Prop} {k : UInt32 → Int → SftpM (ω × Log) Unit}
    (hs : Balanced s)
    (hC : ∀ handle id rest e, s.iqueue = putU32 id ++ (putString handle ++ rest) →
      refersTo os.watched s handle .dir = true →
      s.handleAt (handleNumber os.watched s handle) = some e → C e)
    (hk : ∀ id i s', Balanced s' →
      (∀ e, s'.handleAt i = some e → s'.handleIsOk i .dir = true → C e) →
      wp (k id i) (fun _ => Balanced) (fun _ => Balanced) s') :
    wp (getInt >>= fun id => getHandle os.watched >>= fun i => k id i) (fun _ => Balanced)
      (fun _ => Balanced) s := by
  have hw := owes_walk os 0
  rw [wp_bind]
  refine wp_and_mono (hw.reads .int s hs) (getInt_takes s) fun id s1 h1 => ?_
  obtain ⟨hs1, rest1, hid, rfl⟩ := h1
  rw [wp_bind]
  refine wp_and_mono (hw.getHandle _ hs1) (getHandle_takes os.watched _) fun i s2 h2 => ?_
  obtain ⟨hs2, handle, rest2, hhandle, rfl, hresolved⟩ := h2
  refine hk id i _ hs2 fun e hat hdir => ?_
  -- the table and the world are the same with any `iqueue`
  have hres : Resolved os.watched s handle i := ⟨hresolved.isOk, hresolved.number⟩
  have hrefers : refersTo os.watched s handle .dir = true := by
    rw [← hres.isOk .dir (by decide)]
    exact hdir
  refine hC handle id rest2 e ?_ hrefers ?_
  · rw [hid]
    exact congrArg _ hhandle
  · rw [← hres.number .dir hrefers]
    exact hat

theorem handleToDir_takes (i : Int) (s : SFTP ω) :
    wp (handleToDir i)
      (fun _ s' => s' = s ∧ s.handleIsOk i .dir = true) (fun _ s' => s' = s) s := by
  rw [handleToDir, handleTo, wp_read]
  cases s.handleAt i with
  | none => exact (wp_throw _).mpr rfl
  | some e =>
    rw [wp_ite, wp_pure, wp_throw]
    exact ⟨fun hok => ⟨rfl, hok⟩, fun _ => rfl⟩

theorem processClose_balanced (hs : Balanced s)
    (hidle : ∀ handle id rest e, s.iqueue = putU32 id ++ (putString handle ++ rest) →
      refersTo os.watched s handle .dir = true →
      s.handleAt (handleNumber os.watched s handle) = some e →
      e.searchDone = true ∨ e.searchHandle = invalidHandleValue) :
    wp (processClose os.watched) (fun _ => Balanced) (fun _ => Balanced) s := by
  have hw := owes_walk os 0
  rw [processClose]
  refine wp_readHandle hs hidle fun id i s1 hs1 hidle1 => ?_
  have hlog : Keeps (· = s1) (handleLogClose i) :=
    (handleToName_keeps i).bind fun _ => .pure _
  refine hlog.still_bind hs1 fun _ => ?_
  refine wp_seq_total (handleClose_balanced hs1
    fun e hat hdir => ongoing_eq_zero (hidle1 e hat hdir))
    fun ret s3 hs3 => ?_
  exact ((statusOf_keeps ret).bind fun status => hw.sendStatus id status) s3 hs3

theorem processReaddir_balanced (hs : Balanced s)
    (hgoing : ∀ handle id rest e, s.iqueue = putU32 id ++ (putString handle ++ rest) →
      refersTo os.watched s handle .dir = true →
      s.handleAt (handleNumber os.watched s handle) = some e → e.searchDone = false) :
    wp (processReaddir os.watched) (fun _ => Balanced) (fun _ => Balanced) s := by
  have hw := owes_walk os 0
  rw [processReaddir]
  refine wp_readHandle hs hgoing fun id i s1 hs1 hgoing1 => ?_
  refine (handleToName_keeps i).still_bind hs1 fun _ => ?_
  rw [wp_bind]
  refine wp_mono (handleToDir_takes i s1) (fun dh s2 h2 => ?_) fun _ s2 h2 => h2 ▸ hs1
  obtain ⟨rfl, hdir⟩ := h2
  refine (handleToPath_keeps i).still_bind hs1 fun dirPath => ?_
  refine (liftPath_keeps _).still_bind hs1 fun name => ?_
  rw [wp_ite]
  refine ⟨fun _ => hw.sendStatus id Fx.failure s2 hs1, fun _ => ?_⟩
  obtain ⟨e, hat⟩ := handleAt_of_isOk hdir
  have hdone := hgoing1 e hat hdir
  rw [wp_read, hat]
  simp only
  rw [hdone]
  exact readEntries_balanced id dirPath ⟨hs1, e, hat, isOk_use hat hdir, rfl, hdone⟩

/-! ### Whole requests -/

variable (os home) in
/-- A message is put into `iqueue` and processed. -/
def receive (msg : Bytes) : SftpM ω Unit := do
  modify fun s => { s with iqueue := putString msg }
  process os home

theorem dispatch_balanced {type : UInt8} {rest : Bytes} (hs : Balanced (s.withIqueue rest))
    (hmsg : Careful os.watched ([type] ++ rest) s) :
    wp (dispatch os.watched home type) (fun _ => Balanced) (fun _ => Balanced)
      (s.withIqueue rest) := by
  have hw := owes_walk os 0
  refine wp_cond (fun _ => hw.init _ hs) (wp_cond (fun _ => processOpen_balanced _ hs) ?_)
  refine wp_cond (fun htype => processClose_balanced hs fun handle id rest' e hrest => ?_)
    (wp_cond (fun _ => hw.processRead _ hs) ?_)
  · refine hmsg.close handle id rest' e ?_
    rw [htype, show rest = _ from hrest]
    rfl
  refine wp_cond (fun _ => hw.processWrite _ hs) (wp_cond (fun _ => hw.processDoStat home _ hs) ?_)
  refine wp_cond (fun _ => hw.processFstat _ hs) (wp_cond (fun _ => hw.processSetstat home _ hs) ?_)
  refine wp_cond (fun _ => hw.processFsetstat _ hs)
    (wp_cond (fun _ => processOpendir_balanced _ hs) ?_)
  refine wp_cond (fun htype => processReaddir_balanced hs fun handle id rest' e hrest => ?_)
    (wp_cond (fun _ => hw.removeWith home .deleteFile _ hs) ?_)
  · refine hmsg.readdir handle id rest' e ?_
    rw [htype, show rest = _ from hrest]
    rfl
  refine wp_cond (fun _ => hw.processMkdir home _ hs)
    (wp_cond (fun _ => hw.removeWith home .removeDirectory _ hs) ?_)
  refine wp_cond
    (fun _ => hw.processRealpath home (sendMsg_keeps fun _ _ hs => hs.congr rfl rfl rfl)
    _ hs) (wp_cond (fun _ => hw.processDoStat home _ hs) ?_)
  refine wp_cond (fun _ => hw.processRename home _ hs) (wp_cond (fun _ => hw.unsupported _ hs) ?_)
  refine wp_cond (fun _ => hw.processSymlink _ hs) (wp_cond (fun _ => hw.unsupported _ hs) ?_)
  exact Keeps.pure () _ hs

theorem discardRest_balanced (msgLen : UInt32) :
    Keeps (Balanced (ω := ω)) (discardRest msgLen) := by
  refine Keeps.get.bind fun _ => .ite (.throw _) (.ite (.throw _) ?_)
  refine .ite (.bind ?_ fun _ => .pure _) (.pure _)
  exact onIqueue_keeps (fun _ _ hs => hs.congr rfl rfl rfl) _

/-- **One request** that is made with care keeps the balance. -/
theorem receive_balanced {msg : Bytes} (hs : Balanced s) (hmsg : Careful os.watched msg s) :
    wp (receive os.watched home msg) (fun _ => Balanced) (fun _ => Balanced) s := by
  have hw := owes_walk os 0
  have hs1 : Balanced (s.withIqueue msg) := hs.congr rfl rfl rfl
  rw [receive, wp_update]
  show wp (process os.watched home) _ _ (s.withIqueue (putString msg))
  rw [process, wp_bind, putString, wp_getInt, wp_bind]
  refine wp_and_mono (hw.reads (.bind (.getOr _ 1) fun _ => .pure _) _ hs1)
    (getType_takes (s.withIqueue msg)) fun type s2 h2 => ?_
  obtain ⟨hs2, rest, hrest, rfl⟩ := h2
  rw [show msg = _ from hrest] at hmsg
  refine wp_seq (dispatch_balanced hs2 ⟨hmsg.close, hmsg.readdir⟩) fun _ s3 hs3 => ?_
  exact discardRest_balanced _ s3 hs3

end Requests

/-! ### Runs -/

/-- The books as they should be -/
structure Accounted (s : SFTP (ω × Log)) : Prop where
  /-- `CloseHandle` and `FindClose` are called only with what is open. -/
  lawful : Lawful s.world.2
  /-- What was opened was closed once, or is owned once by a handle that the client has open. -/
  once : ∀ r, s.world.2.count (.acquire r) = s.world.2.count (.release r) +
    (owners s.handles).count r

theorem Owes.accounted {s : SFTP (ω × Log)} (hs : Balanced s) : Accounted s where
  lawful := hs.lawful
  once r := by rw [hs.lawful.count r, hs.balance, zero_add]

/-- `~SFTP`: the members go, and the system is not called. -/
def SFTP.destroy (s : SFTP ω) : SFTP ω :=
  { s with iqueue := [], handles := [], unusedHandles := [] }

/-- The client has closed all that it has opened. -/
def SFTP.AllClosed (s : SFTP ω) : Prop := ∀ e ∈ s.handles, e.use = .unused

theorem owners_allClosed (h : ∀ e ∈ es, e.use = .unused) : owners es = 0 := by
  induction es with
  | nil => rfl
  | cons e es ih =>
    have he : e.owns = 0 := by rw [owns, h e mem_cons_self]
    have hes := ih fun e he => h e (mem_cons_of_mem _ he)
    rw [owners] at hes
    rw [owners, map_cons, sum_cons, he, hes, add_zero]

/-- The server when it starts -/
def freshServer (version : Int32) (w : ω) : SFTP (ω × Log) :=
  { version := version, world := (w, []) }

/-- **The handles of the system are accounted for** in every sequence of requests that are made with
care, also when one of them throws, and after the destruction of the server if the client has closed
all that it has opened. -/
theorem handles_accounted (os : Win32 ω) (home : SFTPFilePath) (version : Int32) (w : ω)
    (msgs : List Bytes)
    (hmsgs : Meets (receive os.watched home) (Careful os.watched) msgs (freshServer version w)) :
    wp (runAll (receive os.watched home) msgs)
      (fun _ s => Accounted s ∧ (s.AllClosed → Accounted s.destroy))
      (fun _ s => Accounted s ∧ (s.AllClosed → Accounted s.destroy)) (freshServer version w) := by
  have hends : ∀ s : SFTP (ω × Log), Balanced s →
      Accounted s ∧ (s.AllClosed → Accounted s.destroy) := by
    intro s hs
    refine ⟨hs.accounted, fun hclosed => ⟨hs.lawful, fun r => ?_⟩⟩
    rw [show s.destroy.world = s.world from rfl, hs.accounted.once r, owners_allClosed hclosed]
    rfl
  have hstart : Balanced (freshServer version w) := by
    refine ⟨⟨nodup_nil, fun i => ?_⟩, trivial, rfl⟩
    simp [freshServer, SFTP.Closed]
  have hrun := Meets.runAll (fun msg s hs hmsg => receive_balanced hs hmsg) hmsgs hstart
  exact wp_mono hrun (fun _ s hs => hends s hs) fun _ s hs => hends s hs

/-- A system with a directory of two files, and the one that is still to be found -/
def shelf : Win32 (Unit × Option FindData) :=
  { (brokenSystem 18).beside (Option FindData) with
    createFile := fun _ _ _ _ w => (⟨8, 0⟩, w)
    closeHandle := fun _ w => (⟨true, 0⟩, w)
    findFirstFile := fun _ w => (⟨12, 0⟩, w)
    findNextFile := fun _ w => (⟨w.2, 18⟩, (w.1, none))
    findClose := fun _ w => (⟨true, 0⟩, w) }

def openFile : Bytes := (Request.open' (ascii "a") 1 ⟨{}, []⟩).message 1 []

def closeFile : Bytes := (Request.close (ascii "0")).message 2 []

theorem openFile_careful (s : SFTP ω) (os : Win32 ω) : Careful os openFile s where
  close _ _ _ _ h := absurd (show Fxp.open' = Fxp.close from (List.cons.inj h).1) (by decide)
  readdir _ _ _ _ h := absurd (show Fxp.open' = Fxp.readdir from (cons.inj h).1) (by decide)

/-- There is no directory to be closed. -/
theorem closeFile_careful {s : SFTP ω} (os : Win32 ω)
    (hfiles : s.handles.map use = [.file]) : Careful os closeFile s where
  close handle _ _ e _ hrefers hat := by
    rw [refersTo, Bool.and_eq_true] at hrefers
    have hmem : e.use ∈ s.handles.map use := mem_map_of_mem (mem_of_getElem? hat)
    rw [isOk_use hat hrefers.2, hfiles] at hmem
    exact absurd hmem (by decide)
  readdir _ _ _ _ h := absurd (show Fxp.close = Fxp.readdir from (cons.inj h).1) (by decide)

theorem handles_accounted_file :
    wp (runAll (receive shelf.watched someHome) [openFile, closeFile])
      (fun _ s => Accounted s ∧ (s.AllClosed → Accounted s.destroy))
      (fun _ s => Accounted s ∧ (s.AllClosed → Accounted s.destroy))
      (freshServer 3 ((), none)) := by
  refine handles_accounted shelf someHome 3 ((), none) [openFile, closeFile] ?_
  have hfiles : (endState (receive shelf.watched someHome openFile)
      (freshServer 3 ((), none))).handles.map use = [.file] := by decide +kernel
  refine ⟨openFile_careful _ _, ?_⟩
  rw [endState] at hfiles
  cases hrun : receive shelf.watched someHome openFile (freshServer 3 ((), none)) with
  | error e s => trivial
  | ok a s =>
    rw [hrun] at hfiles
    refine ⟨closeFile_careful _ hfiles, ?_⟩
    split
    · trivial
    · trivial

def openDirectory : Bytes := (Request.opendir (ascii "a")).message 1 []

def readDirectory : Bytes := (Request.readdir (ascii "0")).message 2 []

/-- What was opened and closed with these requests -/
def logOf (msgs : List Bytes) : Log :=
  (endState (runAll (receive shelf.watched someHome) msgs)
    (freshServer 3 ((), some readme))).world.2

/-- When a listing is read to its end, 0 is closed, which was never opened. A file that the client
has not closed stays open when the server is destroyed. -/
theorem zero_closed :
    logOf [openDirectory, readDirectory, readDirectory] =
        [.release (.search 0), .release (.search 12), .acquire (.search 12), .acquire (.file 8)] ∧
      ¬Lawful (logOf [openDirectory, readDirectory, readDirectory]) ∧
      logOf [openFile] = [.acquire (.file 8)] := by
  decide +kernel

end Shiesh.Sftp
