import Mathlib.Logic.Function.Basic
import Shiesh.Sftp.Statuses

/-!
# Renaming

`process_rename` has three ways to rename: a new link to the file and the deletion of the old one
(with the deletion of the new one, when the old one stays), a move after a look at the new name
when there can be no link, and the same move for what is not an ordinary file. Each call on the way
may fail. The reply says which of two things has happened: all or nothing.
-/

namespace Shiesh.Sftp

open Shiesh.Lib Shiesh.Channels Function

variable {ω κ ι : Type} [DecidableEq κ] {os : Win32 ω}

/-! ## §1 Names and files -/

/-- The files of a system by name. Names that are only written differently have the same key. Each
call works or fails, and one that fails leaves the files alone and a last error behind.

Only `GetFileAttributes` is asked whether there is a file, and it may fail although there is one. -/
structure FileTable (os : Win32 ω) (κ ι : Type) [DecidableEq κ] where
  key : WString → κ
  file : ω → κ → Option ι
  getFileAttributes (name : WString) (w : ω) : file (os.getFileAttributes name w).2 = file w
  createHardLink (newName oldName : WString) (w : ω) :
    if (os.createHardLink newName oldName w).1.value then
      file w (key newName) = none ∧ file w (key oldName) ≠ none ∧
        file (os.createHardLink newName oldName w).2 =
          Function.update (file w) (key newName) (file w (key oldName))
    else file (os.createHardLink newName oldName w).2 = file w
  moveFileEx (oldName newName : WString) (w : ω) :
    if (os.moveFileEx oldName newName w).1.value then
      file w (key newName) = none ∧ file w (key oldName) ≠ none ∧
        file (os.moveFileEx oldName newName w).2 (key newName) = file w (key oldName) ∧
        file (os.moveFileEx oldName newName w).2 (key oldName) = none
    else file (os.moveFileEx oldName newName w).2 = file w
  deleteFile (name : WString) (w : ω) : file (os.deleteFile name w).2 =
    if (os.deleteFile name w).1.value then Function.update (file w) (key name) none else file w
  -- a link that has just been made can be deleted
  deleteFile_link (newName oldName : WString) (w : ω) :
    let linked := os.createHardLink newName oldName w
    let deleted := os.deleteFile oldName linked.2
    linked.1.value = true → deleted.1.value = false →
      (os.deleteFile newName deleted.2).1.value = true
  getFileAttributes_error (name : WString) (w : ω) :
    (os.getFileAttributes name w).1.value = invalidFileAttributes →
      (os.getFileAttributes name w).1.lastError ≠ 0
  moveFileEx_error (oldName newName : WString) (w : ω) :
    (os.moveFileEx oldName newName w).1.value = false →
      (os.moveFileEx oldName newName w).1.lastError ≠ 0
  deleteFile_error (name : WString) (w : ω) :
    (os.deleteFile name w).1.value = false → (os.deleteFile name w).1.lastError ≠ 0

/-- What a renaming may come to, by its status -/
structure RenameSafe (T : FileTable os κ ι) (oldName newName : WString) (w : ω) (status : UInt32)
    (w' : ω) : Prop where
  done : status = Fx.ok → T.file w (T.key oldName) ≠ none ∧
    T.file w' (T.key newName) = T.file w (T.key oldName) ∧ T.file w' (T.key oldName) = none
  nothing : status ≠ Fx.ok → T.file w' (T.key oldName) = T.file w (T.key oldName) ∧
    T.file w' (T.key newName) = T.file w (T.key newName)
  -- whatever the status is
  target : T.file w (T.key newName) ≠ none →
    T.file w' (T.key newName) = T.file w (T.key newName)

/-! ## §2 Calls -/

section Calls

variable (os : Win32 ω) (oldName newName : WString)

def moveCalls (w : ω) : UInt32 × ω :=
  let r := os.moveFileEx oldName newName w
  if r.1.value then (Fx.ok, r.2) else (errnoToPortable r.1.lastError, r.2)

def moveToNewCalls (w : ω) : UInt32 × ω :=
  let r := os.getFileAttributes newName w
  if r.1.value = invalidFileAttributes then moveCalls os oldName newName r.2 else (Fx.failure, r.2)

/-- The old name is deleted, or else the new one. -/
def unlinkCalls (w : ω) : UInt32 × ω :=
  let r := os.deleteFile oldName w
  if r.1.value then (Fx.ok, r.2)
  else (errnoToPortable r.1.lastError, (os.deleteFile newName r.2).2)

def linkCalls (w : ω) : UInt32 × ω :=
  let r := os.createHardLink newName oldName w
  if r.1.value then unlinkCalls os oldName newName r.2 else moveToNewCalls os oldName newName r.2

/-- `renameStatus` as a function of the system -/
def renameCalls (w : ω) : UInt32 × ω :=
  let r := os.getFileAttributes oldName w
  if r.1.value = invalidFileAttributes then (errnoToPortable r.1.lastError, r.2)
  else if hasFlag r.1.value FileAttribute.normal then linkCalls os oldName newName r.2
  else moveToNewCalls os oldName newName r.2

theorem moveToNew_runs : Runs (moveToNew os oldName newName) (moveToNewCalls os oldName newName) :=
  (Runs.call _).bind fun _ => .ite (fun _ => .last _) fun _ => .pure _

theorem unlink_runs : Runs (do
      if !(← call (os.deleteFile oldName)) then do
        let status ← lastStatus
        let _ ← call (os.deleteFile newName)
        pure status
      else
        pure Fx.ok)
    (unlinkCalls os oldName newName) := by
  refine .call_bind fun s => ?_
  simp only [unlinkCalls]
  cases (os.deleteFile oldName s.world).1.value with
  | true => exact ⟨_, rfl⟩
  | false => exact ⟨_, rfl⟩

theorem renameStatus_runs :
    Runs (renameStatus os oldName newName) (renameCalls os oldName newName) := by
  refine Runs.call_bind fun s => ?_
  simp only [renameCalls]
  split
  · exact ⟨_, rfl⟩
  · split
    · refine Runs.call_bind (fun s => ?_) (s.after (os.getFileAttributes oldName s.world))
      simp only [linkCalls]
      cases (os.createHardLink newName oldName s.world).1.value with
      | true => exact unlink_runs os oldName newName (s.after _)
      | false => exact moveToNew_runs os oldName newName (s.after _)
    · exact moveToNew_runs os oldName newName (s.after (os.getFileAttributes oldName s.world))

end Calls

/-! ## §3 All or nothing -/

section Safe

variable (T : FileTable os κ ι) (oldName newName : WString) (w : ω)

/-- Nothing has happened, and the status says so. -/
theorem RenameSafe.unchanged {T : FileTable os κ ι} {oldName newName : WString} {w w' : ω}
    {status : UInt32} (hstatus : status ≠ Fx.ok) (hfile : T.file w' = T.file w) :
    RenameSafe T oldName newName w status w' where
  done hok := absurd hok hstatus
  nothing _ := by rw [hfile]; exact ⟨rfl, rfl⟩
  target _ := by rw [hfile]

/-- All has happened: there was no file with the new name. -/
theorem RenameSafe.renamed {T : FileTable os κ ι} {oldName newName : WString} {w w' : ω}
    (hnew : T.file w (T.key newName) = none) (hold : T.file w (T.key oldName) ≠ none)
    (hnew' : T.file w' (T.key newName) = T.file w (T.key oldName))
    (hold' : T.file w' (T.key oldName) = none) : RenameSafe T oldName newName w Fx.ok w' where
  done _ := ⟨hold, hnew', hold'⟩
  nothing hne := absurd rfl hne
  target h := absurd hnew h

/-- A step that leaves the files alone may come first. -/
theorem RenameSafe.after {T : FileTable os κ ι} {oldName newName : WString} {w w1 w' : ω}
    {status : UInt32} (h : RenameSafe T oldName newName w1 status w')
    (hfile : T.file w1 = T.file w) :
    RenameSafe T oldName newName w status w' := by
  obtain ⟨hdone, hnothing, htarget⟩ := h
  rw [hfile] at hdone hnothing htarget
  exact ⟨hdone, hnothing, htarget⟩

theorem errnoToPortable_ne_ok {err : UInt32} (h : err ≠ 0) : errnoToPortable err ≠ Fx.ok := by
  rwa [ne_eq, errnoToPortable_eq_ok]

theorem moveCalls_safe : RenameSafe T oldName newName w (moveCalls os oldName newName w).1
    (moveCalls os oldName newName w).2 := by
  have hmove := T.moveFileEx oldName newName w
  simp only [moveCalls]
  cases hvalue : (os.moveFileEx oldName newName w).1.value with
  | true =>
    rw [hvalue, if_pos rfl] at hmove
    obtain ⟨hnew, hold, hnew', hold'⟩ := hmove
    exact .renamed hnew hold hnew' hold'
  | false =>
    rw [hvalue, if_neg (by decide)] at hmove
    exact .unchanged (errnoToPortable_ne_ok (T.moveFileEx_error _ _ _ hvalue)) hmove

theorem moveToNewCalls_safe : RenameSafe T oldName newName w (moveToNewCalls os oldName newName w).1
    (moveToNewCalls os oldName newName w).2 := by
  have hlook := T.getFileAttributes newName w
  simp only [moveToNewCalls]
  split
  · exact (moveCalls_safe T oldName newName _).after hlook
  · exact .unchanged (show Fx.failure ≠ Fx.ok by decide) hlook

/-- With a link: the old name goes, or the new one goes again. -/
theorem linkCalls_safe : RenameSafe T oldName newName w (linkCalls os oldName newName w).1
    (linkCalls os oldName newName w).2 := by
  have hlink := T.createHardLink newName oldName w
  simp only [linkCalls]
  cases hvalue : (os.createHardLink newName oldName w).1.value with
  | false =>
    rw [hvalue, if_neg (by decide)] at hlink
    exact (moveToNewCalls_safe T oldName newName _).after hlink
  | true =>
    rw [hvalue, if_pos rfl] at hlink
    obtain ⟨hnew, hold, hlinked⟩ := hlink
    -- the two names are not the same
    have hne : T.key newName ≠ T.key oldName := fun h => hold (by rw [← h, hnew])
    simp only [if_true, unlinkCalls]
    generalize hw1 : (os.createHardLink newName oldName w).2 = w1 at hlinked
    have hdelete := T.deleteFile oldName w1
    cases hdeleted : (os.deleteFile oldName w1).1.value with
    | true =>
      rw [hdeleted, if_pos rfl, hlinked] at hdelete
      refine .renamed hnew hold ?_ ?_
      · rw [if_pos rfl, hdelete, update_of_ne hne, update_self]
      · rw [if_pos rfl, hdelete, update_self]
    | false =>
      rw [hdeleted, if_neg (by decide), hlinked] at hdelete
      have hback := T.deleteFile newName (os.deleteFile oldName w1).2
      have hsucceeds : (os.deleteFile newName (os.deleteFile oldName w1).2).1.value = true := by
        have h := T.deleteFile_link newName oldName w hvalue
        rw [hw1] at h
        exact h hdeleted
      rw [hsucceeds, if_pos rfl, hdelete, update_idem] at hback
      refine .unchanged (errnoToPortable_ne_ok (T.deleteFile_error _ _ hdeleted)) ?_
      rw [if_neg (by decide), hback, ← hnew, update_eq_self]

theorem renameCalls_safe : RenameSafe T oldName newName w (renameCalls os oldName newName w).1
    (renameCalls os oldName newName w).2 := by
  have hlook := T.getFileAttributes oldName w
  simp only [renameCalls]
  split
  · exact .unchanged (errnoToPortable_ne_ok (T.getFileAttributes_error _ _ ‹_›)) hlook
  · split
    · exact (linkCalls_safe T oldName newName _).after hlook
    · exact (moveToNewCalls_safe T oldName newName _).after hlook

end Safe

section Request

variable {home oldPath newPath : SFTPFilePath} {oldName newName : Bytes}

/-- SSH2_FXP_RENAME from one path to another, both below the home directory: SSH2_FX_OK means that
the file has the new name, any other status that nothing has changed, and no file that was there is
replaced. Without room for the reply it is all or nothing too. -/
theorem rename_safe (T : FileTable os κ ι) (s : SFTP ω) (id : UInt32) (rest : Bytes)
    (holdLen : oldName.length ≤ 256 * 1024) (hnewLen : newName.length ≤ 256 * 1024)
    (hold : createPath true home (fromUTF8 os oldName) = .ok oldPath)
    (hnew : createPath true home (fromUTF8 os newName) = .ok newPath) :
    AnswersStatus (processRename os home) id
      (RenameSafe T oldPath.systemName newPath.systemName s.world)
      (fun w => ∃ status, RenameSafe T oldPath.systemName newPath.systemName s.world status w)
      (s.withIqueue (putU32 id ++ (putString oldName ++ (putString newName ++ rest)))) := by
  rw [processRename, answersStatus_bind getInt_ok rfl rfl,
    answersStatus_bind (getString_ok holdLen) rfl rfl,
    answersStatus_bind (getString_ok hnewLen) rfl rfl,
    answersStatus_bind (makePath_ok hold) rfl rfl,
    answersStatus_bind (makePath_ok hnew) rfl rfl, answersStatus_bind forCall_ok rfl rfl,
    answersStatus_bind forCall_ok rfl rfl]
  have hsafe := renameCalls_safe T oldPath.systemName newPath.systemName s.world
  obtain ⟨err, hcalls⟩ :=
    renameStatus_runs os oldPath.systemName newPath.systemName (s.withIqueue rest)
  rw [answersStatus_bind hcalls rfl rfl]
  exact answersStatus_concludes hsafe

end Request

/-! ### Files to look at -/

/-- A system with files by name. Every call works, if it can. -/
def folder : Win32 (Unit × (WString → Option Nat)) :=
  { (brokenSystem 5).beside (WString → Option Nat) with
    getFileAttributes := fun name w =>
      (if w.2 name = none then ⟨invalidFileAttributes, 2⟩ else ⟨FileAttribute.normal, 0⟩, w)
    createHardLink := fun newName oldName w =>
      if w.2 newName = none ∧ w.2 oldName ≠ none then
        (⟨true, 0⟩, (w.1, Function.update w.2 newName (w.2 oldName)))
      else (⟨false, 183⟩, w)
    moveFileEx := fun oldName newName w =>
      if w.2 newName = none ∧ w.2 oldName ≠ none then
        (⟨true, 0⟩, (w.1, Function.update (Function.update w.2 newName (w.2 oldName)) oldName none))
      else (⟨false, 183⟩, w)
    deleteFile := fun name w =>
      if w.2 name ≠ none then (⟨true, 0⟩, (w.1, Function.update w.2 name none))
      else (⟨false, 2⟩, w) }

def folderFiles : FileTable folder WString Nat where
  key name := name
  file w := w.2
  getFileAttributes _ _ := rfl
  createHardLink newName oldName w := by
    simp only [folder]
    split <;> simp_all
  moveFileEx oldName newName w := by
    simp only [folder]
    by_cases hfree : w.2 newName = none ∧ w.2 oldName ≠ none
    · have hne : newName ≠ oldName := fun h => hfree.2 (by rw [← h, hfree.1])
      simp [hfree, Function.update_of_ne hne]
    · simp [if_neg hfree]
  deleteFile name w := by
    simp only [folder]
    split <;> rfl
  deleteFile_link newName oldName w := by
    simp only [folder]
    by_cases hfree : w.2 newName = none ∧ w.2 oldName ≠ none
    · -- here the old name can always be deleted
      have hne : oldName ≠ newName := fun h => hfree.2 (by rw [h, hfree.1])
      simp [hfree, Function.update_of_ne hne]
    · simp [if_neg hfree]
  getFileAttributes_error name w := by
    simp only [folder]
    split
    · exact fun _ => by decide
    · exact fun h => absurd h (by decide)
  moveFileEx_error _ _ w := by
    simp only [folder]
    split <;> simp
  deleteFile_error name w := by
    simp only [folder]
    split <;> simp

/-- `a` is a file, and nothing else is. -/
def onlyA : SFTP (Unit × (WString → Option Nat)) where
  version := 3
  world := ((), Function.update (fun _ => none)
    (longPrefix ++ wstr ['c', ':', '\\', 'h', 'o', 'm', 'e', '\\', 'a']) (some 1))

/-- `a` is renamed to `b`. -/
theorem rename_safe_to_free : ∃ oldPath newPath : SFTPFilePath,
    createPath true someHome (fromUTF8 folder (ascii "a")) = .ok oldPath ∧
    createPath true someHome (fromUTF8 folder (ascii "b")) = .ok newPath ∧
    AnswersStatus (processRename folder someHome) 7
      (RenameSafe folderFiles oldPath.systemName newPath.systemName onlyA.world)
      (fun w => ∃ status,
        RenameSafe folderFiles oldPath.systemName newPath.systemName onlyA.world status w)
      (onlyA.withIqueue (putU32 7 ++ (putString (ascii "a") ++ (putString (ascii "b") ++ [])))) :=
  ⟨_, _, rfl, rfl, rename_safe folderFiles onlyA 7 [] (by decide) (by decide) rfl rfl⟩

end Shiesh.Sftp
