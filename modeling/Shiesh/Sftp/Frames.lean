import Shiesh.Sftp.Server

/-!
# What Parts of a Handler Leave Alone

A handler reads from `iqueue`, calls the system, looks into the table of handles and sends a reply.
Which of these can change something depends on what it is:

- what is about the two queues only is `Framed`: it does not matter what the system does;
- what is about the handles that are open is `Quiet`: only the calls that open or close something
  can change it.
-/

namespace Shiesh.Sftp

open Shiesh.Lib Shiesh.Channels

variable {ω α : Type} {I : SFTP ω → Prop} {E : SFTP ω → Prop}

/-! ## §1 Programs that change nothing -/

theorem catching_keeps {m : SftpM ω α} (hm : Keeps I m) (failed : α) :
    Keeps I (catching failed m) E := by
  intro s hs
  rw [catching, wp_tryCatch]
  refine wp_mono (hm s hs) (fun _ _ hs' => hs') fun _ s' hs' => ?_
  rw [wp_pure]
  exact hs'

theorem liftPath_keeps (x : Except PathError α) : Keeps I (liftPath x) := by
  cases x with
  | ok a => exact .pure a
  | error e => exact .throw _

theorem whenValid_keeps {fh : WinHandle} {m : SftpM ω UInt32} (hm : Keeps I m E) :
    Keeps I (whenValid fh m) E :=
  .ite hm (.pure _)

theorem getLastError_keeps : Keeps I getLastError E := Keeps.get.bind fun _ => .pure _

theorem lastStatus_keeps : Keeps I lastStatus E := getLastError_keeps.bind fun _ => .pure _

theorem statusOf_keeps (res : Bool) : Keeps I (statusOf res) E :=
  .ite (.pure _) lastStatus_keeps

theorem uninitialized_keeps (os : Win32 ω) : Keeps I (uninitialized os) E :=
  Keeps.get.bind fun _ => .pure _

theorem handleToPath_keeps (handle : Int) : Keeps I (handleToPath handle) := by
  refine Keeps.get.bind fun s => ?_
  cases s.handleAt handle with
  | none => exact .throw _
  | some h => exact .ite (.pure _) (.throw _)

theorem handleToName_keeps (handle : Int) : Keeps I (handleToName handle) :=
  (handleToPath_keeps handle).bind fun _ => liftPath_keeps _

theorem handleTo_keeps (use : HandleUse) (field : FileHandle → WinHandle) (handle : Int) :
    Keeps I (handleTo use field handle) := by
  refine Keeps.get.bind fun s => ?_
  cases s.handleAt handle with
  | none => exact .throw _
  | some h => exact .ite (.pure _) (.throw _)

theorem handleFromString_keeps (os : Win32 ω) (handle : Bytes) :
    Keeps I (handleFromString os handle) := by
  refine .ite (.pure _) ((uninitialized_keeps os).bind fun _ => Keeps.get.bind fun s => ?_)
  exact .ite (.pure _) (.throw _)

theorem makePath_keeps (os : Win32 ω) (home : SFTPFilePath) (name : Bytes) :
    Keeps I (makePath os home name) :=
  liftPath_keeps _

theorem forCall_keeps (path : SFTPFilePath) : Keeps I (forCall path) := liftPath_keeps _

/-! ## §2 Calls that open and close nothing -/

/-- The calls of the system other than those that open or close something -/
inductive Plain (os : Win32 ω) : {α : Type} → Api ω α → Prop where
  | setFilePointer (h : WinHandle) (offset : UInt64) : Plain os (os.setFilePointer h offset)
  | readFile (h : WinHandle) (len : UInt32) : Plain os (os.readFile h len)
  | writeFile (h : WinHandle) (data : Bytes) : Plain os (os.writeFile h data)
  | setEndOfFile (h : WinHandle) : Plain os (os.setEndOfFile h)
  | getFileAttributesEx (name : WString) : Plain os (os.getFileAttributesEx name)
  | getFileInformationByHandle (h : WinHandle) : Plain os (os.getFileInformationByHandle h)
  | setFileInformationByHandle (h : WinHandle) (info : BasicInfo) :
      Plain os (os.setFileInformationByHandle h info)
  | getFileAttributes (name : WString) : Plain os (os.getFileAttributes name)
  | setFileAttributes (name : WString) (attributes : UInt32) :
      Plain os (os.setFileAttributes name attributes)
  | findNextFile (h : WinHandle) : Plain os (os.findNextFile h)
  | deleteFile (name : WString) : Plain os (os.deleteFile name)
  | createDirectory (name : WString) : Plain os (os.createDirectory name)
  | removeDirectory (name : WString) : Plain os (os.removeDirectory name)
  | createHardLink (newName oldName : WString) : Plain os (os.createHardLink newName oldName)
  | moveFileEx (oldName newName : WString) : Plain os (os.moveFileEx oldName newName)
  | systemTime : Plain os os.systemTime

/-- The state behind a call -/
def SFTP.after (s : SFTP ω) (r : Outcome α × ω) : SFTP ω :=
  { s with lastError := r.1.lastError, world := r.2 }

theorem wp_call {f : Api ω α} {s : SFTP ω} {Q : α → SFTP ω → Prop} {E : SftpError → SFTP ω → Prop} :
    wp (call f) Q E s ↔ Q (f s.world).1.value (s.after (f s.world)) := by
  rw [call, wp_read, wp_write, wp_pure]
  rfl

/-- The same entry, with other numbers of bytes read and written -/
def FileHandle.SameButCounts (e e' : FileHandle) : Prop :=
  e' = { e with bytesRead := e'.bytesRead, bytesWrite := e'.bytesWrite }

theorem FileHandle.sameButCounts (e : FileHandle) (r w : UInt64) :
    e.SameButCounts { e with bytesRead := r, bytesWrite := w } := rfl

/-- What holds still when nothing is opened or closed, and the entries of the table stay what they
are but for the numbers of bytes. -/
structure Quiet (os : Win32 ω) (I : SFTP ω → Prop) : Prop where
  after {α : Type} {f : Api ω α} (hf : Plain os f) (s : SFTP ω) (hs : I s) :
    I (s.after (f s.world))
  counts {f : FileHandle → FileHandle} (hf : ∀ e : FileHandle, e.SameButCounts (f e)) (i : Nat)
    (s : SFTP ω)
    (hs : I s) : I { s with handles := s.handles.modify i f }

section Quiet

variable {os : Win32 ω} (hI : Quiet os I) (fh : WinHandle) (oldName newName : WString)

include hI

theorem Quiet.call {f : Api ω α} (hf : Plain os f) : Keeps I (call f) E := fun s hs => by
  rw [wp_call]
  exact hI.after hf s hs

theorem handleUpdateRead_keeps (i : Int) (n : Nat) : Keeps I (handleUpdateRead i n) E := by
  refine Keeps.get.bind fun _ => .ite ?_ (.pure _)
  exact .modify fun s hs => hI.counts (fun e => e.sameButCounts _ _) i.toNat s hs

theorem handleUpdateWrite_keeps (i : Int) (n : Nat) : Keeps I (handleUpdateWrite i n) E := by
  refine Keeps.get.bind fun _ => .ite ?_ (.pure _)
  exact .modify fun s hs => hI.counts (fun e => e.sameButCounts _ _) i.toNat s hs

theorem writeAt_keeps (handle : Int) (fh : WinHandle) (off : UInt64) (data : Bytes) :
    Keeps I (writeAt os handle fh off data) E := by
  refine (hI.call (.setFilePointer fh off)).bind fun _ => .ite lastStatus_keeps ?_
  refine (hI.call (.writeFile fh data)).bind fun written => ?_
  cases written with
  | none => exact getLastError_keeps.bind fun _ => .ite lastStatus_keeps (.pure _)
  | some n =>
    refine .ite ?_ (.pure _)
    exact (handleUpdateWrite_keeps hI handle _).bind fun _ => .pure _

theorem setSize_keeps (a : Attrib) (status : UInt32) :
    Keeps I (setSize os fh a status) E := by
  refine .ite ?_ (.pure _)
  refine (hI.call (.setFilePointer fh a.size)).bind fun _ => .ite lastStatus_keeps ?_
  exact (hI.call (.setEndOfFile fh)).bind fun _ => .ite lastStatus_keeps (.pure _)

theorem setBasicInfo_keeps (a : Attrib) : Keeps I (setBasicInfo os fh a) E := by
  refine (hI.call (.getFileInformationByHandle fh)).bind fun before => ?_
  cases before with
  | none => exact lastStatus_keeps
  | some info =>
    refine (hI.call .systemTime).bind fun now => ?_
    exact (hI.call (.setFileInformationByHandle fh _)).bind fun _ => statusOf_keeps _

theorem setAttrib_keeps (a : Attrib) : Keeps I (setAttrib os fh a) E := by
  refine (setSize_keeps hI fh a _).bind fun _ => ?_
  exact .ite (setBasicInfo_keeps hI fh a) (.pure _)

theorem findFiles_keeps (search : WinHandle) (n : Nat) : Keeps I (findFiles os search n) E := by
  induction n with
  | zero => exact .pure _
  | succ n ih =>
    refine (hI.call (.findNextFile search)).bind fun found => ?_
    cases found with
    | none => exact .pure _
    | some st => exact ih.bind fun _ => .pure _

theorem move_keeps : Keeps I (move os oldName newName) E :=
  (hI.call (.moveFileEx oldName newName)).bind fun _ => statusOf_keeps _

theorem moveToNew_keeps : Keeps I (moveToNew os oldName newName) E := by
  refine (hI.call (.getFileAttributes newName)).bind fun _ => ?_
  exact .ite (move_keeps hI oldName newName) (.pure _)

theorem renameStatus_keeps :
    Keeps I (renameStatus os oldName newName) E := by
  refine (hI.call (.getFileAttributes oldName)).bind fun _ => ?_
  refine .ite lastStatus_keeps (.ite ?_ (moveToNew_keeps hI oldName newName))
  refine (hI.call (.createHardLink newName oldName)).bind fun _ => ?_
  refine .ite (moveToNew_keeps hI oldName newName) ?_
  refine (hI.call (.deleteFile oldName)).bind fun _ => .ite ?_ (.pure _)
  exact lastStatus_keeps.bind fun _ => (hI.call (.deleteFile newName)).bind fun _ => .pure _

theorem createDirectories_keeps (path : SFTPFilePath) (ks : List Nat) :
    Keeps I (createDirectories os path ks) := by
  induction ks with
  | nil => exact .pure _
  | cons k ks ih =>
    refine (liftPath_keeps _).bind fun p => (forCall_keeps p).bind fun name => ?_
    refine (hI.call (.getFileAttributesEx name)).bind fun found => ?_
    cases found with
    | some _ => exact ih
    | none =>
      refine (forCall_keeps p).bind fun name => (hI.call (.createDirectory name)).bind fun _ => ?_
      exact .ite (.pure _) ih

end Quiet

/-! ## §3 What depends on the queues only -/

/-- What depends on the two queues only. -/
def Framed (I : SFTP ω → Prop) : Prop :=
  ∀ s s', s'.iqueue = s.iqueue → s'.toChannel = s.toChannel → I s → I s'

theorem Framed.quiet (hI : Framed I) (os : Win32 ω) : Quiet os I where
  after _ s hs := hI s _ rfl rfl hs
  counts _ _ s hs := hI s _ rfl rfl hs

section Framed

variable (hI : Framed I) (os : Win32 ω)

include hI

theorem call_keeps (f : Api ω α) : Keeps I (call f) E := by
  intro s hs
  rw [wp_call]
  exact hI s _ rfl rfl hs

theorem modifyHandle_keeps (i : Int) (f : FileHandle → FileHandle) : Keeps I (modifyHandle i f) E :=
  .modify fun s hs => hI s _ rfl rfl hs

theorem handleUnused_keeps (i : Int) : Keeps I (handleUnused i) E :=
  (modifyHandle_keeps hI i _).bind fun _ => .modify fun s hs => hI s _ rfl rfl hs

theorem handleNew_keeps (use : HandleUse) (path : SFTPFilePath) (fh dirp : WinHandle) :
    Keeps I (handleNew use path fh dirp) E := by
  intro s hs
  rw [handleNew, wp_read, wp_ite]
  refine ⟨fun _ => (wp_pure _).mpr hs, fun _ => ?_⟩
  cases s.unusedHandles with
  | nil =>
    rw [wp_write, wp_pure]
    exact hI s _ rfl rfl hs
  | cons i rest =>
    rw [wp_write, wp_pure]
    exact hI s _ rfl rfl hs

theorem closeEntry_keeps (i : Int) (h : WinHandle) : Keeps I (closeEntry os i h) E :=
  (call_keeps hI _).bind fun _ => (handleUnused_keeps hI i).bind fun _ => .pure _

theorem handleClose_keeps (i : Int) : Keeps I (handleClose os i) E := by
  have hnone : Keeps I (do
      modify fun s : SFTP ω => { s with lastError := WinError.fileNotFound }
      pure false : SftpM ω Bool) E := by
    refine .bind ?_ fun _ => .pure _
    exact .modify fun s hs => hI s _ rfl rfl hs
  refine Keeps.get.bind fun s => ?_
  cases s.handleAt i with
  | none => exact hnone
  | some h =>
    exact .ite (closeEntry_keeps hI os i _) (.ite (closeEntry_keeps hI os i _) hnone)

theorem startSearch_keeps (handle : Int) (dirPath : SFTPFilePath) (search : WinHandle)
    (done : Bool) : Keeps I (startSearch os handle dirPath search done) := by
  refine .ite ?_ (.pure _)
  refine (liftPath_keeps _).bind fun _ => (call_keeps hI _).bind fun _ => ?_
  exact (modifyHandle_keeps hI handle _).bind fun _ => .pure _

theorem endSearch_keeps (handle : Int) (search : WinHandle) (done : Bool) :
    Keeps I (endSearch os handle search done) E := by
  refine .ite ?_ (.pure _)
  exact (call_keeps hI _).bind fun _ => modifyHandle_keeps hI handle _

end Framed

/-! ## §4 Reading and sending -/

theorem onIqueue_keeps (hI : ∀ s b, I s → I { s with iqueue := b }) (g : Get α) :
    Keeps I (onIqueue g) := by
  intro s hs
  rw [onIqueue, wp_zoomWith]
  exact wp_intro (fun _ b _ => hI s b hs) fun _ b _ => hI s b hs

theorem sendMsg_keeps (hI : ∀ s q, I s → I { s with toChannel := q }) (parts : List Bytes) :
    Keeps I (sendMsg parts) := by
  intro s hs
  rw [sendMsg]
  cases appendAll parts .init with
  | error e _ => exact (wp_throw _).mpr hs
  | ok _ b =>
    rw [wp_zoomWith]
    exact wp_intro (fun _ q _ => hI s q hs) fun _ q _ => hI s q hs

/-- What reads from a message leaves no more than there was. -/
def Shrinks (g : Get α) : Prop := ∀ n, Keeps (fun b => b.length ≤ n) g

namespace Shrinks

variable {β : Type}

theorem pure (a : α) : Shrinks (Pure.pure a) := fun _ => .pure a

theorem bind {g : Get α} {k : α → Get β} (hg : Shrinks g) (hk : ∀ a, Shrinks (k a)) :
    Shrinks (g >>= k) :=
  fun n => (hg n).bind fun a => hk a n

theorem ite {c : Prop} [Decidable c] {g k : Get α} (hg : Shrinks g) (hk : Shrinks k) :
    Shrinks (if c then g else k) :=
  fun n => .ite (hg n) (hk n)

theorem getOr (msg : String) (len : Nat) : Shrinks (bufferGetOr msg len) := by
  intro n b hb
  refine wp_mono (bufferGetOr_takes msg len b) (fun front rest h => ?_) fun _ b' h => h ▸ hb
  rw [h.2, List.length_append] at hb
  omega

theorem int : Shrinks bufferGetInt := (getOr _ 4).bind fun _ => pure _

theorem int64 : Shrinks bufferGetInt64 := (getOr _ 8).bind fun _ => pure _

theorem string : Shrinks bufferGetString :=
  int.bind fun _ => ite (fun _ => .throw _) (getOr _ _)

theorem getIf {g : Get α} (hg : Shrinks g) (present : Bool) (default : α) :
    Shrinks (getIf present default g) :=
  ite hg (pure default)

theorem extensions (count : Nat) : Shrinks (getExtensions count) := by
  induction count with
  | zero => exact pure ()
  | succ count ih => exact string.bind fun _ => string.bind fun _ => ih

theorem attrib : Shrinks decodeAttrib := by
  refine int.bind fun _ => (int64.getIf _ _).bind fun _ => ?_
  refine (int.getIf _ _).bind fun _ => (int.getIf _ _).bind fun _ => ?_
  refine (int.getIf _ _).bind fun _ => ?_
  refine (int.getIf _ _).bind fun _ => (int.getIf _ _).bind fun _ => ?_
  exact ite (int.bind fun _ => (extensions _).bind fun _ => pure _) (pure _)

end Shrinks

end Shiesh.Sftp
