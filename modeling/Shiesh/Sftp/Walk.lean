import Shiesh.Sftp.Replies

/-!
# A Walk Through the Handlers

What is kept by reading, by sending and by quiet calls is kept by every handler that does nothing
else. `Walk` says so of an invariant; the handlers that also open or close something are there for
what is `Framed`.

Some handlers send their reply inside of `try` and go on when this fails. They keep the invariant
only if it is kept also by what could not be sent.
-/

namespace Shiesh.Sftp

open Shiesh.Lib Shiesh.Channels

variable {ω α : Type} {os : Win32 ω} {I E : SFTP ω → Prop} {s : SFTP ω}

/-! ## §1 The walk -/

/-- The longest string that `buffer_get_string` takes -/
def maxString : Nat := 256 * 1024

/-- How much SSH2_FXP_READ reads at most -/
theorem min_toNat_le (len : UInt32) : (min len (64 * 1024)).toNat ≤ 65536 := by
  show (if len ≤ 64 * 1024 then len else 64 * 1024).toNat ≤ 65536
  split
  case isTrue hle => exact UInt32.le_iff_toNat_le.mp hle
  case isFalse => decide

/-- `I` holds on the way through a handler, and `E` when it is left by what is thrown. -/
structure Walk (os : Win32 ω) (I E : SFTP ω → Prop) : Prop extends Quiet os I where
  ends : ∀ s, I s → E s
  reads {α : Type} {g : Get α} (hg : Shrinks g) : Keeps I (onIqueue g)
  version (v : Int32) (s : SFTP ω) (hs : I s) : I { s with version := v }
  sends {parts : List Bytes} (hlen : parts.flatten.length ≤ maxString) : Keeps I (sendMsg parts) E

namespace Walk

variable (hw : Walk os I E) (id : UInt32)

include hw

theorem read {g : Get α} (hg : Shrinks g) : Keeps I (onIqueue g) E := (hw.reads hg).mono hw.ends

theorem getHandle : Keeps I (getHandle os) E := by
  refine (hw.read .string).bind fun _ => .ite ?_ (.pure _)
  exact (handleFromString_keeps os _).mono hw.ends

theorem makePath (home : SFTPFilePath) (name : Bytes) : Keeps I (makePath os home name) E :=
  (makePath_keeps os home name).mono hw.ends

theorem forCall (path : SFTPFilePath) : Keeps I (forCall path) E :=
  (forCall_keeps path).mono hw.ends

theorem handleToName (handle : Int) : Keeps I (handleToName handle) E :=
  (handleToName_keeps handle).mono hw.ends

theorem handleTo (use : HandleUse) (field : FileHandle → WinHandle) (handle : Int) :
    Keeps I (handleTo use field handle) E :=
  (handleTo_keeps use field handle).mono hw.ends

theorem throw (e : SftpError) : Keeps I (MonadExcept.throw e : SftpM ω α) E :=
  (Keeps.throw e).mono hw.ends

theorem sendStatus (id status : UInt32) : Keeps I (sendStatus id status) E :=
  Keeps.get.bind fun s =>
    hw.sends (le_trans (status_length_le s.version id status) (by decide))

theorem sendAttrib (a : Attrib) : Keeps I (sendAttrib id a) E :=
  hw.sends (le_trans (attrib_length_le id a) (by decide))

theorem sendHandle (handle : Int) : Keeps I (sendHandle id handle) E := by
  refine hw.sends ?_
  rw [dataOrHandle_length]
  exact le_trans (Nat.add_le_add_left (handleToString_length_le handle) 9) (by decide)

theorem replyAttrib {found : Api ω (Option FileInfo)} (hf : Plain os found) :
    Keeps I (replyAttrib id found) E := by
  refine (hw.call hf).bind fun info => ?_
  cases info with
  | none => exact lastStatus_keeps
  | some st => exact (hw.sendAttrib id (statToAttrib st)).bind fun _ => .pure _

/-- The status is sent unless the reply has been sent already. -/
theorem unlessOk (id status : UInt32) :
    Keeps I (if status ≠ Fx.ok then Sftp.sendStatus id status else pure ()) E :=
  .ite (hw.sendStatus id status) (.pure _)

/-! ## §2 Handlers that do not catch what is thrown -/

theorem init : Keeps I processInit E := by
  have hlen : [[Fxp.version], putU32 3].flatten.length ≤ maxString := by decide
  refine (hw.read .int).bind fun v => .bind ?_ fun _ => hw.sends hlen
  exact .modify (hw.version v.toInt32)

theorem readAt (handle : Int) (fh : WinHandle) (off : UInt64) {len : UInt32}
    (hlen : len.toNat ≤ 65536) : Keeps I (readAt os id handle fh off len) E := by
  refine (hw.call (.setFilePointer fh off)).bind fun _ => .ite ?_ ?_
  · exact getLastError_keeps.bind fun _ => .ite (.pure _) lastStatus_keeps
  · refine (hw.call (.readFile fh len)).bind fun data => ?_
    cases data with
    | none => exact lastStatus_keeps
    | some data =>
      have hfits : ([[Fxp.data], putU32 id] ++ stringParts data.1).flatten.length ≤ maxString := by
        rw [dataOrHandle_length]
        exact (Nat.add_le_add_left (data.2.trans hlen) 9).trans (by decide)
      refine .ite (.pure _) ((hw.sends hfits).bind fun _ => ?_)
      exact (handleUpdateRead_keeps hw.toQuiet handle _).bind fun _ => .pure _

theorem processRead : Keeps I (processRead os) E := by
  refine (hw.read .int).bind fun id => hw.getHandle.bind fun handle => ?_
  refine (hw.read .int64).bind fun off => (hw.read .int).bind fun len => ?_
  refine (hw.handleTo _ _ handle).bind fun fh => ?_
  refine (whenValid_keeps (hw.readAt id handle fh off (min_toNat_le len))).bind fun status => ?_
  exact hw.unlessOk id status

theorem processWrite : Keeps I (processWrite os) E := by
  refine (hw.read .int).bind fun id => hw.getHandle.bind fun handle => ?_
  refine (hw.read .int64).bind fun off => (hw.read .string).bind fun data => ?_
  refine (hw.handleTo _ _ handle).bind fun fh => ?_
  refine (whenValid_keeps (writeAt_keeps hw.toQuiet handle fh off data)).bind fun status => ?_
  exact hw.sendStatus id status

theorem processFstat : Keeps I (processFstat os) E := by
  refine (hw.read .int).bind fun id => hw.getHandle.bind fun handle => ?_
  refine (hw.handleToName handle).bind fun _ => (hw.handleTo _ _ handle).bind fun fh => ?_
  refine (whenValid_keeps (hw.replyAttrib id (.getFileInformationByHandle fh))).bind
    fun status => ?_
  exact hw.unlessOk id status

theorem setstatNamed (home : SFTPFilePath) (name : Bytes) :
    Keeps I (setstatNamed os home name) := by
  refine (hw.reads .attrib).bind fun a => (makePath_keeps os home name).bind fun path => ?_
  refine .ite (.pure _) (.ite ?_ (.pure _))
  refine (forCall_keeps path).bind fun w => ?_
  exact (hw.call (.setFileAttributes w _)).bind fun _ => statusOf_keeps _

theorem processSetstat (home : SFTPFilePath) : Keeps I (processSetstat os home) E := by
  have hread : ∀ {β : Type} {g : Get β} (hg : Shrinks g),
      Keeps I (catching none (do pure (some (← onIqueue g))) : SftpM ω (Option β)) E :=
    fun hg => catching_keeps ((hw.reads hg).bind fun _ => .pure _) none
  refine (hread .int).bind fun id => ?_
  cases id with
  | none =>
    refine (uninitialized_keeps os).bind fun id => ?_
    exact (hw.sendStatus id _).bind fun _ => hw.throw _
  | some id =>
    refine (hread .string).bind fun name => ?_
    cases name with
    | none => exact (hw.sendStatus id _).bind fun _ => hw.throw _
    | some name =>
      refine (catching_keeps (hw.setstatNamed home name) _).bind fun status => ?_
      exact hw.sendStatus id status

theorem processFsetstat : Keeps I (processFsetstat os) E := by
  refine (hw.read .int).bind fun id => hw.getHandle.bind fun handle => ?_
  refine (hw.read .attrib).bind fun a => (hw.handleTo _ _ handle).bind fun fh => ?_
  refine (whenValid_keeps (setAttrib_keeps hw.toQuiet fh a)).bind fun status => ?_
  exact hw.sendStatus id status

theorem removeWith (home : SFTPFilePath) {delete : WString → Api ω Bool}
    (hdelete : ∀ w, Plain os (delete w)) : Keeps I (removeWith os home delete) E := by
  refine (hw.read .int).bind fun id => (hw.read .string).bind fun name => ?_
  refine (hw.makePath home name).bind fun path => (hw.forCall path).bind fun w => ?_
  refine (hw.call (hdelete w)).bind fun res => (statusOf_keeps res).bind fun status => ?_
  exact hw.sendStatus id status

theorem processMkdir (home : SFTPFilePath) : Keeps I (processMkdir os home) E := by
  refine (hw.read .int).bind fun id => (hw.read .string).bind fun name => ?_
  refine (hw.read .attrib).bind fun _ => ?_
  refine (hw.makePath home name).bind fun path => (hw.forCall path).bind fun w => ?_
  refine (hw.call (.createDirectory w)).bind fun _ => getLastError_keeps.bind fun _ => ?_
  refine .ite ?_ (hw.sendStatus id _)
  refine ((createDirectories_keeps hw.toQuiet path _).mono hw.ends).bind fun res => ?_
  exact (statusOf_keeps res).bind fun status => hw.sendStatus id status

theorem processRename (home : SFTPFilePath) : Keeps I (processRename os home) E := by
  refine (hw.read .int).bind fun id => ?_
  refine (hw.read .string).bind fun oldName => (hw.read .string).bind fun newName => ?_
  refine (hw.makePath home oldName).bind fun oldPath => ?_
  refine (hw.makePath home newName).bind fun newPath => ?_
  refine (hw.forCall oldPath).bind fun old => (hw.forCall newPath).bind fun new => ?_
  exact (renameStatus_keeps hw.toQuiet old new).bind fun status => hw.sendStatus id status

theorem unsupported : Keeps I (do
    let id ← getInt
    let _ ← getString
    Sftp.sendStatus id Fx.opUnsupported) E :=
  (hw.read .int).bind fun id => (hw.read .string).bind fun _ => hw.sendStatus id _

theorem processSymlink : Keeps I processSymlink E := by
  refine (hw.read .int).bind fun id => ?_
  exact (hw.read .string).bind fun _ => (hw.read .string).bind fun _ => hw.sendStatus id _

end Walk

/-! ## §3 Handlers that catch what is thrown -/

section Guarded

variable (hw : Walk os I I) (home : SFTPFilePath)

include hw

theorem Walk.guarded {body : UInt32 → SftpM ω UInt32} (hbody : ∀ id, Keeps I (body id)) :
    Keeps I (guarded os body) := by
  refine (catching_keeps ((hw.reads .int).bind fun _ => .pure _) none).bind fun id => ?_
  cases id with
  | none => exact (uninitialized_keeps os).bind fun id => hw.sendStatus id _
  | some id => exact (catching_keeps (hbody id) _).bind fun status => hw.unlessOk id status

theorem Walk.processDoStat : Keeps I (processDoStat os home) := by
  refine hw.guarded fun id => (hw.reads .string).bind fun name => ?_
  refine (makePath_keeps os home name).bind fun path => (forCall_keeps path).bind fun w => ?_
  exact hw.replyAttrib id (.getFileAttributesEx w)

theorem Walk.processRealpath (hsends : ∀ parts, Keeps I (sendMsg parts)) :
    Keeps I (processRealpath os home) := by
  refine hw.guarded fun id => (hw.reads .string).bind fun name => ?_
  refine (makePath_keeps os home name).bind fun _ => (liftPath_keeps _).bind fun _ => ?_
  exact (hsends _).bind fun _ => .pure _

end Guarded

/-! ## §4 Handlers that open and close -/

section Framed

variable (hw : Walk os I E) (hI : Framed I) {search : WinHandle}

include hI in
theorem findFiles_short (n : Nat) (hs : I s) :
    wp (findFiles os search n)
      (fun found s' => I s' ∧ (found.1.flatMap Stat.parts).flatten.length ≤ 2100 * n)
      never s := by
  induction n generalizing s with
  | zero => exact (wp_pure _).mpr ⟨hs, Nat.le_refl 0⟩
  | succ n ih =>
    rw [findFiles, wp_bind, wp_call]
    have hs1 : I (s.after (os.findNextFile search s.world)) := hI s _ rfl rfl hs
    cases (os.findNextFile search s.world).1.value with
    | none => exact (wp_pure _).mpr ⟨hs1, Nat.zero_le _⟩
    | some st =>
      refine wp_seq_total (ih hs1) fun found s2 hfound => ?_
      have hst := statOf_length_le os st
      rw [wp_pure]
      refine ⟨hfound.1, ?_⟩
      have hrest := hfound.2
      rw [List.flatMap_cons, List.flatten_append, List.length_append]
      omega

include hI in
theorem continueSearch_short {i : Int} {done : Bool} (hs : I s) :
    wp (continueSearch os i search done)
      (fun found s' => I s' ∧ (found.1.flatMap Stat.parts).flatten.length ≤ 2100 * 100)
      never s := by
  rw [continueSearch, wp_ite]
  refine ⟨fun _ => ?_, fun _ => (wp_pure _).mpr ⟨hs, Nat.zero_le _⟩⟩
  refine wp_seq_total (findFiles_short hI 100 hs) fun found s1 hfound => ?_
  refine wp_seq_total (modifyHandle_keeps hI i _ s1 hfound.1) fun _ s2 hs2 => ?_
  rw [wp_pure]
  exact ⟨hs2, hfound.2⟩

include hw hI

theorem Walk.processClose : Keeps I (processClose os) E := by
  refine (hw.read .int).bind fun id => hw.getHandle.bind fun handle => .bind ?_ fun _ => ?_
  · exact (hw.handleToName handle).bind fun _ => .pure _
  · refine (handleClose_keeps hI os handle).bind fun ret => ?_
    exact (statusOf_keeps ret).bind fun status => hw.sendStatus id status

theorem Walk.readEntries (id : UInt32) (handle : Int) (dirPath : SFTPFilePath)
    (search : WinHandle) (done : Bool) :
    Keeps I (readEntries os id handle dirPath search done) E := by
  refine ((startSearch_keeps hI os _ _ _ _).mono hw.ends).bind fun search s hs => ?_
  refine wp_seq_total (continueSearch_short hI hs) fun found s1 hfound => ?_
  have hfits : ([[Fxp.name], putU32 id, putU32 (UInt32.ofNat found.1.length)] ++
      found.1.flatMap Stat.parts).flatten.length ≤ maxString := by
    rw [names_length]
    exact (Nat.add_le_add_left hfound.2 9).trans (by decide)
  refine ((endSearch_keeps hI os handle search found.2).bind fun _ => ?_) s1 hfound.1
  refine .ite (hw.sends hfits) ((modifyHandle_keeps hI handle _).bind fun _ => ?_)
  exact hw.sendStatus id Fx.eof

theorem Walk.processReaddir : Keeps I (processReaddir os) E := by
  refine (hw.read .int).bind fun id => hw.getHandle.bind fun handle => ?_
  refine (hw.handleToName handle).bind fun _ => (hw.handleTo _ _ handle).bind fun _ => ?_
  refine ((handleToPath_keeps handle).mono hw.ends).bind fun _ => ?_
  refine ((liftPath_keeps _).mono hw.ends).bind fun _ => ?_
  refine .ite (hw.sendStatus id _) (Keeps.get.bind fun s => ?_)
  cases s.handleAt handle with
  | none => exact hw.throw _
  | some h => exact hw.readEntries hI id handle _ _ _

end Framed

end Shiesh.Sftp
