import Shiesh.Sftp.Requests
import Shiesh.Sftp.Residue

/-!
# One Reply to a Request

Whether a request gets its reply depends on four things:

- a handle string must be the number of an open handle of the right kind: otherwise
  `NoSuchHandle` leaves `process`;
- the handlers of SSH2_FXP_REMOVE, MKDIR, RMDIR and RENAME do not catch what a bad path throws;
- a call that fails but leaves 0 for `GetLastError` counts as a success that has been answered;
- the reply to SSH2_FXP_REALPATH has the path twice: when it is longer than a chunk but each of
  the two is not, its length field gets into the queue and the reply does not.
-/

namespace Shiesh.Sftp

open Shiesh.Lib Shiesh.Channels List Path UInt32

variable {ω α : Type}

/-! ## §1 The condition -/

section Condition

variable (os : Win32 ω) (home : SFTPFilePath) (s : SFTP ω)

/-- The number that `handle_from_string` reads -/
def handleNumber (handle : Bytes) : Int :=
  (extractInt (cstr handle)).getD (os.uninitialized s.world).toInt32.toInt

/-- The string is the number of a handle of this kind. -/
def refersTo (handle : Bytes) (use : HandleUse) : Bool :=
  handle ≠ [] && handle.length < 256 && s.handleIsOk (handleNumber os s handle) use

/-- A member of an entry in the table -/
def SFTP.memberAt (field : FileHandle → WinHandle) (i : Int) : WinHandle :=
  ((s.handleAt i).map field).getD invalidHandleValue

/-- The system's handle of the file that the string stands for -/
def fileOf (handle : Bytes) : WinHandle :=
  s.memberAt FileHandle.fileHandle (handleNumber os s handle)

def validPath (name : Bytes) : Bool := (createPath true home (fromUTF8 os name)).isOk

/-- The call fails, and nevertheless the last error is 0. -/
def failsSilently (r : Outcome (Option α) × ω) : Bool := r.1.value.isNone && r.1.lastError = 0

def opensNothingSilently (r : Outcome WinHandle × ω) : Bool :=
  r.1.value = invalidHandleValue && r.1.lastError = 0

/-- A condition on the name that is given to the system, if the path is valid -/
def forName (name : Bytes) (c : WString → Bool) : Bool :=
  match createPath true home (fromUTF8 os name) with
  | .error _ => true
  | .ok path =>
    match path.getForCall true with
    | .error _ => true
    | .ok w => c w

/-- SSH2_FXP_NAME for `process_realpath` fits into a chunk, or cannot be made at all. -/
def realpathFits (name : Bytes) : Bool :=
  match createPath true home (fromUTF8 os name) with
  | .error _ => true
  | .ok path =>
    match path.unixForm true with
    | .error _ => true
    | .ok w => 2 * (toUTF8 os w).length + 21 ≤ bufferMaxChunk ||
        bufferMaxChunk < (toUTF8 os w).length

/-- When a request gets its reply. -/
def answered : Request → Bool
  | .open' name pflags _ => forName os home name fun w =>
      !opensNothingSilently (os.createFile w (flagsFromPortable pflags)
        (creationDisposition pflags) FileAttribute.normal s.world)
  | .opendir name => forName os home name fun w =>
      !opensNothingSilently (os.createFile w (genericRead ||| genericWrite) 3
        fileFlagBackupSemantics s.world)
  | .stat name | .lstat name => forName os home name fun w =>
      !failsSilently (os.getFileAttributesEx w s.world)
  | .close handle => refersTo os s handle .file || refersTo os s handle .dir
  | .write handle .. | .fsetstat handle _ => refersTo os s handle .file
  | .fstat handle => refersTo os s handle .file &&
      (fileOf os s handle = invalidHandleValue ||
        !failsSilently (os.getFileInformationByHandle (fileOf os s handle) s.world))
  | .read handle off len => refersTo os s handle .file &&
      (fileOf os s handle = invalidHandleValue ||
        (let r := os.setFilePointer (fileOf os s handle) off s.world
        !r.1.value || !failsSilently
          (os.readFile (fileOf os s handle) (min len (64 * 1024)) r.2)))
  | .readdir handle => refersTo os s handle .dir
  | .remove name | .rmdir name | .mkdir name _ => validPath os home name
  | .rename oldName newName => validPath os home oldName && validPath os home newName
  | .realpath name => realpathFits os home name
  | .setstat .. | .readlink _ | .symlink .. | .extended _ => true

end Condition

/-! ## §2 Rules -/

/-- The program sends one reply if `C`, and none otherwise; it throws only if not `C`. -/
def Settles (C : Prop) (id : UInt32) (h : Halves Bytes) (m : SftpM ω Unit) (s : SFTP ω) : Prop :=
  wp m (fun _ s' => Sent id h s'.toChannel ↔ C) (fun _ _ => ¬C) s

variable {C : Prop} {os : Win32 ω} {home : SFTPFilePath} {id : UInt32} {h : Halves Bytes}
  {s : SFTP ω} {name handle rest : Bytes}

-- `Ready` is about the queue to the channel only.
theorem Ready.reads (hs : Ready h s) (b : Bytes) : Ready h (s.withIqueue b) :=
  ⟨hs.holding, hs.room⟩

theorem Ready.after (hs : Ready h s) (r : Outcome α × ω) : Ready h (s.after r) :=
  ⟨hs.holding, hs.room⟩

theorem settles_sendStatus (hs : Ready h s) (hC : C) (status : UInt32) :
    Settles C id h (sendStatus id status) s :=
  wp_mono_total (sendStatus_sent hs id status) fun _ _ hsent => iff_of_true hsent hC

theorem Settles.quiet_bind {m : SftpM ω α} {k : α → SftpM ω Unit}
    (hm : Keeps (Ready h) m (fun _ => False)) (hs : Ready h s)
    (hk : ∀ a s', Ready h s' → Settles C id h (k a) s') : Settles C id h (m >>= k) s := by
  rw [Settles]
  exact wp_seq_total (hm s hs) fun a s' hs' => hk a s' hs'

theorem errnoToPortable_eq_ok (err : UInt32) : errnoToPortable err = Fx.ok ↔ err = 0 := by
  unfold errnoToPortable
  split
  case isTrue hzero => exact iff_of_true rfl hzero
  case isFalse hzero =>
    refine iff_of_false ?_ hzero
    split
    · decide
    · split
      · decide
      · split
        · decide
        · decide

/-! ### A status, and a reply unless it is SSH2_FX_OK -/

/-- With SSH2_FX_OK it is decided whether a reply has been sent; with another status it is yet
to be sent. -/
def Decided (C : Prop) (id : UInt32) (h : Halves Bytes) (status : UInt32) (s : SFTP ω) : Prop :=
  (status = Fx.ok ∧ (Sent id h s.toChannel ↔ C)) ∨ (status ≠ Fx.ok ∧ Ready h s ∧ C)

variable {status : UInt32} {k : SFTPFilePath → SftpM ω Unit} {i : Int} {use : HandleUse}
  {fh : WinHandle} (p : SFTPFilePath) {m : SftpM ω UInt32}

theorem Decided.pending (hs : Ready h s) (hC : C) (hstatus : status ≠ Fx.ok) :
    Decided C id h status s :=
  .inr ⟨hstatus, hs, hC⟩

/-- The status of a call that has failed says nothing when the last error is 0. -/
theorem Decided.lastStatus (hs : Ready h s) (hC : C ↔ s.lastError ≠ 0) :
    wp lastStatus (Decided C id h) never s := by
  rw [Sftp.lastStatus, wp_bind, getLastError, wp_read, wp_pure, wp_pure]
  by_cases hzero : s.lastError = 0
  · refine .inl ⟨(errnoToPortable_eq_ok _).mpr hzero, iff_of_false hs.not_sent ?_⟩
    rw [hC]
    exact not_not_intro hzero
  · refine .pending hs (hC.mpr hzero) ?_
    rw [ne_eq, errnoToPortable_eq_ok]
    exact hzero

/-- A reply, and SSH2_FX_OK -/
theorem Decided.replied {m : SftpM ω Unit} (hC : C)
    (hm : wp m (fun _ s' => Sent id h s'.toChannel) never s) :
    wp (do m; pure Fx.ok) (Decided C id h) never s := by
  refine wp_seq_total hm fun _ s' hsent => ?_
  rw [wp_pure]
  exact .inl ⟨rfl, iff_of_true hsent hC⟩

theorem settles_unlessOk (hd : Decided C id h status s) :
    Settles C id h (if status ≠ Fx.ok then sendStatus id status else pure ()) s := by
  obtain ⟨hok, hsent⟩ | ⟨hne, hs, hC⟩ := hd
  · rw [if_neg (not_not_intro hok), Settles, wp_pure]
    exact hsent
  · rw [if_pos hne]
    exact settles_sendStatus hs hC status

/-! ### Paths -/

theorem toStringGeneric_ok (p : Path) (separator : WChar) :
    ∃ w, p.toStringGeneric true separator = .ok w := by
  rw [toStringGeneric, assertThat, Bool.or_true]
  show ∃ w, (if !p.isRelative && p.hasDriveLetter then _ else _) = Except.ok w
  split
  · exact ⟨_, rfl⟩
  · exact ⟨_, rfl⟩

theorem unixForm_ok (p : Path) : ∃ w, p.unixForm true = .ok w := by
  obtain ⟨w, hw⟩ := toStringGeneric_ok p (L '/')
  exact ⟨L '/' :: w, by rw [unixForm, hw]; rfl⟩

theorem getForCall_ok : ∃ w, p.getForCall true = .ok w := by
  obtain ⟨w, hw⟩ := toStringGeneric_ok p.toPath (L '\\')
  refine ⟨longPrefix ++ w, ?_⟩
  rw [SFTPFilePath.getForCall, toWString, hw, assertThat, Bool.or_true]
  rfl

theorem getMaskForDirSearch_ok : ∃ w, p.getMaskForDirSearch true = .ok w := by
  obtain ⟨w, hw⟩ := toStringGeneric_ok p.toPath (L '\\')
  rw [SFTPFilePath.getMaskForDirSearch, toWStringWith, toWString, hw, assertThat,
    Bool.or_true, p.notRelative]
  exact ⟨_, rfl⟩

theorem nFirstDirs_ok {k : Nat} (hk : k ≤ p.nDirs) :
    ∃ q, p.nFirstDirs true k = .ok q := by
  rw [SFTPFilePath.nFirstDirs, nFirstDirs, if_neg (not_lt.mpr hk)]
  show ∃ q, sftpFilePath true { p.toPath with path := p.path.take k } p.nUserHomePos = .ok q
  rw [sftpFilePath, dif_neg (by rw [p.notRelative]; decide)]
  exact ⟨_, rfl⟩

theorem liftPath_keeps_ok {x : Except PathError α} (hx : ∃ a, x = .ok a) {I E : SFTP ω → Prop} :
    Keeps I (liftPath x) E := by
  obtain ⟨a, rfl⟩ := hx
  exact .pure a

theorem settles_makePath (hC : C → validPath os home name = true)
    (hk : ∀ path, createPath true home (fromUTF8 os name) = .ok path →
      Settles C id h (k path) s) : Settles C id h (makePath os home name >>= k) s := by
  rw [Settles, wp_bind, makePath]
  cases hpath : createPath true home (fromUTF8 os name) with
  | ok path =>
    rw [liftPath, wp_pure]
    exact hk path hpath
  | error e =>
    rw [liftPath, wp_throw]
    intro hc
    have hvalid := hC hc
    rw [validPath, hpath] at hvalid
    cases hvalid

/-! ### Handles -/

/-- What `get_handle` returns is a handle of a kind exactly if the string stands for one. -/
structure Resolved (os : Win32 ω) (s : SFTP ω) (handle : Bytes) (i : Int) : Prop where
  isOk : ∀ use, use ≠ .unused → s.handleIsOk i use = refersTo os s handle use
  number : ∀ use, refersTo os s handle use = true → i = handleNumber os s handle

theorem Resolved.rejected (hbad : ∀ use, refersTo os s handle use = false) :
    Resolved os s handle (-1) where
  isOk use _ := by rw [hbad]; rfl
  number use htrue := by
    rw [hbad] at htrue
    cases htrue

theorem getHandle_spec (hlen : handle.length ≤ 256 * 1024) :
    wp (getHandle os) (fun i s' => s' = s.withIqueue rest ∧ Resolved os s handle i)
      (fun _ _ => ∀ use, use ≠ .unused → refersTo os s handle use = false)
      (s.withIqueue (putString handle ++ rest)) := by
  rw [getHandle, wp_bind, wp_getString hlen, wp_ite]
  refine ⟨fun hshort => ?_, fun hlong => ?_⟩
  · rw [handleFromString, wp_ite]
    refine ⟨fun hempty => ?_, fun hsome => ?_⟩
    · rw [wp_pure]
      exact ⟨rfl, .rejected fun use => by rw [refersTo, hempty]; rfl⟩
    · -- a string that stands for a number is as good as the number
      have hrefers (use : HandleUse) :
          refersTo os s handle use = s.handleIsOk (handleNumber os s handle) use := by
        rw [refersTo, decide_eq_true hsome, decide_eq_true hshort, Bool.true_and, Bool.true_and]
      rw [wp_bind, uninitialized, wp_read, wp_pure, wp_read, wp_ite]
      refine ⟨fun _ => ?_, fun hnone => ?_⟩
      · rw [wp_pure]
        exact ⟨rfl, fun use _ => (hrefers use).symm, fun _ _ => rfl⟩
      · rw [wp_throw]
        intro use huse
        rw [Bool.or_eq_true, not_or, Bool.not_eq_true, Bool.not_eq_true] at hnone
        rw [hrefers]
        cases use with
        | unused => exact absurd rfl huse
        | file => exact hnone.1
        | dir => exact hnone.2
  · rw [wp_pure]
    refine ⟨rfl, .rejected fun use => ?_⟩
    rw [refersTo, decide_eq_false hlong, Bool.and_false, Bool.false_and]

theorem settles_getHandle {k : Int → SftpM ω Unit} (hlen : handle.length ≤ 256 * 1024)
    (hC : C → ∃ use, use ≠ .unused ∧ refersTo os s handle use = true)
    (hk : ∀ i, Resolved os s handle i → Settles C id h (k i) (s.withIqueue rest)) :
    Settles C id h (getHandle os >>= k) (s.withIqueue (putString handle ++ rest)) := by
  rw [Settles, wp_bind]
  refine wp_mono (getHandle_spec hlen) (fun i s' hi => ?_) fun _ _ hnone hc => ?_
  · rw [hi.1]
    exact hk i hi.2
  · obtain ⟨use, huse, hrefers⟩ := hC hc
    rw [hnone use huse] at hrefers
    cases hrefers

/-- An index that is in use has an entry. -/
theorem handleAt_of_isOk (hok : s.handleIsOk i use = true) : ∃ fh, s.handleAt i = some fh := by
  rw [SFTP.handleIsOk, Bool.and_eq_true] at hok
  cases hentry : s.handles[i.toNat]? with
  | some fh => exact ⟨fh, hentry⟩
  | none =>
    rw [hentry] at hok
    cases hok.2

theorem settles_handleTo {field : FileHandle → WinHandle}
    {k : WinHandle → SftpM ω Unit} (hC : C → s.handleIsOk i use = true)
    (hk : s.handleIsOk i use = true → Settles C id h (k (s.memberAt field i)) s) :
    Settles C id h (handleTo use field i >>= k) s := by
  rw [Settles, wp_bind, handleTo, wp_read]
  cases hok : s.handleIsOk i use with
  | true =>
    obtain ⟨fh, hfh⟩ := handleAt_of_isOk hok
    have hmember : s.memberAt field i = field fh := by rw [SFTP.memberAt, hfh]; rfl
    rw [hfh]
    show wp (if true = true then pure (field fh) else _) _ _ s
    rw [if_pos rfl, wp_pure, ← hmember]
    exact hk hok
  | false =>
    have hnot : ¬C := fun hc => by
      rw [hC hc] at hok
      cases hok
    cases s.handleAt i with
    | none => exact (wp_throw _).mpr hnot
    | some fh => exact (wp_throw _).mpr hnot

theorem settles_handleToPath (hC : C → s.handleIsOk i .dir = true ∨ s.handleIsOk i .file = true)
    (hk : s.handleIsOk i .dir = true ∨ s.handleIsOk i .file = true →
      ∀ path, Settles C id h (k path) s) : Settles C id h (handleToPath i >>= k) s := by
  rw [Settles, wp_bind, handleToPath, wp_read]
  cases hok : s.handleIsOk i .dir || s.handleIsOk i .file with
  | true =>
    have hentry : ∃ fh, s.handleAt i = some fh := by
      rcases Bool.or_eq_true_iff.mp hok with hdir | hfile
      · exact handleAt_of_isOk hdir
      · exact handleAt_of_isOk hfile
    obtain ⟨fh, hfh⟩ := hentry
    rw [hfh]
    exact (wp_pure _).mpr (hk (Bool.or_eq_true_iff.mp hok) fh.path)
  | false =>
    have hnot : ¬C := fun hc => by
      rw [Bool.or_eq_true_iff.mpr (hC hc)] at hok
      cases hok
    cases s.handleAt i with
    | none => exact (wp_throw _).mpr hnot
    | some fh => exact (wp_throw _).mpr hnot

theorem settles_handleToName {k : WString → SftpM ω Unit}
    (hC : C → s.handleIsOk i .dir = true ∨ s.handleIsOk i .file = true)
    (hk : s.handleIsOk i .dir = true ∨ s.handleIsOk i .file = true →
      ∀ name, Settles C id h (k name) s) : Settles C id h (handleToName i >>= k) s := by
  rw [handleToName, bind_assoc]
  refine settles_handleToPath hC fun hok path => ?_
  obtain ⟨w, hw⟩ := toStringGeneric_ok path.toPath (L '\\')
  rw [toWString, hw]
  exact (wp_bind _ _).mpr ((wp_pure w).mpr (hk hok w))

/-! ## §3 Handlers that reply inside of `try` -/

theorem settles_guarded {body : UInt32 → SftpM ω UInt32}
    (hbody : wp (body id) (Decided C id h)
      (fun _ s' => Settles C id h (sendStatus id Fx.failure) s') (s.withIqueue rest)) :
    Settles C id h (guarded os body) (s.withIqueue (putU32 id ++ rest)) := by
  rw [Settles, guarded, wp_bind, catching, wp_tryCatch, wp_bind, wp_getInt, wp_pure]
  show wp (catching Fx.failure (body id) >>= fun status =>
    if status ≠ Fx.ok then sendStatus id status else pure ()) _ _ _
  rw [wp_bind, catching, wp_tryCatch]
  refine wp_mono hbody (fun status s' hd => settles_unlessOk hd) fun _ s' hfailed => ?_
  rw [wp_pure, if_pos (by decide)]
  exact hfailed

section Guarded

variable (hs : Ready h s)
include hs

/-- A bad path is reported; with a good one it depends on the call. -/
theorem settles_named {c : WString → Bool} {k : SFTPFilePath → WString → SftpM ω UInt32}
    (hk : ∀ path w, wp (k path w) (Decided (c w = true) id h) never s) :
    wp (do
        let path ← makePath os home name
        let w ← forCall path
        k path w)
      (Decided (forName os home name c = true) id h)
      (fun _ s' => Settles (forName os home name c = true) id h (sendStatus id Fx.failure) s')
      s := by
  rw [wp_bind, makePath, forName]
  cases createPath true home (fromUTF8 os name) with
  | error e =>
    rw [liftPath, wp_throw]
    exact settles_sendStatus hs rfl Fx.failure
  | ok path =>
    obtain ⟨w, hw⟩ := getForCall_ok path
    simp only
    rw [liftPath, wp_pure, wp_bind, forCall, hw, liftPath, wp_pure]
    exact wp_mono_total (hk path w) fun _ _ hd => hd

theorem openHandle_decided {new : SftpM ω Int}
    (hnew : Keeps (Ready h) new (fun _ => False))
    (hC : fh = invalidHandleValue → (C ↔ s.lastError ≠ 0)) (hopen : fh ≠ invalidHandleValue → C) :
    wp (openHandle os id fh new) (Decided C id h) never s := by
  rw [openHandle, wp_ite]
  refine ⟨fun hinvalid => Decided.lastStatus hs (hC hinvalid), fun hvalid => ?_⟩
  refine wp_seq_total (hnew s hs) fun handle s1 hs1 => ?_
  rw [wp_ite]
  refine ⟨fun _ => ?_, fun _ => ?_⟩
  · rw [wp_bind, wp_call, wp_pure]
    exact .pending (hs1.after _) (hopen hvalid) (by decide)
  · exact Decided.replied (hopen hvalid) (sendHandle_sent hs1 id handle)

/-- `CreateFileW` and the handle for it -/
theorem open_decided {f : Api ω WinHandle} {new : WinHandle → SftpM ω Int}
    (hnew : ∀ fh, Keeps (Ready h) (new fh) (fun _ => False)) :
    wp (do
        let fh ← call f
        openHandle os id fh (new fh))
      (Decided ((!opensNothingSilently (f s.world)) = true) id h) never s := by
  rw [wp_bind, wp_call, Bool.not_eq_true', opensNothingSilently]
  refine openHandle_decided (hs.after _) (hnew _) (fun hinvalid => ?_) fun hvalid => ?_
  · rw [decide_eq_true hinvalid, Bool.true_and, decide_eq_false_iff_not]
    rfl
  · rw [decide_eq_false hvalid, Bool.false_and]

variable {a : ClientAttrib} {n : Nat}

theorem processOpen_settles {pflags : UInt32}
    (hname : name.length ≤ 256 * 1024) (ha : a.encode.length ≤ 256 * 1024) :
    Settles (answered os home s (.open' name pflags a) = true) id h (processOpen os home)
      (s.withIqueue (putU32 id ++ (putString name ++ (putU32 pflags ++ (a.encode ++ rest))))) := by
  refine settles_guarded ?_
  rw [wp_bind, wp_getString hname, wp_bind, wp_getInt, wp_bind]
  refine getAttrib_reads ha fun _ => settles_named (hs.reads rest) fun path w => ?_
  exact open_decided (hs.reads rest) fun fh => handleNew_keeps (ready_framed h) .file path fh 0

theorem processOpendir_settles (hname : name.length ≤ 256 * 1024) :
    Settles (answered os home s (.opendir name) = true) id h (processOpendir os home)
      (s.withIqueue (putU32 id ++ (putString name ++ rest))) := by
  refine settles_guarded ?_
  rw [wp_bind, wp_getString hname]
  refine settles_named (hs.reads rest) fun path w => ?_
  exact open_decided (hs.reads rest) fun fh => handleNew_keeps (ready_framed h) .dir path 0 fh

theorem replyAttrib_decided {found : Api ω (Option FileInfo)} :
    wp (replyAttrib id found) (Decided ((!failsSilently (found s.world)) = true) id h)
      never s := by
  rw [replyAttrib, wp_bind, wp_call, Bool.not_eq_true', failsSilently]
  cases (found s.world).1.value with
  | none =>
    refine Decided.lastStatus (hs.after _) ?_
    rw [Option.isNone_none, Bool.true_and, decide_eq_false_iff_not]
    rfl
  | some st => exact Decided.replied rfl (sendAttrib_sent (hs.after _) id _)

theorem processDoStat_settles (hname : name.length ≤ 256 * 1024) :
    Settles (answered os home s (.stat name) = true) id h (processDoStat os home)
      (s.withIqueue (putU32 id ++ (putString name ++ rest))) := by
  refine settles_guarded ?_
  rw [wp_bind, wp_getString hname]
  exact settles_named (hs.reads rest) fun _ w => replyAttrib_decided (hs.reads rest)

/-! ### A reply that is too long -/

omit hs in
theorem cstr_cstr (b : Bytes) : cstr (cstr b) = cstr b := takeWhile_idem

omit hs in
/-- A length field without its string is taken for the length of what comes next. -/
theorem not_sent_of_stray {q : BusyThreadReadBuffer} {m : Bytes}
    (hn : bufferMaxChunk < n) (hn' : n < size) (hm : m.length + 4 ≤ bufferMaxChunk)
    (hq : q.writeBuf.contents = frames h.write ++ (putU32 (ofNat n) ++ putString m)) :
    ¬Sent id h q := by
  intro hsent
  obtain ⟨reply, -, hholding⟩ := hsent
  have hcontents := hholding.write.contents
  rw [hq, nil_append, Halves.put, frames, frames, flatMap_append,
    flatMap_singleton, append_cancel_left_eq, putString, putString] at hcontents
  obtain ⟨hfield, hrest⟩ := append_inj hcontents (by simp)
  have hlength : ofNat n = ofNat reply.length := by
    rw [← getU32_putU32 (ofNat n), hfield, getU32_putU32]
  have hreply : reply.length = 4 + m.length := by
    rw [← hrest, length_append, putU32_length]
  have hsmall : reply.length < size := by
    rw [hreply]
    exact lt_of_le_of_lt (by omega) hn'
  have hstray : (ofNat n).toNat = n := toNat_ofNat_of_lt hn'
  have hfound : (ofNat reply.length).toNat = reply.length :=
    toNat_ofNat_of_lt hsmall
  rw [hlength, hfound] at hstray
  omega

omit hs in
theorem sendStatus_behind_stray (hn : bufferMaxChunk < n) (hn' : n < size)
    (hq : s.toChannel.writeBuf.contents = frames h.write ++ putU32 (ofNat n))
    (status : UInt32) : wp (sendStatus id status) (fun _ s' => ¬Sent id h s'.toChannel) any s := by
  have hlen := status_length_le s.version id status
  rw [sendStatus, wp_read]
  refine wp_sendMsg (fun part hpart => ?_) (le_trans hlen (by decide)) ?_
  · exact le_trans (part_length_le hpart) (le_trans hlen (by decide))
  · refine wp_weaken (Buffer.putString_spec _ _) fun _ b hb => ?_
    refine not_sent_of_stray hn hn' (le_trans (Nat.add_le_add_right hlen 4) (by decide)) ?_
    rw [← append_assoc, ← hq]
    exact hb

/-- The parts of SSH2_FXP_NAME with one name -/
def realpathParts (id : UInt32) (text : Bytes) : List Bytes :=
  [[Fxp.name], putU32 id, putU32 1] ++ (cstringParts text ++ cstringParts text ++ [encodeAttrib {}])

omit hs in
theorem realpathParts_length (id : UInt32) (text : Bytes) :
    (realpathParts id text).flatten.length = 2 * (cstr text).length + 21 := by
  have hattrib : (encodeAttrib {}).length = 4 := rfl
  simp [realpathParts, hattrib, putCstring, putString_length]
  omega

omit hs in
theorem realpath_settles (text : Bytes) (hs : Ready h s)
    (hC : C ↔ 2 * (cstr text).length + 21 ≤ bufferMaxChunk ∨ bufferMaxChunk < (cstr text).length) :
    wp (do sendMsg (realpathParts id text); pure Fx.ok) (Decided C id h)
      (fun _ s' => Settles C id h (sendStatus id Fx.failure) s') s := by
  have hlength := realpathParts_length id text
  by_cases hfits : 2 * (cstr text).length + 21 ≤ bufferMaxChunk
  · refine wp_mono_total (Decided.replied (hC.mpr (.inl hfits)) ?_) fun _ _ hd => hd
    exact sendMsg_sent hs (isReply_parts (by decide) id _) (by omega)
  · rw [wp_bind]
    by_cases hmade : bufferMaxChunk < (cstr text).length
    · -- the message cannot be made, and the failure is reported
      have htext : cstr text ∈ realpathParts id text := by
        simp [realpathParts, cstringParts, stringParts]
      refine wp_mono (sendMsg_rejects htext hmade) (fun _ _ hfalse => hfalse.elim) ?_
      intro _ s' heq
      rw [heq]
      exact settles_sendStatus hs (hC.mpr (.inr hmade)) Fx.failure
    · -- its length is put, it is not, and the failure comes behind
      have hnot : ¬C := by
        rw [hC, not_or]
        exact ⟨hfits, hmade⟩
      have hbound : bufferMaxChunk + bufferMaxChunk + 21 < size := by decide
      have hparts : ∀ part ∈ realpathParts id text, part.length ≤ bufferMaxChunk := by
        have hattrib : (encodeAttrib {}).length = 4 := rfl
        have hchunk : 4 ≤ bufferMaxChunk := by decide
        simp [realpathParts, cstringParts, stringParts, hattrib]
        omega
      have hroom := hs.room
      have hsix : bufferMaxChunk + bufferMaxChunk + 21 ≤ 6 * bufferMaxChunk := by decide
      refine wp_sendMsg hparts (by omega) ?_
      refine wp_mono (Buffer.putString_long (by omega) (by omega))
        (fun _ _ hfalse => hfalse.elim) fun _ b hb => ?_
      refine wp_mono (sendStatus_behind_stray (n := (realpathParts id text).flatten.length)
        (by omega) (by omega) ?_ Fx.failure) (fun _ _ hsent => iff_of_false hsent hnot)
        fun _ _ _ => hnot
      rw [hb, hs.holding.write.contents, nil_append]

theorem processRealpath_settles (hname : name.length ≤ 256 * 1024) :
    Settles (answered os home s (.realpath name) = true) id h (processRealpath os home)
      (s.withIqueue (putU32 id ++ (putString name ++ rest))) := by
  refine settles_guarded ?_
  rw [wp_bind, wp_getString hname, wp_bind, makePath, answered, realpathFits]
  cases createPath true home (fromUTF8 os name) with
  | error e =>
    rw [liftPath, wp_throw]
    exact settles_sendStatus (hs.reads rest) rfl Fx.failure
  | ok path =>
    obtain ⟨w, hw⟩ := unixForm_ok path.toPath
    simp only [hw]
    rw [liftPath, wp_pure, wp_bind, hw, liftPath, wp_pure]
    refine realpath_settles (toUTF8 os w) (hs.reads rest) ?_
    rw [toUTF8, cstr_cstr, Bool.or_eq_true, decide_eq_true_iff, decide_eq_true_iff]

theorem setstatNamed_ready (ha : a.encode.length ≤ 256 * 1024) :
    wp (setstatNamed os home name) (fun _ => Ready h) (fun _ => Ready h)
      (s.withIqueue (a.encode ++ rest)) := by
  rw [setstatNamed, wp_bind]
  refine getAttrib_reads ha fun decoded => ?_
  refine (makePath_keeps os home name).bind (fun path => ?_) _ (hs.reads rest)
  refine .ite (.pure _) (.ite ?_ (.pure _))
  refine (forCall_keeps path).bind fun w => (call_keeps (ready_framed h) _).bind fun res => ?_
  exact statusOf_keeps res

theorem processSetstat_settles
    (hname : name.length ≤ 256 * 1024) (ha : a.encode.length ≤ 256 * 1024) :
    Settles (answered os home s (.setstat name a) = true) id h (processSetstat os home)
      (s.withIqueue (putU32 id ++ (putString name ++ (a.encode ++ rest)))) := by
  rw [Settles, processSetstat, wp_bind, catching, wp_tryCatch, wp_bind, wp_getInt, wp_pure]
  rw [wp_bind, catching, wp_tryCatch, wp_bind, wp_getString hname, wp_pure]
  rw [wp_bind, catching, wp_tryCatch]
  refine wp_mono (setstatNamed_ready hs ha) (fun status s1 hs1 => ?_) fun _ s1 hs1 => ?_
  · exact settles_sendStatus hs1 rfl status
  · rw [wp_pure]
    exact settles_sendStatus hs1 rfl Fx.failure

end Guarded

/-! ## §4 Handlers with a handle -/

section WithHandle

variable {X : Bool} {off : UInt64} {len : UInt32}

/-- The file of a handle, when the string stands for one -/
theorem settles_handleToFh {k : WinHandle → SftpM ω Unit} (hi : Resolved os s handle i)
    (hk : Settles (X = true) id h (k (fileOf os s handle)) (s.withIqueue rest)) :
    Settles ((refersTo os s handle .file && X) = true) id h (handleToFh i >>= k)
      (s.withIqueue rest) := by
  have hfile : (s.withIqueue rest).handleIsOk i .file = refersTo os s handle .file :=
    hi.isOk .file (by decide)
  refine settles_handleTo (fun hc => ?_) fun hok => ?_
  · rw [hfile]
    exact (Bool.and_eq_true_iff.mp hc).1
  · rw [hfile] at hok
    have hnumber : (s.withIqueue rest).memberAt FileHandle.fileHandle i = fileOf os s handle := by
      rw [hi.number .file hok]
      rfl
    rw [hnumber, hok, Bool.true_and]
    exact hk

/-- A string that stands for a file stands for a handle. -/
theorem file_of_answered (hc : (refersTo os s handle .file && X) = true) :
    ∃ use, use ≠ .unused ∧ refersTo os s handle use = true :=
  ⟨.file, by decide, (Bool.and_eq_true_iff.mp hc).1⟩

/-- An invalid handle is reported. -/
theorem settles_whenValid (hs : Ready h s)
    (hm : wp m (Decided (X = true) id h) never s) :
    Settles ((fh = invalidHandleValue || X) = true) id h (do
      let status ← whenValid fh m
      if status ≠ Fx.ok then sendStatus id status else pure ()) s := by
  refine wp_seq_total ?_ fun status s1 hd => settles_unlessOk hd
  rw [whenValid, wp_ite, wp_pure]
  refine ⟨fun hvalid => ?_, fun hinvalid => .pending hs ?_ (by decide)⟩
  · rw [decide_eq_false hvalid, Bool.false_or]
    exact hm
  · rw [decide_eq_true (not_not.mp hinvalid), Bool.true_or]

variable (hs : Ready h s)
include hs

theorem processClose_settles (hlen : handle.length ≤ 256 * 1024) :
    Settles (answered os home s (.close handle) = true) id h (processClose os)
      (s.withIqueue (putU32 id ++ (putString handle ++ rest))) := by
  rw [Settles, processClose, wp_bind, wp_getInt]
  refine settles_getHandle hlen (fun hc => ?_) fun i hi => ?_
  · rcases Bool.or_eq_true_iff.mp hc with hfile | hdir
    · exact ⟨.file, by decide, hfile⟩
    · exact ⟨.dir, by decide, hdir⟩
  · have hkinds : ((s.withIqueue rest).handleIsOk i .dir = true ∨
        (s.withIqueue rest).handleIsOk i .file = true) ↔
        answered os home s (.close handle) = true := by
      show (s.handleIsOk i .dir = true ∨ s.handleIsOk i .file = true) ↔
        (refersTo os s handle .file || refersTo os s handle .dir) = true
      rw [hi.isOk .dir (by decide), hi.isOk .file (by decide), Bool.or_eq_true, or_comm]
    rw [handleLogClose, bind_assoc]
    refine settles_handleToName hkinds.mpr fun hok _ => ?_
    rw [pure_bind]
    refine Settles.quiet_bind (handleClose_keeps (ready_framed h) os i) (hs.reads rest) ?_
    intro ret s1 hs1
    refine Settles.quiet_bind (statusOf_keeps ret) hs1 fun status s2 hs2 => ?_
    exact settles_sendStatus hs2 (hkinds.mp hok) status

omit hs in
theorem sent_framed (id : UInt32) (h : Halves Bytes) :
    Framed fun s : SFTP ω => Sent id h s.toChannel := by
  intro s s' _ hchannel hsent
  rw [hchannel]
  exact hsent

theorem readAt_decided (hlen : len.toNat ≤ 65536) :
    wp (readAt os id i fh off len)
      (Decided ((!(os.setFilePointer fh off s.world).1.value ||
        !failsSilently (os.readFile fh len (os.setFilePointer fh off s.world).2)) = true) id h)
      never s := by
  rw [readAt, wp_bind, wp_call]
  cases (os.setFilePointer fh off s.world).1.value with
  | false =>
    rw [Bool.not_false, if_pos rfl, wp_bind, getLastError, wp_read, wp_pure, wp_ite]
    refine ⟨fun _ => ?_, fun hne => Decided.lastStatus (hs.after _) (iff_of_true rfl hne)⟩
    rw [wp_pure]
    exact .pending (hs.after _) rfl (by decide)
  | true =>
    have hworld : (s.after (os.setFilePointer fh off s.world)).world =
      (os.setFilePointer fh off s.world).2 := rfl
    rw [Bool.not_true, if_neg Bool.false_ne_true, wp_bind, wp_call, hworld, Bool.false_or,
      Bool.not_eq_true', failsSilently]
    cases (os.readFile fh len (os.setFilePointer fh off s.world).2).1.value with
    | none =>
      refine Decided.lastStatus ((hs.after _).after _) ?_
      rw [Option.isNone_none, Bool.true_and, decide_eq_false_iff_not]
      rfl
    | some data =>
      rw [wp_ite]
      refine ⟨fun _ => ?_, fun _ => ?_⟩
      · rw [wp_pure]
        exact .pending ((hs.after _).after _) rfl (by decide)
      · rw [← bind_assoc]
        refine Decided.replied rfl ?_
        refine wp_seq_total (sendData_sent ((hs.after _).after _) id
          (le_trans data.2 hlen)) fun _ s1 hsent => ?_
        exact handleUpdateRead_keeps ((sent_framed id h).quiet os) i _ s1 hsent

theorem processRead_settles (hlen : handle.length ≤ 256 * 1024) :
    Settles (answered os home s (.read handle off len) = true) id h (processRead os)
      (s.withIqueue (putU32 id ++ (putString handle ++ (putU64 off ++ (putU32 len ++ rest))))) := by
  rw [Settles, processRead, wp_bind, wp_getInt]
  refine settles_getHandle hlen file_of_answered fun i hi => ?_
  rw [Settles, wp_bind, wp_getInt64, wp_bind, wp_getInt]
  refine settles_handleToFh hi (settles_whenValid (hs.reads rest) ?_)
  exact readAt_decided (hs.reads rest) (min_toNat_le len)

theorem processWrite_settles {data : Bytes}
    (hlen : handle.length ≤ 256 * 1024) (hdata : data.length ≤ 256 * 1024) :
    Settles (answered os home s (.write handle off data) = true) id h (processWrite os)
      (s.withIqueue
        (putU32 id ++ (putString handle ++ (putU64 off ++ (putString data ++ rest))))) := by
  rw [answered, ← Bool.and_true (refersTo os s handle .file)]
  rw [Settles, processWrite, wp_bind, wp_getInt]
  refine settles_getHandle hlen file_of_answered fun i hi => ?_
  rw [Settles, wp_bind, wp_getInt64, wp_bind, wp_getString hdata]
  refine settles_handleToFh hi ?_
  refine Settles.quiet_bind ?_ (hs.reads rest)
    fun status s1 hs1 => settles_sendStatus hs1 rfl status
  exact whenValid_keeps (writeAt_keeps ((ready_framed h).quiet os) i _ off data)

theorem processFstat_settles (hlen : handle.length ≤ 256 * 1024) :
    Settles (answered os home s (.fstat handle) = true) id h (processFstat os)
      (s.withIqueue (putU32 id ++ (putString handle ++ rest))) := by
  rw [Settles, processFstat, wp_bind, wp_getInt]
  refine settles_getHandle hlen file_of_answered fun i hi => ?_
  refine settles_handleToName (fun hc => .inr ?_) fun _ _ => settles_handleToFh hi ?_
  · exact (hi.isOk .file (by decide)).trans (Bool.and_eq_true_iff.mp hc).1
  · exact settles_whenValid (hs.reads rest) (replyAttrib_decided (hs.reads rest))

theorem processFsetstat_settles {a : ClientAttrib}
    (hlen : handle.length ≤ 256 * 1024) (ha : a.encode.length ≤ 256 * 1024) :
    Settles (answered os home s (.fsetstat handle a) = true) id h (processFsetstat os)
      (s.withIqueue (putU32 id ++ (putString handle ++ (a.encode ++ rest)))) := by
  rw [answered, ← Bool.and_true (refersTo os s handle .file)]
  rw [Settles, processFsetstat, wp_bind, wp_getInt]
  refine settles_getHandle hlen file_of_answered fun i hi => ?_
  rw [Settles, wp_bind]
  refine getAttrib_reads ha fun decoded => settles_handleToFh hi ?_
  refine Settles.quiet_bind ?_ (hs.reads rest)
    fun status s1 hs1 => settles_sendStatus hs1 rfl status
  exact whenValid_keeps (setAttrib_keeps ((ready_framed h).quiet os) _ decoded)

/-! ### Directories -/

omit hs in
theorem startSearch_ready (i : Int) (dirPath : SFTPFilePath) (search : WinHandle) (done : Bool) :
    Keeps (Ready h) (startSearch os i dirPath search done) (fun _ => False) := by
  refine .ite ?_ (.pure _)
  refine (liftPath_keeps_ok (getMaskForDirSearch_ok dirPath)).bind fun _ => ?_
  refine (call_keeps (ready_framed h) _).bind fun _ => ?_
  exact (modifyHandle_keeps (ready_framed h) i _).bind fun _ => .pure _

theorem readEntries_sent {dirPath : SFTPFilePath} {search : WinHandle} {done : Bool} :
    wp (readEntries os id i dirPath search done) (fun _ s' => Sent id h s'.toChannel)
      never s := by
  rw [readEntries]
  refine wp_seq_total (startSearch_ready i dirPath search done s hs) fun search s1 hs1 => ?_
  refine wp_seq_total (continueSearch_short (ready_framed h) hs1) fun found s2 hfound => ?_
  refine wp_seq_total (endSearch_keeps (ready_framed h) os i search found.2 s2 hfound.1)
    fun _ s3 hs3 => ?_
  have hlen := hfound.2
  rw [wp_ite]
  refine ⟨fun _ => sendNames_sent hs3 id ?_, fun _ => ?_⟩
  · exact le_trans (Nat.add_le_add_left hlen 9) (by decide)
  · refine wp_seq_total (modifyHandle_keeps (ready_framed h) i _ s3 hs3) fun _ s4 hs4 => ?_
    exact sendStatus_sent hs4 id Fx.eof

theorem processReaddir_settles (hlen : handle.length ≤ 256 * 1024) :
    Settles (answered os home s (.readdir handle) = true) id h (processReaddir os)
      (s.withIqueue (putU32 id ++ (putString handle ++ rest))) := by
  rw [Settles, processReaddir, wp_bind, wp_getInt]
  refine settles_getHandle hlen (fun hc => ⟨.dir, by decide, hc⟩) fun i hi => ?_
  have hdir : (s.withIqueue rest).handleIsOk i .dir = refersTo os s handle .dir :=
    hi.isOk .dir (by decide)
  refine settles_handleToName (fun hc => .inl (hdir.trans hc)) fun _ _ => ?_
  refine settles_handleTo (fun hc => hdir.trans hc) fun hok => ?_
  have hC : answered os home s (.readdir handle) = true := hdir.symm.trans hok
  refine settles_handleToPath (fun _ => .inl hok) fun _ dirPath => ?_
  obtain ⟨w, hw⟩ := toStringGeneric_ok dirPath.toPath (L '\\')
  obtain ⟨fh, hfh⟩ := handleAt_of_isOk hok
  rw [toWString, hw, Settles, wp_bind, liftPath, wp_pure, wp_ite]
  refine ⟨fun _ => settles_sendStatus (hs.reads rest) hC Fx.failure, fun _ => ?_⟩
  rw [wp_read, hfh]
  exact wp_mono_total (readEntries_sent (hs.reads rest)) fun _ _ hsent => iff_of_true hsent hC

end WithHandle

variable (path : SFTPFilePath)

/-! ## §5 Handlers with a path -/

theorem validPath_of_ok {path : SFTPFilePath}
    (hpath : createPath true home (fromUTF8 os name) = .ok path) :
    validPath os home name = true := by
  rw [validPath, hpath]
  rfl

theorem forCall_ready :
    Keeps (Ready (ω := ω) h) (forCall path) (fun _ => False) :=
  liftPath_keeps_ok (getForCall_ok path)

theorem removeWith_settles {delete : WString → Api ω Bool} (hs : Ready h s)
    (hname : name.length ≤ 256 * 1024) :
    Settles (validPath os home name = true) id h (removeWith os home delete)
      (s.withIqueue (putU32 id ++ (putString name ++ rest))) := by
  rw [Settles, removeWith, wp_bind, wp_getInt, wp_bind, wp_getString hname]
  refine settles_makePath (fun hc => hc) fun path hpath => ?_
  refine Settles.quiet_bind (forCall_ready path) (hs.reads rest) fun w s1 hs1 => ?_
  refine Settles.quiet_bind (call_keeps (ready_framed h) _) hs1 fun res s2 hs2 => ?_
  refine Settles.quiet_bind (statusOf_keeps res) hs2 fun status s3 hs3 => ?_
  exact settles_sendStatus hs3 (validPath_of_ok hpath) status

theorem createDirectories_ready {ks : List Nat}
    (hks : ∀ k ∈ ks, k ≤ path.nDirs) :
    Keeps (Ready h) (createDirectories os path ks) (fun _ => False) := by
  induction ks with
  | nil => exact .pure _
  | cons k ks ih =>
    have hrest := ih fun k' hk' => hks k' (mem_cons_of_mem _ hk')
    refine (liftPath_keeps_ok (nFirstDirs_ok path (hks k mem_cons_self))).bind fun p => ?_
    refine (forCall_ready p).bind fun _ => (call_keeps (ready_framed h) _).bind fun found => ?_
    cases found with
    | some _ => exact hrest
    | none =>
      refine (forCall_ready p).bind fun _ => (call_keeps (ready_framed h) _).bind fun _ => ?_
      exact .ite (.pure _) hrest

theorem createDirectoryPath_ready :
    Keeps (Ready h) (createDirectoryPath os path) (fun _ => False) := by
  refine createDirectories_ready path fun k hk => ?_
  rw [mem_range'_1] at hk
  omega

theorem processMkdir_settles {a : ClientAttrib} (hs : Ready h s)
    (hname : name.length ≤ 256 * 1024) (ha : a.encode.length ≤ 256 * 1024) :
    Settles (answered os home s (.mkdir name a) = true) id h (processMkdir os home)
      (s.withIqueue (putU32 id ++ (putString name ++ (a.encode ++ rest)))) := by
  rw [Settles, processMkdir, wp_bind, wp_getInt, wp_bind, wp_getString hname, wp_bind]
  refine getAttrib_reads ha fun _ => settles_makePath (fun hc => hc) fun path hpath => ?_
  have hvalid : answered os home s (.mkdir name a) = true := validPath_of_ok hpath
  refine Settles.quiet_bind (forCall_ready path) (hs.reads rest) fun w s1 hs1 => ?_
  refine Settles.quiet_bind (call_keeps (ready_framed h) _) hs1 fun res s2 hs2 => ?_
  refine Settles.quiet_bind getLastError_keeps hs2 fun err s3 hs3 => ?_
  rw [Settles, wp_ite]
  refine ⟨fun _ => ?_, fun _ => settles_sendStatus hs3 hvalid _⟩
  refine Settles.quiet_bind (createDirectoryPath_ready path) hs3 fun res s4 hs4 => ?_
  refine Settles.quiet_bind (statusOf_keeps res) hs4 fun status s5 hs5 => ?_
  exact settles_sendStatus hs5 hvalid status

theorem processRename_settles {newName : Bytes} (hs : Ready h s)
    (hname : name.length ≤ 256 * 1024) (hnew : newName.length ≤ 256 * 1024) :
    Settles (answered os home s (.rename name newName) = true) id h (processRename os home)
      (s.withIqueue (putU32 id ++ (putString name ++ (putString newName ++ rest)))) := by
  rw [Settles, processRename, wp_bind, wp_getInt, wp_bind, wp_getString hname, wp_bind,
    wp_getString hnew]
  refine settles_makePath (fun hc => (Bool.and_eq_true_iff.mp hc).1) fun oldPath hold => ?_
  refine settles_makePath (fun hc => (Bool.and_eq_true_iff.mp hc).2) fun newPath hnew => ?_
  have hvalid : answered os home s (.rename name newName) = true :=
    Bool.and_eq_true_iff.mpr ⟨validPath_of_ok hold, validPath_of_ok hnew⟩
  refine Settles.quiet_bind (forCall_ready oldPath) (hs.reads rest) fun w s1 hs1 => ?_
  refine Settles.quiet_bind (forCall_ready newPath) hs1 fun w' s2 hs2 => ?_
  refine Settles.quiet_bind (renameStatus_keeps ((ready_framed h).quiet os) w w') hs2
    fun status s3 hs3 => ?_
  exact settles_sendStatus hs3 hvalid status

theorem processReadlink_settles (hs : Ready h s) (hname : name.length ≤ 256 * 1024) :
    Settles (true = true) id h processReadlink
      (s.withIqueue (putU32 id ++ (putString name ++ rest))) := by
  rw [Settles, processReadlink, wp_bind, wp_getInt, wp_bind, wp_getString hname]
  exact settles_sendStatus (hs.reads rest) rfl _

theorem processSymlink_settles {newName : Bytes} (hs : Ready h s)
    (hname : name.length ≤ 256 * 1024) (hnew : newName.length ≤ 256 * 1024) :
    Settles (true = true) id h processSymlink
      (s.withIqueue (putU32 id ++ (putString name ++ (putString newName ++ rest)))) := by
  rw [Settles, processSymlink, wp_bind, wp_getInt, wp_bind, wp_getString hname, wp_bind,
    wp_getString hnew]
  exact settles_sendStatus (hs.reads rest) rfl _

/-! ## §6 Every request -/

theorem dispatch_settles (r : Request) (hs : Ready h s)
    (hlen : r.fields.length ≤ 256 * 1024) :
    Settles (answered os home s r = true) id h (dispatch os home r.type)
      (s.withIqueue (putU32 id ++ (r.fields ++ rest))) := by
  -- the strings of a request are no longer than the request
  cases r <;> simp only [Request.fields, length_append, putString_length,
    append_assoc] at hlen ⊢
  case open' => exact processOpen_settles hs (by omega) (by omega)
  case close => exact processClose_settles hs (by omega)
  case read => exact processRead_settles hs (by omega)
  case write => exact processWrite_settles hs (by omega) (by omega)
  case lstat | stat => exact processDoStat_settles hs (by omega)
  case fstat => exact processFstat_settles hs (by omega)
  case setstat => exact processSetstat_settles hs (by omega) (by omega)
  case fsetstat => exact processFsetstat_settles hs (by omega) (by omega)
  case opendir => exact processOpendir_settles hs (by omega)
  case readdir => exact processReaddir_settles hs (by omega)
  case remove | rmdir => exact removeWith_settles hs (by omega)
  case mkdir => exact processMkdir_settles hs (by omega) (by omega)
  case realpath => exact processRealpath_settles hs (by omega)
  case rename => exact processRename_settles hs (by omega) (by omega)
  case readlink | extended => exact processReadlink_settles hs (by omega)
  case symlink => exact processSymlink_settles hs (by omega) (by omega)

theorem process_settles (os : Win32 ω) (home : SFTPFilePath) {r : Request}
    (hs : Ready h s) (hmsg : s.iqueue = putString (r.message id rest))
    (hlen : (r.message id rest).length ≤ 256 * 1024) :
    wp (process os home)
      (fun _ s' => (Sent id h s'.toChannel ↔ answered os home s r = true) ∧ s'.iqueue = [])
      (fun _ _ => ¬answered os home s r = true) s := by
  have hfields : r.fields.length ≤ 256 * 1024 := by
    simp only [Request.message, length_append] at hlen
    omega
  have hsize : (r.message id rest).length < size := lt_of_le_of_lt hlen (by decide)
  have hswitch : wp (processSwitch os home)
      (fun _ s' => Sent id h s'.toChannel ↔ answered os home s r = true)
      (fun _ _ => ¬answered os home s r = true) s := by
    have hstate : s = s.withIqueue (putString (r.message id rest)) := by rw [← hmsg]; rfl
    rw [hstate, putString, processSwitch, wp_bind, wp_getInt, wp_bind, Request.message, wp_getType,
      wp_bind]
    refine wp_mono (dispatch_settles r hs hfields) (fun _ s' hsent => ?_) fun _ _ hnot => hnot
    rw [wp_pure]
    exact hsent
  exact process_of_switch os home hmsg hsize hswitch fun _ hsent => ⟨hsent, rfl⟩

/-- **A request gets one reply and `process` goes on, exactly under the condition.** Before, the
queue to the channel holds whole messages, no more than 6 MB of them in the half that is written. -/
theorem one_reply (os : Win32 ω) (home : SFTPFilePath) (id : UInt32) (r : Request) (rest : Bytes)
    (s : SFTP ω) (h : Halves Bytes) (hqueue : Holding s.toChannel h)
    (hroom : s.toChannel.writeBuf.len + 8 ≤ 6 * bufferMaxChunk)
    (hmsg : s.iqueue = putString (r.message id rest))
    (hlen : (r.message id rest).length ≤ 256 * 1024) :
    (returns (process os home) s = true ∧
        Sent id h (endState (process os home) s).toChannel ∧
        (endState (process os home) s).iqueue = []) ↔
      answered os home s r = true := by
  have hprocess := process_settles os home ⟨hqueue, hroom⟩ hmsg hlen
  constructor
  · intro hreply
    obtain ⟨_, hiff, -⟩ := wp_endState hprocess hreply.1
    exact hiff.mp hreply.2.1
  · intro hanswered
    have htotal : wp (process os home)
        (fun _ s' => (Sent id h s'.toChannel ↔ answered os home s r = true) ∧ s'.iqueue = [])
        never s :=
      wp_mono hprocess (fun _ _ hs' => hs') fun _ _ hnot => hnot hanswered
    have hreturns := returns_of_wp htotal
    obtain ⟨_, hiff, hempty⟩ := wp_endState htotal hreturns
    exact ⟨hreturns, hiff.mpr hanswered, hempty⟩

/-- A server with no handles and one request in `iqueue` -/
def asked (r : Request) : SFTP Unit :=
  { iqueue := putString (r.message 7 []), version := 3, world := () }

theorem one_reply_removed :
    answered (brokenSystem 5) someHome (asked (.remove (ascii "a"))) (.remove (ascii "a")) = true ∧
      Sent 7 ⟨[], []⟩
        (endState (process (brokenSystem 5) someHome) (asked (.remove (ascii "a")))).toChannel := by
  have hanswered : answered (brokenSystem 5) someHome (asked (.remove (ascii "a")))
      (.remove (ascii "a")) = true := by decide
  refine ⟨hanswered, ?_⟩
  have hreply := one_reply (brokenSystem 5) someHome 7 (.remove (ascii "a")) []
    (asked (.remove (ascii "a"))) ⟨[], []⟩ HoldsHalves.empty (by decide) rfl (by decide)
  exact (hreply.mpr hanswered).2.1

/-- SSH2_FXP_CLOSE for a handle that is not open and SSH2_FXP_REMOVE for a bad path end the
subsystem; SSH2_FXP_OPENDIR gets no reply when the last error is 0. -/
theorem request_without_reply :
    returns (process (brokenSystem 5) someHome) (asked (.close (ascii "0"))) = false ∧
      returns (process (brokenSystem 5) someHome) (asked (.remove (ascii ".."))) = false ∧
      returns (process (brokenSystem 0) someHome) (asked (.opendir (ascii "a"))) = true ∧
      (endState (process (brokenSystem 0) someHome)
        (asked (.opendir (ascii "a")))).toChannel.nWriteBufMsgs = 0 := by
  decide +kernel

end Shiesh.Sftp
