import Shiesh.Sftp.AttribLaws
import Shiesh.Sftp.Statuses

/-!
# Setting the Attributes of an Open File

`process_fsetstat` sets the size with two calls, and the attributes and times with another: what
was not asked for is read before and written again. A request that names an owner is refused, but
only after the size has been set.

What the calls do is said for one file: its data, and the position of the handle.
-/

namespace Shiesh.Sftp

open Shiesh.Lib Shiesh.Channels
open Attr (acmodtime permissions size uidgid)

variable {ω : Type} {os : Win32 ω} {fh : WinHandle} {a : Attrib}

/-! ## §1 A file -/

/-- A member of `FILE_BASIC_INFO` that is 0 leaves the file as it is. -/
def orKept {α : Type} [OfNat α 0] [DecidableEq α] (new old : α) : α := if new = 0 then old else new

def FileInfo.withBasic (i : FileInfo) (b : BasicInfo) : FileInfo :=
  { i with
    dwFileAttributes := orKept b.fileAttributes i.dwFileAttributes
    ftCreationTime := orKept b.creationTime i.ftCreationTime
    ftLastAccessTime := orKept b.lastAccessTime i.ftLastAccessTime
    ftLastWriteTime := orKept b.lastWriteTime i.ftLastWriteTime }

/-- What the functions for an open file do to it. Each of them may fail, and then has no effect. -/
structure OpenFile (os : Win32 ω) (fh : WinHandle) where
  info : ω → FileInfo
  pointer : ω → UInt64
  setFilePointer_info (offset : UInt64) (w : ω) : info (os.setFilePointer fh offset w).2 = info w
  setFilePointer_pointer (offset : UInt64) (w : ω) :
    (os.setFilePointer fh offset w).1.value = true →
      pointer (os.setFilePointer fh offset w).2 = offset
  setEndOfFile_info (w : ω) : info (os.setEndOfFile fh w).2 =
    if (os.setEndOfFile fh w).1.value then { info w with nFileSize := pointer w } else info w
  getInformation_info (w : ω) : info (os.getFileInformationByHandle fh w).2 = info w
  getInformation_value (w : ω) (i : FileInfo) :
    (os.getFileInformationByHandle fh w).1.value = some i → i = info w
  systemTime_info (w : ω) : info (os.systemTime w).2 = info w
  setInformation_info (b : BasicInfo) (w : ω) : info (os.setFileInformationByHandle fh b w).2 =
    if (os.setFileInformationByHandle fh b w).1.value then (info w).withBasic b else info w

/-! ## §2 Calls -/

section Calls

variable (os : Win32 ω) (fh : WinHandle) (a : Attrib)

/-- The calls that set the size, and the last error if one of them fails -/
def sizeCalls (w : ω) : Option UInt32 × ω :=
  if hasFlag a.flags size then
    let p := os.setFilePointer fh a.size w
    if p.1.value then
      let e := os.setEndOfFile fh p.2
      (if e.1.value then none else some e.1.lastError, e.2)
    else
      (some p.1.lastError, p.2)
  else
    (none, w)

/-- The calls that set attributes and times of a file that was like this before -/
def writeCalls (before : FileInfo) (w : ω) : Option UInt32 × ω :=
  let now := os.systemTime w
  let r := os.setFileInformationByHandle fh (basicInfo a before now.1.value) now.2
  (if r.1.value then none else some r.1.lastError, r.2)

def infoCalls (w : ω) : Option UInt32 × ω :=
  let i := os.getFileInformationByHandle fh w
  match i.1.value with
  | none => (some i.1.lastError, i.2)
  | some before => writeCalls os fh a before i.2

/-- A status stands unless a call fails. -/
def statusAfter (status : UInt32) : Option UInt32 → UInt32
  | none => status
  | some err => errnoToPortable err

/-- The status before the first call: the owner cannot be set. -/
def ownerStatus : UInt32 := if hasFlag a.flags uidgid then Fx.opUnsupported else Fx.ok

/-- `setAttrib` as a function of the system -/
def attribCalls (w : ω) : UInt32 × ω :=
  let size := sizeCalls os fh a w
  if statusAfter (ownerStatus a) size.1 = Fx.ok then
    let info := infoCalls os fh a size.2
    (statusAfter Fx.ok info.1, info.2)
  else
    (statusAfter (ownerStatus a) size.1, size.2)

theorem setSize_runs (status : UInt32) : Runs (setSize os fh a status) fun w =>
    (statusAfter status (sizeCalls os fh a w).1, (sizeCalls os fh a w).2) := by
  refine (Runs.ite (fun _ => (Runs.pure status).checked.checked) fun _ => .pure status).congr ?_
  intro w
  unfold sizeCalls
  by_cases hsize : hasFlag a.flags size
  · simp only [if_pos hsize]
    cases (os.setFilePointer fh a.size w).1.value with
    | false => rfl
    | true =>
      simp only [if_true]
      cases (os.setEndOfFile fh (os.setFilePointer fh a.size w).2).1.value with
      | false => rfl
      | true => rfl
  · simp only [if_neg hsize, statusAfter]

theorem writeCalls_runs (before : FileInfo) :
    Runs (do
        let now ← call os.systemTime
        let res ← call (os.setFileInformationByHandle fh (basicInfo a before now))
        statusOf res)
      fun w => (statusAfter Fx.ok (writeCalls os fh a before w).1,
        (writeCalls os fh a before w).2) := by
  refine ((Runs.call os.systemTime).bind fun now => .last _).congr fun w => ?_
  simp only [writeCalls]
  split
  · rfl
  · rfl

theorem setBasicInfo_runs : Runs (setBasicInfo os fh a) fun w =>
    (statusAfter Fx.ok (infoCalls os fh a w).1, (infoCalls os fh a w).2) := by
  refine .call_bind fun s => ?_
  cases hbefore : (os.getFileInformationByHandle fh s.world).1.value with
  | none =>
    simp only [infoCalls, hbefore]
    exact ⟨_, rfl⟩
  | some before =>
    simp only [infoCalls, hbefore]
    exact writeCalls_runs os fh a before (s.after (os.getFileInformationByHandle fh s.world))

theorem setAttrib_runs : Runs (setAttrib os fh a) (attribCalls os fh a) :=
  (setSize_runs os fh a _).bind fun status =>
    .ite (fun _ => setBasicInfo_runs os fh a) fun _ => .pure status

end Calls

variable (t : UInt32)

/-! ## §3 What was asked for -/

/-- Seconds since 1970 as a `FILETIME` -/
def fileTimeOf (t : UInt32) : FileTime := UInt64.ofNat (t.toNat * 10000000 + 116444736000000000)

/-- The file with the size, the permissions and the times of the request, and otherwise as it was -/
def requested (a : Attrib) (i : FileInfo) : FileInfo :=
  { i with
    nFileSize := if hasFlag a.flags size then a.size else i.nFileSize
    dwFileAttributes :=
      if hasFlag a.flags permissions then toWindowsFilePerm a.perm else i.dwFileAttributes
    ftLastAccessTime :=
      if hasFlag a.flags acmodtime then fileTimeOf a.atime else i.ftLastAccessTime
    ftLastWriteTime :=
      if hasFlag a.flags acmodtime then fileTimeOf a.mtime else i.ftLastWriteTime }

/-- What `process_fsetstat` makes of the request: permissions from the flags word, and times from
signed numbers. -/
structure Exact (a : Attrib) : Prop where
  permissions : hasFlag a.flags permissions →
    toWindowsFilePerm a.flags = toWindowsFilePerm a.perm
  times : hasFlag a.flags acmodtime → a.atime.toNat < 2 ^ 31 ∧ a.mtime.toNat < 2 ^ 31

theorem toNat_toUInt64 {x : Int64} (h : 0 ≤ x.toInt) : (x.toUInt64.toNat : Int) = x.toInt := by
  have hx : x.toInt = _ := BitVec.toInt_eq_toNat_cond x.toBitVec
  have hlt := x.toBitVec.isLt
  split at hx
  · exact hx.symm
  · omega

theorem toInt_toInt32 :
    t.toInt32.toInt = if t.toNat < 2 ^ 31 then (t.toNat : Int) else t.toNat - 2 ^ 32 := by
  have ht : t.toInt32.toInt = _ := BitVec.toInt_eq_toNat_cond t.toBitVec
  rw [ht]
  show (if 2 * t.toNat < 2 ^ 32 then (t.toNat : Int) else t.toNat - 2 ^ 32) = _
  split <;> split <;> omega

theorem timetToFileTime_toNat :
    ((timetToFileTime t).toNat : Int) = t.toInt32.toInt * 10000000 + 116444736000000000 := by
  have hlow := t.toInt32.le_toInt
  have hhigh := t.toInt32.toInt_lt
  have hsum : (t.toInt32.toInt64 * 10000000 + timeAdjust).toInt =
      t.toInt32.toInt * 10000000 + 116444736000000000 := by
    rw [Int64.toInt_add, ticks_toInt]
    exact Int.bmod_eq_of_le (by show _ ≤ t.toInt32.toInt * 10000000 + 116444736000000000; omega)
      (by show t.toInt32.toInt * 10000000 + 116444736000000000 < _; omega)
  rw [timetToFileTime, toNat_toUInt64 (by rw [hsum]; omega), hsum]

theorem timetToFileTime_ne_zero : timetToFileTime t ≠ 0 := by
  have hlow := t.toInt32.le_toInt
  have htime := timetToFileTime_toNat t
  intro hzero
  rw [hzero] at htime
  have hnat : ((0 : UInt64).toNat : Int) = 0 := rfl
  omega

theorem timetToFileTime_eq_iff : timetToFileTime t = fileTimeOf t ↔ t.toNat < 2 ^ 31 := by
  have htime := timetToFileTime_toNat t
  have hlt := t.toNat_lt
  have hof : (fileTimeOf t).toNat = t.toNat * 10000000 + 116444736000000000 :=
    UInt64.toNat_ofNat_of_lt' (by show _ < 18446744073709551616; omega)
  rw [toInt_toInt32] at htime
  rw [← UInt64.toNat_inj, hof]
  split at htime <;> omega

theorem toWindowsFilePerm_ne_zero (p : UInt32) : toWindowsFilePerm p ≠ 0 := by
  rw [toWindowsFilePerm]
  cases hasFlag p 0o222 <;> cases hasFlag p Mode.ifdir <;> decide

variable {α : Type} (i : FileInfo)

theorem orKept_of_ne [OfNat α 0] [DecidableEq α] {new : α} (old : α) (h : new ≠ 0) :
    orKept new old = new := if_neg h

theorem orKept_self [OfNat α 0] [DecidableEq α] (old : α) : orKept old old = old := ite_self _

/-! ### What the calls make of the file -/

def withSize (a : Attrib) (i : FileInfo) : FileInfo :=
  if hasFlag a.flags size then { i with nFileSize := a.size } else i

/-- Attributes and times as the code takes them from the request -/
def withRest (a : Attrib) (i : FileInfo) : FileInfo :=
  { i with
    dwFileAttributes :=
      if hasFlag a.flags permissions then toWindowsFilePerm a.flags else i.dwFileAttributes
    ftLastAccessTime :=
      if hasFlag a.flags acmodtime then timetToFileTime a.atime else i.ftLastAccessTime
    ftLastWriteTime :=
      if hasFlag a.flags acmodtime then timetToFileTime a.mtime else i.ftLastWriteTime }

theorem withBasic_basicInfo (now : FileTime) :
    i.withBasic (basicInfo a i now) = withRest a i := by
  unfold FileInfo.withBasic basicInfo withRest attribToStat
  by_cases hperm : hasFlag a.flags permissions <;>
    by_cases htimes : hasFlag a.flags acmodtime <;>
    simp [hperm, htimes, orKept_self, orKept_of_ne _ (toWindowsFilePerm_ne_zero _),
      orKept_of_ne _ (timetToFileTime_ne_zero _)]

theorem withRest_withSize : withRest a (withSize a i) =
    { requested a i with
      dwFileAttributes := (withRest a i).dwFileAttributes
      ftLastAccessTime := (withRest a i).ftLastAccessTime
      ftLastWriteTime := (withRest a i).ftLastWriteTime } := by
  unfold withRest withSize requested
  by_cases hsize : hasFlag a.flags size <;> simp [hsize]

/-- What is left of a choice between two values when the other one is the same -/
theorem ite_same_iff {c : Prop} [Decidable c] {x y z : α} :
    (if c then x else z) = (if c then y else z) ↔ (c → x = y) := by
  by_cases hc : c <;> simp [hc]

/-- All that was asked for is there exactly if it was read right. -/
theorem withRest_withSize_iff :
    withRest a (withSize a i) = requested a i ↔ Exact a := by
  rw [withRest_withSize, requested, FileInfo.mk.injEq]
  simp only [withRest, ite_same_iff, timetToFileTime_eq_iff, true_and, and_true]
  constructor
  · intro ⟨hperm, hatime, hmtime⟩
    exact ⟨hperm, fun htimes => ⟨hatime htimes, hmtime htimes⟩⟩
  · intro h
    exact ⟨h.permissions, fun htimes => (h.times htimes).1, fun htimes => (h.times htimes).2⟩

theorem sizeCalls_info (F : OpenFile os fh) (w : ω) : F.info (sizeCalls os fh a w).2 =
    if (sizeCalls os fh a w).1 = none then withSize a (F.info w) else F.info w := by
  unfold sizeCalls withSize
  by_cases hsize : hasFlag a.flags size
  · simp only [if_pos hsize]
    cases hseek : (os.setFilePointer fh a.size w).1.value with
    | false => simp [F.setFilePointer_info]
    | true =>
      simp only [if_true]
      rw [F.setEndOfFile_info, F.setFilePointer_info, F.setFilePointer_pointer _ _ hseek]
      cases (os.setEndOfFile fh (os.setFilePointer fh a.size w).2).1.value with
      | false => simp
      | true => simp
  · simp [hsize]

theorem writeCalls_info (F : OpenFile os fh) (w : ω) :
    F.info (writeCalls os fh a (F.info w) w).2 =
      if (writeCalls os fh a (F.info w) w).1 = none then withRest a (F.info w) else F.info w := by
  simp only [writeCalls]
  rw [F.setInformation_info, F.systemTime_info, withBasic_basicInfo]
  split <;> simp

theorem infoCalls_info (F : OpenFile os fh) (w : ω) : F.info (infoCalls os fh a w).2 =
    if (infoCalls os fh a w).1 = none then withRest a (F.info w) else F.info w := by
  cases hbefore : (os.getFileInformationByHandle fh w).1.value with
  | none => simp [infoCalls, hbefore, F.getInformation_info]
  | some before =>
    have hsame : before = F.info (os.getFileInformationByHandle fh w).2 := by
      rw [F.getInformation_value w before hbefore, F.getInformation_info]
    have hwrite := writeCalls_info (a := a) F (os.getFileInformationByHandle fh w).2
    simp only [infoCalls, hbefore, hsame]
    rw [hwrite, F.getInformation_info]

/-! ## §4 The reply and the file -/

section Reply

variable (F : OpenFile os fh) (a : Attrib) (w : ω)

/-- None of the calls fails. -/
def AllSucceed (os : Win32 ω) (fh : WinHandle) : Prop :=
  (sizeCalls os fh a w).1 = none ∧ (infoCalls os fh a (sizeCalls os fh a w).2).1 = none

/-- A request with an owner is refused and changes nothing; and SSH2_FX_OK, when no call fails,
means that just what was asked for has been done. -/
structure FsetstatRight (status : UInt32) (w' : ω) : Prop where
  refuses : hasFlag a.flags uidgid → status ≠ Fx.ok ∧ F.info w' = F.info w
  applies : AllSucceed a w os fh → status = Fx.ok → F.info w' = requested a (F.info w)

/-- The calls for the size do not change the file, and their last error (if they fail) is not
taken for success. -/
def Refused : Prop :=
  match (sizeCalls os fh a w).1 with
  | none => hasFlag a.flags size → (F.info w).nFileSize = a.size
  | some err => err ≠ 0 ∨ ∃ err', (infoCalls os fh a (sizeCalls os fh a w).2).1 =
      some err' ∧ err' ≠ 0

end Reply

variable {F : OpenFile os fh} {w : ω}

theorem withSize_eq_self_iff :
    withSize a i = i ↔ (hasFlag a.flags size → i.nFileSize = a.size) := by
  unfold withSize
  by_cases hsize : hasFlag a.flags size
  · rw [if_pos hsize]
    constructor
    · intro h _
      exact (congrArg FileInfo.nFileSize h).symm
    · intro h
      rw [← h hsize]
  · exact iff_of_true (if_neg hsize) fun h => absurd h hsize

theorem attribCalls_stops (h : statusAfter (ownerStatus a) (sizeCalls os fh a w).1 ≠ Fx.ok) :
    attribCalls os fh a w =
      (statusAfter (ownerStatus a) (sizeCalls os fh a w).1, (sizeCalls os fh a w).2) := if_neg h

theorem attribCalls_continues (h : statusAfter (ownerStatus a) (sizeCalls os fh a w).1 = Fx.ok) :
    attribCalls os fh a w =
      (statusAfter Fx.ok (infoCalls os fh a (sizeCalls os fh a w).2).1,
        (infoCalls os fh a (sizeCalls os fh a w).2).2) := if_pos h

theorem attribCalls_owner (howner : hasFlag a.flags uidgid) :
    FsetstatRight F a w (attribCalls os fh a w).1 (attribCalls os fh a w).2 ↔ Refused F a w := by
  have hstatus : ownerStatus a = Fx.opUnsupported := if_pos howner
  have hinfo := sizeCalls_info (a := a) F w
  unfold Refused
  cases hsize : (sizeCalls os fh a w).1 with
  | none =>
    -- the size has been set, and the status is SSH2_FX_OP_UNSUPPORTED
    rw [hsize, if_pos rfl] at hinfo
    rw [attribCalls_stops (by rw [hsize, hstatus]; decide), hsize, hstatus]
    simp only [← withSize_eq_self_iff, ← hinfo]
    constructor
    · intro h
      exact (h.refuses howner).2
    · intro h
      exact ⟨fun _ => ⟨by decide, h⟩, fun _ hok => absurd hok (by decide)⟩
  | some err =>
    rw [hsize, if_neg (by simp)] at hinfo
    have hfails : ¬AllSucceed a w os fh := fun h => by
      rw [AllSucceed, hsize] at h
      cases h.1
    by_cases herr : err = 0
    · -- the failure looks like success: attributes and times are set as well
      have hrest := infoCalls_info (a := a) F (sizeCalls os fh a w).2
      rw [attribCalls_continues (by rw [hsize, herr]; rfl)]
      cases hcalls : (infoCalls os fh a (sizeCalls os fh a w).2).1 with
      | none =>
        refine iff_of_false (fun h => (h.refuses howner).1 rfl) ?_
        simp [herr]
      | some err' =>
        rw [hcalls, if_neg (by simp), hinfo] at hrest
        simp only [herr, ne_eq, not_true_eq_false, false_or, Option.some.injEq, exists_eq_left']
        rw [← errnoToPortable_eq_ok]
        constructor
        · intro h
          exact (h.refuses howner).1
        · intro h
          exact ⟨fun _ => ⟨h, hrest⟩, fun hall => absurd hall hfails⟩
    · have hne : errnoToPortable err ≠ Fx.ok := by rwa [ne_eq, errnoToPortable_eq_ok]
      rw [attribCalls_stops (by rw [hsize]; exact hne), hsize]
      exact iff_of_true ⟨fun _ => ⟨hne, hinfo⟩, fun hall => absurd hall hfails⟩ (.inl herr)

theorem attribCalls_noOwner (howner : ¬hasFlag a.flags uidgid) :
    FsetstatRight F a w (attribCalls os fh a w).1 (attribCalls os fh a w).2 ↔
      (AllSucceed a w os fh → Exact a) := by
  have hstatus : ownerStatus a = Fx.ok := if_neg howner
  by_cases hall : AllSucceed a w os fh
  · obtain ⟨hsize, hcalls⟩ := hall
    have hinfo : F.info (infoCalls os fh a (sizeCalls os fh a w).2).2 =
        withRest a (withSize a (F.info w)) := by
      rw [infoCalls_info, if_pos hcalls, sizeCalls_info, if_pos hsize]
    rw [attribCalls_continues (by rw [hsize, hstatus]; rfl), hcalls,
      ← withRest_withSize_iff, ← hinfo]
    constructor
    · intro h hall
      exact h.applies hall rfl
    · intro h
      exact ⟨fun hflag => absurd hflag howner, fun hall _ => h hall⟩
  · exact iff_of_true ⟨fun hflag => absurd hflag howner,
      fun h => absurd h hall⟩ fun h => absurd h hall

/-! ### The request -/

section Request

variable {s : SFTP ω} {handle body rest : Bytes} {id : UInt32}

theorem getHandle_ok (hfile : refersTo os s handle .file = true) :
    getHandle os (s.withIqueue (putString handle ++ rest)) =
      .ok (handleNumber os s handle) (s.withIqueue rest) := by
  have hlen : handle.length ≤ 256 * 1024 := by
    simp only [refersTo, Bool.and_eq_true, decide_eq_true_eq] at hfile
    omega
  have hread : wp (getHandle os) (fun i s' => i = handleNumber os s handle ∧ s' = s.withIqueue rest)
      never (s.withIqueue (putString handle ++ rest)) := by
    refine wp_mono (getHandle_spec hlen) (fun i s' hi => ⟨hi.2.number .file hfile, hi.1⟩) ?_
    intro _ _ hnone
    rw [hnone .file (by decide)] at hfile
    cases hfile
  obtain ⟨_, _, hok, rfl, rfl⟩ := ok_of_wp_total hread
  exact hok

theorem handleToFh_ok (hfile : refersTo os s handle .file = true) :
    handleToFh (handleNumber os s handle) (s.withIqueue rest) =
      .ok (fileOf os s handle) (s.withIqueue rest) := by
  have hok : s.handleIsOk (handleNumber os s handle) .file = true := by
    rw [refersTo, Bool.and_eq_true] at hfile
    exact hfile.2
  obtain ⟨e, he⟩ := handleAt_of_isOk hok
  have hentry : (s.withIqueue rest).handleAt (handleNumber os s handle) = some e := he
  have hok' : (s.withIqueue rest).handleIsOk (handleNumber os s handle) .file = true := hok
  have hread : wp (handleToFh (handleNumber os s handle))
      (fun x s' => x = fileOf os s handle ∧ s' = s.withIqueue rest) never
      (s.withIqueue rest) := by
    rw [handleToFh, handleTo, wp_read, hentry]
    simp only [hok', if_true, wp_pure, and_true]
    rw [fileOf, SFTP.memberAt, he]
    rfl
  obtain ⟨_, _, hok, rfl, rfl⟩ := ok_of_wp_total hread
  exact hok

/-- SSH2_FXP_FSETSTAT for an open file does what it should exactly if

- a request with an owner has no size (or that of the file, or the size cannot be set); and
- without an owner, when no call fails, permissions and times are such that they are read right.
-/
theorem fsetstat_right_iff (F : OpenFile os (fileOf os s handle)) (hroom : HasRoom s)
    (hfile : refersTo os s handle .file = true) (hopen : fileOf os s handle ≠ invalidHandleValue)
    (ha : decodeAttrib body = .ok a rest) :
    AnswersStatus (processFsetstat os) id (FsetstatRight F a s.world) (fun _ => False)
        (s.withIqueue (putU32 id ++ (putString handle ++ body))) ↔
      if hasFlag a.flags uidgid then Refused F a s.world
      else AllSucceed a s.world os (fileOf os s handle) → Exact a := by
  rw [processFsetstat, answersStatus_bind getInt_ok rfl rfl,
    answersStatus_bind (getHandle_ok hfile) rfl rfl, answersStatus_bind (getAttrib_ok ha) rfl rfl,
    answersStatus_bind (handleToFh_ok hfile) rfl rfl, whenValid, if_pos hopen]
  obtain ⟨err, hcalls⟩ := setAttrib_runs os (fileOf os s handle) a (s.withIqueue rest)
  rw [answersStatus_bind hcalls rfl rfl,
    answersStatus_send_iff ((hroom.withIqueue rest).inWorld _ err)]
  by_cases howner : hasFlag a.flags uidgid
  · rw [if_pos howner]
    exact attribCalls_owner howner
  · rw [if_neg howner]
    exact attribCalls_noOwner howner

end Request

/-! ### A file to look at -/

/-- A system with one file, and the position of its handle -/
def disk : Win32 (Unit × (FileInfo × UInt64)) :=
  { (brokenSystem 5).beside (FileInfo × UInt64) with
    setFilePointer := fun _ offset w => (⟨true, 0⟩, (w.1, (w.2.1, offset)))
    setEndOfFile := fun _ w => (⟨true, 0⟩, (w.1, ({ w.2.1 with nFileSize := w.2.2 }, w.2.2)))
    getFileInformationByHandle := fun _ w => (⟨some w.2.1, 0⟩, w)
    setFileInformationByHandle := fun _ b w => (⟨true, 0⟩, (w.1, (w.2.1.withBasic b, w.2.2))) }

def diskFile (fh : WinHandle) : OpenFile disk fh where
  info w := w.2.1
  pointer w := w.2.2
  setFilePointer_info _ _ := rfl
  setFilePointer_pointer _ _ _ := rfl
  setEndOfFile_info _ := rfl
  getInformation_info _ := rfl
  getInformation_value _ _ h := (Option.some.inj h).symm
  systemTime_info _ := rfl
  setInformation_info _ _ := rfl

/-- A writable file of nine bytes is open, under the number 0. -/
def nineBytes : SFTP (Unit × (FileInfo × UInt64)) where
  version := 3
  handles := [{ use := .file, dirp := 0, fileHandle := 8, path := someHome }]
  world := ((), { dwFileAttributes := FileAttribute.normal, nFileSize := 9 }, 0)

/-- SSH2_FXP_FSETSTAT for this file, without the type -/
def nineBytesAsked (a : Attrib) : SFTP (Unit × (FileInfo × UInt64)) :=
  nineBytes.withIqueue (putU32 7 ++ (putString (ascii "0") ++ encodeAttrib a))

/-- The size and nothing else -/
theorem fsetstat_right_iff_size :
    AnswersStatus (processFsetstat disk) 7
      (FsetstatRight (diskFile (fileOf disk nineBytes (ascii "0"))) { flags := size, size := 5 }
        nineBytes.world) (fun _ => False)
      (nineBytesAsked { flags := size, size := 5 }) := by
  have hroom : HasRoom nineBytes := show _ ≤ _ by decide
  have hdecode : decodeAttrib (encodeAttrib { flags := size, size := 5 }) =
      .ok { flags := size, size := 5 } [] := rfl
  refine (fsetstat_right_iff _ hroom (by decide) (by decide) hdecode).mpr ?_
  rw [if_neg (by decide)]
  intro _
  exact ⟨fun h => absurd h (by decide), fun h => absurd h (by decide)⟩

/-- A request that names an owner is refused with SSH2_FX_OP_UNSUPPORTED, and the file has been cut
off. A file that is to get the permissions 0644 becomes read-only. -/
theorem fsetstat_half_done :
    let owner : Attrib := { flags := size ||| uidgid, size := 5, uid := 1, gid := 1 }
    let s := endState (processFsetstat disk) (nineBytesAsked owner)
    let writable : Attrib := { flags := permissions, perm := 0o644 }
    let s' := endState (processFsetstat disk) (nineBytesAsked writable)
    (s.toChannel.writeBuf.contents = putString (statusReply 3 7 Fx.opUnsupported) ∧
      nineBytes.world.2.1.nFileSize = 9 ∧ s.world.2.1.nFileSize = 5) ∧
    s'.toChannel.writeBuf.contents = putString (statusReply 3 7 Fx.ok) ∧
      s'.world.2.1.dwFileAttributes = FileAttribute.readonly ∧
      toWindowsFilePerm 0o644 = FileAttribute.normal := by
  decide +kernel

end Shiesh.Sftp
