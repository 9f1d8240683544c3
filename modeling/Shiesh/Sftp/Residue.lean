import Shiesh.Sftp.Walk

/-!
# What a Handler Leaves of a Message

`process` throws away what its handler has left of the message. It looks first whether there is
more than the message had at the beginning, and whether more has been taken than there was; both
would end the subsystem. Neither can happen, whatever stands in the message: a handler only takes
from `iqueue`.
-/

namespace Shiesh.Sftp

open Shiesh.Lib Shiesh.Channels UInt32

variable {ω α : Type}

/-! ## §1 Handlers -/

/-- No more than `n` bytes are left in `iqueue`. -/
def Left (n : Nat) (s : SFTP ω) : Prop := s.iqueue.length ≤ n

theorem left_framed (n : Nat) : Framed (Left (ω := ω) n) := fun _ _ hiqueue _ hs => by
  rw [Left, hiqueue]
  exact hs

section Handlers

variable {n : Nat}

theorem onIqueue_left {g : Get α} (hg : Shrinks g) : Keeps (Left (ω := ω) n) (onIqueue g) := by
  intro s hs
  rw [onIqueue, wp_zoomWith]
  exact hg n s.iqueue hs

theorem sendMsg_left (parts : List Bytes) : Keeps (Left (ω := ω) n) (sendMsg parts) :=
  sendMsg_keeps (fun _ _ hs => hs) parts

variable (os : Win32 ω) (home : SFTPFilePath)

theorem left_walk (n : Nat) : Walk os (Left n) (Left n) where
  toQuiet := (left_framed n).quiet os
  ends _ hs := hs
  reads := onIqueue_left
  version _ _ hs := hs
  sends _ := sendMsg_left _

theorem openHandle_left (id : UInt32) (fh : WinHandle) {new : SftpM ω Int}
    (hnew : Keeps (Left n) new) : Keeps (Left n) (openHandle os id fh new) := by
  refine .ite lastStatus_keeps (hnew.bind fun _ => .ite ?_ ?_)
  · exact (call_keeps (left_framed n) _).bind fun _ => .pure _
  · exact (sendMsg_left _).bind fun _ => .pure _

theorem processOpen_left : Keeps (Left n) (processOpen os home) := by
  refine (left_walk os n).guarded fun _ => (onIqueue_left .string).bind fun _ => ?_
  refine (onIqueue_left .int).bind fun _ => (onIqueue_left .attrib).bind fun _ => ?_
  refine (makePath_keeps os home _).bind fun _ => (forCall_keeps _).bind fun _ => ?_
  refine (call_keeps (left_framed n) _).bind fun _ => ?_
  exact openHandle_left os _ _ (handleNew_keeps (left_framed n) _ _ _ _)

theorem processOpendir_left : Keeps (Left n) (processOpendir os home) := by
  refine (left_walk os n).guarded fun _ => (onIqueue_left .string).bind fun _ => ?_
  refine (makePath_keeps os home _).bind fun _ => (forCall_keeps _).bind fun _ => ?_
  refine (call_keeps (left_framed n) _).bind fun _ => ?_
  exact openHandle_left os _ _ (handleNew_keeps (left_framed n) _ _ _ _)

/-- **Handlers only take from `iqueue`**, whatever stands there. -/
theorem dispatch_left (type : UInt8) : Keeps (Left n) (dispatch os home type) := by
  have hw := left_walk os n
  have hI := left_framed (ω := ω) n
  refine .ite hw.init (.ite (processOpen_left os home) ?_)
  refine .ite (hw.processClose hI) (.ite hw.processRead ?_)
  refine .ite hw.processWrite (.ite (hw.processDoStat home) ?_)
  refine .ite hw.processFstat (.ite (hw.processSetstat home) ?_)
  refine .ite hw.processFsetstat (.ite (processOpendir_left os home) ?_)
  refine .ite (hw.processReaddir hI) (.ite (hw.removeWith home .deleteFile) ?_)
  refine .ite (hw.processMkdir home) (.ite (hw.removeWith home .removeDirectory) ?_)
  refine .ite (hw.processRealpath home sendMsg_left) (.ite (hw.processDoStat home) ?_)
  refine .ite (hw.processRename home) (.ite hw.unsupported ?_)
  exact .ite hw.processSymlink (.ite hw.unsupported (.pure ()))

end Handlers

/-! ## §2 process -/

variable (os : Win32 ω) (home : SFTPFilePath)

/-- `process` up to the end of the `switch` -/
def processSwitch : SftpM ω UInt32 := do
  let msgLen ← getInt
  let type ← onIqueue bufferGetChar
  dispatch os home type
  pure msgLen

theorem process_eq : process os home = processSwitch os home >>= discardRest := by
  simp only [process, processSwitch, bind_assoc, pure_bind]

/-- "iqueue grew unexpectedly" -/
def iqueueGrew (msgLen : UInt32) (s : SFTP ω) : Bool := msgLen < UInt32.ofNat s.iqueue.length

/-- "msg_len %d < consumed %d" -/
def consumedMore (msgLen : UInt32) (s : SFTP ω) : Bool :=
  msgLen < msgLen - UInt32.ofNat s.iqueue.length

variable {msgLen : UInt32} {s : SFTP ω} {msg : Bytes}

theorem iqueueGrew_of_left (h : Left msgLen.toNat s) : iqueueGrew msgLen s = false := by
  have hleft : (ofNat s.iqueue.length).toNat = s.iqueue.length :=
    toNat_ofNat_of_lt (lt_of_le_of_lt h msgLen.toNat_lt)
  rw [iqueueGrew, decide_eq_false_iff_not, lt_iff_toNat_lt, hleft]
  exact not_lt.mpr h

theorem consumedMore_of_left (h : Left msgLen.toNat s) : consumedMore msgLen s = false := by
  have hle : UInt32.ofNat s.iqueue.length ≤ msgLen := by
    have := iqueueGrew_of_left h
    rw [iqueueGrew, decide_eq_false_iff_not] at this
    exact UInt32.not_lt.mp this
  rw [consumedMore, decide_eq_false_iff_not, UInt32.lt_iff_toNat_lt, UInt32.toNat_sub_of_le _ _ hle]
  omega

/-- What is left is thrown away: nothing else changes. -/
theorem discardRest_empties (h : Left msgLen.toNat s) :
    wp (discardRest msgLen) (fun _ s' => s' = { s with iqueue := [] }) never s := by
  have hleft : (UInt32.ofNat s.iqueue.length).toNat = s.iqueue.length :=
    UInt32.toNat_ofNat_of_lt (lt_of_le_of_lt h msgLen.toNat_lt)
  have hgrew : ¬msgLen < UInt32.ofNat s.iqueue.length :=
    of_decide_eq_false (iqueueGrew_of_left h)
  have hmore : ¬msgLen < msgLen - UInt32.ofNat s.iqueue.length :=
    of_decide_eq_false (consumedMore_of_left h)
  have hconsumed : (msgLen - UInt32.ofNat s.iqueue.length).toNat =
      msgLen.toNat - s.iqueue.length := by
    rw [UInt32.toNat_sub_of_le _ _ (UInt32.not_lt.mp hgrew), hleft]
  have hback : (msgLen - (msgLen - UInt32.ofNat s.iqueue.length)).toNat = s.iqueue.length := by
    rw [UInt32.toNat_sub_of_le _ _ (UInt32.not_lt.mp hmore), hconsumed]
    exact Nat.sub_sub_self h
  rw [discardRest, wp_read, if_neg hgrew, if_neg hmore, wp_ite]
  refine ⟨fun _ => ?_, fun hnone => ?_⟩
  · have htake : s.iqueue = s.iqueue ++ [] := (List.append_nil _).symm
    rw [wp_bind, onIqueue, wp_zoomWith, hback, htake, wp_bufferGetOr _ (by simp), wp_pure]
  · -- all has been read
    have hzero : s.iqueue.length = 0 := by
      rw [gt_iff_lt, UInt32.lt_iff_toNat_lt, hconsumed] at hnone
      have : s.iqueue.length ≤ msgLen.toNat := h
      omega
    rw [wp_pure, ← List.length_eq_zero_iff.mp hzero]

variable (hmsg : s.iqueue = putString msg) (hlen : msg.length < size)

include hmsg hlen

/-- When the `switch` is left normally, no more is in `iqueue` than the message had. -/
theorem processSwitch_left :
    wp (processSwitch os home) (fun msgLen => Left msgLen.toNat) any s := by
  have hlen' : (ofNat msg.length).toNat = msg.length := toNat_ofNat_of_lt hlen
  have hstart : Left msg.length { s with iqueue := msg } := le_rfl
  rw [processSwitch, wp_bind, getInt, onIqueue, wp_zoomWith, hmsg, putString, wp_bufferGetInt]
  have htype : Keeps (Left (ω := ω) msg.length) (onIqueue bufferGetChar) :=
    onIqueue_left ((Shrinks.getOr _ 1).bind fun _ => Shrinks.pure _)
  refine wp_seq_any (htype _ hstart) fun type s1 hs1 => ?_
  refine wp_seq_any (dispatch_left os home type s1 hs1) fun _ s2 hs2 => ?_
  rw [wp_pure, hlen']
  exact hs2

/-- What the handler has left of the message is discarded. -/
theorem process_of_switch {Q R : SFTP ω → Prop} {E : SftpError → SFTP ω → Prop}
    (hswitch : wp (processSwitch os home) (fun _ => Q) E s)
    (hR : ∀ s', Q s' → R { s' with iqueue := [] }) : wp (process os home) (fun _ => R) E s := by
  rw [process_eq, wp_bind]
  refine wp_and_mono hswitch (processSwitch_left os home hmsg hlen) fun _ s1 hs1 => ?_
  refine wp_mono_total (discardRest_empties hs1.2) fun _ s2 hs2 => ?_
  rw [hs2]
  exact hR s1 hs1.1

/-- **`process` leaves `iqueue` empty whenever it returns**, whatever the message is. -/
theorem process_empties : wp (process os home) (fun _ s' => s'.iqueue = []) any s := by
  have hswitch := wp_weaken (processSwitch_left os home hmsg hlen) fun _ _ _ => trivial
  exact process_of_switch os home hmsg hlen hswitch fun _ _ => rfl

end Shiesh.Sftp
