import Shiesh.Channels.Stock
import Shiesh.Sftp.OneReply

/-!
# What Goes into the Queue to the Channel

Whatever stands in a message, `process` puts whole replies into `toChannel`, and none that is longer
than a string may be, as long as there is room, and the reply to SSH2_FXP_REALPATH is not too long.

Some handlers send their reply inside of `try`. If this fails there, the length field of the reply
may be in the queue already, and the handler goes on. So there nothing may fail; elsewhere, what
fails to be put ends `process`.
-/

namespace Shiesh.Sftp

open Shiesh.Lib Shiesh.Channels List
open BusyThreadReadBuffer (Queues)

variable {ω α : Type} {msgs : List Bytes} {s : SFTP ω} {I : SFTP ω → Prop}

/-! ## §1 Sending -/

/-- Since `msgs` have been in the queue, whole replies have come to it. -/
def Adds (msgs : List Bytes) (s : SFTP ω) : Prop :=
  ∃ rs, Queues True s.toChannel (msgs ++ rs) ∧ ∀ r ∈ rs, r.length ≤ maxString

/-- Nothing has come to the queue, and there is room for a reply. -/
structure Clear (msgs : List Bytes) (s : SFTP ω) : Prop where
  queue : Queues True s.toChannel msgs
  room : s.toChannel.writeBuf.len + 4 ≤ 6 * bufferMaxChunk

theorem Clear.adds (hs : Clear msgs s) : Adds msgs s := by
  refine ⟨[], ?_, fun _ hr => absurd hr not_mem_nil⟩
  rw [append_nil]
  exact hs.queue

/-- What depends on the queue only. -/
def OfQueue (I : SFTP ω → Prop) : Prop := ∀ s s', s'.toChannel = s.toChannel → I s → I s'

theorem OfQueue.framed (hI : OfQueue I) : Framed I := fun s s' _ hchannel => hI s s' hchannel

theorem adds_ofQueue (msgs : List Bytes) : OfQueue (Adds (ω := ω) msgs) :=
  fun s s' hchannel hs => by
  rw [Adds, hchannel]
  exact hs

theorem clear_ofQueue (msgs : List Bytes) : OfQueue (Clear (ω := ω) msgs) :=
  fun s s' hchannel hs => by
  refine ⟨?_, ?_⟩
  · rw [hchannel]
    exact hs.queue
  · rw [hchannel]
    exact hs.room

theorem adds_framed (msgs : List Bytes) : Framed (Adds (ω := ω) msgs) := (adds_ofQueue msgs).framed

theorem clear_framed (msgs : List Bytes) : Framed (Clear (ω := ω) msgs) :=
  (clear_ofQueue msgs).framed

theorem appendAll_spec (parts : List Bytes) (b : Buffer) :
    wp (appendAll parts) (fun _ b' => b'.contents = b.contents ++ parts.flatten) any
      b := by
  induction parts generalizing b with
  | nil =>
    rw [appendAll, wp_pure, flatten_nil, append_nil]
  | cons part parts ih =>
    rw [appendAll]
    refine wp_seq_any (Buffer.append_spec part b) fun _ b1 h1 => ?_
    refine wp_weaken (ih b1) fun _ b2 h2 => ?_
    rw [h2, h1, flatten_cons, append_assoc]

variable {parts : List Bytes}

/-- A reply comes to the queue, or the handler ends. -/
theorem sendMsg_queues {queued : List Bytes} (hq : Queues True s.toChannel queued) :
    wp (sendMsg parts) (fun _ s' => Queues True s'.toChannel (queued ++ [parts.flatten]))
      any s := by
  have hmade := appendAll_spec parts .init
  rw [sendMsg]
  cases happend : appendAll parts .init with
  | error e _ =>
    rw [wp_throw]
    trivial
  | ok _ b =>
    have hcontents : b.contents = parts.flatten := by
      have h := (wp_of_ok happend).mp hmade
      rwa [Buffer.contents_init, nil_append] at h
    rw [wp_zoomWith, hcontents]
    exact wp_weaken (BusyThreadReadBuffer.put_queues hq parts.flatten) fun _ _ hq' => hq'

/-- Where there is room it comes to the queue. -/
theorem sendMsg_puts (hlen : parts.flatten.length ≤ bufferMaxChunk) (hs : Clear msgs s) :
    wp (sendMsg parts) (fun _ s' => Queues True s'.toChannel (msgs ++ [parts.flatten]))
      never s := by
  have hfits : wp (sendMsg parts) any never s := by
    refine wp_sendMsg (fun part hpart => (part_length_le hpart).trans hlen)
      (hlen.trans (by decide)) ?_
    exact wp_mono_total (Buffer.putString_fits hs.room hlen) fun _ _ _ => trivial
  exact wp_mono (wp_and (sendMsg_queues hs.queue) hfits) (fun _ _ h => h.1) fun _ _ h => h.2

theorem sendMsg_adds (hlen : parts.flatten.length ≤ maxString) :
    Keeps (Adds (ω := ω) msgs) (sendMsg parts) fun _ => True := by
  intro s hs
  obtain ⟨rs, hq, hshort⟩ := hs
  refine wp_weaken (sendMsg_queues hq) fun _ s' hq' => ⟨rs ++ [parts.flatten], ?_, fun r hr => ?_⟩
  · rw [← append_assoc]
    exact hq'
  · rcases mem_append.mp hr with hbefore | hlast
    · exact hshort r hbefore
    · rw [mem_singleton.mp hlast]
      exact hlen

theorem sendMsg_clear (hlen : parts.flatten.length ≤ maxString) (hs : Clear msgs s) :
    wp (sendMsg parts) (fun _ => Adds msgs) never s := by
  refine wp_mono_total (sendMsg_puts (hlen.trans (by decide)) hs) fun _ s' hq => ?_
  refine ⟨[parts.flatten], hq, fun r hr => ?_⟩
  rw [mem_singleton.mp hr]
  exact hlen

/-! ## §2 Handlers that do not catch what is thrown -/

theorem adds_walk (os : Win32 ω) (msgs : List Bytes) : Walk os (Adds msgs) fun _ => True where
  toQuiet := (adds_framed msgs).quiet os
  ends _ _ := trivial
  reads _ := onIqueue_keeps (fun _ _ hs => hs) _
  version _ _ hs := hs
  sends hlen := sendMsg_adds hlen

/-! ## §3 Handlers that catch what is thrown -/

theorem clear_reads (g : Get α) : Keeps (Clear (ω := ω) msgs) (onIqueue g) :=
  onIqueue_keeps (fun _ _ hs => ⟨hs.queue, hs.room⟩) g

theorem Clear.withIqueue (hs : Clear msgs s) (b : Bytes) : Clear msgs (s.withIqueue b) :=
  ⟨hs.queue, hs.room⟩

section Guarded

variable (os : Win32 ω) (home : SFTPFilePath)

variable (hs : Clear msgs s)
include hs

/-- Inside of `try` a reply is put, or what is there is left alone. -/
theorem guarded_adds {body : UInt32 → SftpM ω UInt32}
    (hbody : ∀ id rest, s.iqueue = putU32 id ++ rest →
      wp (body id) (fun _ => Adds msgs) (fun _ => Adds msgs) (s.withIqueue rest)) :
    wp (guarded os body) (fun _ => Adds msgs) any s := by
  have hw := adds_walk os msgs
  rw [guarded, wp_bind, catching, wp_tryCatch, wp_bind]
  refine wp_mono (getInt_takes s) (fun id s1 h1 => ?_) fun _ s1 h1 => ?_
  · obtain ⟨rest, hid, rfl⟩ := h1
    rw [wp_pure]
    rw [wp_bind, catching, wp_tryCatch]
    refine wp_mono (hbody id rest hid) (fun status s2 h2 => hw.unlessOk id status s2 h2)
      fun _ s2 h2 => ?_
    rw [wp_pure]
    exact hw.unlessOk id Fx.failure s2 h2
  · obtain ⟨rest, rfl⟩ := h1
    rw [wp_pure]
    refine ((uninitialized_keeps os).bind fun id => hw.sendStatus id _) _ ?_
    exact (hs.withIqueue rest).adds

/-- What only reads and looks, and then goes on -/
theorem Clear.bind {m : SftpM ω α} {k : α → SftpM ω UInt32}
    (hm : Keeps (Clear msgs) m)
    (hk : ∀ a s, Clear msgs s → wp (k a) (fun _ => Adds msgs) (fun _ => Adds msgs) s) :
    wp (m >>= k) (fun _ => Adds msgs) (fun _ => Adds msgs) s := by
  rw [wp_bind]
  exact wp_mono (hm s hs) (fun a s1 h1 => hk a s1 h1) fun _ _ h1 => h1.adds

omit hs in
theorem sends_then {parts : List Bytes} (hlen : parts.flatten.length ≤ maxString)
    (status : UInt32) (hs : Clear msgs s) :
    wp (do sendMsg parts; pure status) (fun _ => Adds msgs) (fun _ => Adds msgs) s := by
  refine wp_seq_total (sendMsg_clear hlen hs) fun _ s1 h1 => ?_
  rw [wp_pure]
  exact h1

theorem lastStatus_adds :
    wp (lastStatus : SftpM ω UInt32) (fun _ => Adds msgs) (fun _ => Adds msgs) s :=
  lastStatus_keeps s hs.adds

omit hs in
theorem openHandle_adds (id : UInt32) (fh : WinHandle) {new : SftpM ω Int}
    (hnew : Keeps (Clear msgs) new) (hs : Clear msgs s) :
    wp (openHandle os id fh new) (fun _ => Adds msgs) (fun _ => Adds msgs) s := by
  rw [openHandle, wp_ite]
  refine ⟨fun _ => lastStatus_adds hs, fun _ => hs.bind hnew fun handle s1 h1 => ?_⟩
  rw [wp_ite]
  refine ⟨fun _ => ?_, fun _ => sends_then ?_ _ h1⟩
  · exact ((call_keeps (adds_framed msgs) _).bind fun _ => .pure _) s1 h1.adds
  · rw [dataOrHandle_length]
    exact le_trans (Nat.add_le_add_left (handleToString_length_le handle) 9) (by decide)

theorem processOpen_adds :
    wp (processOpen os home) (fun _ => Adds msgs) any s := by
  have hI := clear_framed (ω := ω) msgs
  refine guarded_adds os hs fun id rest _ => ?_
  refine (hs.withIqueue rest).bind (clear_reads _) fun _ _ h1 => ?_
  refine h1.bind (clear_reads _) fun _ _ h2 => h2.bind (clear_reads _) fun _ _ h3 => ?_
  refine h3.bind (makePath_keeps os home _) fun path _ h4 => ?_
  refine h4.bind (forCall_keeps path) fun _ _ h5 => h5.bind (call_keeps hI _) fun _ _ h6 => ?_
  exact openHandle_adds os id _ (handleNew_keeps hI _ _ _ _) h6

theorem processOpendir_adds :
    wp (processOpendir os home) (fun _ => Adds msgs) any s := by
  have hI := clear_framed (ω := ω) msgs
  refine guarded_adds os hs fun id rest _ => ?_
  refine (hs.withIqueue rest).bind (clear_reads _) fun _ _ h1 => ?_
  refine h1.bind (makePath_keeps os home _) fun path _ h2 => ?_
  refine h2.bind (forCall_keeps path) fun _ _ h3 => h3.bind (call_keeps hI _) fun _ _ h4 => ?_
  exact openHandle_adds os id _ (handleNew_keeps hI _ _ _ _) h4

theorem processDoStat_adds :
    wp (processDoStat os home) (fun _ => Adds msgs) any s := by
  refine guarded_adds os hs fun id rest _ => ?_
  refine (hs.withIqueue rest).bind (clear_reads _) fun _ _ h1 => ?_
  refine h1.bind (makePath_keeps os home _) fun path _ h2 => ?_
  refine h2.bind (forCall_keeps path) fun w _ h3 => ?_
  refine h3.bind (call_keeps (clear_framed msgs) _) fun info s4 h4 => ?_
  cases info with
  | none => exact lastStatus_adds h4
  | some st => exact sends_then (le_trans (attrib_length_le id _) (by decide)) _ h4

/-! ### SSH2_FXP_REALPATH -/

/-- SSH2_FXP_NAME for `process_realpath` is a string that can be taken from the queue, or it cannot
be made at all. -/
def realpathShort (name : Bytes) : Bool :=
  match createPath true home (fromUTF8 os name) with
  | .error _ => true
  | .ok path =>
    match path.unixForm true with
    | .error _ => true
    | .ok w => 2 * (toUTF8 os w).length + 21 ≤ maxString || bufferMaxChunk < (toUTF8 os w).length

omit hs in
theorem realpath_adds (id : UInt32) (text : Bytes) (hs : Clear msgs s)
    (hshort : 2 * (cstr text).length + 21 ≤ maxString ∨ bufferMaxChunk < (cstr text).length) :
    wp (do sendMsg (realpathParts id text); pure Fx.ok) (fun _ => Adds msgs) (fun _ => Adds msgs)
      s := by
  rcases hshort with hfits | hmade
  · refine sends_then ?_ _ hs
    rw [realpathParts_length]
    exact hfits
  · -- the message cannot be made, and nothing is put
    have htext : cstr text ∈ realpathParts id text := by
      simp [realpathParts, cstringParts, stringParts]
    rw [wp_bind]
    refine wp_mono (sendMsg_rejects htext hmade) (fun _ _ hfalse => hfalse.elim) ?_
    intro _ s1 h1
    rw [h1]
    exact hs.adds

theorem processRealpath_adds
    (hshort : ∀ id name rest, s.iqueue = putU32 id ++ (putString name ++ rest) →
      realpathShort os home name = true) :
    wp (processRealpath os home) (fun _ => Adds msgs) any s := by
  refine guarded_adds os hs fun id rest hid => ?_
  rw [wp_bind]
  refine wp_mono (getString_takes _) (fun name s1 h1 => ?_) fun _ s1 h1 => ?_
  · obtain ⟨-, rest1, hname, rfl⟩ := h1
    have hfits := hshort id name rest1 (by rw [hid]; exact congrArg _ hname)
    rw [realpathShort] at hfits
    rw [wp_bind, makePath]
    cases hpath : createPath true home (fromUTF8 os name) with
    | error e =>
      rw [liftPath, wp_throw]
      exact (hs.withIqueue rest1).adds
    | ok path =>
      obtain ⟨w, hw⟩ := unixForm_ok path.toPath
      rw [hpath] at hfits
      simp only [hw, Bool.or_eq_true, decide_eq_true_iff] at hfits
      rw [liftPath, wp_pure, wp_bind, hw, liftPath, wp_pure]
      refine realpath_adds id (toUTF8 os w) (hs.withIqueue rest1) ?_
      rw [toUTF8, cstr_cstr]
      exact hfits
  · obtain ⟨rest1, rfl⟩ := h1
    exact (hs.withIqueue rest1).adds

/-! ## §4 `process` -/

/-- The reply to the message can be taken from the queue. -/
def ShortReply (msg : Bytes) : Prop :=
  ∀ id name rest, msg = (Request.realpath name).message id rest → realpathShort os home name = true

omit hs in
theorem dispatch_adds {type : UInt8} {rest : Bytes} (hs : Clear msgs (s.withIqueue rest))
    (hshort : ShortReply os home ([type] ++ rest)) :
    wp (dispatch os home type) (fun _ => Adds msgs) any (s.withIqueue rest) := by
  have hw := adds_walk os msgs
  have hI := adds_framed (ω := ω) msgs
  have ha := hs.adds
  refine wp_cond (fun _ => hw.init _ ha) (wp_cond (fun _ => processOpen_adds os home hs) ?_)
  refine wp_cond (fun _ => hw.processClose hI _ ha) (wp_cond (fun _ => hw.processRead _ ha) ?_)
  refine wp_cond (fun _ => hw.processWrite _ ha)
    (wp_cond (fun _ => processDoStat_adds os home hs) ?_)
  refine wp_cond (fun _ => hw.processFstat _ ha) (wp_cond (fun _ => hw.processSetstat home _ ha) ?_)
  refine wp_cond (fun _ => hw.processFsetstat _ ha)
    (wp_cond (fun _ => processOpendir_adds os home hs) ?_)
  refine wp_cond (fun _ => hw.processReaddir hI _ ha)
    (wp_cond (fun _ => hw.removeWith home .deleteFile _ ha) ?_)
  refine wp_cond (fun _ => hw.processMkdir home _ ha)
    (wp_cond (fun _ => hw.removeWith home .removeDirectory _ ha) ?_)
  refine wp_cond (fun htype => processRealpath_adds os home hs fun id name rest' hrest => ?_)
    (wp_cond (fun _ => processDoStat_adds os home hs) ?_)
  · refine hshort id name rest' ?_
    rw [htype, show rest = _ from hrest]
    rfl
  refine wp_cond (fun _ => hw.processRename home _ ha) (wp_cond (fun _ => hw.unsupported _ ha) ?_)
  refine wp_cond (fun _ => hw.processSymlink _ ha) (wp_cond (fun _ => hw.unsupported _ ha) ?_)
  exact (wp_pure _).mpr ha

omit hs in
theorem discardRest_adds (msgLen : UInt32) :
    Keeps (Adds (ω := ω) msgs) (discardRest msgLen) fun _ => True := by
  have hthrow : ∀ e, Keeps (Adds (ω := ω) msgs) (throw e : SftpM ω Unit) fun _ => True :=
    fun _ => (Keeps.throw _).mono fun _ _ => trivial
  refine Keeps.get.bind fun _ => .ite (hthrow _) (.ite (hthrow _) ?_)
  refine .ite (.bind ?_ fun _ => .pure _) (.pure _)
  exact (onIqueue_keeps (fun _ _ hs => hs) _).mono fun _ _ => trivial

/-- **Whole replies come to the queue**, whatever the message is. -/
theorem process_adds {msg : Bytes} (hmsg : s.iqueue = putString msg)
    (hshort : ShortReply os home msg) : wp (process os home) (fun _ => Adds msgs) any s := by
  have hsame : s = s.withIqueue (putU32 (UInt32.ofNat msg.length) ++ msg) := by
    rw [SFTP.withIqueue, ← putString, ← hmsg]
  rw [hsame, process, wp_bind, wp_getInt]
  refine wp_seq_any (getType_takes _) fun type s2 h2 => ?_
  obtain ⟨rest, hrest, rfl⟩ := h2
  rw [wp_bind]
  rw [show msg = _ from hrest] at hshort
  refine wp_weaken (dispatch_adds os home (s := s) (hs.withIqueue rest) hshort) fun _ s3 h3 => ?_
  exact discardRest_adds _ s3 h3

end Guarded

end Shiesh.Sftp
