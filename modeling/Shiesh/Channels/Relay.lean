import Shiesh.Channels.SftpDrain
import Shiesh.Channels.InWindow

/-!
# Relaying Messages

What an `SFTPChannel` does with the stream of its peer while both of its halves are open. Bytes are
added to `descending`, `channel_post` passes the next whole message on to the queue of the
subsystem, and brings one of the subsystem's messages to `ascending`. The subsystem's `get` is one
call here, from its beginning to its end or to the point where it waits.
-/

namespace Shiesh.Channels

open Shiesh.Lib List SFTPChannel
open BusyThreadReadBuffer (Queues Takes)
open SessionChannel (channelOutputPoll create garbageCollect inputChannelReq setWorker
  windowDefaultSize workerAt)

/-! ## §1 `get` from beginning to end -/

section Get

variable {q : BusyThreadWriteBuffer} {w : Worker} {h : Halves Bytes} {m : Bytes}
  {rest queued : List Bytes}

/-- `get` is called, unless the worker is in it. -/
def getCalled (w : Worker) : Worker := if w.pc = .outside then { w with pc := .testRead } else w

/-- Steps of `get` -/
def getSteps (n : Nat) (r : BusyThreadWriteBuffer × Worker) : BusyThreadWriteBuffer × Worker :=
  (fun r => getStep r.1 r.2)^[n] r

/-- Five steps bring `get` to its end, or to its wait. -/
def completeGet (q : BusyThreadWriteBuffer) (w : Worker) : BusyThreadWriteBuffer × Worker :=
  getSteps 5 (q, getCalled w)

/-- The messages in its halves -/
abbrev BusyThreadWriteBuffer.Holds (q : BusyThreadWriteBuffer) (h : Halves Bytes) : Prop :=
  HoldsHalves q.readBuf q.writeBuf q.nReadBufMsgs q.nWriteBufMsgs h

/-- The worker is not in `get`, or waits there. It waits only when its half is empty, and is woken
by the first message. -/
structure Rests (q : BusyThreadWriteBuffer) (w : Worker) (h : Halves Bytes) : Prop where
  halves : q.Holds h
  place : w.pc = .outside ∨ w.pc = .wait
  waits : w.pc = .wait → h.read = [] ∧ (q.dataArrived = true ↔ h.write ≠ [])

/-- These messages are waiting for a worker that rests. -/
def Waiting (q : BusyThreadWriteBuffer) (w : Worker) (queued : List Bytes) : Prop :=
  ∃ h, Rests q w h ∧ h.read ++ h.write = queued

theorem waiting_init : Waiting {} {} [] :=
  ⟨⟨[], []⟩, ⟨.empty, .inl rfl, fun hwait => by cases hwait⟩, rfl⟩

theorem takeMessage_first (hh : q.Holds h) (hread : h.read = m :: rest)
    (hm : m.length ≤ 256 * 1024) :
    ∃ q', takeMessage q w = (q', { pc := .outside, received := w.received ++ [m] }) ∧
      q'.Holds ⟨rest, h.write⟩ := by
  have hfirst := hh.read
  rw [hread] at hfirst
  have hcontents : q.readBuf.contents = putString m ++ frames rest := by
    rw [hfirst.contents, nil_append, frames_cons]
  have hspec := Buffer.getString_spec (hfirst.short m mem_cons_self) q.readBuf hcontents
  have hcount : q.nReadBufMsgs - 1 = rest.length := by
    rw [hfirst.count, length_cons]
    omega
  rw [takeMessage]
  cases hget : Buffer.getString q.readBuf with
  | ok data b =>
    obtain ⟨rfl, hb⟩ := (wp_of_ok hget).mp hspec
    refine ⟨_, rfl, ⟨hb, hcount, fun m' hm' => ?_⟩, hh.write⟩
    exact hfirst.short m' (mem_cons_of_mem _ hm')
  | error e b => exact absurd hm (not_le.mpr ((wp_of_error hget).mp hspec).2)

theorem getSteps_succ (n : Nat) (r : BusyThreadWriteBuffer × Worker) :
    getSteps (n + 1) r = getSteps n (getStep r.1 r.2) := rfl

/-- Outside of `get` nothing happens. -/
theorem getSteps_outside (n : Nat) (hpc : w.pc = .outside) : getSteps n (q, w) = (q, w) := by
  induction n with
  | zero => rfl
  | succ n ih =>
    have hsame : getStep q w = (q, w) := by simp only [getStep, hpc]
    rw [getSteps_succ, hsame, ih]

/-- The messages that `get` has given to the worker, and those that are waiting -/
def Gives (w : Worker) (ms queued : List Bytes) (r : BusyThreadWriteBuffer × Worker) : Prop :=
  r.2.received = w.received ++ ms ∧ Waiting r.1 r.2 queued

/-- The message is taken, and the call is over. -/
theorem take_completes (n : Nat) (hpc : w.pc = .take) (hh : q.Holds h) (hread : h.read = m :: rest)
    (hm : m.length ≤ 256 * 1024) : Gives w [m] (rest ++ h.write) (getSteps (n + 1) (q, w)) := by
  obtain ⟨q', htake, hh'⟩ := takeMessage_first (w := w) hh hread hm
  have hstep : getStep q w = takeMessage q w := by simp only [getStep, hpc]
  rw [getSteps_succ, hstep, htake, getSteps_outside n rfl]
  exact ⟨rfl, _, ⟨hh', .inl rfl, fun hwait => by cases hwait⟩, rfl⟩

/-- The halves are exchanged, and a message is taken from the other one. -/
theorem swapLast_completes (n : Nat) (hpc : w.pc = .swapLast) (hh : q.Holds h) (hread : h.read = [])
    (hwrite : h.write = m :: queued) (hm : m.length ≤ 256 * 1024) :
    Gives w [m] queued (getSteps (n + 2) (q, w)) := by
  have hstep : getStep q w = (q.swap, { w with pc := .take }) := by simp only [getStep, hpc]
  have htake := take_completes (q := q.swap) (w := { w with pc := .take }) n rfl
    (h := h.swap) hh.swap
    hwrite hm
  rw [getSteps_succ, hstep]
  have hqueued : queued ++ h.swap.write = queued := by
    show queued ++ h.read = queued
    rw [hread, append_nil]
  rw [hqueued] at htake
  exact htake

/-- **`get` delivers the oldest message**, in whichever half it is. -/
theorem completeGet_first (hq : Waiting q w (m :: queued)) (hm : m.length ≤ 256 * 1024) :
    Gives w [m] queued (completeGet q w) := by
  obtain ⟨h, hrests, hmsgs⟩ := hq
  have hreadCount := hrests.halves.read.count
  have hwriteCount := hrests.halves.write.count
  rw [completeGet, getCalled]
  rcases hrests.place with hout | hwait
  · rw [if_pos hout]
    cases hread : h.read with
    | cons m' rest =>
      rw [hread, cons_append, cons.injEq] at hmsgs
      obtain ⟨rfl, rfl⟩ := hmsgs
      have hne : q.nReadBufMsgs ≠ 0 := by
        rw [hreadCount, hread, length_cons]
        omega
      have htest : getStep q { w with pc := .testRead } = (q, { w with pc := .take }) := by
        simp only [getStep, if_pos hne]
      rw [getSteps_succ, htest]
      exact take_completes (w := { w with pc := .take }) 3 rfl hrests.halves hread hm
    | nil =>
      rw [hread, nil_append] at hmsgs
      have hzero : ¬q.nReadBufMsgs ≠ 0 := by
        rw [hreadCount, hread]
        exact fun hne => hne rfl
      have hsome : ¬q.nWriteBufMsgs = 0 := by
        rw [hwriteCount, hmsgs, length_cons]
        omega
      have hsteps : getSteps 5 (q, { w with pc := .testRead }) =
          getSteps 2 ({ q with dataArrived := false }, { w with pc := .swapLast }) := by
        simp only [getSteps_succ 4, getSteps_succ 3, getSteps_succ 2, getStep, if_neg hzero,
          if_neg hsome]
      rw [hsteps]
      exact swapLast_completes (q := { q with dataArrived := false })
        (w := { w with pc := .swapLast }) 0 rfl hrests.halves hread hmsgs hm
  · -- the worker waits, and the message has woken it
    obtain ⟨hread, harrived⟩ := hrests.waits hwait
    rw [hread, nil_append] at hmsgs
    have hset : q.dataArrived = true := harrived.mpr (by rw [hmsgs]; exact cons_ne_nil _ _)
    have hsome : ¬q.nWriteBufMsgs = 0 := by
      rw [hwriteCount, hmsgs, length_cons]
      omega
    have hsteps : getSteps 5 (q, w) =
        getSteps 3 ({ q with dataArrived := false }, { w with pc := .swapLast }) := by
      simp only [getSteps_succ 4, getSteps_succ 3, getStep, hwait, hset, if_true, if_neg hsome]
    rw [if_neg (by rw [hwait]; decide), hsteps]
    exact swapLast_completes (q := { q with dataArrived := false })
      (w := { w with pc := .swapLast }) 1 rfl hrests.halves hread hmsgs hm

/-- Without messages `get` comes to its wait, or stays there. -/
theorem completeGet_nothing (hq : Waiting q w []) : Gives w [] [] (completeGet q w) := by
  obtain ⟨h, hrests, hmsgs⟩ := hq
  obtain ⟨hread, hwrite⟩ := append_eq_nil_iff.mp hmsgs
  have hzero : q.nReadBufMsgs = 0 := by
    rw [hrests.halves.read.count, hread]
    rfl
  have hzero' : q.nWriteBufMsgs = 0 := by
    rw [hrests.halves.write.count, hwrite]
    rfl
  rw [completeGet, getCalled]
  rcases hrests.place with hout | hwait
  · rw [if_pos hout]
    have hsteps : getSteps 5 (q, { w with pc := .testRead }) =
        ({ q with dataArrived := false }.swap, { w with pc := .wait }) := by
      simp only [getSteps_succ, getStep, hzero, hzero', ne_eq, not_true_eq_false, if_false, if_true,
        BusyThreadWriteBuffer.swap, Bool.false_eq_true]
      rfl
    rw [hsteps]
    refine ⟨(append_nil _).symm, h.swap, ⟨hrests.halves.swap, .inr rfl, fun _ => ⟨hwrite, ?_⟩⟩, ?_⟩
    · exact ⟨(fun hset => by cases hset), fun hne => absurd hread hne⟩
    · show h.write ++ h.read = []
      rw [hread, hwrite, append_nil]
  · have hunset : q.dataArrived = false :=
      Bool.eq_false_iff.mpr fun hset => (hrests.waits hwait).2.mp hset hwrite
    have hstays : ∀ n, getSteps n (q, w) = (q, w) := by
      intro n
      induction n with
      | zero => rfl
      | succ n ih =>
        have hsame : getStep q w = (q, w) := by
          simp only [getStep, hwait, hunset, Bool.false_eq_true, if_false]
        rw [getSteps_succ, hsame, ih]
    rw [if_neg (by rw [hwait]; decide), hstays 5]
    exact ⟨(append_nil _).symm, h, hrests, hmsgs⟩

/-- A message comes last. -/
theorem Waiting.put (hq : Waiting q w queued) (hm : m.length < UInt32.size) {b : Buffer}
    (hb : b.contents = q.writeBuf.contents ++ putString m) (nWriteConsumed : Int32) :
    Waiting { q with
      writeBuf := b
      nWriteBufMsgs := q.nWriteBufMsgs + 1
      dataArrived := q.dataArrived || decide (q.nWriteBufMsgs = 0)
      nWriteConsumed := nWriteConsumed } w (queued ++ [m]) := by
  obtain ⟨h, hrests, rfl⟩ := hq
  refine ⟨h.put m, ⟨hrests.halves.put hm hb, hrests.place, fun hwait => ?_⟩, ?_⟩
  · obtain ⟨hread, harrived⟩ := hrests.waits hwait
    refine ⟨hread, fun _ hnil => ?_, fun _ => ?_⟩
    · exact absurd hnil (append_ne_nil_of_right_ne_nil _ (cons_ne_nil _ _))
    · -- the first message wakes the worker
      cases hset : q.dataArrived with
      | true => rfl
      | false =>
        have hnil : h.write = [] := by
          by_contra hne
          cases hset.symm.trans (harrived.mpr hne)
        have hzero : q.nWriteBufMsgs = 0 := by
          rw [hrests.halves.write.count, hnil]
          rfl
        simp only [hzero, decide_true, Bool.or_true]
  · exact (append_assoc ..).symm

/-- Only the count of consumed bytes is collected. -/
theorem Waiting.collected (hq : Waiting q w queued) :
    Waiting { q with nWriteConsumed := 0 } w queued := by
  obtain ⟨h, hrests, hqueued⟩ := hq
  exact ⟨h, { hrests with }, hqueued⟩

end Get

/-! ## §2 An open channel -/

namespace SFTPChannel

variable {s s' : SessionChannel}

/-- Both halves are open. -/
structure Open (s : SessionChannel) : Prop where
  opened : s.base.isOpened = true
  output : s.base.currentOutputState = .open
  input : s.base.currentInputState = .open
  live : s.deleted = false

/-- `get` of the subsystem, from its beginning to its end or to its wait -/
def getCall : SessionM Unit := do
  step .callGet
  runAll step (List.replicate 5 .getStep)

variable {event : SessionChannel.Event} {Q : Unit → SessionChannel → Prop}
  {E : Halt → SessionChannel → Prop}

theorem wp_step (hlive : s.deleted = false) :
    wp (step event) Q E s ↔ wp (stepEvent event) Q E s := by
  rw [step, wp_read, hlive, if_neg Bool.false_ne_true]

theorem wp_getSteps {w : Worker} (n : Nat) (hlive : s.deleted = false) (hw : s.subsystem = some w) :
    wp (runAll step (List.replicate n .getStep)) Q E s ↔
      Q () { s with
        fromChannel := (getSteps n (s.fromChannel, w)).1
        subsystem := some (getSteps n (s.fromChannel, w)).2 } := by
  induction n generalizing s w with
  | zero =>
    rw [replicate_zero, runAll, wp_pure]
    have hsame : ({ s with fromChannel := s.fromChannel, subsystem := some w } : SessionChannel) =
        s := by
      rw [← hw]
    show Q () s ↔ Q () { s with fromChannel := s.fromChannel, subsystem := some w }
    rw [hsame]
  | succ n ih =>
    rw [replicate_succ, runAll, wp_bind, wp_step hlive]
    show wp (modify _) _ _ _ ↔ _
    rw [wp_modify, hw]
    exact ih hlive rfl

theorem wp_getCall {w : Worker} (hlive : s.deleted = false) (hw : s.subsystem = some w) :
    wp getCall Q E s ↔
      Q () { s with
        fromChannel := (completeGet s.fromChannel w).1
        subsystem := some (completeGet s.fromChannel w).2 } := by
  rw [getCall, wp_bind, wp_step hlive]
  show wp (workerAt .outside _) _ _ _ ↔ _
  rw [workerAt, wp_read, hw]
  simp only
  rw [completeGet, getCalled]
  by_cases hout : w.pc = .outside
  · rw [if_pos hout, if_pos hout, setWorker, wp_modify]
    exact wp_getSteps 5 hlive rfl
  · rw [if_neg hout, if_neg hout, wp_pure]
    exact wp_getSteps 5 hlive hw

/-- What has nothing to do with the stream -/
structure Beside (s s' : SessionChannel) : Prop where
  isOpen : Open s'
  descending : s'.base.descending = s.base.descending
  fromChannel : s'.fromChannel = s.fromChannel
  toChannel : s'.toChannel = s.toChannel
  subsystem : s'.subsystem = s.subsystem

theorem outputPoll_beside (h : Open s) (hcount : Counted s.toChannel)
    (hfits : min s.base.remoteMaxpacket.toNat s.base.ascending.len + 14 ≤ bufferMaxChunk) :
    wp (step .outputPoll) (fun _ => Beside s) never s := by
  have hat : At false (lifeOf false s) s := ⟨hcount, rfl⟩
  rw [wp_step h.live]
  show wp channelOutputPoll _ _ _
  rw [channelOutputPoll, wp_read, Channel.channelOutputPoll, wp_onBase_read, h.opened,
    if_neg (by decide), wp_onBase_bind]
  refine wp_mono_total (sendAscending_sends hat hfits) fun _ s1 h1 => ?_
  obtain ⟨hlife, hstock, hsub⟩ := h1
  have hopen : Open s1 := by
    refine ⟨?_, ?_, ?_, ?_⟩
    · exact (congrArg Life.isOpened hlife.life).trans h.opened
    · exact (congrArg Life.output hlife.life).trans h.output
    · exact (congrArg Life.input hlife.life).trans h.input
    · exact (congrArg Life.deleted hlife.life).trans h.live
  rw [wp_onBase_read, hopen.input, if_neg (fun hdrain => by cases hdrain.1),
    wp_onBase_pure]
  exact ⟨hopen, congrArg Stock.descending hstock, congrArg Stock.fromChannel hstock,
    congrArg Stock.toChannel hstock, hsub⟩

theorem windowAdjust_beside (h : Open s) (adjust : UInt32) :
    wp (step (.windowAdjust (putU32 adjust))) (fun _ => Beside s) never s := by
  rw [wp_step h.live]
  show wp (SessionChannel.stepEvent (.windowAdjust (putU32 adjust))) _ _ _
  rw [wp_windowAdjust]
  exact ⟨{ h with }, rfl, rfl, rfl, rfl⟩

/-- A channel that is open is not collected. -/
theorem garbageCollect_open (h : Open s) : wp garbageCollect (fun _ s' => s' = s) never s := by
  have hopen : s.base.currentInputState ≠ .closed := by
    rw [h.input]
    decide
  rw [garbageCollect, wp_read, wp_bind, Channel.chanIsDead, wp_onBase_read, if_pos (.inl hopen),
    wp_onBase_pure, if_neg Bool.false_ne_true, wp_pure]

theorem fillEventArray_beside (h : Open s) :
    wp (step .fillEventArray) (fun _ => Beside s) never s := by
  have hnot : ¬(s.base.currentOutputState = .waitDrain ∧ s.base.descending.len = 0) := by
    rw [h.output]
    exact fun hdrain => by cases hdrain.1
  rw [wp_step h.live]
  show wp (SessionChannel.stepEvent .fillEventArray) _ _ _
  rw [SessionChannel.stepEvent, wp_bind, SessionChannel.fillEventArray]
  refine wp_seq_total (waitsForData_result s) fun waits s1 h1 => ?_
  obtain ⟨b, -, rfl⟩ := h1
  rw [wp_read, if_neg hnot]
  refine wp_seq_total (garbageCollect_open { h with }) fun _ s2 h2 => ?_
  rw [wp_pure, wp_pure, h2]
  exact ⟨{ h with }, rfl, rfl, rfl, rfl⟩

theorem data_appends (h : Open s) {chunk : Bytes} (hshort : chunk.length ≤ 256 * 1024)
    (hwindow : UInt32.ofNat chunk.length ≤ s.base.localWindow)
    (hroom : s.base.descending.len ≤ 6 * bufferMaxChunk) :
    wp (step (.data (putString chunk))) (fun _ s' => Open s' ∧
        s'.base.descending.contents = s.base.descending.contents ++ chunk ∧
        s'.fromChannel = s.fromChannel ∧ s'.toChannel = s.toChannel ∧
        s'.subsystem = s.subsystem ∧ s'.base.localWindowMax = s.base.localWindowMax ∧
        s'.base.ascending = s.base.ascending)
      never s := by
  have hout : ¬s.base.currentOutputState ≠ .open := by
    rw [h.output]
    exact fun hne => hne rfl
  have hin : ¬UInt32.ofNat chunk.length > s.base.localWindow := UInt32.not_lt.mpr hwindow
  rw [wp_step h.live]
  show wp (SessionChannel.stepEvent (.data (putString chunk))) _ _ _
  rw [SessionChannel.stepEvent, wp_bind, wp_received, Channel.channelInputData, wp_onBase_read,
    h.opened, if_neg (by decide), wp_onBase_bind, wp_onBase_reading,
    ← append_nil (putString chunk), wp_packetGetStringPtr hshort]
  rw [if_neg hout, if_neg hin, wp_onBase_update, wp_onBase_bind, Channel.putRawData,
    onBase, wp_zoom, onDescending, wp_zoom]
  refine wp_mono_total (Buffer.append_fits hroom (hshort.trans (by decide))) fun _ b hb => ?_
  rw [wp_onBase_reading, wp_packetCheckEom]
  exact ⟨{ h with }, hb, rfl, rfl, rfl, rfl, rfl⟩

/-! ## §3 `channel_post` -/

theorem channelCheckWindow_result (s : SessionChannel) :
    wp (onBase Channel.channelCheckWindow)
      (fun _ s' => ∃ con localWindow localConsumed, s' = { s with base := { s.base with
        con := con, localWindow := localWindow, localConsumed := localConsumed } })
      never s := by
  exact wp_channelCheckWindow (fun con _ => ⟨con, _, _, rfl⟩) ⟨_, _, _, rfl⟩

/-- What `channel_post` does on an open channel, when `rs` are the messages of the subsystem. -/
structure Relayed (rs : List Bytes) (s s' : SessionChannel) : Prop where
  isOpen : Open s'
  subsystem : s'.subsystem = s.subsystem
  windowMax : s'.base.localWindowMax = s.base.localWindowMax
  toChannel : Queues True s'.toChannel (rs.drop 1)
  ascending : s'.base.ascending.contents = s.base.ascending.contents ++ frames (rs.take 1)
  passed : ∃ m, m.length ≤ bufferMaxChunk ∧ PutTo s.fromChannel m s'.fromChannel ∧
    if isCompletePacketInDescending s.base.descending then
      s.base.descending.contents = putString m ++ s'.base.descending.contents
    else m = [] ∧ s'.base.descending = s.base.descending

theorem frames_format (rs : List Bytes) : rs.flatMap (ReadRun.format true) = frames rs := by
  have hformat : ReadRun.format true = putString := rfl
  rw [hformat, frames]

theorem post_relays {rs : List Bytes} (h : Open s) (hq : Queues True s.toChannel rs)
    (htakes : ∀ r ∈ rs.take 1, Takes r s.base.ascending)
    (hfits : isCompletePacketInDescending s.base.descending = true →
      4 + (msgLen s.base.descending).toNat ≤ s.base.descending.len ∧
        (msgLen s.base.descending).toNat ≤ bufferMaxChunk ∧
        s.fromChannel.writeBuf.len + 4 ≤ 6 * bufferMaxChunk) :
    wp (step .post) (fun _ => Relayed rs s) never s := by
  rw [wp_step h.live]
  show wp channelPost _ _ _
  rw [channelPost, wp_read, h.opened, if_pos rfl, wp_bind, subproc2ascending, wp_bind,
    wp_zoom]
  -- a message comes to `ascending`
  refine wp_mono_total (BusyThreadReadBuffer.get_moves hq s.base.ascending htakes) fun _ t ht => ?_
  obtain ⟨hqueue, hascending⟩ := ht
  rw [frames_format] at hascending
  rw [wp_pure, wp_bind]
  -- one goes to the subsystem
  refine wp_and_mono (descending2subproc_fits hfits) (descending2subproc_result _) fun _ s2 h2 => ?_
  obtain ⟨-, m, hm, hpassed⟩ := h2
  refine wp_seq_total (channelCheckWindow_result s2) fun _ s3 h3 => ?_
  obtain ⟨con, localWindow, localConsumed, rfl⟩ := h3
  have hopen : Open { s2 with base := { s2.base with
      con := con, localWindow := localWindow, localConsumed := localConsumed } } := by
    rw [hpassed.others]
    exact { h with }
  refine wp_mono_total (garbageCollect_open hopen) fun _ s4 h4 => ?_
  rw [h4]
  refine ⟨hopen, ?_, ?_, ?_, ?_, m, hm, hpassed.queue, hpassed.descending⟩
  · rw [hpassed.others]
  · rw [hpassed.others]
  · rw [hpassed.others]
    exact hqueue
  · rw [hpassed.others]
    exact hascending

/-! ## §4 The window -/

/-- Account has been kept of the window, some length fields have been lost. -/
structure Granted (s : SessionChannel) : Prop where
  max : s.base.localWindowMax = windowDefaultSize
  kept : ∃ n, 4 * n ≤ s.base.localWindowMax.toNat ∧ KeptBy (Ledger.Owes (4 * n)) Larval s

/-- A peer that keeps to its window does not overfill `descending`. -/
theorem Granted.room (h : Granted s) : s.base.descending.len ≤ 6 * bufferMaxChunk := by
  obtain ⟨n, hn, hkept⟩ := h.kept
  have hheld := ChannelObject.held_le hkept hn
  have hsmall : windowDefaultSize.toNat ≤ 6 * bufferMaxChunk := by decide
  rw [h.max] at hheld
  omega

/-- The queue from the subsystem is not part of the account. -/
theorem Granted.toChannel (h : Granted s) (q : BusyThreadReadBuffer) :
    Granted { s with toChannel := q } := by
  obtain ⟨n, hn, hkept⟩ := h.kept
  exact ⟨h.max, n, hn, hkept.queue, hkept.kept, hkept.unopened⟩

theorem Granted.step (h : Granted s)
    (hmax : wp (step event)
      (fun _ s' => s'.base.localWindowMax = s.base.localWindowMax) any s) :
    wp (step event) (fun _ => Granted) any s := by
  obtain ⟨n, hn, hkept⟩ := h.kept
  refine wp_weaken (wp_and (step_owes n event s hkept) hmax) fun _ s' h' => ?_
  obtain ⟨hkept', hmax'⟩ := h'
  refine ⟨hmax'.trans h.max, _, ?_, hkept'⟩
  rw [hmax']
  split
  case isFalse => exact hn
  case isTrue hloses =>
    -- the length field that is lost was in `descending`
    have hlost : losesHeader s = true := by
      cases event with
      | post => exact (Bool.and_eq_true _ _ ▸ hloses).2
      | _ => cases hloses
    have hheld := ChannelObject.held_le hkept hn
    have hfour := ChannelObject.losesHeader_length hlost
    omega

theorem Granted.quiet (h : Granted s) (hquiet : event.grantsNothing = true) :
    wp (SFTPChannel.step event) (fun _ => Granted) any s := by
  have hinherited : stepEvent event = SessionChannel.stepEvent event := by
    cases event with
    | post => cases hquiet
    | _ => rfl
  refine h.step ?_
  rw [SFTPChannel.step, wp_read, wp_ite, wp_pure, hinherited]
  refine ⟨fun _ => rfl, fun _ => ?_⟩
  exact wp_weaken (stepEvent_steady event hquiet s (.refl _)) fun _ _ hs => hs.localWindowMax

theorem getCall_granted (h : Granted s) : wp getCall (fun _ => Granted) any s := by
  rw [getCall]
  refine wp_seq_any (Granted.quiet h (show SessionChannel.Event.grantsNothing .callGet =
    true from rfl)) fun _ s1 h1 => ?_
  have hsteps : Meets SFTPChannel.step (fun event _ => event.grantsNothing = true)
      (replicate 5 .getStep) s1 := by
    refine meets_of_mem (fun event hmem _ => ?_) s1
    rw [eq_of_mem_replicate hmem]
    rfl
  exact hsteps.runAll (fun event s hs hquiet => Granted.quiet hs hquiet) h1

/-- A channel on which "sftp" has just been started -/
structure Fresh (s : SessionChannel) : Prop where
  isOpen : Open s
  granted : Granted s
  subsystem : s.subsystem = some {}
  fromChannel : s.fromChannel = {}
  toChannel : s.toChannel = {}
  descending : s.base.descending = .init
  ascending : s.base.ascending = .init
  window : s.base.localWindow = windowDefaultSize

theorem request_starts (remoteId rwindow rmaxpack : UInt32) (reply : Bool) :
    wp (step (.request reply)) (fun _ => Fresh) never
      (create remoteId rwindow rmaxpack) := by
  have hstarted : wp (step (.request reply)) (fun _ s => Open s ∧
      s.base.localWindowMax = windowDefaultSize ∧ s.subsystem = some {} ∧
      s.fromChannel = {} ∧ s.toChannel = {} ∧ s.base.descending = .init ∧ s.base.ascending = .init ∧
      s.base.localWindow = windowDefaultSize) never
      (create remoteId rwindow rmaxpack) := by
    rw [wp_step rfl]
    show wp (inputChannelReq reply .started) _ _ _
    rw [inputChannelReq, wp_bind]
    refine wp_startSubsystem (fun _ _ h => by cases h) (fun _ _ con _ => ?_) fun hnew =>
      absurd ⟨rfl, rfl, rfl⟩ hnew
    rw [wp_ite, wp_pure, onBase, wp_zoom]
    refine ⟨fun _ => ?_, fun _ => ⟨⟨rfl, rfl, rfl, rfl⟩, rfl, rfl, rfl, rfl, rfl, rfl, rfl⟩⟩
    refine message_fits Fits.pure (by decide) fun con' _ => ?_
    exact ⟨⟨rfl, rfl, rfl, rfl⟩, rfl, rfl, rfl, rfl, rfl, rfl, rfl⟩
  have hkept := step_owes 0 (.request reply) _
    (create_kept (Ledger.owes_blank true) remoteId rwindow rmaxpack)
  refine wp_and_mono hstarted hkept fun _ s hs => ?_
  obtain ⟨⟨hopen, hmax, hsub, hfrom, hto, hdescending, hascending, hwindow⟩, howes⟩ := hs
  exact ⟨hopen, ⟨hmax, 0, Nat.zero_le _, howes⟩, hsub, hfrom, hto, hdescending, hascending, hwindow⟩

end SFTPChannel

end Shiesh.Channels
