import Shiesh.Channels.Messages
import Shiesh.Channels.Life

/-!
# The Functions of a Channel, by Its Life

For each function of a channel: what it makes of the channel's life. A function that throws has
sent nothing before.
-/

namespace Shiesh.Channels

open Shiesh.Lib BusyThreadReadBuffer Life List Ssh2Msg
open Channel (chanIsDead channelInputOclose sendAscending sendEOF)
open SessionChannel (channelInputEof channelOutputPoll descending2subproc drained fillEventArray
  garbageCollect inputChannelReq putEof rcvdIeof received setWorker startSubsystem stepEvent
  subprocTerminatedNotify terminated waitsForData workerAt)

variable {k : Bool} {l : Life} {s : SessionChannel}

/-! ## §1 Code of the base class, run on a session -/

section OnBase

variable {α β : Type} {Q : β → SessionChannel → Prop} {E : Halt → SessionChannel → Prop}

theorem wp_onBase_bind (m : ChannelM α) (f : α → ChannelM β) :
    wp (onBase (m >>= f)) Q E s ↔ wp (onBase m) (fun a s' => wp (onBase (f a)) Q E s') E s := by
  simp only [onBase, wp_zoom, wp_bind]

theorem wp_onBase_ite (c : Prop) [Decidable c] (m n : ChannelM β) :
    wp (onBase (if c then m else n)) Q E s ↔
      (c → wp (onBase m) Q E s) ∧ (¬c → wp (onBase n) Q E s) := by
  simp only [onBase, wp_zoom, wp_ite]

theorem wp_onBase_pure (a : β) : wp (onBase (pure a)) Q E s ↔ Q a s := by
  rw [onBase, wp_zoom, wp_pure]

theorem wp_onBase_get {R : Channel → SessionChannel → Prop} :
    wp (onBase get) R E s ↔ R s.base s := by
  rw [onBase, wp_zoom, wp_get]

theorem wp_onBase_modify {R : Unit → SessionChannel → Prop} (f : Channel → Channel) :
    wp (onBase (modify f)) R E s ↔ R () { s with base := f s.base } := by
  rw [onBase, wp_zoom, wp_modify]

theorem wp_onBase_read {f : Channel → ChannelM β} :
    wp (onBase (get >>= f)) Q E s ↔ wp (onBase (f s.base)) Q E s := by
  rw [wp_onBase_bind, wp_onBase_get]

theorem wp_onBase_update (g : Channel → Channel) {f : Unit → ChannelM β} :
    wp (onBase (modify g >>= f)) Q E s ↔ wp (onBase (f ())) Q E { s with base := g s.base } := by
  rw [wp_onBase_bind, wp_onBase_modify]

theorem wp_onBase_reading (g : Get β) : wp (onBase (reading g)) Q E s ↔
    wp g (fun a b => Q a { s with base :=
        { s.base with con := { s.base.con with incomingPacket := b } } })
      (fun e b => E e { s with base :=
        { s.base with con := { s.base.con with incomingPacket := b } } })
      s.base.con.incomingPacket := by
  rw [onBase, wp_zoom, reading, onCon, wp_zoom, wp_zoom]

theorem wp_received (body : Bytes) {R : Unit → SessionChannel → Prop} :
    wp (received body) R E s ↔
      R ()
      { s with base := { s.base with con := { s.base.con with incomingPacket := body } } } := by
  rw [received, onBase, wp_zoom, onCon, wp_zoom, wp_modify]

end OnBase

variable {Q : Unit → SessionChannel → Prop} {E : Halt → SessionChannel → Prop}

theorem reading_at {α : Type} (g : Get α) : Keeps (At k l) (onBase (reading g)) (Silent l) := by
  intro s hs
  obtain ⟨hcount, rfl⟩ := hs
  rw [wp_onBase_reading]
  exact wp_intro (fun _ _ _ => ⟨hcount, rfl⟩) fun _ _ _ => ⟨rfl, rfl⟩

theorem message_at (type : UInt8) {body : ConM Unit} {p : Bytes} (hbody : Fits body p)
    (hp : p.length + 10 ≤ bufferMaxChunk) (hs : At k l s)
    (hQ : ∀ s', At k (l.say [⟨type, putU32 l.remoteId ++ p⟩]) s' → Q () s') :
    wp (onBase (message type body)) Q E s := by
  obtain ⟨hcount, rfl⟩ := hs
  rw [onBase, wp_zoom]
  refine message_fits hbody hp fun con hsent => hQ _ ⟨hcount, ?_⟩
  simp only [lifeOf, say, hsent, heldOf]

theorem sendEOF_at (hs : At k l s) (hQ : ∀ s', At k l.sendEof s' → Q () s') :
    wp (onBase sendEOF) Q E s := by
  rw [sendEOF, wp_onBase_bind]
  refine message_at _ Fits.pure (by decide) hs fun s' hs' => ?_
  rw [wp_onBase_modify]
  refine hQ _ ⟨hs'.counted, ?_⟩
  rw [sendEof, eof, ← append_nil (putU32 l.remoteId), ← hs'.life]
  rfl

/-! ## §2 Messages from the peer -/

theorem channelInputData_at : Keeps (At k l) (onBase Channel.channelInputData) (Silent l) := by
  intro s hs
  rw [Channel.channelInputData, wp_onBase_read, wp_onBase_ite, wp_onBase_pure]
  refine ⟨fun _ => hs, fun _ => ?_⟩
  rw [wp_onBase_bind]
  refine wp_imp (reading_at _ s hs) ?_
  intro data s1 hs1
  rw [wp_onBase_ite, wp_onBase_ite, wp_onBase_pure, wp_onBase_modify]
  refine ⟨fun _ => ⟨hs1.counted, hs1.life⟩, fun _ => ⟨fun _ => hs1, fun _ => ?_⟩⟩
  rw [wp_onBase_update, wp_onBase_bind, Channel.putRawData, onBase, wp_zoom,
    onDescending, wp_zoom]
  refine wp_intro (fun _ b _ => ?_) fun _ _ _ => hs1.silent
  exact reading_at _ _ ⟨hs1.counted, hs1.life⟩

theorem channelInputWindowAdjust_at :
    Keeps (At k l) (onBase Channel.channelInputWindowAdjust) (Silent l) := by
  intro s hs
  rw [Channel.channelInputWindowAdjust, wp_onBase_bind]
  refine wp_imp (reading_at _ s hs) ?_
  intro adjust s1 hs1
  rw [wp_onBase_bind]
  refine wp_imp (reading_at _ s1 hs1) ?_
  intro _ s2 hs2
  rw [Channel.remoteWindowAdjust, wp_onBase_modify]
  exact ⟨hs2.counted, hs2.life⟩

theorem At.inputClosed (hs : At k l s) : At k { l with input := .closed }
    { s with base := { s.base with currentInputState := .closed } } := by
  obtain ⟨hcount, rfl⟩ := hs
  exact ⟨hcount, rfl⟩

theorem refuse_at {input : ChannelM Unit} (hs : At k l s)
    (hQ : ∀ s', At k l.refuse s' → wp (onBase input) Q E s') :
    wp (onBase (if l.output = .open then do
        modify fun c : Channel => { c with currentOutputState := .waitDrain }
        input
      else input)) Q E s := by
  obtain ⟨hcount, rfl⟩ := hs
  rw [wp_onBase_ite, wp_onBase_update]
  refine ⟨fun hout => hQ _ ⟨hcount, ?_⟩, fun hout => hQ _ ⟨hcount, ?_⟩⟩
  · rw [refuse, if_pos hout]
    rfl
  · rw [refuse, if_neg hout]

/-- CLOSE fails only where it is read. -/
theorem channelInputOclose_of (hread : wp (onBase (reading packetCheckEom)) (fun _ => At k l) E s) :
    wp (onBase channelInputOclose) (fun _ => At k l.peerClose) E s := by
  rw [channelInputOclose, wp_onBase_bind]
  refine wp_imp hread ?_
  intro _ s1 hs1
  obtain ⟨hcount, rfl⟩ := hs1
  rw [wp_onBase_update, wp_onBase_read, wp_onBase_ite,
    wp_onBase_modify]
  refine ⟨fun hnew => ?_, fun hopen => ?_⟩
  · have hnot : s1.base.isOpened = false := by simpa using hnew
    have hclose : (lifeOf k s1).peerClose = { lifeOf k s1 with
        closeRcvd := true, output := .closed, input := .closed } := if_pos hnot
    rw [hclose]
    exact ⟨hcount, rfl⟩
  have hclose : (lifeOf k s1).peerClose =
      ({ lifeOf k s1 with closeRcvd := true } : Life).refuse.shut :=
    if_neg (by simpa [lifeOf] using hopen)
  have hsame := refuse_input { lifeOf k s1 with closeRcvd := true }
  rw [hclose]
  refine refuse_at (l := { lifeOf k s1 with closeRcvd := true }) ⟨hcount, rfl⟩ fun s2 hs2 => ?_
  -- the input half is as it was before the output half changed
  cases hinput : s1.base.currentInputState with
  | «open» =>
    rw [wp_onBase_modify, shut, if_neg (by rw [hsame]; simp [lifeOf, hinput])]
    exact hs2.inputClosed
  | waitDrain =>
    rw [wp_onBase_bind]
    refine sendEOF_at hs2 fun s3 hs3 => ?_
    rw [wp_onBase_modify, shut, if_pos (hsame.trans hinput)]
    exact hs3.inputClosed
  | closed =>
    have hclosed : ({ lifeOf k s1 with closeRcvd := true } : Life).refuse.input = .closed :=
      hsame.trans hinput
    rw [wp_onBase_pure, shut, if_neg (by rw [hclosed]; decide), ← hclosed]
    exact hs2

/-- WINDOW_ADJUST adds to the window. -/
theorem wp_windowAdjust (adjust : UInt32) :
    wp (stepEvent (.windowAdjust (putU32 adjust))) Q E s ↔
      Q () { s with base := { s.base with
        con := { s.base.con with incomingPacket := [] }
        remoteWindow := s.base.remoteWindow + adjust } } := by
  rw [stepEvent, wp_bind, wp_received, Channel.channelInputWindowAdjust, wp_onBase_bind,
    wp_onBase_reading, ← append_nil (putU32 adjust), packetGetInt, wp_bufferGetInt,
    wp_onBase_bind, wp_onBase_reading, wp_packetCheckEom, Channel.remoteWindowAdjust,
    wp_onBase_modify]

/-- The EOF marker stands at the end of the queue, if it was put. -/
def Marked (puts : Bool) (s s' : SessionChannel) : Prop :=
  if puts then s.fromChannel.writeBuf.hasRoom 4 = true ∧
    s'.fromChannel.writeBuf.contents = s.fromChannel.writeBuf.contents ++ putString [] ∧
    s'.fromChannel.nWriteBufMsgs = s.fromChannel.nWriteBufMsgs + 1
  else s'.fromChannel = s.fromChannel

/-- EOF finds nothing that is left for the subsystem. -/
def SessionChannel.ends (s : SessionChannel) : Bool :=
  s.base.currentOutputState = .open && s.base.descending.len = 0

/-- What EOF does, and when it fails -/
theorem channelInputEof_result (k : Bool) (s : SessionChannel) :
    wp channelInputEof
      (fun _ s' => lifeOf k s' = (if (lifeOf k s).output = .open then
          (if s.base.descending.len = 0 then
              { lifeOf k s with output := .closed, input := .waitDrain }
            else { lifeOf k s with output := .waitDrain })
          else lifeOf k s) ∧ s'.toChannel = s.toChannel ∧ Marked s.ends s s')
      (fun _ s' => Silent (lifeOf k s) s' ∧ (s.base.con.incomingPacket = [] →
        s.ends = true ∧ s.fromChannel.writeBuf.hasRoom 4 = false)) s := by
  rw [channelInputEof, wp_bind, wp_onBase_reading]
  refine wp_intro (fun _ b _ => ?_) fun _ b herror => ⟨⟨rfl, rfl⟩, fun hnil => ?_⟩
  · rw [rcvdIeof, wp_bind, wp_onBase_modify, wp_read, wp_ite, wp_pure, wp_bind, wp_onBase_modify,
      wp_ite, wp_pure]
    refine ⟨fun hopen => ⟨fun hempty => ?_, fun hmore => ?_⟩, fun hnot => ?_⟩
    · have hopen' : (lifeOf k s).output = .open := hopen
      have hends : s.ends = true := by simpa [SessionChannel.ends] using And.intro hopen hempty
      rw [if_pos hopen', if_pos hempty, hends, drained, wp_bind, putEof, wp_zoom]
      refine wp_mono (putEof_result s.fromChannel) (fun _ q hq => ?_) fun _ _ hfull =>
        ⟨⟨rfl, rfl⟩, fun _ => ⟨rfl, hfull⟩⟩
      obtain ⟨hroom, b', hb', rfl⟩ := hq
      rw [wp_onBase_modify]
      exact ⟨rfl, rfl, hroom, hb', rfl⟩
    · have hopen' : (lifeOf k s).output = .open := hopen
      have hends : s.ends = false := by simpa [SessionChannel.ends] using fun _ => hmore
      rw [if_pos hopen', if_neg hmore, hends]
      exact ⟨rfl, rfl, rfl⟩
    · have hnot' : ¬(lifeOf k s).output = .open := hnot
      have hends : s.ends = false := by
        simpa [SessionChannel.ends] using fun hopen => absurd hopen hnot
      rw [if_neg hnot', hends]
      exact ⟨rfl, rfl, rfl⟩
  · rw [hnil] at herror
    exact ((wp_of_error herror).mp (wp_packetCheckEom.mpr trivial : wp _ any never [])).elim

/-- EOF ends the stream to the subsystem at once exactly if the output half is open and `descending`
is empty. -/
theorem channelInputEof_drains (hs : At k l s) :
    wp channelInputEof
      (fun _ => At k (if l.output = .open then
        (if s.base.descending.len = 0 then { l with output := .closed, input := .waitDrain }
          else { l with output := .waitDrain })
        else l))
      (fun _ => Silent l) s := by
  obtain ⟨hcount, rfl⟩ := hs
  refine wp_mono (channelInputEof_result k s) (fun _ s' h => ⟨?_, h.1⟩) fun _ _ h => h.1
  rw [h.2.1]
  exact hcount

theorem channelInputEof_at (hs : At k l s) :
    wp channelInputEof (fun _ s' => ∃ l', l.PeerEof l' ∧ At k l' s')
      (fun _ => Silent l) s := by
  refine wp_imp (channelInputEof_drains hs) fun _ s' hs' => ⟨_, ?_, hs'⟩
  rw [Life.PeerEof]
  split
  case isTrue =>
    split
    case isTrue => exact .inr rfl
    case isFalse => exact .inl rfl
  case isFalse => rfl

/-! ## §3 Rounds of the server loop -/

theorem heldOf_of_ascending (h : s.base.ascending.len > 0) : heldOf s = true := by
  have : s.base.ascending.len ≠ 0 := ne_of_gt h
  simp [heldOf, this]

theorem sendAscending_at (hs : At k l s) :
    wp (onBase sendAscending) (fun _ s' => (∃ l', l.Send l' ∧ At k l' s') ∧
      s'.toChannel = s.toChannel ∧ s'.subsystem = s.subsystem) (fun _ => Silent l) s := by
  obtain ⟨hcount, rfl⟩ := hs
  have hsame : (∃ l', (lifeOf k s).Send l' ∧ At k l' s) ∧ s.toChannel = s.toChannel ∧
      s.subsystem = s.subsystem := ⟨⟨_, .inl rfl, hcount, rfl⟩, rfl, rfl⟩
  rw [sendAscending, wp_onBase_read, wp_onBase_ite, wp_onBase_pure]
  refine ⟨fun hsend => ?_, fun _ => hsame⟩
  rw [wp_onBase_ite, wp_onBase_pure]
  refine ⟨fun _ => ?_, fun _ => hsame⟩
  rw [wp_onBase_bind, onBase, wp_zoom]
  refine message_spec (.putString _) (fun con hcon => ?_) fun _ con hcon => ⟨hcon, rfl⟩
  -- `consume` does not fail: no more is sent than there is
  rw [wp_onBase_bind, onBase, wp_zoom, onAscending, wp_zoom]
  refine wp_mono (Buffer.consume_spec _ _) ?_ fun _ _ hshort =>
    absurd hshort.2 (not_lt.mpr (sendable_le s.base).1)
  intro _ b hb
  rw [wp_onBase_modify]
  have hinput : (lifeOf k s).input ≠ .closed := by
    intro hclosed
    rcases hsend.1 with hopen | hdrain
    · cases hopen.symm.trans hclosed
    · cases hdrain.symm.trans hclosed
  obtain ⟨p, hp, hcon⟩ : ∃ p : Packet, p.type = channelData ∧
      con.sent = s.base.con.sent ++ [p] := ⟨_, rfl, hcon⟩
  refine ⟨⟨_, .inr ⟨hinput, heldOf_of_ascending hsend.2, p, ?_, hp, rfl⟩, hcount, ?_⟩, rfl, rfl⟩
  · exact heldOf { s with base := { s.base with ascending := b } }
  · simp only [lifeOf, say, hcon]
    rfl

theorem hasAscendingData_iff (hcount : Counted s.toChannel) (c : Channel) :
    s.hasAscendingData c = false ↔
      heldOf { s with base := c } = false ∧ threadOf s.subsystem ≠ .running := by
  obtain ⟨hread, hwrite⟩ := hcount
  have hthread : (s.subsystem.isSome && !terminated s.subsystem) = false ↔
      threadOf s.subsystem ≠ .running := by
    cases hsub : s.subsystem with
    | none => simp [threadOf]
    | some w => by_cases hpc : w.pc = .terminated <;> simp [threadOf, terminated, hpc]
  have hmsgs : ¬s.toChannel.nMsgsInTheBuffer > 0 ↔
      s.toChannel.nReadBufMsgs = 0 ∧ s.toChannel.nWriteBufMsgs = 0 := by
    rw [nMsgsInTheBuffer]
    omega
  rw [SessionChannel.hasAscendingData, Bool.or_eq_false_iff, hthread, Bool.or_eq_false_iff,
    decide_eq_false_iff_not, decide_eq_false_iff_not, hmsgs, heldOf]
  simp only [Bool.or_eq_false_iff, decide_eq_false_iff_not, and_assoc]
  simp

theorem finish_at (hs : At k l s) (hQ : ∀ s', At k l.finish s' → Q () s') :
    wp (onBase (if !(l.eofSent || l.closeSent) then do
        sendEOF
        modify fun c : Channel => { c with currentInputState := .closed }
      else modify fun c : Channel => { c with currentInputState := .closed })) Q E s := by
  rw [wp_onBase_ite, wp_onBase_bind, wp_onBase_modify]
  refine ⟨fun hfirst => ?_, fun hagain => hQ _ ?_⟩
  · refine sendEOF_at hs fun s' hs' => ?_
    rw [wp_onBase_modify]
    refine hQ _ ?_
    rw [finish, if_neg (by simpa using hfirst)]
    exact hs'.inputClosed
  · rw [finish, if_pos (Bool.not_eq_false _ ▸ fun hnot => hagain (by rw [hnot]; rfl))]
    exact hs.inputClosed

theorem channelOutputPoll_at (hs : At k l s) :
    wp channelOutputPoll (fun _ s' => ∃ l', l.Poll l' ∧ At k l' s')
      (fun _ => Silent l) s := by
  rw [channelOutputPoll, wp_read, Channel.channelOutputPoll,
    wp_onBase_read, wp_onBase_ite, wp_onBase_pure]
  have hopened : l.isOpened = s.base.isOpened := congrArg isOpened hs.life.symm
  refine ⟨fun hnew => ⟨l, ?_, hs⟩, fun hopen => ?_⟩
  · rw [Life.Poll, if_pos (by rw [hopened]; simpa using hnew)]
  rw [wp_onBase_bind]
  refine wp_imp (sendAscending_at hs) ?_
  intro _ s1 h1
  obtain ⟨⟨l1, hsend, hs1⟩, hqueue, hsub⟩ := h1
  have hpoll : ∀ l', l' = (if l1.input = .waitDrain ∧ l1.held = false ∧ l1.thread ≠ .running
      then l1.finish else l1) → l.Poll l' := by
    intro l' hl'
    rw [Life.Poll, if_neg (by rw [hopened]; simpa using hopen)]
    exact ⟨l1, hsend, hl'⟩
  -- `toChannel` and the thread have not changed since they were read
  have hdata := hasAscendingData_iff (s := s) (hqueue ▸ hs1.counted) s1.base
  obtain ⟨hcount, rfl⟩ := hs1
  have hheld : heldOf { s with base := s1.base } = (lifeOf k s1).held := by
    simp only [heldOf, lifeOf, hqueue]
  have hthread : threadOf s.subsystem = (lifeOf k s1).thread := by
    simp only [lifeOf, hsub]
  rw [hheld, hthread] at hdata
  rw [wp_onBase_read, wp_onBase_ite, wp_onBase_pure]
  refine ⟨fun hdrained => ?_, fun hnot => ⟨_, hpoll _ (if_neg ?_).symm, hcount, rfl⟩⟩
  · have hempty := hdata.mp (by simpa using hdrained.2)
    refine finish_at (l := lifeOf k s1) ⟨hcount, rfl⟩ fun s2 hs2 => ⟨_, hpoll _ ?_, hs2⟩
    rw [if_pos ⟨hdrained.1, hempty⟩]
  · intro hdrained
    exact hnot ⟨hdrained.1, by simpa using hdata.mpr hdrained.2⟩

/-- Taking a message from `toChannel`: nothing comes from nothing. -/
theorem get_held (asString : Bool) (q : BusyThreadReadBuffer) (out : Buffer) (hq : Counted q) :
    wp (BusyThreadReadBuffer.get asString)
      (fun _ t => Counted t.1 ∧ (q.nReadBufMsgs = 0 → q.nWriteBufMsgs = 0 →
        t.1.nReadBufMsgs = 0 ∧ t.1.nWriteBufMsgs = 0 ∧ t.2 = out))
      any (q, out) := by
  have htake : ∀ q' : BusyThreadReadBuffer, 0 < q'.nReadBufMsgs → 0 ≤ q'.nWriteBufMsgs →
      wp (BusyThreadReadBuffer.take asString) (fun _ t => Counted t.1) any
        (q', out) := by
    intro q' hpos hwrite
    rw [BusyThreadReadBuffer.take, wp_update, wp_bind, wp_zoom]
    refine wp_intro (fun data b _ => ?_) fun _ _ _ => trivial
    rw [wp_bind, wp_zoom]
    refine wp_intro (fun _ out' _ => ?_) fun _ _ _ => trivial
    rw [wp_modify]
    simp only [Counted]
    omega
  rw [BusyThreadReadBuffer.get, wp_read, wp_ite, wp_ite, wp_bind, wp_bind, wp_update,
    wp_modify, wp_pure]
  refine ⟨fun hread => ?_, fun hread => ⟨fun hwrite => ?_, fun hwrite => ?_⟩⟩
  · refine wp_weaken (htake q (by have := hq.1; omega) hq.2) fun _ t ht => ?_
    rw [wp_pure]
    exact ⟨ht, fun h => absurd h hread⟩
  · refine wp_seq_any (htake q.swap (by have := hq.2; simp only [BusyThreadReadBuffer.swap]; omega)
      hq.1) fun _ t ht => ?_
    rw [wp_pure]
    exact ⟨ht, fun _ h => absurd h hwrite⟩
  · exact ⟨hq, fun hr hw => ⟨hr, hw, rfl⟩⟩

theorem getAs_at (sftp : Bool) (hs : At k l s) :
    wp (getAs sftp)
      (fun _ s' => ∃ held, (held = true → l.held = true) ∧ At k { l with held := held } s')
      (fun _ => Silent l) s := by
  obtain ⟨hcount, rfl⟩ := hs
  rw [getAs, wp_bind, wp_zoom]
  refine wp_mono (get_held sftp _ _ hcount) (fun _ t ht => ?_) fun _ _ _ => ⟨rfl, rfl⟩
  rw [wp_pure]
  refine ⟨_, ?_, ht.1, rfl⟩
  simp only [heldOf, lifeOf]
  by_cases hempty : s.toChannel.nReadBufMsgs = 0 ∧ s.toChannel.nWriteBufMsgs = 0
  · obtain ⟨hr, hw, hout⟩ := ht.2 hempty.1 hempty.2
    rw [hr, hw, hout, hempty.1, hempty.2]
    exact fun h => h
  · intro _
    simp only [Bool.or_eq_true, decide_eq_true_eq]
    omega

theorem descending2subproc_at : Keeps (At k l) descending2subproc (Silent l) := by
  intro s hs
  obtain ⟨hcount, rfl⟩ := hs
  rw [descending2subproc, wp_read, wp_bind, wp_zoom]
  refine wp_intro (fun _ t _ => ?_) fun _ _ _ => ⟨rfl, rfl⟩
  rw [onBase, wp_zoom, onDescending, wp_zoom]
  exact wp_intro (fun _ _ _ => ⟨hcount, rfl⟩) fun _ _ _ => ⟨rfl, rfl⟩

theorem putFromChannel_at (data : Bytes) :
    Keeps (At k l) (SFTPChannel.putFromChannel data) (Silent l) := by
  intro s hs
  obtain ⟨hcount, rfl⟩ := hs
  rw [SFTPChannel.putFromChannel, wp_zoom]
  exact wp_intro (fun _ _ _ => ⟨hcount, rfl⟩) fun _ _ _ => ⟨rfl, rfl⟩

theorem onDescending_at {α : Type} (m : BufferM α) :
    Keeps (At k l) (onBase (onDescending m)) (Silent l) := by
  intro s hs
  obtain ⟨hcount, rfl⟩ := hs
  rw [onBase, wp_zoom, onDescending, wp_zoom]
  exact wp_intro (fun _ _ _ => ⟨hcount, rfl⟩) fun _ _ _ => ⟨rfl, rfl⟩

theorem sftpDescending2subproc_at : Keeps (At k l) SFTPChannel.descending2subproc (Silent l) := by
  refine Keeps.get.bind fun s => .ite (putFromChannel_at []) ?_
  refine (onDescending_at _).bind fun len => Keeps.get.bind fun s1 => ?_
  refine (putFromChannel_at _).bind fun _ => .bind ?_ fun _ => onDescending_at _
  intro s2 hs2
  obtain ⟨hcount, rfl⟩ := hs2
  rw [wp_onBase_modify]
  refine ⟨hcount, ?_⟩
  split <;> rfl

theorem putAs_at (sftp : Bool) : Keeps (At k l) (putAs sftp) (Silent l) := by
  cases sftp with
  | false => exact descending2subproc_at
  | true => exact sftpDescending2subproc_at

theorem channelCheckWindow_at (hs : At k l s)
    (hQ : ∀ ps s', Life.Plain ps → At k (l.say ps) s' → Q () s') :
    wp (onBase Channel.channelCheckWindow) Q E s := by
  obtain ⟨hcount, rfl⟩ := hs
  refine wp_channelCheckWindow (fun con hcon => ?_) ?_
  · refine hQ [⟨channelWindowAdjust,
      putU32 s.base.remoteId ++ putU32 s.base.localConsumed⟩] _
      (plain_singleton (.inl rfl)) ⟨hcount, ?_⟩
    simp only [lifeOf, say, hcon]
    rfl
  · refine hQ [] s (fun p hp => absurd hp not_mem_nil) ?_
    rw [say, append_nil]
    exact ⟨hcount, rfl⟩

/-- Both halves are closed. -/
def SessionChannel.isDead (s : SessionChannel) : Bool :=
  s.base.currentInputState = .closed && s.base.currentOutputState = .closed

/-- `garbage_collect` deletes the channel with its thread, which gets an EOF marker. -/
def SessionChannel.terminates (s : SessionChannel) : Bool :=
  s.isDead && s.base.closeRcvd && s.subsystem.isSome

theorem isDead_iff (k : Bool) (s : SessionChannel) : s.isDead = true ↔ (lifeOf k s).IsDead := by
  simp only [SessionChannel.isDead, Bool.and_eq_true, decide_eq_true_eq]
  rfl

theorem terminates_dead (k : Bool) (h : s.terminates = true) :
    (lifeOf k s).IsDead ∧ (lifeOf k s).closeRcvd = true := by
  simp only [SessionChannel.terminates, Bool.and_eq_true] at h
  exact ⟨(isDead_iff k s).mp h.1.1, h.1.2⟩

theorem At.terminates (hs : At k l s) : s.terminates =
    (l.input = .closed && l.output = .closed && l.closeRcvd && l.thread ≠ .none) := by
  obtain ⟨-, rfl⟩ := hs
  have hthread : ∀ w : Option Worker, w.isSome = decide (threadOf w ≠ .none) := by
    intro w
    cases w with
    | none => rfl
    | some w => by_cases hpc : w.pc = .terminated <;> simp [threadOf, hpc]
  rw [SessionChannel.terminates, hthread]
  rfl

theorem chanIsDead_life (k doSend : Bool) {Q : Bool → SessionChannel → Prop}
    (halive : ¬(lifeOf k s).IsDead → Q false s)
    (hdead : (lifeOf k s).IsDead → ∀ c : Channel, lifeOf k { s with base := c } =
      (lifeOf k s).sayClose doSend → Q s.base.closeRcvd { s with base := c }) :
    wp (onBase (chanIsDead doSend)) Q E s := by
  rw [chanIsDead, wp_onBase_read, wp_onBase_ite, wp_onBase_pure]
  refine ⟨fun hopen => halive ?_, fun hclosed => ?_⟩
  · rintro ⟨hin, hout⟩
    rcases hopen with h | h
    · exact h hin
    · exact h hout
  have hisDead : (lifeOf k s).IsDead := by
    simp only [not_or, ne_eq, not_not] at hclosed
    exact hclosed
  rw [wp_onBase_ite, wp_onBase_bind, wp_onBase_pure]
  refine ⟨fun hsend => ?_, fun hnot => hdead hisDead _ (if_neg ?_).symm⟩
  · rw [onBase, wp_zoom]
    refine message_fits Fits.pure (by decide) fun con hcon => ?_
    rw [wp_onBase_update, wp_onBase_pure]
    refine hdead hisDead _ ((if_pos ?_).trans ?_).symm
    · simpa [lifeOf] using hsend
    · simp only [lifeOf, hcon, append_nil]
      rfl
  · simpa [lifeOf] using hnot

/-- What `garbage_collect` does, and when it fails -/
theorem garbageCollect_result (k : Bool) (s : SessionChannel) :
    wp garbageCollect
      (fun _ s' => lifeOf k s' = (lifeOf k s).collect ∧ s'.toChannel = s.toChannel ∧
        Marked s.terminates s s')
      (fun _ s' => s.terminates = true ∧ s.fromChannel.writeBuf.hasRoom 4 = false ∧
        Broken (lifeOf k s) s') s := by
  have hno : (s.isDead && s.base.closeRcvd) = false → s.terminates = false := fun h => by
    rw [SessionChannel.terminates, h, Bool.false_and]
  rw [garbageCollect, wp_read, wp_bind]
  refine chanIsDead_life k _ (fun halive => ?_) fun hdead c hc => ?_
  · have hnot : s.isDead = false := Bool.eq_false_iff.mpr (mt (isDead_iff k s).mp halive)
    rw [if_neg (by decide), wp_pure, hno (by rw [hnot, Bool.false_and])]
    exact ⟨(collect_alive halive).symm, rfl, rfl⟩
  have hdead' := (isDead_iff k s).mpr hdead
  cases hrcvd : s.base.closeRcvd with
  | false =>
    rw [if_neg (by decide), wp_pure, hno (by rw [hrcvd, Bool.and_false])]
    exact ⟨hc.trans (collect_waits hdead hrcvd).symm, rfl, rfl⟩
  | true =>
    have hends : s.terminates = s.subsystem.isSome := by
      rw [SessionChannel.terminates, hdead', hrcvd]
      rfl
    -- the second call sends CLOSE, if the first has not
    have hlast : ∀ q : BusyThreadWriteBuffer, Marked s.subsystem.isSome s
        { s with fromChannel := q } →
        wp (do
          if ← onBase (chanIsDead true) then
            modify fun s => { s with deleted := true })
        (fun _ s' => lifeOf k s' = (lifeOf k s).collect ∧ s'.toChannel = s.toChannel ∧
          Marked s.subsystem.isSome s s') never
        { s with base := c, fromChannel := q, subsystem := none } := by
      intro q hq
      have hlife : lifeOf k { s with base := c, fromChannel := q, subsystem := none } =
          { (lifeOf k s).sayClose s.base.doClose with thread := .none } := by
        rw [← hc]
        rfl
      have hstill : (lifeOf k { s with base := c, fromChannel := q, subsystem := none }).IsDead ∧
          c.closeRcvd = true := by
        obtain ⟨hin, hout, hsame, -⟩ := (lifeOf k s).sayClose_same s.base.doClose
        rw [← hc] at hin hout hsame
        exact ⟨⟨hin.trans hdead.1, hout.trans hdead.2⟩, hsame.trans hrcvd⟩
      rw [wp_bind]
      refine chanIsDead_life k _ (fun halive => absurd hstill.1 halive) fun _ c' hc' => ?_
      rw [if_pos hstill.2, wp_modify]
      refine ⟨?_, rfl, hq⟩
      rw [hlife, sayClose_none, sayClose_again] at hc'
      rw [collect_deletes hdead hrcvd]
      exact congrArg (fun l : Life => { l with deleted := true }) hc'
    rw [if_pos rfl, wp_bind, hends]
    refine wp_sessionCloseByChannel (fun hsome => ?_) fun hnone => ?_
    · rw [hsome] at hlast ⊢
      refine wp_mono (putEof_result s.fromChannel) (fun _ q hq => ?_) fun _ q hfull => ?_
      · obtain ⟨hroom, b, hb, rfl⟩ := hq
        exact wp_mono_total (hlast _ ⟨hroom, hb, rfl⟩) fun _ _ h => h
      · refine ⟨rfl, hfull, ?_⟩
        have hsent : c.con.sent = ((lifeOf k s).sayClose s.base.doClose).sent :=
          congrArg sent hc
        refine ⟨rfl, hdead, [], fun _ hp => absurd hp not_mem_nil, ?_⟩
        rw [say_nil, collect_deletes hdead hrcvd]
        cases hdo : s.base.doClose <;> rw [hdo] at hsent
        · exact .inl (hsent.trans (congrArg sent (if_neg (by simp))))
        · exact .inr hsent
    · rw [hnone] at hlast ⊢
      exact wp_mono_total (hlast s.fromChannel rfl) fun _ _ h => h

theorem garbageCollect_at (hs : At k l s) :
    wp garbageCollect (fun _ => At k l.collect) (fun _ => Broken l) s := by
  obtain ⟨hcount, rfl⟩ := hs
  refine wp_mono (garbageCollect_result k s) (fun _ s' h => ⟨?_, h.1⟩) fun _ _ h => h.2.2
  rw [h.2.1]
  exact hcount

/-- The stream to the subsystem is to be ended. -/
def SessionChannel.drains (s : SessionChannel) : Bool :=
  s.base.currentOutputState = .waitDrain && s.base.descending.len = 0

theorem waitsForData_result (s : SessionChannel) :
    wp waitsForData (fun _ s' => ∃ b, b.contents = s.base.ascending.contents ∧
      s' = { s with base := { s.base with ascending := b } }) never s := by
  rw [waitsForData, wp_read, wp_ite, wp_pure]
  refine ⟨fun _ => ?_, fun _ => ⟨s.base.ascending, rfl, rfl⟩⟩
  rw [Channel.checkAscendingChanRbuf, onBase, wp_zoom, onAscending, wp_zoom]
  exact wp_imp (Buffer.checkAlloc_spec _ _) fun _ b hb => ⟨b, hb, rfl⟩

/-- What `fill_event_array` does with a channel, and when it fails -/
theorem fillEventArray_result (k : Bool) (s : SessionChannel) :
    wp fillEventArray
      (fun _ s' => lifeOf k s' = (if s.drains then
          { lifeOf k s with output := .closed, input := .waitDrain } else lifeOf k s).collect ∧
        s'.toChannel = s.toChannel ∧ Marked (s.drains || s.terminates) s s')
      (fun _ s' => (s.drains || s.terminates) = true ∧
        s.fromChannel.writeBuf.hasRoom 4 = false ∧ Stops (lifeOf k s) s') s := by
  rw [fillEventArray]
  refine wp_seq_total (waitsForData_result s) fun waits s1 h1 => ?_
  obtain ⟨b, hb, rfl⟩ := h1
  have hsame : lifeOf k { s with base := { s.base with ascending := b } } = lifeOf k s := by
    simp only [lifeOf, heldOf, Buffer.len_of_contents hb]
  rw [wp_read, wp_ite, wp_bind, wp_bind]
  refine ⟨fun hdrain => ?_, fun hnot => ?_⟩
  · have hdrains : s.drains = true := by simpa [SessionChannel.drains] using hdrain
    rw [hdrains, Bool.true_or, if_pos rfl, drained, wp_bind, putEof, wp_zoom]
    refine wp_mono (putEof_result _) (fun _ q hq => ?_) fun _ _ hfull =>
      ⟨rfl, hfull, .inl ⟨rfl, rfl⟩⟩
    obtain ⟨hroom, b', hb', rfl⟩ := hq
    rw [wp_onBase_modify, wp_bind]
    -- the input half is open again, so that the channel is not dead
    refine wp_mono (garbageCollect_result k _) (fun _ s2 h2 => ?_) fun _ _ h => by cases h.1
    obtain ⟨hlife, hqueue, hmarked⟩ := h2
    rw [wp_pure]
    refine ⟨hlife.trans ?_, hqueue, hroom, ?_, congrArg (·.nWriteBufMsgs) hmarked⟩
    · rw [← hsame]
      rfl
    · exact (congrArg (·.writeBuf.contents) hmarked).trans hb'
  · have hdrains : s.drains = false := by simpa [SessionChannel.drains] using hnot
    have hcollect := garbageCollect_result k { s with base := { s.base with ascending := b } }
    rw [hsame] at hcollect
    rw [hdrains, Bool.false_or, if_neg Bool.false_ne_true]
    exact wp_mono hcollect (fun _ _ h => (wp_pure _).mpr h) fun _ _ h => ⟨h.1, h.2.1, .inr h.2.2⟩

/-- `fill_event_array` ends the stream to the subsystem exactly if the output half is draining and
`descending` is empty. -/
theorem fillEventArray_drains (hs : At k l s) :
    wp fillEventArray
      (fun _ => At k (if l.output = .waitDrain ∧ s.base.descending.len = 0 then
        { l with output := .closed, input := .waitDrain } else l).collect)
      (fun _ => Stops l) s := by
  obtain ⟨hcount, rfl⟩ := hs
  refine wp_mono (fillEventArray_result k s) (fun _ s' h => ⟨?_, ?_⟩) fun _ _ h => h.2.2
  · rw [h.2.1]
    exact hcount
  · have hfill := h.1
    simp only [SessionChannel.drains, Bool.and_eq_true, decide_eq_true_eq] at hfill
    exact hfill

theorem fillEventArray_at (hs : At k l s) :
    wp fillEventArray (fun _ s' => ∃ l', l.Fill l' ∧ At k l' s')
      (fun _ => Stops l) s := by
  refine wp_imp (fillEventArray_drains hs) fun _ s' hs' => ⟨_, ⟨_, ?_, rfl⟩, hs'⟩
  split
  case isTrue hdrain => exact .inr ⟨hdrain.1, rfl⟩
  case isFalse => exact .inl rfl

theorem subprocTerminatedNotify_at (hs : At k l s) :
    wp subprocTerminatedNotify (fun _ => At k l.notify) E s := by
  have hbody := (Fits.putCstring "exit-status").bind ((Fits.putChar 0).bind (Fits.putInt 0))
  rw [subprocTerminatedNotify, wp_bind]
  refine message_at _ hbody (by decide) hs fun s1 hs1 => ?_
  rw [wp_onBase_modify]
  refine ⟨hs1.counted, ?_⟩
  rw [notify, exitStatus, ← hs1.life]
  rfl

/-! ## §4 Requests -/

theorem reply_at (processed : Bool) (hs : At k l s)
    (hQ : ∀ ps s', Life.Plain ps → At k (l.say ps) s' → Q () s') :
    wp (onBase (message (if processed then channelSuccess else channelFailure)
      (pure ()))) Q E s := by
  refine message_at _ Fits.pure (by decide) hs fun s' hs' => hQ _ s' (plain_singleton ?_) hs'
  cases processed with
  | false => exact .inr (.inr rfl)
  | true => exact .inr (.inl rfl)

theorem startSubsystem_at (start : Start) {Q : Bool → SessionChannel → Prop}
    (hs : At k l s) (hQ : ∀ b l' s', l.Request l' → At k l' s' → Q b s') :
    wp (startSubsystem start) Q E s := by
  obtain ⟨hcount, rfl⟩ := hs
  have hthread : s.subsystem = none → (lifeOf k s).thread = .none := fun hnone => by
    simp [lifeOf, threadOf, hnone]
  refine wp_startSubsystem (fun hopened hnone _ => ?_) (fun hopened hnone con hcon => ?_)
    fun _ => hQ _ _ s (request_refl _) ⟨hcount, rfl⟩
  · refine hQ _ _ _ ⟨[], fun _ hp => absurd hp not_mem_nil, .inr ⟨hopened, hthread hnone, false,
      rfl⟩⟩ ⟨hcount, ?_⟩
    simp only [lifeOf, say, append_nil, hopened]
    rfl
  · refine hQ _ _ _ ⟨[⟨channelWindowAdjust,
      putU32 s.base.remoteId ++ putU32 SessionChannel.windowDefaultSize⟩],
      plain_singleton (.inl rfl), .inr ⟨hopened, hthread hnone, true, rfl⟩⟩ ⟨hcount, ?_⟩
    simp only [lifeOf, say, hcon]
    rfl

theorem inputChannelReq_at (reply : Bool) (start : Start) (hs : At k l s)
    (hQ : ∀ l' s', l.Request l' → At k l' s' → Q () s') :
    wp (inputChannelReq reply start) Q E s := by
  rw [inputChannelReq, wp_bind]
  refine startSubsystem_at start hs fun processed l1 s1 hl1 hs1 => ?_
  rw [wp_ite, wp_pure]
  refine ⟨fun _ => ?_, fun _ => hQ _ _ hl1 hs1⟩
  exact reply_at processed hs1 fun ps s2 hps hs2 => hQ _ _ (hl1.andSay hps) hs2

/-! ## §5 The thread -/

variable {w : Worker} {pc : Pc}

theorem threadOf_running (h : w.pc ≠ .terminated) : threadOf (some w) = .running := if_neg h

/-- The thread goes on, or ends. -/
theorem At.worker {w' : Worker} (hs : At k l s) (hsub : s.subsystem = some w)
    (hrun : w.pc ≠ .terminated) (q : BusyThreadWriteBuffer) :
    ∃ l', l.Work l' ∧ At k l' { s with fromChannel := q, subsystem := some w' } := by
  obtain ⟨hcount, rfl⟩ := hs
  have hrunning : (lifeOf k s).thread = .running := by
    simp only [lifeOf, hsub, threadOf_running hrun]
  by_cases hpc : w'.pc = .terminated
  · refine ⟨_, .inr ⟨hrunning, .inr rfl⟩, hcount, ?_⟩
    simp only [lifeOf, threadOf, if_pos hpc, heldOf]
  · refine ⟨_, .inl rfl, hcount, ?_⟩
    simp only [lifeOf, hsub, threadOf_running hpc, threadOf_running hrun, heldOf]

theorem goto_at (hpc : pc ≠ .terminated) (next : Worker → Worker) (hs : At k l s) :
    wp (workerAt pc fun w => setWorker (next w))
      (fun _ s' => ∃ l', l.Work l' ∧ At k l' s') E s := by
  refine wp_workerAt ⟨l, .inl rfl, hs⟩ fun w hsub hw => ?_
  rw [setWorker, wp_modify]
  exact hs.worker hsub (by rw [hw]; exact hpc) s.fromChannel

theorem getStep_at (hs : At k l s) :
    wp (stepEvent .getStep) (fun _ s' => ∃ l', l.Work l' ∧ At k l' s') E s := by
  rw [stepEvent, wp_modify]
  cases hsub : s.subsystem with
  | none => exact ⟨l, .inl rfl, hs⟩
  | some w =>
    by_cases hpc : w.pc = .terminated
    · refine ⟨l, .inl rfl, ?_⟩
      simp only [getStep, hpc, ← hsub]
      exact hs
    · exact hs.worker hsub hpc _

theorem workerPut_at (data : Bytes) (hs : At k l s) :
    wp (stepEvent (.workerPut data))
      (fun _ s' => ∃ l', l.Work l' ∧ At k l' s') E s := by
  refine wp_workerAt ⟨l, .inl rfl, hs⟩ fun w hsub hw => ?_
  obtain ⟨hcount, rfl⟩ := hs
  have hrun : w.pc ≠ .terminated := by
    rw [hw]
    decide
  have hrunning : (lifeOf k s).thread = .running := by
    simp only [lifeOf, hsub, threadOf_running hrun]
  rw [wp_tryCatch, wp_zoom, put, wp_bind, wp_zoom]
  refine wp_intro (fun _ b _ => ?_) fun _ b _ => ?_
  · rw [wp_modify]
    refine ⟨_, .inr ⟨hrunning, .inl rfl⟩, ⟨hcount.1, ?_⟩, ?_⟩
    · exact Int.add_nonneg hcount.2 (by decide)
    · have hnext : ¬s.toChannel.nWriteBufMsgs + 1 = 0 := by
        have := hcount.2
        omega
      simp only [lifeOf, heldOf, ne_eq, hnext, not_false_eq_true, decide_true, Bool.or_true]
  · rw [setWorker, wp_modify]
    exact At.worker (s := { s with toChannel := { s.toChannel with writeBuf := b } })
      ⟨hcount, rfl⟩ hsub hrun s.fromChannel

theorem exitMsg_at (hs : At k l s) :
    wp (stepEvent .exitMsg)
      (fun _ s' => ∃ l', l' = (if l.thread = .terminated then l.notify else l) ∧ At k l' s')
      E s := by
  rw [stepEvent, workerAt, wp_read]
  cases hsub : s.subsystem with
  | none =>
    have hnone : l.thread = .none := by
      rw [← hs.life]
      simp only [lifeOf, hsub, threadOf]
    simp only [wp_pure, hnone]
    exact ⟨l, rfl, hs⟩
  | some w =>
    have hthread : l.thread = .terminated ↔ w.pc = .terminated := by
      rw [← hs.life]
      by_cases hpc : w.pc = .terminated <;> simp [lifeOf, hsub, threadOf, hpc]
    simp only [hthread]
    rw [wp_ite, wp_pure]
    refine ⟨fun hpc => ?_, fun hpc => ⟨l, (if_neg hpc).symm, hs⟩⟩
    rw [if_pos hpc]
    exact wp_imp (subprocTerminatedNotify_at hs) fun _ s' hs' => ⟨_, rfl, hs'⟩

end Shiesh.Channels
