import Shiesh.Channels.Identity

/-!
# The Open Handshake

CHANNEL_OPEN is answered by one OPEN_CONFIRMATION or one OPEN_FAILURE, before anything else is
sent for the channel. For a session the reply is sent at once. A `TCPClientChannel` delays it:
"for forward channel wait for remote socket connection". But what it waits for is its first
`channel_post`, whatever the thread that connects has done by then.

## Main result

- `open_handshake`: the handshake is kept in every run in which the connection is there in time,
  and the channel is not about to end before it has been confirmed
-/

namespace Shiesh.Channels

open Shiesh.Lib SessionChannel Life Repository Ssh2Msg

/-! ## §1 Replies -/

def isReply (p : Packet) : Bool :=
  p.type = Ssh2Msg.channelOpenConfirmation || p.type = Ssh2Msg.channelOpenFailure

/-- One reply, and it is the first message. -/
def Replied (sent : List Packet) : Prop :=
  ∃ reply rest, sent = reply :: rest ∧ isReply reply = true ∧ ∀ p ∈ rest, isReply p = false

instance (sent : List Packet) : Decidable (Replied sent) :=
  match sent with
  | [] => isFalse (by rintro ⟨_, _, h, -⟩; cases h)
  | reply :: rest =>
    decidable_of_iff (isReply reply = true ∧ ∀ p ∈ rest, isReply p = false)
      ⟨fun h => ⟨reply, rest, rfl, h.1, h.2⟩, fun h => by
        obtain ⟨_, _, heq, h1, h2⟩ := h
        cases heq
        exact ⟨h1, h2⟩⟩

theorem Replied.append {sent ps : List Packet} (h : Replied sent)
    (hps : ∀ p ∈ ps, isReply p = false) : Replied (sent ++ ps) := by
  obtain ⟨reply, rest, rfl, hreply, hrest⟩ := h
  refine ⟨reply, rest ++ ps, rfl, hreply, fun p hp => ?_⟩
  rcases List.mem_append.mp hp with hp | hp
  · exact hrest p hp
  · exact hps p hp

variable {p : Packet}

theorem replied_confirmation (hp : p.type = channelOpenConfirmation) : Replied [p] := by
  refine ⟨p, [], rfl, ?_, fun _ hq => absurd hq List.not_mem_nil⟩
  rw [isReply, hp]
  decide

theorem isReply_of_type {type : UInt8} (hp : p.type = type)
    (h : type ≠ channelOpenConfirmation ∧ type ≠ channelOpenFailure) :
    isReply p = false := by
  rw [isReply, hp, decide_eq_false h.1, decide_eq_false h.2]
  rfl

theorem ordinary_not_reply (h : Life.Ordinary p) : isReply p = false := by
  refine isReply_of_type rfl ⟨fun htype => ?_, fun htype => ?_⟩
  · rw [Life.Ordinary, htype] at h
    exact absurd h (by decide)
  · rw [Life.Ordinary, htype] at h
    exact absurd h (by decide)

/-! ## §2 Channels that have been answered -/

/-- Nothing is waited for, and the reply has been sent. -/
structure Answered (l : Life) : Prop where
  done : l.connecting = false
  replied : Replied l.sent

namespace Answered

variable {l l' : Life}

theorem moves (h : Answered l) (hmoves : l.Moves l') : Answered l' := by
  obtain ⟨ps, hps, hsent⟩ := hmoves.said
  refine ⟨hmoves.connecting.trans h.done, ?_⟩
  rw [hsent]
  exact h.replied.append fun p hp => ordinary_not_reply (hps p hp)

theorem say (h : Answered l) {p : Packet} (hp : isReply p = false) : Answered (l.say [p]) := by
  refine ⟨h.done, h.replied.append fun q hq => ?_⟩
  rw [List.mem_singleton.mp hq]
  exact hp

theorem sayClose (h : Answered l) (doSend : Bool) : Answered (l.sayClose doSend) := by
  rw [Life.sayClose]
  split
  case isTrue =>
    have htype : (Life.close l.remoteId).type = channelClose := rfl
    have hsaid := h.say (isReply_of_type htype (by decide))
    exact ⟨hsaid.done, hsaid.replied⟩
  case isFalse => exact h

theorem collect (h : Answered l) : Answered l.collect := by
  by_cases hdead : l.IsDead
  · cases hrcvd : l.closeRcvd with
    | false =>
      rw [collect_waits hdead hrcvd]
      exact h.sayClose _
    | true =>
      rw [collect_deletes hdead hrcvd]
      exact ⟨(h.sayClose true).done, (h.sayClose true).replied⟩
  · rw [collect_alive hdead]
    exact h

theorem step (h : Answered l) {event : ChannelObject.Event} (hstep : Life.Step event l l') :
    Answered l' := by
  rcases hstep.shape with hmoves | ⟨l₁, hmoves, -, -, hcollect⟩ | ⟨-, -, rfl⟩
  · exact h.moves hmoves
  · have hcollected := (h.moves hmoves).collect
    rcases hcollect with ⟨-, rfl⟩ | ⟨p, -, -, rfl⟩
    · exact hcollected
    · rw [confirm, if_neg (by rw [hcollected.done]; decide)]
      exact hcollected
  · have htype : (exitStatus l.remoteId).type = channelRequest := rfl
    have hsaid := h.say (isReply_of_type htype (by decide))
    exact ⟨hsaid.done, hsaid.replied⟩

end Answered

/-! ## §3 Channels that wait for the answer -/

/-- Nothing has been sent, nothing has come from the subsystem or gone to it, and neither half
is about to close. -/
structure Unused (s : SessionChannel) : Prop where
  sent : s.base.con.sent = []
  input : s.base.currentInputState = .open
  output : s.base.currentOutputState = .open
  ascending : s.base.ascending.len = 0
  consumed : s.base.localConsumed = 0
  queue : QueueOk s.subsystem s.fromChannel
  waiting : s.fromChannel.waiting = 0
  nReadConsumed : s.fromChannel.nReadConsumed = 0
  nWriteConsumed : s.fromChannel.nWriteConsumed = 0
  live : s.deleted = false

namespace Unused

variable {s : SessionChannel}

theorem received (body : Bytes) : Keeps Unused (SessionChannel.received body) ⊤ := by
  intro s hs
  rw [wp_received]
  exact { hs with }

theorem reading {α : Type} (g : Get α) :
    Keeps Unused (onBase (Channels.reading g)) ⊤ := by
  intro s hs
  rw [onBase, wp_zoom, Channels.reading, onCon, wp_zoom, wp_zoom]
  exact wp_intro (fun _ _ _ => { hs with }) fun _ _ _ => trivial

theorem channelInputData : Keeps Unused (onBase Channel.channelInputData) ⊤ := by
  intro s hs
  rw [Channel.channelInputData, wp_onBase_read, wp_onBase_ite, wp_onBase_pure]
  refine ⟨fun _ => hs, fun _ => ?_⟩
  rw [wp_onBase_bind]
  refine wp_imp (reading _ s hs) ?_
  intro data s1 hs1
  rw [wp_onBase_ite, wp_onBase_ite, wp_onBase_pure]
  refine ⟨fun hnot => absurd hs.output hnot, fun _ => ⟨fun _ => hs1, fun _ => ?_⟩⟩
  rw [wp_onBase_update, wp_onBase_bind, Channel.putRawData, onBase, wp_zoom,
    onDescending, wp_zoom]
  refine wp_intro (fun _ b _ => ?_) fun _ _ _ => trivial
  exact reading _ _ { hs1 with }

theorem channelInputWindowAdjust :
    Keeps Unused (onBase Channel.channelInputWindowAdjust) ⊤ := by
  intro s hs
  rw [Channel.channelInputWindowAdjust, wp_onBase_bind]
  refine wp_imp (reading _ s hs) ?_
  intro adjust s1 hs1
  rw [wp_onBase_bind]
  refine wp_imp (reading _ s1 hs1) ?_
  intro _ s2 hs2
  rw [Channel.remoteWindowAdjust, wp_onBase_modify]
  exact { hs2 with }

/-- There is nothing to send. -/
theorem channelOutputPoll : Keeps Unused SessionChannel.channelOutputPoll ⊤ := by
  intro s hs
  have hnone : ¬((s.base.currentInputState = .open ∨ s.base.currentInputState = .waitDrain) ∧
      s.base.ascending.len > 0) := by
    rw [hs.ascending]
    exact fun h => lt_irrefl 0 h.2
  have hopen : ¬s.base.currentInputState = .waitDrain := by
    rw [hs.input]
    decide
  rw [SessionChannel.channelOutputPoll, wp_read, Channel.channelOutputPoll,
    wp_onBase_read, wp_onBase_ite, wp_onBase_pure]
  refine ⟨fun _ => hs, fun _ => ?_⟩
  rw [wp_onBase_bind, Channel.sendAscending, wp_onBase_read, if_neg hnone,
    wp_onBase_pure, wp_onBase_read, if_neg (fun h => hopen h.1), wp_onBase_pure]
  exact hs

/-- A channel with a half that is open is not collected. -/
theorem garbageCollect {Q : Unit → SessionChannel → Prop} {E : Halt → SessionChannel → Prop}
    (hinput : s.base.currentInputState = .open) (hQ : Q () s) :
    wp SessionChannel.garbageCollect Q E s := by
  have hopen : s.base.currentInputState ≠ .closed ∨ s.base.currentOutputState ≠ .closed := by
    rw [hinput]
    exact .inl (by decide)
  rw [SessionChannel.garbageCollect, wp_read, wp_bind, Channel.chanIsDead, wp_onBase_read,
    if_pos hopen, wp_onBase_pure, if_neg (by decide), wp_pure]
  exact hQ

theorem fillEventArray : Keeps Unused SessionChannel.fillEventArray ⊤ := by
  have hwaits : Keeps Unused SessionChannel.waitsForData ⊤ := by
    refine Keeps.get.bind fun s1 => .ite ?_ (.pure _)
    intro s2 hs2
    rw [Channel.checkAscendingChanRbuf, onBase, wp_zoom, onAscending, wp_zoom]
    refine wp_mono_total (Buffer.checkAlloc_spec _ _) fun _ b hb => ?_
    exact { hs2 with ascending := (Buffer.len_of_contents hb).trans hs2.ascending }
  intro s hs
  rw [SessionChannel.fillEventArray]
  refine wp_seq (hwaits s hs) ?_
  intro waits s1 hs1
  have hnot : ¬(s1.base.currentOutputState = .waitDrain ∧ s1.base.descending.len = 0) := by
    rw [hs1.output]
    exact fun h => by cases h.1
  rw [wp_read, if_neg hnot, wp_bind]
  refine garbageCollect hs1.input ?_
  rw [wp_pure]
  exact hs1

/-- The thread goes on with an empty queue. -/
theorem worker (hs : Unused s) {w : Worker} (w' : Worker) (hsub : s.subsystem = some w)
    (hrun : w.pc ≠ .terminated) (hpc : PcOk s.fromChannel w'.pc) :
    Unused { s with subsystem := some w' } := by
  have hqueue : QueueOk (some w) s.fromChannel := hsub ▸ hs.queue
  exact { hs with queue := hqueue.goto hrun s.fromChannel.dataArrived hpc }

theorem goto {pc : Pc} (hrun : pc ≠ .terminated) {next : Worker → Worker}
    (hnext : ∀ (w : Worker) q, PcOk q (next w).pc) :
    Keeps Unused (workerAt pc fun w => setWorker (next w))
      ⊤ := by
  refine fun s hs => wp_workerAt hs fun w hsub hpc => ?_
  rw [setWorker, wp_modify]
  exact hs.worker (next w) hsub (by rw [hpc]; exact hrun) (hnext w _)

/-- Nothing is taken from an empty queue. -/
theorem getStep : Keeps Unused (stepEvent .getStep) ⊤ := by
  intro s hs
  rw [stepEvent, wp_modify]
  cases hsub : s.subsystem with
  | none => exact hs
  | some w =>
    have hqueue : QueueOk (some w) s.fromChannel := hsub ▸ hs.queue
    obtain ⟨hok, heffect⟩ := getStep_ok hqueue
    have hempty : (Channels.getStep s.fromChannel w).1.waiting = 0 ∧
        (Channels.getStep s.fromChannel w).1.nReadConsumed = 0 ∧
        (Channels.getStep s.fromChannel w).1.nWriteConsumed = 0 := by
      cases heffect with
      | same h hr hw =>
        exact ⟨h.trans hs.waiting, hr.trans hs.nReadConsumed, hw.trans hs.nWriteConsumed⟩
      | swap h hr hw =>
        exact ⟨h.trans hs.waiting, hr.trans hs.nWriteConsumed, hw.trans hs.nReadConsumed⟩
      | take n h hr hw =>
        rw [hs.waiting] at h
        have hn : n = 0 := by omega
        have hread : (Channels.getStep s.fromChannel w).1.nReadConsumed.toUInt32 =
            (0 : Int32).toUInt32 := by
          rw [hr, hs.nReadConsumed, hn]
          decide
        exact ⟨by omega, congrArg Int32.ofUInt32 hread, hw.trans hs.nWriteConsumed⟩
    exact { hs with
      queue := hok
      waiting := hempty.1
      nReadConsumed := hempty.2.1
      nWriteConsumed := hempty.2.2 }

theorem workerPut (data : Bytes) :
    Keeps Unused (stepEvent (.workerPut data)) ⊤ := by
  refine fun s hs => wp_workerAt hs fun w hsub hpc => ?_
  rw [wp_tryCatch, wp_zoom]
  refine wp_intro (fun _ q _ => { hs with }) fun _ q _ => ?_
  rw [setWorker, wp_modify]
  have hended := hs.worker { w with pc := .terminated } hsub (by rw [hpc]; decide) trivial
  exact { hended with }

/-- The first `channel_post` sends nothing: no credit is due. -/
theorem channelPost (hs : Unused s) :
    wp SessionChannel.channelPost
      (fun _ s' => s'.base.con.sent = [] ∧ s'.base.isOpened = s.base.isOpened ∧ s'.deleted = false)
      any s := by
  rw [SessionChannel.channelPost, wp_read, wp_ite, wp_bind]
  refine ⟨fun hopened => ?_, fun _ => garbageCollect hs.input ⟨hs.sent, rfl, hs.live⟩⟩
  rw [SessionChannel.subproc2ascending, wp_bind, wp_zoom]
  refine wp_intro (fun _ t _ => ?_) fun _ _ _ => trivial
  rw [wp_pure, wp_bind, SessionChannel.descending2subproc, wp_read, wp_bind, wp_zoom]
  refine wp_weaken (put_result _ _ _) ?_
  intro _ t' ht'
  have hconsumed : t'.2 = 0 := by
    refine ht'.1.trans ?_
    simp only [hs.consumed, hs.nWriteConsumed]
    decide
  rw [onBase, wp_zoom, onDescending, wp_zoom]
  refine wp_intro (fun _ b _ => ?_) fun _ _ _ => trivial
  rw [wp_bind, Channel.channelCheckWindow, wp_onBase_read]
  simp only [hconsumed]
  rw [if_neg (by simp), wp_onBase_pure]
  exact garbageCollect hs.input ⟨hs.sent, rfl, hs.live⟩

end Unused

namespace ChannelObject

/-- No reply has been sent yet. -/
structure Waiting (o : ChannelObject) : Prop where
  cls : o.cls = .tcpClient
  connecting : o.isConnecting = true
  unused : Unused o.session

/-- What `channel_post` does not wait for, and what must not come before it: the connection is
there; and neither the peer nor the end of the thread ends the channel. -/
def inTime (event : Event) (o : ChannelObject) : Bool :=
  match event with
  | .session .post => o.session.base.isOpened
  | .session (.eof _) | .session (.close _) => false
  | .session .exitMsg => !SessionChannel.terminated o.session.subsystem
  | _ => true

def handshakeGuard (event : Event) (o : ChannelObject) : Bool := !o.isConnecting || inTime event o

/-- The reply has been sent, for a `TCPClientChannel` with the connection there. -/
structure Confirmed (o : ChannelObject) : Prop where
  answered : Answered o.life
  connected : o.cls = .tcpClient → o.session.base.isOpened = true

variable {o : ChannelObject}

variable {m : SessionM Unit} {event : Event}

theorem onSession_waiting (ho : o.Waiting) (hm : Keeps Unused m ⊤) :
    wp (onSession m) (fun _ => Waiting) any o := by
  rw [onSession, wp_zoom]
  exact wp_imp (hm _ ho.unused) fun _ s' hs' => ⟨ho.cls, ho.connecting, hs'⟩

theorem afterConnect_waiting (ho : o.Waiting) (hm : Keeps Unused m ⊤) :
    wp (afterConnect m) (fun _ => Waiting) any o := by
  exact wp_afterConnect ho fun _ => onSession_waiting ho hm

/-- The channel is confirmed, as the first thing that is sent. -/
theorem channelPost_waiting (ho : o.Waiting) (hsound : o.Sound)
    (hopened : o.session.base.isOpened = true) : wp channelPost (fun _ => Confirmed) any o := by
  have hpost : wp (onSession (postAs false)) (fun _ o' => o'.Sound ∧
      (o'.session.base.con.sent = [] ∧ o'.session.base.isOpened = true) ∧ o'.isConnecting = true)
      any o := by
    have hlives := onSession_stops hsound (post_at false hsound.at)
    have hsilent : wp (onSession (postAs false)) (fun _ o' =>
        (o'.session.base.con.sent = [] ∧ o'.session.base.isOpened = true) ∧ o'.isConnecting = true)
        any o := by
      rw [onSession, wp_zoom]
      refine wp_imp ho.unused.channelPost fun _ s' hs' => ?_
      exact ⟨⟨hs'.1, hs'.2.1.trans hopened⟩, ho.connecting⟩
    exact wp_weaken (wp_and hlives hsilent) fun _ o' h => ⟨h.1.1, h.2⟩
  refine wp_channelPost (fun hcls => absurd ho.cls hcls) fun _ => wp_imp hpost ?_
  intro _ o1 h1
  obtain ⟨hsound1, ⟨hsent, hopened1⟩, hconnecting⟩ := h1
  refine ⟨fun _ => ?_, fun hno => by cases hconnecting.symm.trans hno⟩
  refine openConfirmation_lives hsound1 fun p o2 hp _ hsound2 hlife => ?_
  have hsent2 : o2.life.sent = (o1.life.say [p]).sent := congrArg sent hlife
  have hopened2 : o2.life.isOpened = (o1.life.say [p]).isOpened := congrArg isOpened hlife
  refine ⟨⟨rfl, ?_⟩, fun _ => hopened2.trans hopened1⟩
  have hone : o2.life.sent = [p] := by
    rw [hsent2]
    exact congrArg (· ++ [p]) hsent
  exact hone ▸ replied_confirmation hp

theorem Waiting.step (ho : o.Waiting) (hsound : o.Sound) (hguard : handshakeGuard event o = true) :
    wp (ChannelObject.step event) (fun _ o' => o'.Waiting ∨ o'.Confirmed) any o := by
  have hstays : ∀ {m : ObjectM Unit}, wp m (fun _ => Waiting) any o →
      wp m (fun _ o' => o'.Waiting ∨ o'.Confirmed) any o :=
    fun hm => wp_imp hm fun _ _ h => .inl h
  have htime : inTime event o = true := by
    rw [handshakeGuard, ho.connecting] at hguard
    exact hguard
  rw [step_live ho.unused.live]
  cases event with
  | startSubsystem =>
    exact wp_inputChannelReq (fun _ => trivial) (fun _ => trivial) fun hcls => absurd ho.cls hcls
  | otherRequest =>
    rw [stepEvent]
    simp only [otherChannelReq, wp_bind, wp_get, ho.cls, wp_throw, any]
  | connected =>
    apply hstays
    exact wp_connected ho fun _ _ => ⟨ho.cls, ho.connecting, { ho.unused with }⟩
  | session event =>
    cases event with
    | request =>
      exact wp_inputChannelReq (fun _ => trivial) (fun _ => trivial) fun hcls => absurd ho.cls hcls
    | data body =>
      exact hstays (onSession_waiting ho ((Unused.received body).bind fun _ =>
        Unused.channelInputData))
    | eof body => cases htime
    | close body => cases htime
    | windowAdjust body =>
      exact hstays (onSession_waiting ho ((Unused.received body).bind fun _ =>
        Unused.channelInputWindowAdjust))
    | outputPoll => exact hstays (onSession_waiting ho Unused.channelOutputPoll)
    | fillEventArray =>
      exact hstays (onSession_waiting ho (Unused.fillEventArray.bind fun _ => .pure ()))
    | post =>
      exact wp_imp (channelPost_waiting ho hsound htime) fun _ _ h => .inr h
    | exitMsg =>
      apply hstays
      show wp (onSession (SessionChannel.stepEvent .exitMsg)) _ _ _
      rw [onSession, wp_zoom, SessionChannel.stepEvent]
      -- the end of a thread that has not ended is not reported
      refine wp_workerAt ho fun w hsub hpc => ?_
      have hrun := (Bool.not_eq_true' _).mp htime
      rw [hsub] at hrun
      exact absurd hpc (of_decide_eq_false hrun)
    | callGet =>
      exact hstays (afterConnect_waiting ho (Unused.goto (by decide) fun _ _ => trivial))
    | getStep => exact hstays (onSession_waiting ho Unused.getStep)
    | otherEvent => exact hstays (onSession_waiting ho (Unused.goto (by decide) fun _ _ => trivial))
    | workerPut data => exact hstays (afterConnect_waiting ho (Unused.workerPut data))
    | workerExit => exact hstays (onSession_waiting ho (Unused.goto (by decide) fun _ _ => trivial))

/-- A `TCPClientChannel` is not replaced by another channel. -/
theorem step_tcp (event : Event) (tcp : Prop) :
    Keeps (fun o => o.cls = .tcpClient ↔ tcp) (ChannelObject.step event) := by
  have hsession : ∀ {m : SessionM Unit}, Keeps (fun o => o.cls = .tcpClient ↔ tcp) (onSession m) :=
    onSession_cls (K := fun c => c = .tcpClient ↔ tcp) _
  intro o ho
  refine step_of_requests event ho (fun sftp reply start => ?_) fun hother =>
    step_cls (K := fun c => c = .tcpClient ↔ tcp) event hother o ho
  have hnot : o.cls ≠ .tcpClient → ∀ {c : ChannelClass}, c ≠ .tcpClient → (c = .tcpClient ↔ tcp) :=
    fun hcls _ hc => ⟨fun h => absurd h hc, fun htcp => absurd (ho.mpr htcp) hcls⟩
  exact wp_inputChannelReq (fun _ => ho) (fun h => hnot h.cls fun hsftp => by cases hsftp)
    fun hcls _ hnew => hsession _ (hnot hcls hnew.1)

theorem Confirmed.step (ho : o.Confirmed) (hsound : o.Sound) (hlive : o.session.deleted = false)
    (event : Event) :
    wp (ChannelObject.step event) (fun _ o' => o'.Sound ∧ o'.Confirmed) (fun _ => o.Stops)
      o := by
  have hstep := wp_and (step_lives hsound event) (step_tcp event (o.cls = .tcpClient) o Iff.rfl)
  refine wp_mono hstep (fun _ o' h => ?_) fun _ _ h => h.1
  obtain ⟨hlives, hcls⟩ := h
  rw [hlive, if_neg (by decide)] at hlives
  exact ⟨hlives.1, ho.answered.step hlives.2, fun htcp =>
    hlives.2.opened (ho.connected (hcls.mp htcp))⟩

/-- As far as a channel has got with the handshake -/
structure Shakes (o : ChannelObject) : Prop where
  sound : o.Sound
  state : o.Waiting ∨ o.Confirmed

theorem Shakes.sent (ho : o.Shakes) :
    o.session.base.con.sent = [] ∨ Replied o.session.base.con.sent :=
  ho.state.imp (fun h => h.unused.sent) fun h => h.answered.replied

theorem Shakes.stops {o' : ChannelObject} (ho : o.Shakes) (h : o.Stops o') :
    o'.session.base.con.sent = [] ∨ Replied o'.session.base.con.sent := by
  rcases h with hsilent | ⟨-, hdead, ps, hps, hsent⟩
  · rw [hsilent.1]
    exact ho.sent
  rcases ho.state with hwaiting | hconfirmed
  · cases hdead.1.symm.trans hwaiting.unused.input
  · have hsaid := hconfirmed.answered.moves (moves_say _ hps.ordinary)
    rcases hsent with hsent | hsent
    · exact .inr (hsent ▸ hsaid.replied)
    · exact .inr (hsent ▸ hsaid.collect.replied)

theorem Shakes.step (ho : o.Shakes) (hlive : o.session.deleted = false)
    (hguard : handshakeGuard event o = true) :
    wp (ChannelObject.step event) (fun _ => Shakes) (fun _ => o.Stops) o := by
  rcases ho.state with hwaiting | hconfirmed
  · have hstep := wp_and (step_lives ho.sound event) (hwaiting.step ho.sound hguard)
    refine wp_mono hstep (fun _ o' h => ?_) fun _ _ h => h.1
    obtain ⟨hlives, hstate⟩ := h
    rw [hlive, if_neg (by decide)] at hlives
    exact ⟨hlives.1, hstate⟩
  · exact wp_imp (hconfirmed.step ho.sound hlive event) fun _ o' h => ⟨h.1, .inr h.2⟩

/-- After `channel_post` there is an answer. -/
theorem Shakes.post (ho : o.Shakes) (hlive : o.session.deleted = false)
    (hguard : handshakeGuard (.session .post) o = true) :
    wp (ChannelObject.step (.session .post)) (fun _ => Confirmed) any o := by
  rcases ho.state with hwaiting | hconfirmed
  · have hopened : o.session.base.isOpened = true := by
      rw [handshakeGuard, hwaiting.connecting] at hguard
      exact hguard
    rw [step_live hlive]
    exact channelPost_waiting hwaiting ho.sound hopened
  · exact wp_weaken (hconfirmed.step ho.sound hlive _) fun _ o' h => h.2

theorem create_shakes (ctype : ChannelType) (self remoteId rwindow rmaxpack : UInt32) :
    wp confirmOpen (fun _ o' => o'.Shakes ∧ o'.session.deleted = false) never
      (createDerivation ctype self remoteId rwindow rmaxpack) := by
  have hsound := createDerivation_sound ctype self remoteId rwindow rmaxpack
  refine wp_imp (confirmOpen_lives hsound) fun _ o' h => ?_
  cases ctype with
  | session =>
    have hcls : (createDerivation .session self remoteId rwindow rmaxpack).cls = .session := rfl
    rw [hcls, if_neg (by decide)] at h
    obtain ⟨hsame, hsound', p, hp, hlife⟩ := h
    have hsent : o'.life.sent = [p] := by
      rw [hlife]
      rfl
    have hdone : o'.life.connecting = false := by
      rw [hlife]
      rfl
    have hlive : o'.life.deleted = false := by
      rw [hlife]
      rfl
    refine ⟨⟨hsound', .inr ⟨⟨hdone, ?_⟩, fun htcp => ?_⟩⟩, hlive⟩
    · rw [hsent]
      exact replied_confirmation hp
    · cases hsame.symm.trans htcp
  | directTcpip =>
    have hcls : (createDerivation .directTcpip self remoteId rwindow rmaxpack).cls =
      .tcpClient := rfl
    rw [hcls, if_pos rfl] at h
    rw [h]
    refine ⟨⟨hsound, .inl ⟨rfl, rfl, ⟨rfl, rfl, rfl, rfl, rfl, ?_, rfl, rfl, rfl, rfl⟩⟩⟩, rfl⟩
    refine .init fun w hw => ?_
    cases hw
    rfl

end ChannelObject

/-! ## §4 All channels -/

namespace Server

/-- The guard of the objects, for the channels of the connection -/
def handshakeGuard (event : ChannelObject.Event) (e : Entry) : Prop :=
  ChannelObject.handshakeGuard event e.object = true

instance (event : ChannelObject.Event) (e : Entry) : Decidable (handshakeGuard event e) :=
  inferInstanceAs (Decidable (_ = true))

/-- CHANNEL_OPEN of a known type is dispatched. -/
def opensChannel (event : Event) (s : Server) : Bool :=
  match event with
  | .channelOpen (some _) .. => s.phase = .dispatch
  | _ => false

/-- The host to connect to is found. -/
def hostFound : Event → Bool
  | .channelOpen (some .directTcpip) _ _ _ resolves _ => resolves
  | _ => true

/-- What is known however the connection ends -/
def AnsweredFirst (e : Entry) : Prop :=
  e.object.session.base.con.sent = [] ∨ Replied e.object.session.base.con.sent

theorem shakes_step {event : ChannelObject.Event} {e : Entry} (he : e.object.Shakes)
    (hguard : handshakeGuard event e) (hlive : e.object.session.deleted = false) :
    wp (ChannelObject.step event) (fun _ o => (e.after o).object.Shakes)
      (fun _ o => AnsweredFirst (e.after o)) e.object := by
  exact wp_mono (he.step hlive hguard) (fun _ o ho => ho) fun _ o ho => he.stops ho

theorem handshake_rules : Rules (fun _ e => e.object.Shakes) AnsweredFirst handshakeGuard where
  step := shakes_step
  exitMsg := shakes_step
  raise he := he
  gone he _ := he
  signal he _ := he
  safe he := he.sent
  create ctype number _ remoteId rwindow rmaxpack :=
    ChannelObject.create_shakes ctype (UInt32.ofNat number) remoteId rwindow rmaxpack

theorem onObject_created (n id : Nat) (m : ObjectM Unit) :
    Keeps (fun s => s.created = n) (onObject id m) := by
  intro s hs
  refine wp_onObject (fun _ => hs) fun e _ => ?_
  exact wp_intro (fun _ o _ => created_update.trans hs) fun _ o _ => created_update.trans hs

/-- Every CHANNEL_OPEN of a known type makes a channel. -/
theorem step_created (n : Nat) (event : Event) (s : Server) (hs : s.created = n)
    (hfound : hostFound event = true) :
    wp (step event) (fun _ s' => s'.created = n + if opensChannel event s then 1 else 0)
      (fun _ s' => s'.created = n + if opensChannel event s then 1 else 0) s := by
  have hother : (∀ ctype remoteId rwindow rmaxpack resolves bug,
      event ≠ .channelOpen ctype remoteId rwindow rmaxpack resolves bug) →
      wp (step event) (fun _ s' => s'.created = n) (fun _ s' => s'.created = n) s := by
    intro hnot
    refine step_keeps (I := fun s => s.created = n) (fun _ _ _ _ _ h => h)
      (fun id event => onObject_created n id _) (fun _ h => h) (fun id s hs => ?_)
      event (fun _ _ _ _ _ _ h => absurd h (hnot _ _ _ _ _ _)) s hs
    exact wp_signal hs fun _ _ _ _ _ => hs
  cases event with
  | message | round | thread | signal => exact hother fun _ _ _ _ _ _ h => by cases h
  | channelOpen ctype remoteId rwindow rmaxpack resolves bug =>
    rw [step, whenDispatching, wp_read, wp_ite, wp_pure]
    cases ctype with
    | none =>
      refine ⟨fun _ => ?_, fun _ => hs⟩
      rw [serverInputChannelOpen, openFailure, wp_zoom]
      exact wp_intro (fun _ _ _ => hs) fun _ _ _ => hs
    | some ctype =>
      refine ⟨fun hphase => ?_, fun hphase => ?_⟩
      · have hopens : opensChannel
            (.channelOpen (some ctype) remoteId rwindow rmaxpack resolves bug) s = true :=
          decide_eq_true hphase
        have hresolves : ¬(ctype = .directTcpip ∧ resolves = false) := by
          intro h
          rw [h.1, h.2] at hfound
          cases hfound
        rw [hopens, if_pos rfl, serverInputChannelOpen, if_neg hresolves, wp_read, wp_write]
        exact onObject_created (n + 1) _ _ _ (congrArg (· + 1) hs)
      · have hlater : opensChannel
            (.channelOpen (some ctype) remoteId rwindow rmaxpack resolves bug) s = false :=
          decide_eq_false hphase
        rw [hlater, if_neg (by decide)]
        exact hs

/-- Among the channels that are gone, none waits. -/
theorem AllKeep.gone_replied {s : Server} (hs : AllKeep (fun _ e => e.object.Shakes) s) :
    ∀ e ∈ s.removed, Replied e.object.session.base.con.sent := by
  intro e he
  obtain ⟨hshakes, hgone⟩ := hs.gone e he
  rcases hshakes.state with hwaiting | hconfirmed
  · cases hwaiting.unused.live.symm.trans hgone
  · exact hconfirmed.answered.replied

/-- When `channel_post` has been called on all channels, all have been answered. -/
theorem post_answers {s : Server} (hs : AllKeep (fun _ e => e.object.Shakes) s) (rekeying : Bool)
    (hC : Finds handshakeGuard (.round rekeying) s) (hphase : s.phase = .post)
    (hno : s.rekeying = false) :
    wp (step (.round rekeying))
      (fun _ s' => ∀ e ∈ s'.everyone, Replied e.object.session.base.con.sent)
      any s := by
  simp only [Finds, hphase] at hC
  have hmid : Midway (fun e => e.object.Shakes ∧ handshakeGuard (.session .post) e)
      (fun e => Replied e.object.session.base.con.sent)
      (fun e => Replied e.object.session.base.con.sent) s.channels.ids s := by
    refine ⟨fun id e h => ⟨(hs.live id e h).2, ?_⟩,
      fun e h => ⟨hs.gone_replied e h, (hs.gone e h).2⟩⟩
    rw [if_pos (mem_ids h)]
    exact ⟨(hs.live id e h).1, hC hno e (mem_toList.mpr ⟨id, h⟩)⟩
  have hvisit : Visit (.session .post)
    (fun e => e.object.Shakes ∧ handshakeGuard (.session .post) e)
      (fun e => Replied e.object.session.base.con.sent)
      (fun e => Replied e.object.session.base.con.sent) fun _ => True := by
    refine ⟨fun e he hlive => ?_, fun _ _ => trivial, fun _ _ => trivial, fun _ _ => trivial,
      fun _ h _ => h⟩
    exact wp_weaken (he.1.post hlive he.2) fun _ o ho => ho.answered.replied
  have hloop := forEach_midway hvisit List.nodup_range hmid
  rw [step, nextPhase, wp_read, hphase]
  rw [wp_bind, unlessRekeying, wp_read, hno, if_neg (by decide)]
  refine wp_weaken hloop fun _ s1 h1 => ?_
  rw [wp_modify]
  intro e he
  rcases mem_everyone he with ⟨id, hid⟩ | hgone
  · have hvisited := (h1.1.live id e hid).2
    rw [if_neg List.not_mem_nil] at hvisited
    exact hvisited
  · exact (h1.1.gone e hgone).1

/-- Every channel has been answered, or it is a `TCPClientChannel` that waits for its connection;
the others have it. -/
structure Answers (s : Server) : Prop where
  waits : ∀ e ∈ s.everyone, Replied e.object.session.base.con.sent ∨
    e.object.session.base.con.sent = [] ∧ e.object.cls = .tcpClient ∧ e.object.isConnecting = true ∧
      e ∈ s.channels.toList
  connected : ∀ e ∈ s.everyone, e.object.cls = .tcpClient →
    Replied e.object.session.base.con.sent → e.object.session.base.isOpened = true

theorem AllKeep.answers {s : Server} (hs : AllKeep (fun _ e => e.object.Shakes) s) : Answers s where
  waits e he := by
    rcases List.mem_append.mp he with hlive | hgone
    · obtain ⟨id, hid⟩ := mem_toList.mp hlive
      rcases (hs.live id e hid).1.state with hwaiting | hconfirmed
      · exact .inr ⟨hwaiting.unused.sent, hwaiting.cls, hwaiting.connecting, hlive⟩
      · exact .inl hconfirmed.answered.replied
    · exact .inl (hs.gone_replied e hgone)
  connected e he htcp hreplied := by
    have hstate : e.object.Shakes := by
      rcases mem_everyone he with ⟨id, hid⟩ | hgone
      · exact (hs.live id e hid).1
      · exact (hs.gone e hgone).1
    rcases hstate.state with hwaiting | hconfirmed
    · obtain ⟨reply, rest, hsent, -⟩ := hreplied
      cases hwaiting.unused.sent.symm.trans hsent
    · exact hconfirmed.connected htcp

/-- **The open handshake.** In every run in which the hosts are found, in which `channel_post`
finds no `TCPClientChannel` that waits without its connection, and in which neither EOF or CLOSE
from the peer nor the end of the thread comes to a channel that waits: however the run ends,
every CHANNEL_OPEN of a known type has made a channel, and what has been sent for it is nothing,
or one reply with other messages behind it. As long as the connection goes on, only a
`TCPClientChannel` that is still there has got no reply yet, and one with a reply has its
connection; and at the end of the next round of `channel_post` all have got their reply. -/
theorem open_handshake (events : List Event)
    (h : Meets step
      (fun event s => hostFound event = true ∧ Finds handshakeGuard event s) events {}) :
    let s := endState (runAll step events) {}
    s.created = hits step opensChannel events {} ∧
      (∀ birth < s.created, ∃ e ∈ s.everyone, e.birth = birth) ∧
      (∀ e ∈ s.everyone, AnsweredFirst e) ∧
      (returns (runAll step events) {} = true → Answers s ∧
        ∀ rekeying, s.phase = .post → s.rekeying = false → Finds handshakeGuard
        (.round rekeying) s →
          returns (step (.round rekeying)) s = true →
          ∀ e ∈ (endState (step (.round rekeying)) s).everyone,
            Replied e.object.session.base.con.sent) := by
  intro s
  have hrun := Meets.runAll (fun event s hs hC => step_allKeep handshake_rules event hs hC.2) h
    init_allKeep
  have hsafe : AllSafe AnsweredFirst s :=
    wp_endState_both (wp_mono hrun (fun _ _ hs => hs.safe handshake_rules) fun _ _ hs => hs)
  have hcreated : wp (runAll step events)
      (fun _ s' => s'.created = 0 + hits step opensChannel events {})
      (fun _ s' => s'.created = 0 + hits step opensChannel events {}) {} :=
    Meets.runAll_hits (E := fun n s => s.created = n)
      (fun n event s hs hC => step_created n event s hs hC.1) 0 h rfl
  rw [zero_add] at hcreated
  refine ⟨wp_endState_both hcreated, (run_identified events).everyone_all, fun e he => ?_,
    fun hreturns => ?_⟩
  · rcases mem_everyone he with ⟨id, hid⟩ | hgone
    · exact hsafe.1 id e hid
    · exact (hsafe.2 e hgone).1
  · obtain ⟨-, hs⟩ := wp_endState hrun hreturns
    refine ⟨hs.answers, fun rekeying hphase hno hC hgoes => ?_⟩
    obtain ⟨-, hall⟩ := wp_endState (post_answers hs rekeying hC hphase hno) hgoes
    exact hall

/-- A forwarding and a session are opened; the connection is there before the next round of
`channel_post`. -/
def connectedInTime : List Event :=
  [.channelOpen (some .directTcpip) 7 100 100 true false,
    .channelOpen (some .session) 8 100 100 true false, .round false, .thread 1 .connected,
    .round false, .round false, .round false, .round false, .round false]

theorem open_handshake_connected :
    let s := endState (runAll step connectedInTime) {}
    s.everyone.map (fun e => (e.object.session.base.con.sent.map Packet.type,
        e.object.session.base.isOpened)) = [([91], true), ([91], false)] ∧
      s.created = 2 ∧ Answers s := by
  intro s
  have h := open_handshake connectedInTime (by decide +kernel)
  exact ⟨by decide +kernel, h.1.trans (by decide +kernel), (h.2.2.2 (by decide +kernel)).1⟩

/-- A forwarding is opened to a host that does not answer. -/
def connectFails : List Event :=
  let round : List Event := List.replicate 6 (.round false)
  [.channelOpen (some .directTcpip) 7 100 100 true false] ++ round ++
    [.thread 1 .exit, .signal 1] ++ round

/-- The channel is confirmed while the thread is still connecting, and the failure is then told
as the end of a subsystem. -/
theorem confirmed_unconnected :
    let s := endState (runAll step connectFails) {}
    s.everyone.map (fun e => (e.object.session.base.con.sent.map Packet.type,
        e.object.session.base.isOpened)) = [([91, 98], false)] ∧
      ¬∀ e ∈ s.everyone, e.object.cls = .tcpClient →
        Replied e.object.session.base.con.sent → e.object.session.base.isOpened = true := by
  intro s
  exact ⟨by decide +kernel, by decide +kernel⟩

end Server

end Shiesh.Channels
