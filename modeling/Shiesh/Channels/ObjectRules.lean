import Shiesh.Channels.Object

/-!
# Rules for Channel Objects

The functions of an object are those of its session, resolved by its class. Each rule says what is
to be shown about the session; the other modules never unfold the functions of the object.
-/

namespace Shiesh.Channels

open Shiesh.Lib SessionChannel Bool Ssh2Msg

variable {s : SessionChannel}

/-- A step of the thread, if it is where the step is taken -/
theorem wp_workerAt {pc : Pc} {f : Worker → SessionM Unit}
    {Q : Unit → SessionChannel → Prop} {E : Halt → SessionChannel → Prop} (hsame : Q () s)
    (hf : ∀ w, s.subsystem = some w → w.pc = pc → wp (f w) Q E s) :
    wp (workerAt pc f) Q E s := by
  rw [workerAt, wp_read]
  cases hsub : s.subsystem with
  | none =>
    simp only [wp_pure]
    exact hsame
  | some w =>
    rw [wp_ite, wp_pure]
    exact ⟨hf w hsub, fun _ => hsame⟩

/-! ## `channel_post` of either class -/

/-- `subproc2ascending` -/
def getAs (sftp : Bool) : SessionM Unit := do
  let _ ← zoom (fun s => (s.toChannel, s.base.ascending))
    (fun t s => { s with toChannel := t.1, base := { s.base with ascending := t.2 } })
    (BusyThreadReadBuffer.get sftp)

/-- `descending2subproc` -/
def putAs : Bool → SessionM Unit
  | false => SessionChannel.descending2subproc
  | true => SFTPChannel.descending2subproc

def postAs : Bool → SessionM Unit
  | false => SessionChannel.channelPost
  | true => SFTPChannel.channelPost

/-- The calls of an opened channel one after the other -/
theorem wp_postAs {sftp : Bool} {Q : Unit → SessionChannel → Prop}
    {E : Halt → SessionChannel → Prop} :
    wp (postAs sftp) Q E s ↔
      (s.base.isOpened = true → wp (getAs sftp) (fun _ => wp (putAs sftp) (fun _ =>
        wp (onBase Channel.channelCheckWindow) (fun _ => wp garbageCollect Q E)
          E) E) E s) ∧
      (s.base.isOpened = false → wp garbageCollect Q E s) := by
  have hpost : postAs sftp = (do
      if (← get).base.isOpened then
        getAs sftp
        putAs sftp
        onBase Channel.channelCheckWindow
      garbageCollect) := by
    cases sftp with
    | false => rfl
    | true => rfl
  rw [hpost]
  simp only [wp_bind, wp_get, wp_ite, not_eq_true]

/-- A thread is told to end before it is deleted. -/
theorem wp_sessionCloseByChannel {Q : Unit → SessionChannel → Prop}
    {E : Halt → SessionChannel → Prop}
    (hput : s.subsystem.isSome = true → wp BusyThreadWriteBuffer.putEof
      (fun _ q => Q () { s with fromChannel := q, subsystem := none })
      (fun e q => E e { s with fromChannel := q }) s.fromChannel)
    (hnone : s.subsystem.isSome = false → Q () { s with subsystem := none }) :
    wp sessionCloseByChannel Q E s := by
  rw [sessionCloseByChannel, wp_read, wp_ite, wp_bind, putEof, wp_zoom,
    wp_modify]
  simp only [wp_modify]
  exact ⟨hput, fun h => hnone (eq_false_iff.mpr h)⟩

/-! ## Objects -/

namespace ChannelObject

variable {o : ChannelObject} {Q : Unit → ChannelObject → Prop} {E : Halt → ChannelObject → Prop}
  {sftp' created reply : Bool} {start : Start} {m : SessionM Unit} {event : Event}

theorem step_deleted (hdeleted : o.session.deleted = true) : wp (step event) Q E o ↔ Q () o := by
  rw [step, wp_read, hdeleted, if_pos rfl, wp_pure]

theorem step_live (hlive : o.session.deleted = false) :
    wp (step event) Q E o ↔ wp (stepEvent event) Q E o := by
  rw [step, wp_read, hlive, if_neg Bool.false_ne_true]

/-- An event that is the session's -/
theorem step_session {event : SessionChannel.Event} (hlive : o.session.deleted = false)
    (hevent : stepEvent (.session event) = onSession (SessionChannel.stepEvent event)) :
    wp (step (.session event)) Q E o ↔ wp (SessionChannel.stepEvent event)
      (fun a s => Q a { o with session := s })
      (fun e s => E e { o with session := s }) o.session := by
  rw [step_live hlive, hevent, onSession, wp_zoom]

/-- What a channel without requests answers to one -/
abbrev noRequests : Halt := .exception "Channel request for TCP channel"

/-- The class of an object before it starts a subsystem: only a session without one is replaced. -/
def Upgrade (o : ChannelObject) (cls : ChannelClass) : Prop :=
  cls ≠ .tcpClient ∧
    (cls = o.cls ∨ o.session.base.isOpened = false ∧ o.session.subsystem = none)

/-- The thread for "sftp" would be created, but for a null pointer. -/
structure Crashes (sftp : Bool) (start : Start) (o : ChannelObject) : Prop where
  cls : o.cls ≠ .tcpClient
  sftp : sftp = true
  start : start = .crashed
  unopened : o.session.base.isOpened = false
  unused : o.session.subsystem = none

theorem Crashes.of_same (h : o.Crashes sftp' start) {o' : ChannelObject} (hcls : o'.cls = o.cls)
    (hopened : o'.session.base.isOpened = o.session.base.isOpened)
    (hsame : o'.session.subsystem = o.session.subsystem) : o'.Crashes sftp' start :=
  ⟨hcls ▸ h.cls, h.sftp, h.start, hopened.trans h.unopened, hsame.trans h.unused⟩

theorem wp_inputChannelReq (htcp : o.cls = .tcpClient → E noRequests o)
    (hcrash : o.Crashes sftp' start → E (.exception "access violation") { o with cls := .sftp })
    (hrequest : o.cls ≠ .tcpClient → ∀ cls, o.Upgrade cls →
      wp (onSession (SessionChannel.inputChannelReq reply start)) Q E { o with cls := cls }) :
    wp (inputChannelReq sftp' reply start) Q E o := by
  have hsession : o.cls ≠ .tcpClient → wp (do
      if sftp' && !o.session.base.isOpened && o.session.subsystem.isNone then
        replaceBySftp start
      onSession (SessionChannel.inputChannelReq reply start)) Q E o := by
    intro hcls
    rw [wp_ite, wp_bind, replaceBySftp, wp_update, wp_ite, wp_throw, wp_pure]
    simp only [and_eq_true, not_eq_true', Option.isNone_iff_eq_none]
    exact ⟨fun hnew => ⟨fun hstart => hcrash ⟨hcls, hnew.1.1, hstart, hnew.1.2, hnew.2⟩, fun _ =>
      hrequest hcls .sftp ⟨by decide, .inr ⟨hnew.1.2, hnew.2⟩⟩⟩, fun _ =>
      hrequest hcls o.cls ⟨hcls, .inl rfl⟩⟩
  rw [inputChannelReq, wp_read]
  cases hcls : o.cls with
  | tcpClient =>
    simp only [wp_throw]
    exact htcp hcls
  | session | sftp => exact hsession (by rw [hcls]; decide)

theorem crashes_throws (h : o.Crashes sftp' start) :
    wp (inputChannelReq sftp' reply start) never any o := by
  have hnew : (sftp' && !o.session.base.isOpened && o.session.subsystem.isNone) = true := by
    rw [h.sftp, h.unopened, h.unused]
    rfl
  have hthrows : ∀ m : ObjectM Unit, wp (replaceBySftp start >>= fun _ => m) never any o := by
    intro m
    rw [wp_bind, replaceBySftp, wp_update, if_pos h.start, wp_throw]
    trivial
  rw [inputChannelReq, wp_read]
  cases hcls : o.cls with
  | tcpClient => exact absurd hcls h.cls
  | session | sftp =>
    simp only [hnew, if_true]
    exact hthrows _

theorem wp_otherChannelReq (htcp : o.cls = .tcpClient → E noRequests o)
    (hnone : reply = false → Q () o)
    (hreply : reply = true → ∀ processed : Bool, wp (onSession (onBase (message
      (if processed then channelSuccess else channelFailure) (pure ())))) Q E o) :
    wp (otherChannelReq created reply) Q E o := by
  have hsession : wp (do
      if reply then
        onSession (onBase (message (if created && !o.session.base.isOpened then
          channelSuccess else channelFailure) (pure ())))) Q E o := by
    rw [wp_ite, wp_pure]
    exact ⟨fun hyes => hreply hyes _, fun hno => hnone (eq_false_iff.mpr hno)⟩
  rw [otherChannelReq, wp_read]
  cases hcls : o.cls with
  | tcpClient =>
    simp only [wp_throw]
    exact htcp hcls
  | session | sftp => exact hsession

/-- The class that puts length fields in front of the messages -/
def sftp (o : ChannelObject) : Bool := o.cls = .sftp

/-- A `TCPClientChannel` that has not been confirmed yet is confirmed behind it. -/
theorem wp_channelPost (hsession : o.cls ≠ .tcpClient → wp (onSession (postAs o.sftp)) Q E o)
    (htcp : o.cls = .tcpClient → wp (onSession (postAs false))
      (fun _ o₁ => (o₁.isConnecting = true →
          wp openConfirmation (fun _ o₂ => Q () { o₂ with isConnecting := false }) E o₁) ∧
        (o₁.isConnecting = false → Q () o₁)) E o) :
    wp channelPost Q E o := by
  rw [channelPost, wp_read]
  cases hcls : o.cls with
  | session | sftp =>
    have hpost := hsession (by rw [hcls]; decide)
    rw [sftp, hcls] at hpost
    exact hpost
  | tcpClient =>
    refine wp_seq (htcp hcls) fun _ o₁ h => ?_
    rw [wp_read, wp_ite, wp_pure, wp_bind]
    refine ⟨fun hwaits => wp_imp (h.1 hwaits) fun _ _ h => ?_, fun hno =>
      h.2 (eq_false_iff.mpr hno)⟩
    rw [wp_modify]
    exact h

theorem wp_connected (hsame : Q () o)
    (hopen : o.session.subsystem.isSome → terminated o.session.subsystem = false →
      Q ()
      { o with session := { o.session with base := { o.session.base with isOpened := true } } }) :
    wp connected Q E o := by
  rw [connected, wp_modify]
  split
  case isTrue h => exact hopen h.2.1 h.2.2
  case isFalse => exact hsame

theorem wp_afterConnect (hsame : Q () o)
    (hm : (o.cls = .tcpClient → o.session.base.isOpened = true) → wp (onSession m) Q E o) :
    wp (afterConnect m) Q E o := by
  rw [afterConnect, wp_read, wp_ite, wp_pure]
  refine ⟨fun _ => hsame, fun hafter => hm fun hcls => ?_⟩
  exact (not_eq_false _).mp fun hnot => hafter ⟨hcls, hnot⟩

/-- Requests that may start a subsystem -/
def starts : Event → Bool
  | .startSubsystem .. | .session (.request ..) => true
  | _ => false

/-- Events that are resolved by the class -/
def resolved : Event → Bool
  | .session (.request ..) | .session .post => true
  | .session _ => false
  | _ => true

theorem wp_stepEvent (event : Event) (hsame : Q () o)
    (hrequest : starts event = true → ∀ sftp reply start,
      wp (inputChannelReq sftp reply start) Q E o)
    (hother : ∀ created reply, wp (otherChannelReq created reply) Q E o)
    (hconnected : wp connected Q E o) (hpost : event = .session .post → wp channelPost Q E o)
    (hsession : ∀ event', event = .session event' → resolved (.session event') = false →
      wp (onSession (SessionChannel.stepEvent event')) Q E o) : wp (stepEvent event) Q E o := by
  cases event with
  | startSubsystem sftp reply start => exact hrequest rfl sftp reply start
  | otherRequest created reply => exact hother created reply
  | connected => exact hconnected
  | session event =>
    cases event with
    | request reply start => exact hrequest rfl false reply start
    | post => exact hpost rfl
    | callGet | workerPut => exact wp_afterConnect hsame fun _ => hsession _ rfl rfl
    | data | eof | close | windowAdjust | outputPoll | fillEventArray | exitMsg | getStep
    | otherEvent | workerExit => exact hsession _ rfl rfl

end ChannelObject

end Shiesh.Channels
