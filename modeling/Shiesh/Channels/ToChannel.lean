import Shiesh.Channels.Aside

/-!
# What Happens to `toChannel`

Two events of a channel touch the queue from its subsystem: `channel_post` takes a message from it,
and the subsystem puts one into it. All others leave it as it is.
-/

namespace Shiesh.Channels

open Shiesh.Lib SFTPChannel
open SessionChannel (setWorker terminated)
open BusyThreadReadBuffer (get put)

/-! ## Calls that leave `toChannel` alone -/

section Frame

variable {q : BusyThreadReadBuffer}

/-- `toChannel` is as it was. -/
def Holding (q : BusyThreadReadBuffer) (s : SessionChannel) : Prop := s.toChannel = q

theorem onBase_holding {α : Type} (m : ChannelM α) : Keeps (Holding q) (onBase m) := by
  intro s hs
  rw [onBase, wp_zoom]
  exact wp_intro (fun _ _ _ => hs) fun _ _ _ => hs

theorem holding_frame : QueueFrame (Holding q) := ⟨⟨fun h _ => h, fun _ _ h => h⟩, fun _ h => h⟩

theorem inputChannelReq_holding (reply : Bool) (start : Start) :
    Keeps (Holding q) (SessionChannel.inputChannelReq reply start) :=
  inputChannelReq_keeps reply start (fun _ => holding_frame.setWorker _) (fun _ hs _ => hs)
    fun _ _ => onBase_holding _

theorem sftpDescending2subproc_holding : Keeps (Holding q) descending2subproc := by
  have hput : ∀ data, Keeps (Holding q) (putFromChannel data) := by
    intro data s hs
    rw [putFromChannel, wp_zoom]
    exact wp_intro (fun _ _ _ => hs) fun _ _ _ => hs
  refine Keeps.get.bind fun s => .ite (hput []) ((onBase_holding _).bind fun len => ?_)
  refine Keeps.get.bind fun s => (hput _).bind fun _ => (onBase_holding _).bind fun _ => ?_
  exact onBase_holding _

theorem putAs_holding (sftp : Bool) : Keeps (Holding q) (putAs sftp) := by
  cases sftp with
  | false =>
    refine Keeps.get.bind fun s => .bind ?_ fun _ => onBase_holding _
    intro s hs
    rw [wp_zoom]
    exact wp_intro (fun _ _ _ => hs) fun _ _ _ => hs
  | true => exact sftpDescending2subproc_holding

/-- Every event but `channel_post` and a message from the subsystem -/
theorem stepEvent_holding (event : SessionChannel.Event) (hpost : event ≠ .post)
    (hput : ∀ data, event ≠ .workerPut data) :
    Keeps (Holding q) (SessionChannel.stepEvent event) := by
  cases event with
  | request reply start => exact inputChannelReq_holding reply start
  | data | windowAdjust => exact (onBase_holding _).bind fun _ => onBase_holding _
  | outputPoll => exact Keeps.get.bind fun _ => onBase_holding _
  | post => exact absurd rfl hpost
  | workerPut data => exact absurd rfl (hput data)
  | eof | close | fillEventArray | exitMsg | callGet | getStep | otherEvent | workerExit =>
    exact holding_frame.step rfl

end Frame

/-! ## Taking a message -/

/-- It is enough to look at `get`. -/
theorem post_toChannel {sftp : Bool} {P : BusyThreadReadBuffer → Prop} {s : SessionChannel}
    (h : P s.toChannel)
    (hget : s.base.isOpened = true →
      wp (get sftp) (fun _ t => P t.1) any (s.toChannel, s.base.ascending)) :
    wp (postAs sftp) (fun _ s' => P s'.toChannel) any s := by
  have hrest : ∀ {m : SessionM Unit} {s1 : SessionChannel},
      Keeps (Holding s1.toChannel) m → P s1.toChannel →
      wp m (fun _ s' => P s'.toChannel) any s1 := by
    intro m s1 hm hs1
    refine wp_weaken (hm s1 rfl) fun _ s' hs' => ?_
    rw [hs']
    exact hs1
  rw [wp_postAs]
  refine ⟨fun hopened => ?_, fun _ => hrest holding_frame.garbageCollect h⟩
  rw [getAs, wp_bind, wp_zoom]
  refine wp_weaken (hget hopened) fun _ t ht => ?_
  rw [wp_pure]
  refine wp_weaken (hrest (putAs_holding sftp) ht) fun _ s2 hs2 => ?_
  refine wp_weaken (hrest (onBase_holding _) hs2) fun _ s3 hs3 => ?_
  exact hrest holding_frame.garbageCollect hs3

namespace ChannelObject

variable {o : ChannelObject} {P F : BusyThreadReadBuffer → Prop} (event : Event)

theorem channelPost_toChannel (h : P o.session.toChannel)
    (hget : o.session.base.isOpened = true → ∀ asString,
      wp (get asString) (fun _ t => P t.1) any
        (o.session.toChannel, o.session.base.ascending)) :
    wp channelPost (fun _ o' => P o'.session.toChannel) any o := by
  have hpost : ∀ sftp, wp (onSession (postAs sftp)) (fun _ o' => P o'.session.toChannel) any o := by
    intro sftp
    rw [onSession, wp_zoom]
    exact post_toChannel h fun hopened => hget hopened sftp
  refine wp_channelPost (fun _ => hpost _) fun _ => ?_
  refine wp_weaken (hpost false) fun _ o1 ho1 => ⟨fun _ => ?_, fun _ => ho1⟩
  rw [openConfirmation, wp_read, onSession, wp_zoom]
  refine wp_weaken (onBase_holding _ o1.session rfl) fun _ s' hs' => ?_
  rw [hs']
  exact ho1

theorem confirmOpen_holding {q : BusyThreadReadBuffer} :
    Keeps (fun o => Holding q o.session) confirmOpen := by
  refine Keeps.get.bind fun o => .ite ?_ (.pure ())
  refine Keeps.get.bind fun _ o ho => ?_
  rw [onSession, wp_zoom]
  exact onBase_holding _ o.session ho

theorem createDerivation_holding (ctype : ChannelType) (self remoteId rwindow rmaxpack : UInt32) :
    Holding {} (createDerivation ctype self remoteId rwindow rmaxpack).session := by
  cases ctype with
  | session => rfl
  | directTcpip => rfl

/-- **Rule for frames.** What the functions of the session keep, the object keeps, whatever its
class; `channel_post` is resolved by the class. -/
theorem stepEvent_frame {I : SessionChannel → Prop} (hpost : event ≠ .session .post)
    (hrequest : ∀ reply start, Keeps I (SessionChannel.inputChannelReq reply start))
    (hreply : ∀ type, Keeps I (onBase (message type (pure ()))))
    (hopen : ∀ s, I s → I { s with base := { s.base with isOpened := true } })
    (hsession : ∀ event', event = .session event' → Keeps I (SessionChannel.stepEvent event')) :
    Keeps (fun o => I o.session) (stepEvent event) := by
  have hon : ∀ {m : SessionM Unit}, Keeps I m → Keeps (fun o => I o.session) (onSession m) := by
    intro m hm o ho
    rw [onSession, wp_zoom]
    exact hm o.session ho
  intro o ho
  apply wp_stepEvent event ho
  · exact fun _ _ reply start => wp_inputChannelReq (fun _ => ho) (fun _ => ho) fun _ _ _ =>
      hon (hrequest reply start) _ ho
  · exact fun _ _ => wp_otherChannelReq (fun _ => ho) (fun _ => ho) fun _ _ => hon (hreply _) o ho
  · exact wp_connected ho fun _ _ => hopen o.session ho
  · exact fun h => absurd h hpost
  · exact fun event' hevent _ => hon (hsession event' hevent) o ho

/-- Every event but `channel_post` and a message from the subsystem -/
theorem stepEvent_holding (hpost : event ≠ .session .post)
    (hput : ∀ data, event ≠ .session (.workerPut data)) {q : BusyThreadReadBuffer} :
    Keeps (fun o => Holding q o.session) (stepEvent event) := by
  refine stepEvent_frame event hpost inputChannelReq_holding (fun _ => onBase_holding _)
    (fun _ hs => hs) fun event' hevent => ?_
  subst hevent
  exact Channels.stepEvent_holding event' (fun h => hpost (congrArg Event.session h))
    fun data h => hput data (congrArg Event.session h)

/-- The subsystem puts a message. If it cannot, its thread ends. -/
theorem workerPut_toChannel {data : Bytes} (h : P o.session.toChannel)
    (hrunning : terminated o.session.subsystem = false →
      wp (put data) (fun _ => P) (fun _ => F) o.session.toChannel) :
    wp (stepEvent (.session (.workerPut data)))
      (fun _ o' => P o'.session.toChannel ∨
        F o'.session.toChannel ∧ terminated o'.session.subsystem = true)
      any o := by
  refine wp_afterConnect (.inl h) fun _ => ?_
  rw [onSession, wp_zoom, SessionChannel.stepEvent]
  refine wp_workerAt (.inl h) fun w hsub hpc => ?_
  rw [wp_tryCatch, wp_zoom]
  have hput := hrunning (by simp [terminated, hsub, hpc])
  refine wp_mono hput (fun _ _ hq => .inl hq) fun _ q hq => ?_
  rw [setWorker, wp_modify]
  exact .inr ⟨hq, by simp [terminated]⟩

/-- **Rule for `toChannel`.** It is enough to look at `get` and at `put`. -/
theorem stepEvent_toChannel (h : P o.session.toChannel)
    (hget : event = .session .post → o.session.base.isOpened = true → ∀ asString,
      wp (get asString) (fun _ t => P t.1) any
        (o.session.toChannel, o.session.base.ascending))
    (hput : ∀ data, event = .session (.workerPut data) →
      terminated o.session.subsystem = false →
      wp (put data) (fun _ => P) (fun _ => F) o.session.toChannel) :
    wp (stepEvent event)
      (fun _ o' => P o'.session.toChannel ∨
        F o'.session.toChannel ∧ terminated o'.session.subsystem = true)
      any o := by
  by_cases hpost : event = .session .post
  · subst hpost
    exact wp_weaken (channelPost_toChannel h (hget rfl)) fun _ _ ho' => .inl ho'
  · by_cases hworker : ∃ data, event = .session (.workerPut data)
    · obtain ⟨data, rfl⟩ := hworker
      exact workerPut_toChannel h (hput data rfl)
    · refine wp_weaken (stepEvent_holding event hpost (fun data heq => hworker ⟨data, heq⟩) o rfl)
        fun _ o' ho' => .inl ?_
      rw [ho']
      exact h

end ChannelObject

end Shiesh.Channels
