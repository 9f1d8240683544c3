import Shiesh.Channels.Messages
import Shiesh.Channels.ObjectRules

/-!
# Calls Beside the Data

Most of what happens to a channel moves no data and grants no credit: its halves come to an end,
the peer is told so, and the thread of the subsystem goes on. What is said about the rest of a
channel stays true in all these calls.
-/

namespace Shiesh.Channels

open Shiesh.Lib Channel Ssh2Msg
open SessionChannel (drained putEof setWorker stepEvent waitsForData windowDefaultSize workerAt)

/-! ## Channels -/

/-- The credit that a message gives to the peer -/
def grantOf (p : Packet) : Nat :=
  if p.type = Ssh2Msg.channelOpenConfirmation then (getU32 ((p.payload.drop 8).take 4)).toNat
  else if p.type = Ssh2Msg.channelWindowAdjust then (getU32 ((p.payload.drop 4).take 4)).toNat
  else 0

def granted (sent : List Packet) : Nat := (sent.map grantOf).sum

theorem granted_snoc (sent : List Packet) (p : Packet) :
    granted (sent ++ [p]) = granted sent + grantOf p := by
  simp [granted]

/-- The data in a channel and the credit for it. -/
structure Load where
  granted : Nat
  isOpened : Bool
  localWindow : UInt32
  localWindowMax : UInt32
  remoteWindow : UInt32
  remoteMaxpacket : UInt32
  ascending : Bytes
  descending : Buffer

def Channel.load (c : Channel) : Load where
  granted := granted c.con.sent
  isOpened := c.isOpened
  localWindow := c.localWindow
  localWindowMax := c.localWindowMax
  remoteWindow := c.remoteWindow
  remoteMaxpacket := c.remoteMaxpacket
  ascending := c.ascending.contents
  descending := c.descending

/-- The load is as it was, and neither half has been opened again. -/
structure Aside (c₀ c : Channel) : Prop where
  load : c.load = c₀.load
  input : c₀.currentInputState ≠ .open → c.currentInputState ≠ .open
  output : c₀.currentOutputState ≠ .open → c.currentOutputState ≠ .open

theorem closed_ne_open : ChanState.closed ≠ .open := by decide

theorem waitDrain_ne_open : ChanState.waitDrain ≠ .open := by decide

variable {c₀ : Channel}

theorem Aside.refl (c : Channel) : Aside c c := ⟨rfl, id, id⟩

theorem Aside.trans {c c' : Channel} (h : Aside c₀ c) (h' : Aside c c') : Aside c₀ c' :=
  ⟨h'.load.trans h.load, fun hinput => h'.input (h.input hinput),
    fun houtput => h'.output (h.output houtput)⟩

theorem modify_aside {f : Channel → Channel} (hf : ∀ c, Aside c (f c)) :
    Keeps (Aside c₀) (modify f : ChannelM Unit) :=
  .modify fun c h => h.trans (hf c)

theorem reading_aside {α : Type} (g : Get α) : Keeps (Aside c₀) (reading g) := by
  intro c h
  rw [reading, onCon, wp_zoom, wp_zoom]
  exact wp_intro (fun _ _ _ => h.trans ⟨rfl, id, id⟩) fun _ _ _ => h.trans ⟨rfl, id, id⟩

theorem message_aside {type : UInt8} {body : ConM Unit} {p : Bytes} (hbody : Appends body p)
    (htype : type ≠ channelOpenConfirmation ∧ type ≠ channelWindowAdjust) :
    Keeps (Aside c₀) (message type body) := by
  have hload : ∀ {c : Channel} {con : Con}, granted con.sent = granted c.con.sent →
      load { c with con := con } = c.load := by
    intro c con hsame
    simp only [load, hsame]
  intro c h
  refine message_spec hbody (fun con hsent => ?_) fun _ con hsent => ?_
  · refine h.trans ⟨hload ?_, id, id⟩
    rw [hsent, granted_snoc, grantOf, if_neg htype.1, if_neg htype.2, add_zero]
  · exact h.trans ⟨hload (congrArg granted hsent), id, id⟩

theorem sendEOF_aside : Keeps (Aside c₀) sendEOF :=
  (message_aside .pure (by decide)).bind fun _ => modify_aside fun _ => ⟨rfl, id, id⟩

theorem chanIsDead_aside (doSend : Bool) : Keeps (Aside c₀) (chanIsDead doSend) := by
  refine Keeps.get.bind fun c => .ite (.pure _) (.ite ?_ (.pure _))
  refine (message_aside .pure (by decide)).bind fun _ => .bind ?_ fun _ => .pure _
  exact modify_aside fun _ => ⟨rfl, id, id⟩

theorem checkAscendingChanRbuf_aside : Keeps (Aside c₀) checkAscendingChanRbuf := by
  intro c h
  rw [checkAscendingChanRbuf, onAscending, wp_zoom]
  refine wp_mono_total (Buffer.checkAlloc_spec _ _) fun _ b hb => h.trans ⟨?_, id, id⟩
  simp only [load, hb]

theorem channelInputOclose_aside : Keeps (Aside c₀) channelInputOclose := by
  have hclosed : Keeps (Aside c₀)
      (modify fun c : Channel => { c with currentInputState := .closed } : ChannelM Unit) :=
    modify_aside fun _ => ⟨rfl, fun _ => closed_ne_open, id⟩
  have hdrain : Keeps (Aside c₀)
      (modify fun c : Channel => { c with currentOutputState := .waitDrain } : ChannelM Unit) :=
    modify_aside fun _ => ⟨rfl, id, fun _ => waitDrain_ne_open⟩
  refine (reading_aside _).bind fun _ => .bind (modify_aside fun _ => ⟨rfl, id, id⟩) fun _ =>
    Keeps.get.bind fun c => .ite ?_ ?_
  · exact modify_aside fun _ => ⟨rfl, fun _ => closed_ne_open, fun _ => closed_ne_open⟩
  cases c.currentInputState with
  | «open» => exact .ite (hdrain.bind fun _ => hclosed) hclosed
  | waitDrain =>
    have heof : Keeps (Aside c₀) (sendEOF >>= fun _ => modify _) :=
      sendEOF_aside.bind fun _ => hclosed
    exact .ite (hdrain.bind fun _ => heof) heof
  | closed => exact .ite (hdrain.bind fun _ => .pure ()) (.pure ())

/-! ## Sessions -/

/-- `I` is about the load of a channel and its queues only. -/
structure Frame (I : SessionChannel → Prop) : Prop where
  base {s : SessionChannel} {c : Channel} : I s → Aside s.base c → I { s with base := c }
  thread {s : SessionChannel} (w : Option Worker) (d : Bool) :
    I s → I { s with subsystem := w, deleted := d }

/-- It does not even look at `fromChannel`. -/
structure QueueFrame (I : SessionChannel → Prop) : Prop extends Frame I where
  queue {s : SessionChannel} (q : BusyThreadWriteBuffer) : I s → I { s with fromChannel := q }

variable {I : SessionChannel → Prop}

theorem workerAt_keeps (pc : Pc) {f : Worker → SessionM Unit} {E : SessionChannel → Prop}
    (h : ∀ w, Keeps I (f w) E) : Keeps I (workerAt pc f) E := by
  exact fun s hs => wp_workerAt hs fun w _ _ => h w s hs

namespace Frame

variable (hI : Frame I)

include hI

theorem onBase {α : Type} {m : ChannelM α} (hm : ∀ c₀, Keeps (Aside c₀) m) :
    Keeps I (Channels.onBase m) := by
  intro s hs
  rw [Channels.onBase, wp_zoom]
  exact wp_mono (hm s.base s.base (.refl _)) (fun _ _ h => hI.base hs h) fun _ _ h => hI.base hs h

theorem setWorker (w : Worker) : Keeps I (setWorker w) :=
  .modify fun s hs => hI.thread (some w) s.deleted hs

theorem received (body : Bytes) : Keeps I (SessionChannel.received body) := by
  intro s hs
  rw [SessionChannel.received, Channels.onBase, wp_zoom, onCon, wp_zoom, wp_modify]
  exact hI.base hs ⟨rfl, id, id⟩

theorem exitMsg : Keeps I (stepEvent .exitMsg) := by
  have hbody := (Appends.putCstring "exit-status").bind
    ((Appends.putChar 0).bind (Appends.putInt 0))
  refine workerAt_keeps _ fun _ =>
    (hI.onBase fun _ => message_aside hbody (by decide)).bind fun _ => hI.onBase fun _ => ?_
  exact modify_aside fun _ => ⟨rfl, fun _ => waitDrain_ne_open, fun _ => closed_ne_open⟩

end Frame

theorem inputChannelReq_keeps (reply : Bool) (start : Start) (hworker : ∀ w, Keeps I (setWorker w))
    (hwindow : ∀ s, I s → ∀ windowMax, I { s with base :=
      { s.base with isOpened := true, localWindow := windowMax, localWindowMax := windowMax } })
    (hmessage : ∀ type body, Keeps I (onBase (message type body))) :
    Keeps I (SessionChannel.inputChannelReq reply start) := by
  have hopen : Keeps I (onBase (openWindow windowDefaultSize)) := by
    intro s hs
    have h := hmessage channelWindowAdjust
      (packetPutInt windowDefaultSize) _ (hwindow s hs windowDefaultSize)
    rw [onBase, wp_zoom] at h ⊢
    rw [openWindow, wp_update]
    exact h
  have hstart : Keeps I (SessionChannel.startSubsystem start) := by
    refine Keeps.get.bind fun s => .ite ?_ (.pure false)
    cases start with
    | started =>
      refine .tryCatch ?_ fun _ => .pure false
      exact (hworker _).bind fun _ => hopen.bind fun _ => .pure true
    | notStarted => exact (hworker _).bind fun _ => .pure false
    | notCreated | crashed => exact .pure false
  exact hstart.bind fun _ => .ite (hmessage _ _) (.pure ())

/-- Events beside the data. -/
def SessionChannel.Event.aside : SessionChannel.Event → Bool
  | .eof _ | .close _ | .fillEventArray | .exitMsg | .callGet | .getStep | .otherEvent
  | .workerExit => true
  | _ => false

namespace QueueFrame

variable (hI : QueueFrame I)

include hI

theorem putEof : Keeps I putEof := by
  intro s hs
  rw [SessionChannel.putEof, wp_zoom]
  exact wp_intro (fun _ q _ => hI.queue q hs) fun _ q _ => hI.queue q hs

theorem garbageCollect : Keeps I SessionChannel.garbageCollect := by
  have hdead : ∀ doSend, Keeps I (Channels.onBase (chanIsDead doSend)) :=
    fun doSend => hI.onBase fun _ => chanIsDead_aside doSend
  have hnone : Keeps I (modify fun s => { s with subsystem := none } : SessionM Unit) :=
    .modify fun s hs => hI.thread none s.deleted hs
  refine Keeps.get.bind fun s => (hdead _).bind fun _ => .ite ?_ (.pure ())
  refine .bind (Keeps.get.bind fun s => .ite (hI.putEof.bind fun _ => hnone) hnone) fun _ => ?_
  refine (hdead _).bind fun _ => .ite (.modify fun s hs => ?_) (.pure ())
  exact hI.thread s.subsystem true hs

theorem drained : Keeps I drained :=
  hI.putEof.bind fun _ => hI.onBase fun _ =>
    modify_aside fun _ => ⟨rfl, fun _ => waitDrain_ne_open, fun _ => closed_ne_open⟩

theorem channelInputEof : Keeps I SessionChannel.channelInputEof := by
  refine (hI.onBase fun _ => reading_aside _).bind fun _ =>
    .bind (hI.onBase fun _ => modify_aside fun _ => ⟨rfl, id, id⟩) fun _ =>
      Keeps.get.bind fun s => ?_
  refine .ite (.bind (hI.onBase fun _ => ?_) fun _ =>
    .ite hI.drained (.pure ())) (.pure ())
  exact modify_aside fun _ => ⟨rfl, id, fun _ => waitDrain_ne_open⟩

theorem fillEventArray : Keeps I SessionChannel.fillEventArray := by
  have hwaits : Keeps I waitsForData := Keeps.get.bind fun s =>
    .ite (hI.onBase fun _ => checkAscendingChanRbuf_aside) (.pure false)
  refine hwaits.bind fun waits => Keeps.get.bind fun s => .ite ?_ ?_
  · exact hI.drained.bind fun _ => hI.garbageCollect.bind fun _ => .pure waits
  · exact hI.garbageCollect.bind fun _ => .pure waits

theorem step {event : SessionChannel.Event} (h : event.aside = true) :
    Keeps I (stepEvent event) := by
  cases event with
  | eof body => exact (hI.received body).bind fun _ => hI.channelInputEof
  | close body => exact (hI.received body).bind fun _ => hI.onBase fun _ => channelInputOclose_aside
  | fillEventArray => exact hI.fillEventArray.bind fun _ => .pure ()
  | exitMsg => exact hI.exitMsg
  | getStep =>
    refine .modify fun s hs => ?_
    cases s.subsystem with
    | none => exact hs
    | some w => exact hI.thread (some _) s.deleted (hI.queue (getStep s.fromChannel w).1 hs)
  | callGet | otherEvent | workerExit => exact workerAt_keeps _ fun _ => hI.setWorker _
  | request | data | windowAdjust | outputPoll | post | workerPut => cases h

end QueueFrame

end Shiesh.Channels
