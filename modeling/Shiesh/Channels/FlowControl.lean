import Shiesh.Channels.Messages

/-!
# Outgoing Flow Control

What a channel sends in DATA messages, against the credit that the peer has granted and
against what has been appended to `ascending`. This is about any class of channels: it
holds with any `hasAscendingData`, and other functions of the channel may change whatever
`channel_output_poll` does not own.

## Main result

- `output_flow_control`: along every interleaving the bytes sent are within the credit,
  taken without wrapping, and are those appended, in order
-/

namespace Shiesh.Channels

open Shiesh.Lib List Channel

/-- The data in the DATA messages of a channel, behind its number and their length. -/
def dataSent (sent : List Packet) : List Bytes :=
  sent.filterMap fun p => if p.type = Ssh2Msg.channelData then some (p.payload.drop 8) else none

/-- What happens to a channel in this direction. -/
inductive FlowEvent where
  | outputPoll (hasAscendingData : Channel → Bool)
  | append (data : Bytes)
  | windowAdjust (adjust : UInt32)
  -- other functions give the other fields the values they have in `c`
  | others (c : Channel)

/-- A channel, and what came in so far: all bytes appended, and the sum of all adjusts. -/
structure FlowState where
  chan : Channel
  appended : Bytes := []
  adjusts : Nat := 0

def onChan {α : Type} (m : ChannelM α) : EStateM Halt FlowState α :=
  zoom FlowState.chan (fun c s => { s with chan := c }) m

def flowStep : FlowEvent → EStateM Halt FlowState Unit
  | .outputPoll hasAscendingData => onChan (Channel.channelOutputPoll hasAscendingData)
  | .append data => do
    onChan (onAscending (Buffer.append data))
    modify fun s => { s with appended := s.appended ++ data }
  | .windowAdjust adjust => do
    onChan (Channel.remoteWindowAdjust adjust)
    modify fun s => { s with adjusts := s.adjusts + adjust.toNat }
  | .others c => onChan (modify fun c' =>
      { c with
        remoteWindow := c'.remoteWindow
        remoteMaxpacket := c'.remoteMaxpacket
        ascending := c'.ascending
        con := c'.con })

/-- A channel that has just been opened by the peer with a window and a packet size. -/
def FlowState.start (remoteId rwindow rmaxpack windowSize maxPacketSize : UInt32) :
    FlowState where
  chan :=
    { remoteId := remoteId
      remoteWindow := rwindow
      remoteMaxpacket := rmaxpack
      localWindow := windowSize
      localWindowMax := windowSize
      localMaxpacket := maxPacketSize }

/-- The wrapped window is at most the credit that is left. -/
structure Flow (rwindow rmaxpack : UInt32) (s : FlowState) : Prop where
  window : (dataSent s.chan.con.sent).flatten.length + s.chan.remoteWindow.toNat ≤
    rwindow.toNat + s.adjusts
  maxpacket : s.chan.remoteMaxpacket = rmaxpack
  payloads : ∀ d ∈ dataSent s.chan.con.sent, d ≠ [] ∧ d.length ≤ rmaxpack.toNat
  fifo : (dataSent s.chan.con.sent).flatten ++ s.chan.ascending.contents = s.appended

theorem dataSent_data (sent : List Packet) (remoteId : UInt32) (d : Bytes) :
    dataSent (sent ++ [⟨Ssh2Msg.channelData, putU32 remoteId ++ putString d⟩]) =
      dataSent sent ++ [d] := by
  have hdrop : (putU32 remoteId ++ putString d).drop 8 = d := by
    rw [putString, ← append_assoc]
    exact drop_left' (by simp)
  simp [dataSent, hdrop]

section Invariant

variable {rwindow rmaxpack : UInt32} {appended : Bytes} {adjusts : Nat} {c : Channel}

theorem onChan_keeps {m : ChannelM Unit}
    (hm : ∀ appended adjusts, Keeps (fun c => Flow rwindow rmaxpack ⟨c, appended, adjusts⟩) m) :
    Keeps (Flow rwindow rmaxpack) (onChan m) := by
  intro s hs
  rw [onChan, wp_zoom]
  exact hm s.appended s.adjusts s.chan hs

/-- Messages that are not DATA do not matter. -/
theorem message_keeps {type : UInt8} {body : ConM Unit} {p : Bytes} (hbody : Appends body p)
    (htype : type ≠ Ssh2Msg.channelData) :
    Keeps (fun c => Flow rwindow rmaxpack ⟨c, appended, adjusts⟩) (message type body) := by
  intro c hc
  obtain ⟨hwindow, hmax, hpayloads, hfifo⟩ := hc
  have hframe : ∀ s : Con, dataSent s.sent = dataSent c.con.sent →
      Flow rwindow rmaxpack ⟨{ c with con := s }, appended, adjusts⟩ := by
    intro s hs
    rw [← hs] at hwindow hpayloads hfifo
    exact ⟨hwindow, hmax, hpayloads, hfifo⟩
  refine message_spec hbody (fun s hs => hframe s ?_) fun _ s hs => hframe s (by rw [hs])
  rw [hs]
  simp [dataSent, htype]

/-- **DATA.** What goes out is taken from the front of `ascending` and from the window. -/
theorem sendAscending_keeps :
    Keeps (fun c => Flow rwindow rmaxpack ⟨c, appended, adjusts⟩) sendAscending := by
  intro c hc
  rw [sendAscending, wp_read, wp_ite, wp_pure]
  refine ⟨fun _ => ?_, fun _ => hc⟩
  rw [wp_ite, wp_pure]
  refine ⟨fun hpos => ?_, fun _ => hc⟩
  obtain ⟨hlen, hwin, hmaxp⟩ := sendable_le c
  generalize c.sendable = len at hpos hlen hwin hmaxp
  have hne : 0 < len.toNat := UInt32.lt_iff_toNat_lt.mp hpos
  generalize hd : c.ascending.contents.take len.toNat = d
  have hdlen : d.length = len.toNat := by
    rw [← hd, length_take, Buffer.contents_length]
    omega
  obtain ⟨hwindow, hmax, hpayloads, hfifo⟩ := hc
  rw [wp_bind]
  refine message_spec (.putString d) ?_ ?_
  · intro s hs
    rw [wp_bind, onAscending, wp_zoom]
    refine wp_mono (Buffer.consume_spec len.toNat c.ascending) ?_ ?_
    · intro _ b hb
      rw [wp_modify]
      refine ⟨?_, hmax, ?_, ?_⟩
      · simp only [hs, dataSent_data, flatten_append, length_append,
          flatten_singleton, hdlen, UInt32.toNat_sub_of_le _ _ (UInt32.le_iff_toNat_le.mpr hwin)]
        simp only at hwindow
        omega
      · simp only [hs, dataSent_data]
        intro d' hd'
        rcases mem_append.mp hd' with hd' | hd'
        · exact hpayloads d' hd'
        · rw [mem_singleton.mp hd', ← hmax]
          refine ⟨?_, by rw [hdlen]; exact hmaxp⟩
          intro hnil
          rw [hnil] at hdlen
          exact absurd hdlen.symm (ne_of_gt hne)
      · simp only [hs, dataSent_data, flatten_append, flatten_singleton, hb.2]
        rw [append_assoc, ← hd, take_append_drop]
        exact hfifo
    · intro _ b hb
      exact absurd hb.2 (not_lt.mpr hlen)
  · intro _ s hs
    rw [← hs] at hwindow hpayloads hfifo
    exact ⟨hwindow, hmax, hpayloads, hfifo⟩

theorem channelOutputPoll_keeps (hasAscendingData : Channel → Bool) :
    Keeps (fun c => Flow rwindow rmaxpack ⟨c, appended, adjusts⟩)
      (channelOutputPoll hasAscendingData) := by
  have hclosed : Keeps (fun c => Flow rwindow rmaxpack ⟨c, appended, adjusts⟩)
      (modify fun c : Channel => { c with currentInputState := .closed } : ChannelM Unit) :=
    .modify fun c h => { h with }
  have heof : Keeps (fun c => Flow rwindow rmaxpack ⟨c, appended, adjusts⟩) sendEOF :=
    (message_keeps Appends.pure (by decide)).bind fun _ =>
      .modify fun c h => { h with }
  refine Keeps.get.bind fun c => .ite (.pure ()) ?_
  refine sendAscending_keeps.bind fun _ => Keeps.get.bind fun c' => ?_
  refine .ite ?_ (.pure ())
  exact .ite (heof.bind fun _ => hclosed) hclosed

theorem flowStep_keeps (event : FlowEvent) : Keeps (Flow rwindow rmaxpack) (flowStep event) := by
  cases event with
  | outputPoll hasAscendingData =>
    exact onChan_keeps fun _ _ => channelOutputPoll_keeps hasAscendingData
  | append data =>
    intro s hs
    rw [flowStep, wp_bind, onChan, wp_zoom, onAscending, wp_zoom]
    refine wp_mono (Buffer.append_spec data s.chan.ascending) ?_ ?_
    · intro _ b hb
      rw [wp_modify]
      refine { hs with fifo := ?_ }
      simp only [hb]
      rw [← append_assoc, hs.fifo]
    · intro _ b hb
      subst hb
      exact hs
  | windowAdjust adjust =>
    intro s hs
    rw [flowStep, wp_bind, onChan, wp_zoom, remoteWindowAdjust, wp_modify, wp_modify]
    refine { hs with window := ?_ }
    have hwrap : (s.chan.remoteWindow + adjust).toNat ≤
        s.chan.remoteWindow.toNat + adjust.toNat := by
      rw [UInt32.toNat_add]
      exact Nat.mod_le _ _
    have := hs.window
    simp only
    omega
  | others c =>
    exact onChan_keeps fun _ _ => .modify fun c' h =>
      { h with }

end Invariant

/-- **Outgoing flow control.** After any sequence of events, the DATA messages carry no more
bytes than the peer's credit, each carries some and not more than a packet may, and together
with `ascending` they are what was appended. -/
theorem output_flow_control (remoteId rwindow rmaxpack windowSize maxPacketSize : UInt32)
    (events : List FlowEvent) :
    let s := endState (runAll flowStep events)
      (FlowState.start remoteId rwindow rmaxpack windowSize maxPacketSize)
    (dataSent s.chan.con.sent).flatten.length ≤ rwindow.toNat + s.adjusts ∧
      (∀ d ∈ dataSent s.chan.con.sent, d ≠ [] ∧ d.length ≤ rmaxpack.toNat) ∧
      (dataSent s.chan.con.sent).flatten ++ s.chan.ascending.contents = s.appended := by
  intro s
  have hstart : Flow rwindow rmaxpack
      (.start remoteId rwindow rmaxpack windowSize maxPacketSize) :=
    ⟨by simp [FlowState.start, dataSent], rfl, by simp [FlowState.start, dataSent], rfl⟩
  have hend : Flow rwindow rmaxpack s := (Keeps.runAll flowStep_keeps events).endState hstart
  exact ⟨Nat.le_of_add_right_le hend.window, hend.payloads, hend.fifo⟩

/-- A window of 3 that is made to wrap to 2: five bytes need two messages. -/
theorem output_flow_control_wrapped :
    let events : List FlowEvent :=
      [.others { (FlowState.start 7 3 100 0 0).chan with isOpened := true },
        .append [1, 2, 3, 4, 5], .outputPoll fun _ => true,
        .windowAdjust 0xffffffff, .windowAdjust 3, .outputPoll fun _ => true]
    let s := endState (runAll flowStep events) (FlowState.start 7 3 100 0 0)
    dataSent s.chan.con.sent = [[1, 2, 3], [4, 5]] ∧
      (dataSent s.chan.con.sent).flatten ++ s.chan.ascending.contents = s.appended := by
  intro events s
  exact ⟨by decide +kernel, (output_flow_control 7 3 100 0 0 events).2.2⟩

end Shiesh.Channels
