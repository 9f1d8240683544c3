import Shiesh.Channels.Ending
import Shiesh.Channels.EventArray
import Shiesh.Channels.Transitions

/-!
# Draining an SFTP Channel

After EOF or CLOSE the output half of a channel drains: what is in `descending` goes to the
subsystem, and when nothing is left, `fill_event_array` puts the EOF marker behind it and closes the
half. An `SFTPChannel` passes on whole messages only, so that it is finished exactly if `descending`
consists of whole messages, each no longer than a buffer takes at once. A message that breaks off
stays forever, and so does an empty one at the end, because `is_complete_packet_in_descending` asks
for a byte behind the length field. A channel that is deleted with its thread, when CLOSE has been
received and both halves are closed, puts a second marker.
-/

namespace Shiesh.Channels

open Shiesh.Lib List Buffer Life Bool
open SessionChannel (garbageCollect)

/-! ## §1 Frames -/

section Frame

variable {b : Buffer}

/-- `descending` is as it was. -/
def Descending (b : Buffer) (s : SessionChannel) : Prop := s.base.descending = b

theorem descending_frame : QueueFrame (Descending b) :=
  ⟨⟨fun h hc => (congrArg Load.descending hc.load).trans h, fun _ _ h => h⟩, fun _ h => h⟩

/-- A function of the base class that does not write the ledger -/
theorem onBase_descending {α : Type} {m : ChannelM α} (hm : ∀ c₀, Keeps (SameCredit c₀) m) :
    Keeps (Descending b) (onBase m) := by
  intro s hs
  rw [onBase, wp_zoom]
  exact wp_mono (hm s.base s.base (.refl _)) (fun _ _ h => h.descending.trans hs)
    fun _ _ h => h.descending.trans hs

theorem message_descending (type : UInt8) (body : ConM Unit) :
    Keeps (Descending b) (onBase (message type body)) :=
  onBase_descending fun _ => message_same type body

theorem inputChannelReq_descending (reply : Bool) (start : Start) :
    Keeps (Descending b) (SessionChannel.inputChannelReq reply start) :=
  inputChannelReq_keeps reply start (fun _ => descending_frame.setWorker _) (fun _ hs _ => hs)
    message_descending

/-- Every event but DATA and `channel_post` -/
theorem stepEvent_descending (event : SessionChannel.Event) (hpost : event ≠ .post)
    (hdata : ∀ body, event ≠ .data body) :
    Keeps (Descending b) (SessionChannel.stepEvent event) := by
  cases event with
  | request reply start => exact inputChannelReq_descending reply start
  | data body => exact absurd rfl (hdata body)
  | windowAdjust body =>
    exact (descending_frame.received body).bind fun _ =>
      onBase_descending fun _ => channelInputWindowAdjust_same
  | outputPoll =>
    exact Keeps.get.bind fun _ => onBase_descending fun _ => channelOutputPoll_same _
  | post => exact absurd rfl hpost
  | workerPut data =>
    refine workerAt_keeps _
      fun _ => .tryCatch (fun s hs => ?_) fun _ => descending_frame.setWorker _
    rw [wp_zoom]
    exact wp_intro (fun _ _ _ => hs) fun _ _ _ => hs
  | eof | close | fillEventArray | exitMsg | callGet | getStep | otherEvent | workerExit =>
    exact descending_frame.step rfl

end Frame

namespace ChannelObject

variable {o : ChannelObject}

theorem step_descending {b : Buffer} (event : Event) (hpost : event ≠ .session .post)
    (hdata : ∀ body, event ≠ .session (.data body)) :
    Keeps (fun o => Descending b o.session) (step event) := by
  refine Keeps.get.bind fun o => .ite (.pure ()) ?_
  refine stepEvent_frame event hpost inputChannelReq_descending (fun _ => message_descending _ _)
    (fun _ hs => hs) fun event' hevent => ?_
  subst hevent
  exact stepEvent_descending event' (fun h => hpost (congrArg Event.session h))
    fun body h => hdata body (congrArg Event.session h)

/-! ### An `SFTPChannel` -/

/-- An `SFTPChannel` that has been opened, in the repository or not any more -/
structure Serves (o : ChannelObject) : Prop where
  whole : o.Whole
  cls : o.cls = .sftp
  opened : o.life.isOpened = true

theorem Serves.step (h : o.Serves) (event : Event) (hno : starts event = false) :
    wp (step event) (fun _ => Serves) any o := by
  refine wp_weaken (wp_and (step_whole event o h.whole) (wp_and
    (step_cls (K := fun c => c = .sftp) event hno o h.cls) (step_lives h.whole.sound event)))
    fun _ o' ho' => ?_
  obtain ⟨hwhole, hcls, hlives⟩ := ho'
  refine ⟨hwhole, hcls, ?_⟩
  split at hlives
  case isTrue =>
    rw [hlives]
    exact h.opened
  case isFalse => exact hlives.2.opened h.opened

end ChannelObject

/-! ## §2 Whole messages -/

namespace SFTPChannel

variable {b b' : Buffer} {m : Bytes} {msgs : List Bytes}

/-- Each can be put, and the last one has a byte that is not in its length field. -/
def Passable (msgs : List Bytes) : Prop :=
  (∀ m ∈ msgs, m.length ≤ bufferMaxChunk) ∧ msgs.getLast? ≠ some []

/-- Nothing but messages that can be passed on -/
def WholeMessages (b : Bytes) : Prop := ∃ msgs, b = frames msgs ∧ Passable msgs

theorem Passable.tail (h : Passable (m :: msgs)) : Passable msgs := by
  refine ⟨fun m' hm' => h.1 m' (mem_cons_of_mem _ hm'), fun hlast => h.2 ?_⟩
  cases msgs with
  | nil => cases hlast
  | cons m' msgs => rw [getLast?_cons_cons, hlast]

theorem frames_cons (m : Bytes) (msgs : List Bytes) :
    frames (m :: msgs) = putString m ++ frames msgs := flatMap_cons

theorem Passable.five_le (h : Passable (m :: msgs)) : 5 ≤ (frames (m :: msgs)).length := by
  rw [frames_length, payload, map_cons, sum_cons, length_cons]
  cases msgs with
  | cons m' msgs =>
    rw [length_cons]
    omega
  | nil =>
    have hne : m ≠ [] := fun hnil => h.2 (by rw [hnil]; rfl)
    have hpos := length_pos_iff.mpr hne
    omega

theorem len_eq_zero_iff (hb : b.contents = frames msgs) : b.len = 0 ↔ msgs = [] := by
  rw [← contents_length, hb, frames_length]
  cases msgs with
  | nil => exact ⟨fun _ => rfl, fun _ => rfl⟩
  | cons m msgs =>
    rw [length_cons]
    exact ⟨fun h => by omega, fun h => by cases h⟩

/-- The length field is that of the first message. -/
theorem msgLen_frames (hb : b.contents = frames (m :: msgs)) (hm : m.length ≤ bufferMaxChunk) :
    (msgLen b).toNat = m.length :=
  msgLen_putString (hb.trans (frames_cons m msgs)) hm

/-- Such a message is recognised. -/
theorem Passable.complete (h : Passable (m :: msgs)) (hb : b.contents = frames (m :: msgs)) :
    isCompletePacketInDescending b = true ∧ 4 + (msgLen b).toNat ≤ b.len := by
  have hm := h.1 m mem_cons_self
  have hfive := h.five_le
  have hlen : b.len = 4 + m.length + (frames msgs).length := by
    rw [← contents_length, hb, frames_cons, length_append, putString_length]
  rw [← hb, contents_length] at hfive
  rw [isComplete_iff, msgLen_frames hb hm]
  have hsmall : (m.length + 4) % 2 ^ 32 ≤ m.length + 4 := Nat.mod_le _ _
  omega

theorem not_complete_nil (hb : b.contents = []) : isCompletePacketInDescending b = false := by
  have hlen : b.len = 0 := by rw [← contents_length, hb, length_nil]
  refine eq_false_iff.mpr fun hcomplete => ?_
  have hfive := ((isComplete_iff b).mp hcomplete).1
  omega

/-- What is recognised can be passed on. -/
theorem Passable.fits (h : Passable msgs) (hb : b.contents = frames msgs)
    (hcomplete : isCompletePacketInDescending b = true) :
    4 + (msgLen b).toNat ≤ b.len ∧ (msgLen b).toNat ≤ bufferMaxChunk := by
  cases msgs with
  | nil => cases (not_complete_nil hb).symm.trans hcomplete
  | cons m msgs =>
    have hm := h.1 m mem_cons_self
    refine ⟨(h.complete hb).2, ?_⟩
    rw [msgLen_frames hb hm]
    exact hm

/-- A message has left the buffer at its front. -/
def Forwarded (b b' : Buffer) : Prop :=
  ∃ m, m.length ≤ bufferMaxChunk ∧ 5 ≤ b.len ∧ b.contents = putString m ++ b'.contents

/-- Nothing makes whole messages of what was none. -/
theorem Forwarded.whole (h : Forwarded b b') (hwhole : WholeMessages b'.contents) :
    WholeMessages b.contents := by
  obtain ⟨m, hm, hfive, hb⟩ := h
  obtain ⟨msgs, hmsgs, hshort, hlast⟩ := hwhole
  refine ⟨m :: msgs, by rw [hb, hmsgs, frames_cons], ?_, ?_⟩
  · intro m' hm'
    rcases mem_cons.mp hm' with rfl | hm'
    · exact hm
    · exact hshort m' hm'
  · cases msgs with
    | cons m' msgs =>
      rw [getLast?_cons_cons]
      exact hlast
    | nil =>
      intro hnil
      have hempty : m = [] := Option.some.inj hnil
      rw [← contents_length, hb, hmsgs, hempty] at hfive
      exact absurd hfive (by decide)

theorem Forwarded.tail (h : Forwarded b b') (hb : b.contents = frames (m :: msgs))
    (hm : m.length ≤ bufferMaxChunk) : b'.contents = frames msgs := by
  obtain ⟨m', hm', -, hb'⟩ := h
  rw [hb, frames_cons] at hb'
  exact (putString_append_inj (hm.trans_lt (by decide)) (hm'.trans_lt (by decide)) hb').2.symm

/-- What `channel_post` does to `descending` -/
theorem channelPost_forwards (s : SessionChannel) :
    wp channelPost (fun _ s' =>
        if s.base.isOpened && isCompletePacketInDescending s.base.descending then
          Forwarded s.base.descending s'.base.descending
        else s'.base.descending = s.base.descending)
      any s := by
  have hascending : Keeps (Descending s.base.descending) subproc2ascending := by
    intro s1 hs1
    rw [subproc2ascending, wp_bind, wp_zoom]
    refine wp_intro (fun _ _ _ => ?_) fun _ _ _ => hs1
    rw [wp_pure]
    exact hs1
  rw [channelPost, wp_read]
  cases hopened : s.base.isOpened with
  | false =>
    rw [if_neg Bool.false_ne_true, Bool.false_and]
    refine wp_weaken (descending_frame.garbageCollect s rfl) fun _ _ h => ?_
    rw [if_neg Bool.false_ne_true]
    exact h
  | true =>
    rw [if_pos rfl, Bool.true_and]
    refine wp_seq_any (hascending s rfl) fun _ s1 h1 => ?_
    refine wp_seq_any (descending2subproc_result s1) fun _ s2 h2 => ?_
    obtain ⟨m, hm, hpassed⟩ := h2
    have hforwarded : if isCompletePacketInDescending s.base.descending then
        Forwarded s.base.descending s2.base.descending
        else s2.base.descending = s.base.descending := by
      have hdescending := hpassed.descending
      rw [h1] at hdescending
      split
      case isTrue hcomplete =>
        rw [if_pos hcomplete] at hdescending
        exact ⟨m, hm, ((isComplete_iff _).mp hcomplete).1, hdescending⟩
      case isFalse hpart =>
        rw [if_neg hpart] at hdescending
        exact hdescending.2
    -- the rest of the call leaves it alone
    have hrest : Keeps (Descending s2.base.descending)
        (onBase Channel.channelCheckWindow >>= fun _ => garbageCollect) := by
      refine .bind (fun s hs => ?_) fun _ => descending_frame.garbageCollect
      exact wp_channelCheckWindow (fun _ _ => hs) hs
    refine wp_weaken (hrest s2 rfl) fun _ s3 h3 => ?_
    rw [h3]
    exact hforwarded

end SFTPChannel

/-! ## §3 The calls of a round -/

instance (m : Bytes) (out : Buffer) : Decidable (BusyThreadReadBuffer.Takes m out) :=
  inferInstanceAs (Decidable (_ ∧ _))

namespace ChannelObject

open SFTPChannel (Forwarded Passable WholeMessages frames_cons isCompletePacketInDescending
  len_eq_zero_iff)

variable {o : ChannelObject} {msgs : List Bytes} {closed : Bool}

/-- The call puts the EOF marker into `fromChannel`: behind the last message, or for the thread of a
channel that is deleted. -/
def putsEof (event : Event) (o : ChannelObject) : Bool :=
  !o.session.deleted && match event with
  | .session (.eof _) => o.session.ends
  | .session .fillEventArray => o.session.drains || o.session.terminates
  | .session .post => o.session.terminates
  | _ => false

/-- No buffer stands in the way: there is room for what is appended, a message from the subsystem is
one that `buffer_get_string` takes, and a packet is one that can be built. And the channel is not
deleted with its thread. -/
def Unhindered (event : Event) (o : ChannelObject) : Prop :=
  o.session.deleted = false →
    match event with
    | .session .post => o.session.terminates = false ∧
      (∀ m ∈ o.session.toChannel.messages.take 1,
        BusyThreadReadBuffer.Takes m o.session.base.ascending) ∧
      (isCompletePacketInDescending o.session.base.descending = true →
        o.session.fromChannel.writeBuf.len + 4 ≤ 6 * bufferMaxChunk)
    | .session .outputPoll =>
      min o.session.base.remoteMaxpacket.toNat o.session.base.ascending.len + 14 ≤ bufferMaxChunk
    | .session .fillEventArray => o.session.terminates = false ∧
      (o.session.drains = true → o.session.fromChannel.writeBuf.hasRoom 4 = true)
    | _ => putsEof event o = true → o.session.fromChannel.writeBuf.hasRoom 4 = true

instance Unhindered.decidable (event : Event) (o : ChannelObject) :
    Decidable (Unhindered event o) := by
  unfold Unhindered
  cases event with
  | session event => cases event <;> infer_instance
  | _ => infer_instance

/-- The output half has been draining since EOF or CLOSE; the messages are left in `descending`.
When it is closed, none is left. -/
structure Drains (closed : Bool) (msgs : List Bytes) (o : ChannelObject) : Prop where
  serves : o.Serves
  contents : o.session.base.descending.contents = frames msgs
  passable : Passable msgs
  output : o.life.output = if closed then .closed else .waitDrain
  live : closed = false → o.session.deleted = false
  done : closed = true → msgs = []

/-- What stands in a deleted channel does not change any more. -/
theorem Drains.gone (h : Drains closed msgs o) (hgone : o.session.deleted = true) :
    closed = true ∧ msgs = [] := by
  cases closed with
  | false => cases (h.live rfl).symm.trans hgone
  | true => exact ⟨rfl, h.done rfl⟩

theorem Drains.not_dead (h : Drains false msgs o) : ¬o.life.IsDead := fun hdead => by
  cases h.output.symm.trans hdead.2

/-- A call that leaves the output half alone -/
theorem Drains.next {event : Event} {left : List Bytes} (h : Drains closed msgs o)
    (hlive : o.session.deleted = false) (hstarts : starts event = false)
    (hhalts : halts event = false) (hleft : Passable left) (hdone : msgs = [] → left = [])
    (hcall : wp (step event)
      (fun _ o' => o'.session.base.descending.contents = frames left) never o) :
    wp (step event) (fun _ => Drains closed left) never o := by
  refine wp_and_mono hcall (wp_and (h.serves.step event hstarts)
    (step_lives h.serves.whole.sound event)) fun _ o' ho' => ?_
  obtain ⟨hcontents, hserves, hlives⟩ := ho'
  rw [hlive, if_neg Bool.false_ne_true] at hlives
  refine ⟨hserves, hcontents, hleft, (hlives.2.sameOutput hhalts).1.trans h.output, fun hopen => ?_,
    fun hclosed => hdone (h.done hclosed)⟩
  subst hopen
  refine Bool.eq_false_iff.mpr fun hgone => h.not_dead ?_
  exact (hlives.2.deletes hlive hgone).2.1

/-! ### Threads and `channel_output_poll` -/

/-- What comes between the calls: `channel_output_poll`, and steps of the thread -/
inductive Idle where
  | outputPoll
  | thread (t : Server.ThreadStep)

def Idle.event : Idle → Event
  | .outputPoll => .session .outputPoll
  | .thread t => t.event

theorem thread_returns (t : Server.ThreadStep) (ho : o.Sound) :
    wp (stepEvent t.event) any never o := by
  have hon : ∀ {m : SessionM Unit} {P : SessionChannel → Prop},
      wp m (fun _ => P) never o.session →
      wp (onSession m) any never o := by
    intro m P hm
    rw [onSession, wp_zoom]
    exact wp_mono_total hm fun _ _ _ => trivial
  have hafter : ∀ {m : SessionM Unit} {P : SessionChannel → Prop},
      wp m (fun _ => P) never o.session →
      wp (afterConnect m) any never o := by
    intro m P hm
    exact wp_afterConnect trivial fun _ => hon hm
  cases t with
  | connected => exact wp_mono_total (connected_lives ho) fun _ _ _ => trivial
  | callGet => exact hafter (goto_at (by decide) _ ho.at)
  | getStep => exact hon (getStep_at ho.at)
  | otherEvent => exact hon (goto_at (by decide) _ ho.at)
  | put data => exact hafter (workerPut_at data ho.at)
  | exit => exact hon (goto_at (by decide) _ ho.at)

variable (i : Idle)

theorem Idle.returns (h : o.Serves) (hlive : o.session.deleted = false)
    (hroom : Unhindered i.event o) : wp (step i.event) any never o := by
  cases i with
  | outputPoll =>
    exact wp_mono_total (outputPoll_becomes h.whole.sound hlive h.opened (hroom hlive))
      fun _ _ _ => trivial
  | thread t =>
    rw [step_live hlive]
    exact thread_returns t h.whole.sound

theorem Idle.ordinary : starts i.event = false ∧ halts i.event = false ∧
    i.event ≠ .session .post ∧ ∀ body, i.event ≠ .session (.data body) := by
  cases i with
  | outputPoll => exact ⟨rfl, rfl, by simp [Idle.event], by simp [Idle.event]⟩
  | thread t => cases t <;> exact ⟨rfl, rfl, by simp [Idle.event, Server.ThreadStep.event],
      by simp [Idle.event, Server.ThreadStep.event]⟩

theorem idle_drains (h : Drains closed msgs o) (hroom : Unhindered i.event o) :
    wp (step i.event) (fun _ => Drains closed msgs) never o := by
  cases hdeleted : o.session.deleted with
  | true => exact (step_deleted hdeleted).mpr h
  | false =>
    obtain ⟨hstarts, hhalts, hpost, hdata⟩ := i.ordinary
    refine h.next hdeleted hstarts hhalts h.passable id ?_
    refine wp_mono (wp_and (step_descending i.event hpost hdata o rfl)
      (i.returns h.serves hdeleted hroom)) (fun _ o' ho' => ?_) fun _ _ hfails => hfails.2
    rw [ho'.1]
    exact h.contents

/-! ### `channel_post` -/

theorem wp_post {Q : Unit → ChannelObject → Prop} {E : Halt → ChannelObject → Prop}
    (hcls : o.cls = .sftp) (hlive : o.session.deleted = false) :
    wp (step (.session .post)) Q E o ↔ wp (onSession SFTPChannel.channelPost) Q E o := by
  rw [step_live hlive]
  show wp channelPost _ _ _ ↔ _
  rw [channelPost, wp_read, hcls]

theorem post_forwards (hcls : o.cls = .sftp) (hlive : o.session.deleted = false) :
    wp (step (.session .post)) (fun _ o' =>
        if o.session.base.isOpened && isCompletePacketInDescending o.session.base.descending then
          Forwarded o.session.base.descending o'.session.base.descending
        else o'.session.base.descending = o.session.base.descending) any o := by
  rw [wp_post hcls hlive, onSession, wp_zoom]
  exact SFTPChannel.channelPost_forwards o.session

theorem post_returns (h : Drains closed msgs o) (hlive : o.session.deleted = false)
    (hroom : Unhindered (.session .post) o) : wp (step (.session .post)) any never o := by
  obtain ⟨hstays, htakes, hroom⟩ := hroom hlive
  obtain ⟨queue, hqueue⟩ := h.serves.whole.stocked hlive
  rw [hqueue.messages_eq] at htakes
  have hopened : o.session.base.isOpened = true := h.serves.opened
  rw [wp_post h.serves.cls hlive, onSession, wp_zoom, SFTPChannel.channelPost, wp_read,
    hopened, if_pos rfl]
  refine wp_seq_total (getAs_moves true h.serves.whole.sound.at hqueue htakes) fun _ s1 h1 => ?_
  obtain ⟨hs1, hgets⟩ := h1
  have hdescending' : s1.base.descending = o.session.base.descending := hgets.descending
  have hfrom' : s1.fromChannel = o.session.fromChannel := hgets.fromChannel
  have hfits : wp SFTPChannel.descending2subproc any never s1 := by
    apply SFTPChannel.descending2subproc_fits
    rw [hdescending', hfrom']
    intro hcomplete
    obtain ⟨hin, hchunk⟩ := h.passable.fits h.contents hcomplete
    exact ⟨hin, hchunk, hroom hcomplete⟩
  rw [wp_bind]
  refine wp_and_mono hfits (sftpDescending2subproc_at s1 hs1) fun _ s2 h2 => ?_
  rw [wp_bind]
  refine channelCheckWindow_at h2.2 fun ps s3 _ hs3 => ?_
  have hstays' : s3.terminates = false :=
    hs3.terminates.trans (h.serves.whole.sound.at.terminates.symm.trans hstays)
  exact wp_mono (garbageCollect_result o.isConnecting s3) (fun _ _ _ => trivial) fun _ _ hfails =>
    by cases hstays'.symm.trans hfails.1

theorem post_drains (h : Drains closed msgs o) (hroom : Unhindered (.session .post) o) :
    wp (step (.session .post)) (fun _ => Drains closed msgs.tail) never o := by
  cases hdeleted : o.session.deleted with
  | true =>
    obtain ⟨-, rfl⟩ := h.gone hdeleted
    exact (step_deleted hdeleted).mpr h
  | false =>
    have hpassable : Passable msgs.tail := by
      cases msgs with
      | nil => exact h.passable
      | cons m msgs => exact h.passable.tail
    refine h.next hdeleted rfl rfl hpassable (fun hnil => by rw [hnil]; rfl) ?_
    refine wp_mono (wp_and (post_forwards h.serves.cls hdeleted) (post_returns h hdeleted hroom))
      (fun _ o' ho' => ?_) fun _ _ hfails => hfails.2
    have hopened : o.session.base.isOpened = true := h.serves.opened
    have hpost := ho'.1
    rw [hopened, Bool.true_and] at hpost
    cases msgs with
    | nil =>
      rw [SFTPChannel.not_complete_nil h.contents, if_neg Bool.false_ne_true] at hpost
      rw [hpost]
      exact h.contents
    | cons m msgs =>
      rw [(h.passable.complete h.contents).1, if_pos rfl] at hpost
      exact hpost.tail h.contents (h.passable.1 m mem_cons_self)

/-! ### `fill_event_array` -/

/-- The marker is put when the last message has gone. -/
theorem Drains.putsEof_iff (h : Drains closed msgs o)
    (hroom : Unhindered (.session .fillEventArray) o) :
    putsEof (.session .fillEventArray) o = true ↔ closed = false ∧ msgs = [] := by
  have houtput : o.session.base.currentOutputState = if closed then .closed else .waitDrain :=
    h.output
  have hempty := len_eq_zero_iff h.contents
  cases hdeleted : o.session.deleted with
  | true => simp [putsEof, hdeleted, (h.gone hdeleted).1]
  | false =>
    have hputs : putsEof (.session .fillEventArray) o = o.session.drains := by
      simp [putsEof, hdeleted, (hroom hdeleted).1]
    rw [hputs, SessionChannel.drains, houtput]
    cases closed <;> simp [hempty]

theorem fill_drains (h : Drains closed msgs o) (hroom : Unhindered (.session .fillEventArray) o) :
    wp (step (.session .fillEventArray))
      (fun _ => Drains (closed || putsEof (.session .fillEventArray) o) msgs) never o := by
  cases hdeleted : o.session.deleted with
  | true =>
    obtain ⟨rfl, -⟩ := h.gone hdeleted
    rw [step_deleted hdeleted, Bool.true_or]
    exact h
  | false =>
    refine wp_mono (wp_and (fillEventArray_serviced o hdeleted) (wp_and
      (step_fill_life h.serves.whole.sound hdeleted) (wp_and
      (step_descending (.session .fillEventArray) (by simp) (by simp) o rfl)
      (h.serves.step (.session .fillEventArray) rfl)))) (fun _ o' ho' => ?_) fun _ _ hfails => ?_
    · obtain ⟨-, hlife, hdescending, hserves⟩ := ho'
      have hcontents : o'.session.base.descending.contents = frames msgs := by
        rw [hdescending]
        exact h.contents
      cases hputs : putsEof (.session .fillEventArray) o with
      | true =>
        obtain ⟨rfl, hnil⟩ := (h.putsEof_iff hroom).mp hputs
        rw [if_pos ⟨h.output, (len_eq_zero_iff h.contents).mpr hnil⟩] at hlife
        refine ⟨hserves, hcontents, h.passable, ?_, (fun hopen => by cases hopen), fun _ => hnil⟩
        rw [hlife, (collect_halves _).1]
        rfl
      | false =>
        have hnot : ¬(o.life.output = .waitDrain ∧ o.session.base.descending.len = 0) := by
          intro hdrain
          have hnil := (len_eq_zero_iff h.contents).mp hdrain.2
          refine absurd ((h.putsEof_iff hroom).mpr ⟨?_, hnil⟩) (by rw [hputs]; decide)
          cases closed with
          | false => rfl
          | true => cases h.output.symm.trans hdrain.1
        rw [if_neg hnot] at hlife
        rw [Bool.or_false]
        refine ⟨hserves, hcontents, h.passable, ?_, fun hopen => ?_, h.done⟩
        · rw [hlife, (collect_halves _).1]
          exact h.output
        · subst hopen
          have hstays : o'.life.deleted = false := by
            rw [hlife, collect_alive h.not_dead]
            exact hdeleted
          exact hstays
    · obtain ⟨hstays, hfits⟩ := hroom hdeleted
      have hfull := hfails.1
      rw [eofFits, hstays, Bool.or_false] at hfull
      cases hdrains : o.session.drains with
      | false => simp [hdrains] at hfull
      | true => simp [hfits hdrains] at hfull

/-! ### EOF and CLOSE -/

/-- EOF or CLOSE, with nothing behind the number of the channel -/
inductive PeerEnds : Event → Prop
  | eof : PeerEnds (.session (.eof []))
  | close : PeerEnds (.session (.close []))

theorem PeerEnds.returns {event : Event} (hends : PeerEnds event) (h : o.Sound)
    (hlive : o.session.deleted = false) (hroom : Unhindered event o) :
    wp (step event) any never o := by
  cases hends with
  | eof =>
    rw [step_session hlive rfl, SessionChannel.stepEvent, wp_bind, wp_received]
    refine wp_mono (channelInputEof_result o.isConnecting _) (fun _ _ _ => trivial) fun _ _ h => ?_
    obtain ⟨hends, hfull⟩ := h.2 rfl
    have hputs : putsEof (.session (.eof [])) o = true := by
      rw [putsEof, hlive]
      exact hends
    cases hfull.symm.trans (hroom hlive hputs)
  | close =>
    rw [step_session hlive rfl, SessionChannel.stepEvent, wp_bind, wp_received]
    refine wp_mono_total (channelInputOclose_of (k := o.isConnecting) (l := o.life) ?_)
      fun _ _ _ => trivial
    rw [wp_onBase_reading, wp_packetCheckEom]
    exact ⟨h.counted, rfl⟩

/-- The half has drained at once, or begins to. -/
theorem PeerEnds.output {event : Event} (hends : PeerEnds event) (h : o.Serves)
    (hlive : o.session.deleted = false) (hopen : o.session.base.currentOutputState ≠ .closed) :
    wp (step event) (fun _ o' =>
        o'.life.output = (if putsEof event o then .closed else .waitDrain) ∧
          o'.session.deleted = false) any o := by
  have hopen' : o.life.output ≠ .closed := hopen
  cases hends with
  | close =>
    refine wp_weaken (step_lives h.whole.sound _) fun _ o' ho' => ?_
    rw [hlive, if_neg Bool.false_ne_true] at ho'
    have hdeleted := (congrArg deleted ho'.2).trans o.life.peerClose_deleted
    refine ⟨?_, hdeleted.trans hlive⟩
    rw [ho'.2, peerClose_drains h.opened, if_neg hopen']
    simp [putsEof]
  | eof =>
    refine wp_weaken (step_eof_life h.whole.sound hlive []) fun _ o' ho' => ?_
    have houtput : o.life.output = o.session.base.currentOutputState := rfl
    have hdeleted : o'.life.deleted = o.life.deleted := by
      rw [ho']
      split
      case isTrue => split <;> rfl
      case isFalse => rfl
    refine ⟨?_, hdeleted.trans hlive⟩
    rw [ho', houtput]
    cases hstate : o.session.base.currentOutputState with
    | closed => exact absurd hstate hopen
    | waitDrain => simp [putsEof, SessionChannel.ends, hstate, life, lifeOf]
    | «open» => by_cases hempty : o.session.base.descending.len = 0 <;>
        simp [putsEof, SessionChannel.ends, hstate, hlive, hempty]

theorem PeerEnds.drains {event : Event} (hends : PeerEnds event) (h : o.Serves)
    (hlive : o.session.deleted = false) (hopen : o.session.base.currentOutputState ≠ .closed)
    (hcontents : o.session.base.descending.contents = frames msgs) (hpassable : Passable msgs)
    (hroom : Unhindered event o) :
    wp (step event) (fun _ => Drains (putsEof event o) msgs) never o := by
  have hordinary : starts event = false ∧ event ≠ .session .post ∧
      ∀ body, event ≠ .session (.data body) := by
    cases hends <;> exact ⟨rfl, by simp, by simp⟩
  obtain ⟨hstarts, hpost, hdata⟩ := hordinary
  refine wp_and_mono (hends.returns h.whole.sound hlive hroom) (wp_and
    (hends.output h hlive hopen) (wp_and (step_descending event hpost hdata o rfl)
    (h.step event hstarts))) fun _ o' ho' => ?_
  obtain ⟨-, ⟨houtput, hstays⟩, hdescending, hserves⟩ := ho'
  refine ⟨hserves, by rw [hdescending, hcontents], hpassable, houtput,
    fun _ => hstays, fun hputs => ?_⟩
  have hempty : o.session.base.descending.len = 0 := by
    cases hends with
    | eof =>
      have hends : o.session.ends = true := (and_eq_true_iff.mp hputs).2
      simp only [SessionChannel.ends, and_eq_true, decide_eq_true_eq] at hends
      exact hends.2
    | close => simp [putsEof] at hputs
  exact (len_eq_zero_iff hcontents).mp hempty

/-! ### The marker -/

/-- What `putsEof` says of these calls is what they do. -/
theorem step_marks {event : Event} (hevent : PeerEnds event ∨ event = .session .fillEventArray)
    (hlive : o.session.deleted = false) :
    wp (step event) (fun _ o' => Marked (putsEof event o) o.session o'.session)
      any o := by
  have hnot : (!o.session.deleted) = true := by rw [hlive, Bool.not_false]
  unfold putsEof
  rw [hnot, Bool.true_and]
  rcases hevent with hends | rfl
  · cases hends with
    | eof =>
      rw [step_session hlive rfl, SessionChannel.stepEvent, wp_bind, wp_received]
      exact wp_weaken (channelInputEof_result false _) fun _ _ h => h.2.2
    | close =>
      rw [step_session hlive rfl, SessionChannel.stepEvent, wp_bind, wp_received, onBase, wp_zoom]
      exact wp_intro (fun _ _ _ => rfl) fun _ _ _ => trivial
  · rw [step_session hlive rfl, SessionChannel.stepEvent, wp_bind]
    exact wp_weaken (fillEventArray_result false o.session) fun _ _ h => (wp_pure _).mpr h.2.2

/-! ## §4 Rounds -/

/-- `channel_post` and `fill_event_array`, with anything before and between them -/
structure Turn where
  before : List Idle
  between : List Idle

def Turn.events (t : Turn) : List Event :=
  t.before.map Idle.event ++
    .session .post :: (t.between.map Idle.event ++ [.session .fillEventArray])

/-- The calls of a round -/
inductive Call : Event → Prop
  | idle (i : Idle) : Call i.event
  | post : Call (.session .post)
  | fill : Call (.session .fillEventArray)

theorem Turn.calls {t : Turn} {event : Event} (hevent : event ∈ t.events) : Call event := by
  rw [Turn.events, mem_append, mem_cons, mem_append, mem_singleton] at hevent
  have hidle : ∀ is : List Idle, event ∈ is.map Idle.event → Call event := by
    intro is hmem
    obtain ⟨i, -, rfl⟩ := mem_map.mp hmem
    exact .idle i
  rcases hevent with hmem | rfl | hmem | rfl
  · exact hidle _ hmem
  · exact .post
  · exact hidle _ hmem
  · exact .fill

theorem Idle.putsEof : putsEof i.event o = false := by
  cases i with
  | outputPoll => exact and_false _
  | thread t => cases t <;> exact and_false _

theorem post_putsEof (hroom : Unhindered (.session .post) o) :
    putsEof (.session .post) o = false := by
  rw [putsEof]
  cases hdeleted : o.session.deleted with
  | true => rfl
  | false => rw [(hroom hdeleted).1, Bool.and_false]

/-- No call of a round puts the marker twice. -/
theorem Call.drains {event : Event} (hcall : Call event) (h : Drains closed msgs o)
    (hroom : Unhindered event o) :
    wp (step event) (fun _ o' => ∃ left, Drains (closed || putsEof event o) left o')
      never o := by
  cases hcall with
  | idle i =>
    rw [i.putsEof, Bool.or_false]
    exact wp_mono_total (idle_drains i h hroom) fun _ _ h' => ⟨_, h'⟩
  | post =>
    rw [post_putsEof hroom, Bool.or_false]
    exact wp_mono_total (post_drains h hroom) fun _ _ h' => ⟨_, h'⟩
  | fill => exact wp_mono_total (fill_drains h hroom) fun _ _ h' => ⟨_, h'⟩

theorem Drains.putsEof_of_closed (h : Drains true msgs o) {event : Event} (hcall : Call event)
    (hroom : Unhindered event o) : ChannelObject.putsEof event o = false := by
  cases hcall with
  | idle i => exact i.putsEof
  | post => exact post_putsEof hroom
  | fill =>
    exact eq_false_iff.mpr fun hputs => by cases ((h.putsEof_iff hroom).mp hputs).1

/-- Steps between the calls, one after the other -/
theorem idles_drain (is : List Idle) (h : Drains closed msgs o)
    (hroom : Meets step Unhindered (is.map Idle.event) o) :
    wp (runAll step (is.map Idle.event)) (fun _ => Drains closed msgs) never o := by
  refine Meets.runAll (E := fun _ => False) ?_
    (hroom.restrict (P := fun event => ∃ i : Idle, event = i.event) ?_) h
  · intro event o' ho' hevent
    obtain ⟨⟨i, rfl⟩, hroom'⟩ := hevent
    exact idle_drains i ho' hroom'
  · intro event hmem
    obtain ⟨i, -, rfl⟩ := mem_map.mp hmem
    exact ⟨i, rfl⟩

/-- In a round the first message is passed on, and when it was the last one, the half is closed. -/
theorem turn_drains (t : Turn) (h : Drains closed msgs o)
    (hroom : Meets step Unhindered t.events o) :
    wp (runAll step t.events)
      (fun _ => Drains (closed || msgs.tail.isEmpty) msgs.tail) never o := by
  refine hroom.runAll_append (idles_drain t.before h) fun o1 h1 hrest => ?_
  refine hrest.runAll_cons (post_drains h1) fun o2 h2 hrest => ?_
  refine hrest.runAll_append (idles_drain t.between h2) fun o3 h3 hlast => ?_
  rw [runAll]
  refine wp_seq_total (fill_drains h3 hlast.1) fun _ o4 h4 => ?_
  rw [runAll, wp_pure]
  have hputs : (closed || putsEof (.session .fillEventArray) o3) =
      (closed || msgs.tail.isEmpty) := by
    cases closed with
    | true => rfl
    | false =>
      rw [Bool.false_or, Bool.false_or, Bool.eq_iff_iff, h3.putsEof_iff hlast.1, List.isEmpty_iff]
      exact and_iff_right rfl
  rw [← hputs]
  exact h4

variable {turns : List Turn} {last : Event} {events : List Event}

/-- Rounds enough for the messages, and one for the marker -/
theorem turns_drain (h : Drains closed msgs o) (hturns : msgs.length < turns.length)
    (hroom : Meets step Unhindered (turns.flatMap Turn.events) o) :
    wp (runAll step (turns.flatMap Turn.events)) (fun _ => Drains true []) never o := by
  -- a round is left for each message, and one more
  let Inv (n : Nat) (o : ChannelObject) : Prop :=
    ∃ closed msgs, Drains closed msgs o ∧ (closed = false → msgs.length < n)
  have hmono : ∀ n o, Inv n o → Inv (n + 1) o := by
    intro n o ho
    obtain ⟨closed, msgs, hdrains, hleft⟩ := ho
    exact ⟨closed, msgs, hdrains, fun hopen => Nat.lt_succ_of_lt (hleft hopen)⟩
  have hround : ∀ t ∈ turns, ∀ n o, Inv (n + 1) o → Meets step Unhindered t.events o →
      wp (runAll step t.events) (fun _ => Inv n) never o := by
    intro t _ n o ho hmeets
    obtain ⟨closed, msgs, hdrains, hleft⟩ := ho
    refine wp_mono_total (turn_drains t hdrains hmeets) fun _ o' ho' => ⟨_, _, ho', fun hopen => ?_⟩
    rw [or_eq_false_iff] at hopen
    have hlength := hleft hopen.1
    cases msgs with
    | nil => cases hopen.2
    | cons m msgs => exact Nat.lt_of_succ_lt_succ hlength
  have hstart : Inv turns.length o := ⟨closed, msgs, h, fun _ => hturns⟩
  refine wp_mono_total (Meets.countdown hmono hround hstart hroom) fun _ o' ho' => ?_
  rw [Nat.sub_self] at ho'
  obtain ⟨closed, msgs, hdrains, hleft⟩ := ho'
  cases closed with
  | false => exact absurd (hleft rfl) (Nat.not_lt_zero _)
  | true => exact hdrains.done rfl ▸ hdrains

/-- **The marker is put at most once**, and it has been put when the half is closed. -/
theorem calls_mark (hcalls : ∀ event ∈ events, Call event)
    (h : Drains closed msgs o) (hroom : Meets step Unhindered events o) :
    wp (runAll step events) (fun _ o' => ∃ closed' left, Drains closed' left o' ∧
        (if closed then 1 else 0) + hits step putsEof events o = if closed' then 1 else 0)
      never o := by
  let Inv (n : Nat) (o : ChannelObject) : Prop :=
    ∃ closed msgs, Drains closed msgs o ∧ n = if closed then 1 else 0
  have hstep : ∀ n event o, Inv n o → Call event ∧ Unhindered event o →
      wp (step event) (fun _ => Inv (n + if putsEof event o then 1 else 0))
        never o := by
    intro n event o ho hevent
    obtain ⟨closed, msgs, hdrains, rfl⟩ := ho
    refine wp_mono_total (hevent.1.drains hdrains hevent.2) fun _ o' ho' => ?_
    obtain ⟨left, hleft⟩ := ho'
    refine ⟨_, left, hleft, ?_⟩
    cases closed with
    | false =>
      rw [Bool.false_or, if_neg Bool.false_ne_true, zero_add]
    | true =>
      rw [hdrains.putsEof_of_closed hevent.1 hevent.2, Bool.or_false, if_neg Bool.false_ne_true,
        add_zero]
  exact Meets.runAll_hits (E := fun _ _ => False) hstep _ (hroom.restrict hcalls)
    (⟨closed, msgs, h, rfl⟩ : Inv _ o)

/-! ## §5 Main result -/

/-- Everything that is called after the peer has ended its stream -/
def Tail (event : Event) : Prop := PeerEnds event ∨ Call event

theorem Tail.ordinary {event : Event} (h : Tail event) :
    starts event = false ∧ ∀ body, event ≠ .session (.data body) := by
  rcases h with hends | hcall
  · cases hends <;> exact ⟨rfl, by simp⟩
  · cases hcall with
    | idle i => exact ⟨i.ordinary.1, i.ordinary.2.2.2⟩
    | post => exact ⟨rfl, by simp⟩
    | fill => exact ⟨rfl, by simp⟩

/-- The calls of an `SFTPChannel` after the peer has ended its stream -/
def tail (last : Event) (turns : List Turn) : List Event := last :: turns.flatMap Turn.events

theorem tail_calls (hlast : PeerEnds last) : ∀ event ∈ tail last turns, Tail event := by
  intro event hmem
  rcases mem_cons.mp hmem with rfl | hmem
  · exact .inl hlast
  · obtain ⟨t, -, ht⟩ := mem_flatMap.mp hmem
    exact .inr (Turn.calls ht)

/-- Something else than whole messages is in `descending`. -/
def Clogged (o : ChannelObject) : Prop :=
  o.cls = .sftp ∧ ¬WholeMessages o.session.base.descending.contents

theorem Clogged.step {event : Event} (hevent : Tail event) (h : o.Clogged) :
    wp (ChannelObject.step event) (fun _ => Clogged) any o := by
  obtain ⟨hcls, hnot⟩ := h
  obtain ⟨hstarts, hdata⟩ := hevent.ordinary
  have hsame := step_cls (K := fun c => c = .sftp) event hstarts o hcls
  by_cases hpost : event = .session .post
  · subst hpost
    cases hlive : o.session.deleted with
    | true => exact (step_deleted hlive).mpr ⟨hcls, hnot⟩
    | false =>
      refine wp_weaken (wp_and hsame (post_forwards hcls hlive)) fun _ o' ho' => ⟨ho'.1, ?_⟩
      have hforwards := ho'.2
      split at hforwards
      case isTrue => exact fun hwhole => hnot (hforwards.whole hwhole)
      case isFalse => exact hforwards ▸ hnot
  · refine wp_weaken (wp_and hsame (step_descending event hpost hdata o rfl)) fun _ o' ho' => ?_
    exact ⟨ho'.1, ho'.2 ▸ hnot⟩

theorem Clogged.not_empty {o' : ChannelObject} (h : o.Clogged)
    (hlast : PeerEnds last) (hok : runAll ChannelObject.step (tail last turns) o = .ok () o') :
    o'.session.base.descending.len ≠ 0 := by
  intro hempty
  have hclogged := (wp_of_ok hok).mp
    (Keeps.runAll_mem (fun event hmem _ ho' => ho'.step ((tail_calls hlast) event hmem)) o h)
  refine hclogged.2 ⟨[], ?_, (⟨fun _ hm => absurd hm not_mem_nil, fun h => by cases h⟩)⟩
  rw [← contents_length] at hempty
  exact eq_nil_of_length_eq_zero hempty

/-- Nothing is put when the half is closed. -/
theorem closed_putsEof {event : Event} (hclosed : o.life.output = .closed)
    (hroom : Unhindered event o) : putsEof event o = false := by
  have hstate : o.session.base.currentOutputState = .closed := hclosed
  unfold putsEof
  cases hdeleted : o.session.deleted with
  | true => rfl
  | false =>
    have hroom' := hroom hdeleted
    split
    · simp [SessionChannel.ends, hstate]
    · simp [SessionChannel.drains, hstate, hroom'.1]
    · simp [hroom'.1]
    · exact and_false _

theorem closed_marks (hroom : Meets step Unhindered events o)
    (hsound : o.Sound) (hclosed : o.life.output = .closed) :
    wp (runAll step events) (fun _ _ => hits step putsEof events o = 0) any o := by
  let Inv (n : Nat) (o : ChannelObject) : Prop := n = 0 ∧ o.Sound ∧ o.life.output = .closed
  have hstep : ∀ n event o, Inv n o → Unhindered event o →
      wp (step event) (fun _ => Inv (n + if putsEof event o then 1 else 0)) any o := by
    intro n event o ho hroom
    obtain ⟨rfl, hsound, hclosed⟩ := ho
    rw [closed_putsEof hclosed hroom, if_neg Bool.false_ne_true]
    refine wp_weaken (step_lives hsound event) fun _ o' ho' => ?_
    split at ho'
    case isTrue =>
      rw [ho']
      exact ⟨rfl, hsound, hclosed⟩
    case isFalse => exact ⟨rfl, ho'.1, ho'.2.closed hclosed⟩
  have hstart : Inv 0 o := ⟨rfl, hsound, hclosed⟩
  refine wp_weaken (Meets.runAll_hits (E := any) hstep 0 hroom hstart) fun _ o' ho' => ?_
  rw [zero_add] at ho'
  exact ho'.1

/-- `descending` is empty, the output half is closed, and the marker has been put once. -/
def Finishes (events : List Event) (o : ChannelObject) : Prop :=
  ∃ o', runAll step events o = .ok () o' ∧
    o'.session.base.descending.len = 0 ∧ o'.session.base.currentOutputState = .closed ∧
    hits step putsEof events o = 1

theorem finishes_of_whole (hlast : PeerEnds last) (h : o.Serves)
    (hlive : o.session.deleted = false) (hopen : o.session.base.currentOutputState ≠ .closed)
    (hcontents : o.session.base.descending.contents = frames msgs) (hpassable : Passable msgs)
    (hturns : msgs.length < turns.length)
    (hroom : Meets step Unhindered (tail last turns) o) : Finishes (tail last turns) o := by
  obtain ⟨hfirst, hrest⟩ := hroom
  obtain ⟨_, o1, hok, h1⟩ := ok_of_wp_total (hlast.drains h hlive hopen hcontents hpassable hfirst)
  rw [hok] at hrest
  have hcalls : ∀ event ∈ turns.flatMap Turn.events, Call event := by
    intro event hmem
    obtain ⟨t, -, ht⟩ := mem_flatMap.mp hmem
    exact Turn.calls ht
  have hend := wp_and (turns_drain h1 hturns hrest) (calls_mark hcalls h1 hrest)
  obtain ⟨_, o2, hok2, hdone, closed, left, hdrains, hcount⟩ :=
    ok_of_wp_total (wp_mono hend (fun _ _ h => h) fun _ _ h => h.1)
  have hrun : runAll step (tail last turns) o = .ok () o2 := (bind_of_ok hok).trans hok2
  have hclosed : closed = true := by
    cases closed with
    | true => rfl
    | false => cases hdrains.output.symm.trans hdone.output
  refine ⟨o2, hrun, (len_eq_zero_iff hdone.contents).mpr rfl, hdone.output, ?_⟩
  rw [hclosed, if_pos rfl] at hcount
  simp only [tail, hits, hok]
  exact hcount

/-- An `SFTPChannel` to which these bytes have been sent -/
def begun (body : Bytes) : ChannelObject :=
  endState (runAll step [.startSubsystem true false, .session (.data (putString body))])
    (createDerivation .session 0 7 100 100)

/-- A message of nine bytes, of which one has been sent -/
def cutShort : Bytes := putU32 9 ++ [1]

theorem cutShort_not_whole : ¬WholeMessages cutShort := by
  intro hwhole
  obtain ⟨msgs, hmsgs, hpassable⟩ := hwhole
  cases msgs with
  | nil => cases hmsgs
  | cons m msgs =>
    have hm := hpassable.1 m mem_cons_self
    have hfield := congrArg (fun b => (getU32 (b.take 4)).toNat) hmsgs
    have hlength := congrArg length hmsgs
    have hnine : (getU32 (cutShort.take 4)).toNat = 9 := by decide
    have hfive : cutShort.length = 5 := by decide
    simp only [frames_cons, putString, append_assoc,
      take_left' (putU32_length _), getU32_putU32, SFTPChannel.toNat_length hm, hnine] at hfield
    rw [frames_cons, putString, length_append, length_append, putU32_length,
      hfive] at hlength
    omega

end ChannelObject

end Shiesh.Channels
