import Shiesh.Channels.Stock
import Shiesh.Channels.Server

/-!
# The Calls of a Round

What the calls that `server_loop` makes for a channel in a round come to, once its output half is
closed: `channel_post` moves one message from `toChannel` to `ascending`, `channel_output_poll`
sends one packet from there, `fill_event_array` collects the channel when both halves are closed.
Within the limits of `Shiesh.Channels.Stock` none of them fails.
-/

namespace Shiesh.Channels

open Shiesh.Lib List Ssh2Msg

/-! ## §1 What the peer gets -/

/-- The messages that carry the stream and its end -/
inductive Out where
  | data (d : Bytes)
  | eof
  | close
  deriving DecidableEq, Repr

def Out.ofPacket (p : Packet) : Option Out :=
  if p.type = Ssh2Msg.channelData then some (.data (p.payload.drop 8))
  else if p.type = Ssh2Msg.channelEof then some .eof
  else if p.type = Ssh2Msg.channelClose then some .close
  else none

def outs (sent : List Packet) : List Out := sent.filterMap Out.ofPacket

theorem outs_plain {ps : List Packet} (h : Life.Plain ps) : outs ps = [] := by
  rw [outs, filterMap_eq_nil_iff]
  intro p hp
  rcases h p hp with htype | htype | htype <;> rw [Out.ofPacket, htype] <;> rfl

theorem outs_data (remoteId : UInt32) (d : Bytes) :
    outs (dataPackets remoteId d) = if d = [] then [] else [.data d] := by
  rw [dataPackets]
  split
  case isTrue => rfl
  case isFalse =>
    have hdrop : (putU32 remoteId ++ putString d).drop 8 = d := by
      rw [putString, ← append_assoc]
      exact drop_left' (by simp)
    simp [outs, Out.ofPacket, hdrop]

namespace Life

variable {l : Life}

theorem say_outs (l : Life) (ps : List Packet) : outs (l.say ps).sent = outs l.sent ++ outs ps :=
  (filterMap_append)

theorem notify_outs (l : Life) : outs l.notify.sent = outs l.sent := by
  have hnone : outs [exitStatus l.remoteId] = [] := rfl
  have hsaid := l.say_outs [exitStatus l.remoteId]
  rwa [hnone, append_nil] at hsaid

theorem confirm_outs (l : Life) {p : Packet} (hp : p.type = channelOpenConfirmation) :
    outs (l.confirm p).sent = outs l.sent := by
  rw [confirm]
  split
  case isTrue =>
    have hnone : outs [p] = [] := by
      rw [outs, filterMap_cons_none, filterMap_nil]
      rw [Out.ofPacket, hp]
      rfl
    have hsaid := l.say_outs [p]
    rwa [hnone, append_nil] at hsaid
  case isFalse => rfl

theorem finish_outs (l : Life) :
    outs l.finish.sent = outs l.sent ++ if l.eofSent || l.closeSent then [] else [.eof] := by
  have heof : outs [eof l.remoteId] = [.eof] := rfl
  rw [finish]
  split
  case isTrue => exact (append_nil _).symm
  case isFalse =>
    have hsaid := l.say_outs [eof l.remoteId]
    rwa [heof] at hsaid

theorem sayClose_outs (l : Life) (doSend : Bool) : outs (l.sayClose doSend).sent =
    outs l.sent ++ if !l.closeSent && doSend then [.close] else [] := by
  have hclose : outs [close l.remoteId] = [.close] := rfl
  rw [sayClose]
  split
  case isTrue =>
    have hsaid := l.say_outs [close l.remoteId]
    rwa [hclose] at hsaid
  case isFalse => exact (append_nil _).symm

/-- A dead channel whose end is to be told sends CLOSE, once. -/
theorem collect_outs (hdead : l.IsDead) (hdo : l.doClose = true) :
    outs l.collect.sent = outs l.sent ++ (if l.closeSent then [] else [.close]) ∧
      l.collect.closeSent = true := by
  have hsays : ∀ doSend, doSend = true →
      outs (l.sayClose doSend).sent = outs l.sent ++ (if l.closeSent then [] else [.close]) ∧
        (l.sayClose doSend).closeSent = true := by
    intro doSend hsend
    rw [hsend, l.sayClose_outs, sayClose]
    cases hsent : l.closeSent with
    | true => exact ⟨rfl, hsent⟩
    | false => exact ⟨rfl, rfl⟩
  cases hrcvd : l.closeRcvd with
  | false =>
    rw [collect_waits hdead hrcvd]
    exact hsays l.doClose hdo
  | true =>
    rw [collect_deletes hdead hrcvd]
    exact hsays true rfl

theorem confirm_answered (h : l.connecting = false) (p : Packet) : l.confirm p = l := by
  rw [confirm, h, if_neg Bool.false_ne_true]

end Life

/-! ## §2 The calls of a round -/

namespace ChannelObject

variable {o : ChannelObject} {msgs : List Bytes}

/-- The object is of the same class and sound, and `P` is true of its life and its stock. -/
structure Becomes (P : Life → Stock → Prop) (o o' : ChannelObject) : Prop where
  sound : o'.Sound
  cls : o'.cls = o.cls
  state : P o'.life o'.session.stock

theorem Becomes.imp {P P' : Life → Stock → Prop} {o' : ChannelObject} (h : o.Becomes P o')
    (himp : ∀ l x, P l x → P' l x) : o.Becomes P' o' :=
  ⟨h.sound, h.cls, himp _ _ h.state⟩

theorem onSession_becomes {α : Type} {m : SessionM α} {P : Life → Stock → Prop} (ho : o.Sound)
    (h : wp m (fun _ s' => ∃ l', P l' s'.stock ∧ At o.isConnecting l' s') never
      o.session) : wp (onSession m) (fun _ => o.Becomes P) never o := by
  rw [onSession, wp_zoom]
  refine wp_mono_total h fun _ s' hs' => ?_
  obtain ⟨l', hP, hcount, hlife⟩ := hs'
  refine ⟨⟨hcount, ho.delayed⟩, rfl, ?_⟩
  have hnext : ({ o with session := s' } : ChannelObject).life = l' := hlife
  rw [hnext]
  exact hP

theorem outputPoll_becomes (ho : o.Sound) (hlive : o.session.deleted = false)
    (hopened : o.life.isOpened = true)
    (hfits : min o.session.base.remoteMaxpacket.toNat o.session.base.ascending.len + 14 ≤
      bufferMaxChunk) :
    wp (step (.session .outputPoll))
      (fun _ => o.Becomes fun l' x' =>
        x' = o.session.stock.send o.session.sendableData ∧
          l' = o.life.polled o.session.sendableData x'.held)
      never o := by
  rw [step_live hlive]
  refine onSession_becomes ho ?_
  refine wp_mono_total (channelOutputPoll_polls ho.at hopened hfits) fun _ s' hs' => ?_
  refine ⟨_, ⟨hs'.2, ?_⟩, hs'.1⟩
  rw [hs'.2]

theorem fillEventArray_becomes (ho : o.Sound) (hlive : o.session.deleted = false)
    (hclosed : o.life.output = .closed) (hroom : o.life.IsDead → o.session.stock.TakesEof) :
    wp (step (.session .fillEventArray))
      (fun _ => o.Becomes fun l' x' =>
        (l'.deleted = true ∨ x' = o.session.stock) ∧ l' = o.life.collect)
      never o := by
  rw [step_live hlive]
  refine onSession_becomes ho ?_
  rw [SessionChannel.stepEvent]
  refine wp_seq_total (fillEventArray_collects ho.at hclosed hroom) fun _ s' hs' => ?_
  rw [wp_pure]
  exact ⟨_, ⟨hs'.2, rfl⟩, hs'.1⟩

theorem exitMsg_becomes (ho : o.Sound) (hlive : o.session.deleted = false)
    (hended : o.life.thread = .terminated) :
    wp (step (.session .exitMsg))
      (fun _ => o.Becomes fun l' x' => x' = o.session.stock ∧ l' = o.life.notify)
      never o := by
  rw [step_live hlive]
  refine onSession_becomes ho ?_
  refine wp_and_mono (exitMsg_at (E := fun _ _ => False) ho.at)
    (still_frame.exitMsg o.session rfl) fun _ s' hs' => ?_
  obtain ⟨⟨l', hl', hs'⟩, hstill⟩ := hs'
  rw [if_pos hended] at hl'
  exact ⟨l', ⟨hstill, hl'⟩, hs'⟩

open BusyThreadReadBuffer (Queues Takes)

/-- What `channel_post` of the base class comes to -/
abbrev PostsTo (o : ChannelObject) (clean : Prop) (msgs : List Bytes) : Life → Stock → Prop :=
  o.session.stock.PostsTo o.sftp clean msgs o.life

variable {clean : Prop} {x : Stock}

theorem postAs_becomes {sftp : Bool} (ho : o.Sound) (hsftp : sftp = o.sftp)
    (hopened : o.life.isOpened = true) (hq : Queues clean o.session.toChannel msgs)
    (htakes : ∀ m ∈ msgs.take 1, Takes m o.session.base.ascending)
    (hforwards : o.session.stock.Forwards o.sftp) :
    wp (onSession (postAs sftp)) (fun _ => o.Becomes (o.PostsTo clean msgs)) never o := by
  subst hsftp
  refine onSession_becomes ho ?_
  refine wp_mono_total (post_moves ho.at hopened hq htakes hforwards) fun _ s' hs' => ?_
  obtain ⟨l', hs', hposts⟩ := hs'
  exact ⟨l', hposts, hs'⟩

theorem openConfirmation_still :
    Keeps (fun o : ChannelObject => Still x o.session) openConfirmation := by
  intro o ho
  rw [openConfirmation, wp_read, onSession, wp_zoom]
  exact message_still _ _ o.session ho

/-- With the delayed reply of a `TCPClientChannel` behind it -/
theorem post_becomes (ho : o.Sound) (hlive : o.session.deleted = false)
    (hopened : o.life.isOpened = true) (hq : Queues clean o.session.toChannel msgs)
    (htakes : ∀ m ∈ msgs.take 1, Takes m o.session.base.ascending)
    (hforwards : o.session.stock.Forwards o.sftp) :
    wp (step (.session .post))
      (fun _ => o.Becomes fun l' x' => ∃ l₁ p, o.PostsTo clean msgs l₁ x' ∧
        p.type = channelOpenConfirmation ∧ l' = l₁.confirm p)
      never o := by
  -- where nothing is to be confirmed
  have hanswered : ∀ o', o.Becomes (o.PostsTo clean msgs) o' → o'.isConnecting = false →
      o.Becomes (fun l' x' => ∃ l₁ p, o.PostsTo clean msgs l₁ x' ∧
        p.type = channelOpenConfirmation ∧ l' = l₁.confirm p) o' := by
    intro o' ho' hno
    refine ⟨ho'.sound, ho'.cls, o'.life, ⟨channelOpenConfirmation, []⟩, ho'.state, rfl, ?_⟩
    exact (Life.confirm_answered hno _).symm
  rw [step_live hlive]
  apply wp_channelPost
  · intro hcls
    refine wp_mono_total (postAs_becomes ho rfl hopened hq htakes hforwards)
      fun _ o' ho' => hanswered o' ho' (ho'.sound.delayed ?_)
    rw [ho'.cls]
    exact hcls
  · intro hcls
    have hno : false = o.sftp := (decide_eq_false (by rw [hcls]; decide)).symm
    refine wp_mono_total (postAs_becomes ho hno hopened hq htakes hforwards)
      fun _ o1 ho1 => ⟨fun hwaits => ?_, hanswered o1 ho1⟩
    have hsays := openConfirmation_lives (E := never)
      (Q := fun _ o2 => ∃ p, p.type = channelOpenConfirmation ∧ o2.cls = o1.cls ∧
        o2.Sound ∧ o2.life = o1.life.say [p]) ho1.sound
      fun p o2 hp hsame hsound hlife => ⟨p, hp, hsame, hsound, hlife⟩
    refine wp_and_mono hsays (openConfirmation_still o1 rfl) fun _ o2 ho2 => ?_
    obtain ⟨⟨p, hp, hsame, hsound, hlife⟩, hstill⟩ := ho2
    refine ⟨⟨hsound.counted, fun _ => rfl⟩, hsame.trans ho1.cls, o1.life, p, ?_, hp, ?_⟩
    · show o.PostsTo clean msgs o1.life o2.session.stock
      rw [hstill]
      exact ho1.state
    · have hwaits' : o1.life.connecting = true := hwaits
      rw [Life.confirm, if_pos hwaits', ← hlife]
      rfl

/-! ## §3 Messages from the peer -/

/-- As before, but for more credit from the peer -/
structure Granted (x x' : Stock) : Prop where
  same : x' = { x with remoteWindow := x'.remoteWindow }
  more : x.remoteWindow.toNat ≤ x'.remoteWindow.toNat

theorem granted_refl (x : Stock) : Granted x x := ⟨rfl, le_rfl⟩

/-- The messages that a channel may get while it is ended: all but CLOSE, well-formed, with no
grant beyond the greatest window, and no request on a channel that takes none -/
def Patient (event : Event) (o : ChannelObject) : Prop :=
  match event with
  | .session (.data body) => ∃ d rest, d.length ≤ 256 * 1024 ∧ body = putString d ++ rest
  | .session (.eof body) => body = []
  | .session (.windowAdjust body) => ∃ adjust, body = putU32 adjust ∧
      o.session.base.remoteWindow.toNat + adjust.toNat < UInt32.size
  | .session (.close _) => False
  | .startSubsystem .. | .otherRequest _ _ => o.cls ≠ .tcpClient
  | _ => True

section Messages

variable {k : Bool} {l : Life} {s : SessionChannel}

theorem data_becomes (hs : At k l s) (hopened : l.isOpened = true) (hclosed : l.output = .closed)
    {d rest : Bytes} (hd : d.length ≤ 256 * 1024) :
    wp (SessionChannel.stepEvent (.data (putString d ++ rest)))
      (fun _ s' => At k l s' ∧ Granted s.stock s'.stock) never s := by
  have hopened' : s.base.isOpened = true := (congrArg Life.isOpened hs.life).trans hopened
  have hclosed' : s.base.currentOutputState = .closed :=
    (congrArg Life.output hs.life).trans hclosed
  obtain ⟨hcount, rfl⟩ := hs
  rw [SessionChannel.stepEvent, wp_bind, wp_received, Channel.channelInputData, wp_onBase_read,
    wp_onBase_ite]
  refine ⟨fun hnot => ?_, fun _ => ?_⟩
  · have hnew : (!s.base.isOpened) = true := hnot
    rw [hopened'] at hnew
    cases hnew
  rw [wp_onBase_bind, wp_onBase_reading, wp_packetGetStringPtr hd]
  -- the data is dropped
  rw [wp_onBase_ite, wp_onBase_modify]
  refine ⟨fun _ => ⟨⟨hcount, rfl⟩, granted_refl _⟩, fun hopen => ?_⟩
  exact absurd (by rw [hclosed']; decide) hopen

theorem eof_becomes (hs : At k l s) (hclosed : l.output = .closed) :
    wp (SessionChannel.stepEvent (.eof []))
      (fun _ s' => At k l s' ∧ Granted s.stock s'.stock) never s := by
  have hclosed' : s.base.currentOutputState = .closed :=
    (congrArg Life.output hs.life).trans hclosed
  obtain ⟨hcount, rfl⟩ := hs
  rw [SessionChannel.stepEvent, wp_bind, wp_received, SessionChannel.channelInputEof, wp_bind,
    wp_onBase_reading, wp_packetCheckEom, SessionChannel.rcvdIeof, wp_bind, wp_onBase_modify,
    wp_read, wp_ite, wp_pure]
  refine ⟨fun hopen => ?_, fun _ => ⟨⟨hcount, rfl⟩, granted_refl _⟩⟩
  cases hclosed'.symm.trans hopen

theorem windowAdjust_becomes (hs : At k l s) {adjust : UInt32}
    (hfits : s.base.remoteWindow.toNat + adjust.toNat < UInt32.size) :
    wp (SessionChannel.stepEvent (.windowAdjust (putU32 adjust)))
      (fun _ s' => At k l s' ∧ Granted s.stock s'.stock) never s := by
  obtain ⟨hcount, rfl⟩ := hs
  rw [wp_windowAdjust]
  refine ⟨⟨hcount, rfl⟩, rfl, ?_⟩
  show s.base.remoteWindow.toNat ≤ (s.base.remoteWindow + adjust).toNat
  rw [UInt32.toNat_add, Nat.mod_eq_of_lt hfits]
  exact Nat.le_add_right _ _

end Messages

theorem inputChannelReq_still (reply : Bool) (start : Start) :
    Keeps (Still x) (SessionChannel.inputChannelReq reply start) :=
  inputChannelReq_keeps reply start (fun _ => still_frame.setWorker _) (fun _ hs _ => hs)
    message_still

theorem message_becomes (ho : o.Sound) (hlive : o.session.deleted = false)
    (hopened : o.life.isOpened = true) (hclosed : o.life.output = .closed) (m : Server.Message)
    (hpatient : Patient m.event o) :
    wp (step m.event)
      (fun _ => o.Becomes fun l' x' => Granted o.session.stock x' ∧
        ∃ ps, Life.Plain ps ∧ l' = o.life.say ps)
      never o := by
  have hnothing : ∃ ps, Life.Plain ps ∧ o.life = o.life.say ps :=
    ⟨[], fun _ hp => absurd hp not_mem_nil, o.life.say_nil.symm⟩
  -- a message that says nothing, and at most grants something
  have hquiet : ∀ event : SessionChannel.Event,
      wp (SessionChannel.stepEvent event)
        (fun _ s' => At o.isConnecting o.life s' ∧ Granted o.session.stock s'.stock)
        never o.session →
      wp (onSession (SessionChannel.stepEvent event))
        (fun _ => o.Becomes fun l' x' => Granted o.session.stock x' ∧
          ∃ ps, Life.Plain ps ∧ l' = o.life.say ps) never o := by
    intro event h
    refine onSession_becomes ho (wp_mono_total h fun _ s' hs' => ?_)
    exact ⟨_, ⟨hs'.2, hnothing⟩, hs'.1⟩
  -- a request that only gets a reply
  have hreply : ∀ {m : SessionM Unit},
      wp m (fun _ s' => ∃ ps, Life.Plain ps ∧ At o.isConnecting (o.life.say ps) s')
        never o.session → Keeps (Still o.session.stock) m →
      wp (onSession m) (fun _ => o.Becomes fun l' x' => Granted o.session.stock x' ∧
        ∃ ps, Life.Plain ps ∧ l' = o.life.say ps) never o := by
    intro m hm hstill
    refine onSession_becomes ho (wp_and_mono hm (hstill _ rfl) fun _ s' hs' => ?_)
    obtain ⟨⟨ps, hps, hs'⟩, hsame⟩ := hs'
    refine ⟨_, ⟨?_, ps, hps, rfl⟩, hs'⟩
    rw [hsame]
    exact granted_refl _
  rw [step_live hlive]
  cases m with
  | startSubsystem sftp reply start =>
    have hrequest := hreply (inputChannelReq_at reply start ho.at fun l' s' hl' hs' => by
      obtain ⟨ps, hps, rfl | ⟨hnot, _⟩⟩ := hl'
      · exact ⟨ps, hps, hs'⟩
      · cases hopened.symm.trans hnot) (inputChannelReq_still reply start)
    refine wp_inputChannelReq (fun hcls => absurd hcls hpatient)
      (fun hcrash => by cases hopened.symm.trans hcrash.unopened) fun _ cls hupgrade => ?_
    -- an opened channel stays with its class
    rcases hupgrade.2 with rfl | hnew
    · exact hrequest
    · cases hopened.symm.trans hnew.1
  | otherRequest created reply =>
    refine wp_otherChannelReq (fun hcls => absurd hcls hpatient)
      (fun _ => ⟨ho, rfl, granted_refl _, hnothing⟩) fun _ _ => ?_
    exact hreply (reply_at _ ho.at fun ps s' hps hs' => ⟨ps, hps, hs'⟩) (message_still _ _)
  | data body =>
    obtain ⟨d, rest, hd, rfl⟩ := hpatient
    exact hquiet _ (data_becomes ho.at hopened hclosed hd)
  | eof body =>
    cases hpatient
    exact hquiet _ (eof_becomes ho.at hclosed)
  | close body => exact hpatient.elim
  | windowAdjust body =>
    obtain ⟨adjust, rfl, hfits⟩ := hpatient
    exact hquiet _ (windowAdjust_becomes ho.at hfits)

end ChannelObject

end Shiesh.Channels
