import Shiesh.Channels.Drain

/-!
# After the Subsystem Has Ended

When the end of its subsystem has been reported, a channel has to send what is left in `toChannel`
and in `ascending`, then EOF, then CLOSE. Each round of `server_loop` moves one message from
`toChannel` to `ascending` and sends one packet from there, so the number of messages and bytes that
are left goes down in every round.

`channel_output_poll` does nothing for a channel that has not been opened. A "direct-tcpip" channel
whose connection could not be made is such a channel: its thread ends, and EOF and CLOSE never come.
-/

namespace Shiesh.Channels

open Shiesh.Lib List SessionChannel ChannelObject Life Stock

/-! ## §1 What is left to send -/

namespace Stock

open BusyThreadReadBuffer (Queues)

/-- What the peer still has to get -/
def pending (sftp : Bool) (x : Stock) : Bytes :=
  x.ascending ++ x.toChannel.messages.flatMap (ReadRun.format sftp)

/-- The messages and bytes that are left -/
def left (sftp : Bool) (x : Stock) : Nat := x.toChannel.messages.length + (x.pending sftp).length

/-- All that is left can be sent: the peer has granted enough, no packet is longer than a buffer
takes, no message longer than a string may be. -/
structure Sends (sftp : Bool) (x : Stock) : Prop where
  queue : Queues False x.toChannel x.toChannel.messages
  short : ∀ m ∈ x.toChannel.messages, m.length ≤ 256 * 1024
  forwards : x.Forwards sftp
  window : (x.pending sftp).length ≤ x.remoteWindow.toNat
  packet : x.pending sftp ≠ [] → 0 < x.remoteMaxpacket.toNat
  room : (x.pending sftp).length + 4 ≤ 6 * bufferMaxChunk
  fits : min x.remoteMaxpacket.toNat (x.pending sftp).length + 14 ≤ bufferMaxChunk

variable {sftp : Bool} {x x' : Stock}

/-- The way to the peer has nothing to do with it. -/
theorem Forwards.of_same {ascending : Bytes} {toChannel : BusyThreadReadBuffer}
    {remoteWindow remoteMaxpacket : UInt32} (h : x.Forwards sftp) :
    Forwards sftp ⟨ascending, toChannel, remoteWindow, remoteMaxpacket, x.descending,
      x.fromChannel⟩ :=
  { h with }

variable (h : x.Sends sftp)
include h

/-- As much as is left: no more messages, no more bytes, no less credit -/
theorem Sends.next (hqueue : Queues False x'.toChannel x'.toChannel.messages)
    (hshort : ∀ m ∈ x'.toChannel.messages, m ∈ x.toChannel.messages)
    (hforwards : x'.Forwards sftp) (hmax : x'.remoteMaxpacket = x.remoteMaxpacket)
    (hwindow : (x'.pending sftp).length + x.remoteWindow.toNat ≤
      (x.pending sftp).length + x'.remoteWindow.toNat)
    (hlength : (x'.pending sftp).length ≤ (x.pending sftp).length) : x'.Sends sftp := by
  have hcredit := h.window
  have hroom := h.room
  have hfits := h.fits
  refine ⟨hqueue, fun m hm => h.short m (hshort m hm), hforwards, by omega, fun hne => ?_, by omega,
    ?_⟩
  · rw [hmax]
    apply h.packet
    intro hnil
    rw [hnil, length_nil, Nat.le_zero, length_eq_zero_iff] at hlength
    exact hne hlength
  · rw [hmax]
    omega

theorem Sends.posts (hposts : x.Posts sftp False x.toChannel.messages x') :
    x'.Sends sftp ∧ x'.pending sftp = x.pending sftp ∧
      x'.toChannel.messages = x.toChannel.messages.drop 1 := by
  have hmessages := hposts.queue.messages_eq
  have hpending : x'.pending sftp = x.pending sftp := by
    rw [pending, pending, hposts.ascending, hmessages, append_assoc, ← flatMap_append,
      take_append_drop]
  refine ⟨h.next ?_ ?_ hposts.forwards hposts.remoteMaxpacket ?_ ?_, hpending, hmessages⟩
  · rw [hmessages]
    exact hposts.queue
  · rw [hmessages]
    exact fun m hm => mem_of_mem_drop hm
  · rw [hpending, hposts.remoteWindow]
  · rw [hpending]

/-- Sending `d` takes it away from the beginning. -/
theorem Sends.send {d : Bytes} (hd : d <+: x.ascending) :
    (x.send d).Sends sftp ∧ d ++ (x.send d).pending sftp = x.pending sftp := by
  obtain ⟨rest, hrest⟩ := hd
  have hpending : d ++ (x.send d).pending sftp = x.pending sftp := by
    rw [pending, pending, Stock.send, ← hrest, drop_left, append_assoc]
  have hlength : d.length + ((x.send d).pending sftp).length = (x.pending sftp).length := by
    rw [← hpending, length_append]
  have hwindow := h.window
  have hsent : (UInt32.ofNat d.length).toNat = d.length :=
    UInt32.toNat_ofNat_of_lt (by have := x.remoteWindow.toNat_lt_size; omega)
  have hcredit : (x.send d).remoteWindow.toNat = x.remoteWindow.toNat - d.length := by
    rw [Stock.send, UInt32.toNat_sub_of_le, hsent]
    rw [UInt32.le_iff_toNat_le, hsent]
    omega
  refine ⟨h.next h.queue (fun _ hm => hm) h.forwards.of_same rfl ?_ ?_, hpending⟩
  · omega
  · omega

theorem Sends.granted (hx : ChannelObject.Granted x x') :
    x'.Sends sftp ∧ x'.pending sftp = x.pending sftp ∧
      x'.toChannel.messages = x.toChannel.messages := by
  have hmore := hx.more
  rw [hx.same]
  refine ⟨h.next h.queue (fun _ hm => hm) h.forwards.of_same rfl ?_ (le_rfl), rfl, rfl⟩
  exact Nat.add_le_add_left hmore _

theorem Sends.held_eq_false (hheld : x.held = false) :
    x.ascending = [] ∧ x.toChannel.messages = [] := by
  simp only [held, Bool.or_eq_false_iff, decide_eq_false_iff_not, not_not] at hheld
  exact ⟨hheld.1.1, h.queue.counters.2.mpr ⟨hheld.1.2, hheld.2⟩⟩

theorem Sends.held_eq_true (hheld : x.held = true) :
    x.ascending ≠ [] ∨ x.toChannel.messages ≠ [] := by
  by_contra hnone
  simp only [not_or, not_not] at hnone
  obtain ⟨hread, hwrite⟩ := h.queue.counters.2.mp hnone.2
  simp [held, hnone.1, hread, hwrite] at hheld

end Stock

/-! ## §2 The stages of the end -/

namespace Life

variable {l : Life}

/-- The end of the thread has been told. -/
structure Ended (l : Life) : Prop where
  live : l.deleted = false
  opened : l.isOpened = true
  doClose : l.doClose = true
  output : l.output = .closed
  thread : l.thread = .terminated

variable (h : l.Ended)
include h

theorem Ended.say (ps : List Packet) : (l.say ps).Ended :=
  { h with }

theorem Ended.sends (d : Bytes) (held : Bool) : (l.sends d held).Ended :=
  { h with }

theorem Ended.finish : l.finish.Ended := by
  rw [Life.finish]
  split <;> exact { h with }

theorem Ended.notify : l.notify.Ended := ⟨h.live, h.opened, rfl, rfl, h.thread⟩

theorem Ended.confirm (p : Packet) : (l.confirm p).Ended := by
  rw [Life.confirm]
  split <;> exact { h with }

/-- A channel that is not waiting for the peer's CLOSE any more is deleted. -/
theorem Ended.collect : l.collect.deleted = true ∨ l.collect.Ended := by
  rw [Life.collect]
  split
  case isFalse => exact .inr h
  case isTrue =>
    split <;> split
    · exact .inl rfl
    · exact .inr { h with }
    · exact .inl rfl
    · exact .inr h

/-- While the input half drains, a call that leaves nothing behind ends it. -/
theorem Ended.polled (hinput : l.input = .waitDrain) (d : Bytes) (held : Bool) :
    l.polled d held = if held then l.sends d held else (l.sends d held).finish := by
  have hthread : l.thread ≠ .running := by
    rw [h.thread]
    decide
  cases held with
  | true => exact if_neg fun hdone => by cases hdone.2.1
  | false => exact if_pos ⟨hinput, rfl, hthread⟩

/-- A step of a channel that is still draining, in which nothing is sent -/
structure Drains (l l' : Life) : Prop where
  ended : l'.Ended
  input : l'.input = .waitDrain
  eofSent : l'.eofSent = l.eofSent
  closeSent : l'.closeSent = l.closeSent
  outs : outs l'.sent = outs l.sent

/-- A step after which CLOSE has been sent -/
structure Closes (l l' : Life) : Prop where
  outs : outs l'.sent = outs l.sent ++ if l.closeSent then [] else [.close]
  rest : l'.deleted = true ∨ l'.Ended ∧ l'.closeSent = true

theorem Ended.collect_closes (hdone : l.IsDead ∨ l.closeSent = true) :
    l.Closes l.collect := by
  by_cases hdead : l.IsDead
  · obtain ⟨houts, hsent⟩ := collect_outs hdead h.doClose
    exact ⟨houts, h.collect.imp_right fun hended => ⟨hended, hsent⟩⟩
  · have hsent := hdone.resolve_left hdead
    rw [collect_alive hdead]
    refine ⟨?_, .inr ⟨h, hsent⟩⟩
    rw [if_pos hsent, append_nil]

omit h

theorem confirm_flags (l : Life) (p : Packet) : (l.confirm p).input = l.input ∧
    (l.confirm p).eofSent = l.eofSent ∧ (l.confirm p).closeSent = l.closeSent := by
  rw [confirm]
  split <;> exact ⟨rfl, rfl, rfl⟩

variable {l' : Life} {p : Packet}

theorem Drains.confirm (h : l.Drains l')
    (hp : p.type = Ssh2Msg.channelOpenConfirmation) : l.Drains (l'.confirm p) := by
  obtain ⟨hinput, heof, hclose⟩ := l'.confirm_flags p
  exact ⟨h.ended.confirm p, hinput.trans h.input, heof.trans h.eofSent, hclose.trans h.closeSent,
    (l'.confirm_outs hp).trans h.outs⟩

theorem Closes.confirm (h : l.Closes l')
    (hp : p.type = Ssh2Msg.channelOpenConfirmation) : l.Closes (l'.confirm p) := by
  obtain ⟨-, hdeleted, -⟩ := l'.confirm_thread p
  obtain ⟨-, -, hclose⟩ := l'.confirm_flags p
  refine ⟨(l'.confirm_outs hp).trans h.outs, ?_⟩
  rcases h.rest with hgone | ⟨hended, hsent⟩
  · exact .inl (hdeleted.trans hgone)
  · exact .inr ⟨hended.confirm p, hclose.trans hsent⟩

/-- The packets that `d` is sent in: none, or one -/
def chunks (d : Bytes) : List Bytes := if d = [] then [] else [d]

theorem chunks_flatten (d : Bytes) : (chunks d).flatten = d := by
  rw [chunks]
  split
  case isTrue hnil => exact hnil.symm
  case isFalse => simp

theorem sends_outs (l : Life) (d : Bytes) (held : Bool) :
    outs (l.sends d held).sent = outs l.sent ++ (chunks d).map .data := by
  have hsaid := l.say_outs (dataPackets l.remoteId d)
  rw [outs_data] at hsaid
  rw [chunks]
  split
  case isTrue hnil =>
    rw [if_pos hnil] at hsaid
    exact hsaid
  case isFalse hsome =>
    rw [if_neg hsome] at hsaid
    exact hsaid

end Life

namespace ChannelObject

variable {o₀ o o' : ChannelObject} {n : Nat}

/-- What the peer still has to get -/
def pendingOutput (o : ChannelObject) : Bytes := o.session.stock.pending o.sftp

/-- What is left to say when all data has been sent -/
def closing (o : ChannelObject) : List Out :=
  (if o.life.eofSent || o.life.closeSent then [] else [.eof]) ++
    if o.life.closeSent then [] else [.close]

/-- Since `o₀` the peer has got all that was pending, and after it the `outs`. -/
def GotAll (o₀ : ChannelObject) (last : List Out) (o : ChannelObject) : Prop :=
  ∃ ds : List Bytes, ds.flatten = o₀.pendingOutput ∧
    outs o.life.sent = outs o₀.life.sent ++ (ds.map .data ++ last)

structure Ending (o₀ o : ChannelObject) : Prop where
  sound : o.Sound
  cls : o.cls = o₀.cls
  ended : o.life.Ended
  stock : o.session.stock.Sends o₀.sftp

/-- Data is still being sent. -/
structure Draining (o₀ o : ChannelObject) : Prop extends Ending o₀ o where
  input : o.life.input = .waitDrain
  eofSent : o.life.eofSent = o₀.life.eofSent
  closeSent : o.life.closeSent = o₀.life.closeSent
  got : ∃ ds : List Bytes, ds.flatten ++ o.session.stock.pending o₀.sftp = o₀.pendingOutput ∧
    outs o.life.sent = outs o₀.life.sent ++ ds.map .data

/-- EOF has been sent. -/
structure Finished (o₀ o : ChannelObject) : Prop extends Ending o₀ o where
  nothing : o.session.stock.held = false
  input : o.life.input = .closed
  closeSent : o.life.closeSent = o₀.life.closeSent
  got : o₀.GotAll (if o₀.life.eofSent || o₀.life.closeSent then [] else [.eof]) o

/-- CLOSE has been sent, and the channel is deleted or waits for the peer's. -/
structure Shut (o₀ o : ChannelObject) : Prop where
  got : o₀.GotAll o₀.closing o
  rest : o.session.deleted = true ∨
    Ending o₀ o ∧ o.session.stock.held = false ∧ o.life.closeSent = true

theorem Ending.sftp_eq (h : Ending o₀ o) : o.sftp = o₀.sftp := by
  rw [sftp, sftp, h.cls]

theorem Ending.next {P : Life → Stock → Prop} (h : Ending o₀ o) (hb : o.Becomes P o')
    (hlife : o'.life.Ended) (hstock : o'.session.stock.Sends o₀.sftp) : Ending o₀ o' :=
  ⟨hb.sound, hb.cls.trans h.cls, hlife, hstock⟩

theorem Ending.live (h : Ending o₀ o) : o.session.deleted = false := h.ended.live

variable {event : Event} {m : Server.Message} {r : Round}

theorem GotAll.more {last more : List Out} (h : o₀.GotAll last o)
    (houts : outs o'.life.sent = outs o.life.sent ++ more) : o₀.GotAll (last ++ more) o' := by
  obtain ⟨ds, hds, hgot⟩ := h
  refine ⟨ds, hds, ?_⟩
  rw [houts, hgot]
  simp only [append_assoc]

/-- The channel goes on draining, with as much pending as in `o`, and the messages `ms` left. -/
structure DrainsOn (o₀ o : ChannelObject) (ms : List Bytes) (o' : ChannelObject) : Prop where
  draining : Draining o₀ o'
  pending : o'.session.stock.pending o₀.sftp = o.session.stock.pending o₀.sftp
  messages : o'.session.stock.toChannel.messages = ms

theorem DrainsOn.left_eq (h : DrainsOn o₀ o o.session.stock.toChannel.messages o') :
    o'.session.stock.left o₀.sftp = o.session.stock.left o₀.sftp := by
  rw [left, left, h.pending, h.messages]

theorem Draining.step {ms : List Bytes} (h : Draining o₀ o)
    (hstep : wp (step event)
      (fun _ => o.Becomes fun l' x' => o.life.Drains l' ∧ x'.Sends o₀.sftp ∧
        x'.pending o₀.sftp = o.session.stock.pending o₀.sftp ∧ x'.toChannel.messages = ms)
      never o) : wp (step event) (fun _ => DrainsOn o₀ o ms) never o := by
  refine wp_mono_total hstep fun _ o' ho' => ?_
  obtain ⟨hlife, hstock, hpending, hmessages⟩ := ho'.state
  refine ⟨⟨h.next ho' hlife.ended hstock, hlife.input, hlife.eofSent.trans h.eofSent,
    hlife.closeSent.trans h.closeSent, ?_⟩, hpending, hmessages⟩
  rw [hpending, hlife.outs]
  exact h.got

/-- The channel has nothing left to send, and is collected at the next occasion or has been. -/
structure Done (o₀ o : ChannelObject) : Prop extends Ending o₀ o where
  nothing : o.session.stock.held = false
  said : o.life.IsDead ∨ o.life.closeSent = true

/-- A step after which CLOSE has been sent -/
def Closing (o₀ : ChannelObject) (event : Event) (o : ChannelObject) : Prop :=
  wp (step event)
    (fun _ => o.Becomes fun l' x' => o.life.Closes l' ∧
      (l'.deleted = true ∨ x'.Sends o₀.sftp ∧ x'.held = false)) never o

theorem Finished.done (h : Finished o₀ o) : Done o₀ o :=
  { h with said := .inl ⟨h.input, h.ended.output⟩ }

theorem shut_of_becomes {last : List Out} (h : Ending o₀ o) (hgot : o₀.GotAll last o)
    (hlast : last ++ (if o.life.closeSent then [] else [.close]) = o₀.closing)
    (hb : o.Becomes (fun l' x' => o.life.Closes l' ∧
      (l'.deleted = true ∨ x'.Sends o₀.sftp ∧ x'.held = false)) o') : Shut o₀ o' := by
  obtain ⟨hlife, hrest⟩ := hb.state
  refine ⟨?_, ?_⟩
  · rw [← hlast]
    exact hgot.more hlife.outs
  · rcases hlife.rest with hdeleted | ⟨hended, hsent⟩
    · exact .inl hdeleted
    · obtain ⟨hstock, hnothing⟩ := hrest.resolve_left (by rw [hended.live]; decide)
      exact .inr ⟨h.next hb hended hstock, hnothing, hsent⟩

theorem Finished.step (h : Finished o₀ o) (hstep : o₀.Closing event o) :
    wp (step event) (fun _ => Shut o₀) never o := by
  refine wp_mono_total hstep fun _ o' ho' => shut_of_becomes h.toEnding h.got ?_ ho'
  rw [h.closeSent]
  rfl

theorem Shut.step (h : Shut o₀ o)
    (hstep : Done o₀ o → o.life.closeSent = true → o₀.Closing event o) :
    wp (step event) (fun _ => Shut o₀) never o := by
  rcases h.rest with hdeleted | ⟨hending, hnothing, hsent⟩
  · rw [step_deleted hdeleted]
    exact h
  · refine wp_mono_total (hstep ⟨hending, hnothing, .inr hsent⟩ hsent) fun _ o' ho' =>
      shut_of_becomes hending h.got ?_ ho'
    rw [hsent, if_pos rfl, append_nil]

/-! ### `fill_event_array` -/

theorem fillEventArray_closing (h : Done o₀ o) : o₀.Closing (.session .fillEventArray) o := by
  refine wp_mono_total (fillEventArray_becomes h.sound h.live h.ended.output
    fun _ => h.stock.forwards.marker) fun _ o' ho' => ho'.imp ?_
  rintro _ _ ⟨hstock, rfl⟩
  refine ⟨h.ended.collect_closes h.said, hstock.imp_right fun hsame => ?_⟩
  rw [hsame]
  exact ⟨h.stock, h.nothing⟩

theorem fillEventArray_draining (h : Draining o₀ o) :
    wp (step (.session .fillEventArray))
      (fun _ => DrainsOn o₀ o o.session.stock.toChannel.messages) never o := by
  apply h.step
  have halive : ¬o.life.IsDead := fun hdead => by cases h.input.symm.trans hdead.1
  refine wp_mono_total (fillEventArray_becomes h.sound h.live h.ended.output
    fun hdead => absurd hdead halive) fun _ o' ho' => ho'.imp ?_
  rintro _ _ ⟨hstock, rfl⟩
  rw [collect_alive halive] at hstock ⊢
  obtain rfl := hstock.resolve_left (by rw [h.ended.live]; decide)
  exact ⟨⟨h.ended, h.input, rfl, rfl, rfl⟩, h.stock, rfl, rfl⟩

/-! ### The end of a thread is told -/

theorem exitMsg_closing (h : Done o₀ o) (hsent : o.life.closeSent = true) :
    o₀.Closing (.session .exitMsg) o := by
  refine wp_mono_total (exitMsg_becomes h.sound h.live h.ended.thread) fun _ o' ho' => ho'.imp ?_
  rintro _ _ ⟨rfl, rfl⟩
  refine ⟨⟨?_, .inr ⟨h.ended.notify, hsent⟩⟩, .inr ⟨h.stock, h.nothing⟩⟩
  rw [hsent, if_pos rfl, append_nil, notify_outs]

theorem exitMsg_draining (h : Draining o₀ o) :
    wp (step (.session .exitMsg))
      (fun _ => DrainsOn o₀ o o.session.stock.toChannel.messages) never o := by
  apply h.step
  refine wp_mono_total (exitMsg_becomes h.sound h.live h.ended.thread) fun _ o' ho' => ho'.imp ?_
  rintro _ _ ⟨rfl, rfl⟩
  exact ⟨⟨h.ended.notify, rfl, rfl, rfl, o.life.notify_outs⟩, h.stock, rfl, rfl⟩

/-! ### Messages -/

theorem message_closing (h : Done o₀ o) (hsent : o.life.closeSent = true)
    (hpatient : Patient m.event o) : o₀.Closing m.event o := by
  refine wp_mono_total (message_becomes h.sound h.live h.ended.opened h.ended.output m hpatient)
    fun _ o' ho' => ho'.imp ?_
  rintro _ x' ⟨hgranted, ps, hps, rfl⟩
  obtain ⟨hstock, -, -⟩ := h.stock.granted hgranted
  have hheld : x'.held = o.session.stock.held := by
    rw [hgranted.same]
    rfl
  refine ⟨⟨?_, .inr ⟨h.ended.say ps, hsent⟩⟩, .inr ⟨hstock, hheld.trans h.nothing⟩⟩
  rw [hsent, if_pos rfl, append_nil, say_outs, outs_plain hps, append_nil]

theorem message_draining (h : Draining o₀ o) (hpatient : Patient m.event o) :
    wp (step m.event)
      (fun _ => DrainsOn o₀ o o.session.stock.toChannel.messages) never o := by
  apply h.step
  refine wp_mono_total (message_becomes h.sound h.live h.ended.opened h.ended.output m hpatient)
    fun _ o' ho' => ho'.imp ?_
  rintro _ _ ⟨hgranted, ps, hps, rfl⟩
  refine ⟨⟨h.ended.say ps, h.input, rfl, rfl, ?_⟩, h.stock.granted hgranted⟩
  rw [say_outs, outs_plain hps, append_nil]

/-! ### `channel_post` -/

theorem ascending_le (o : ChannelObject) (sftp : Bool) :
    o.session.base.ascending.len ≤ (o.session.stock.pending sftp).length := by
  rw [pending, length_append, ← Buffer.contents_length]
  exact Nat.le_add_right _ _

theorem Ending.post (h : Ending o₀ o) :
    wp (step (.session .post))
      (fun _ => o.Becomes fun l' x' =>
        (l'.deleted = true ∨ x'.Sends o₀.sftp ∧
          x'.pending o₀.sftp = o.session.stock.pending o₀.sftp ∧
          x'.toChannel.messages = o.session.stock.toChannel.messages.drop 1) ∧
        ∃ held ps p, Life.Plain ps ∧ p.type = Ssh2Msg.channelOpenConfirmation ∧
          l' = ({ o.life.say ps with held := held } : Life).collect.confirm p)
      never o := by
  have hlength := o.ascending_le o₀.sftp
  have htakes : ∀ m ∈ o.session.stock.toChannel.messages.take 1,
      BusyThreadReadBuffer.Takes m o.session.base.ascending := by
    intro m hm
    have hroom := h.stock.room
    exact ⟨h.stock.short m (mem_of_mem_take hm), by omega⟩
  have hforwards := h.stock.forwards
  rw [← h.sftp_eq] at hforwards
  refine wp_mono_total (post_becomes h.sound h.live h.ended.opened h.stock.queue htakes hforwards)
    fun _ o' ho' => ?_
  obtain ⟨l₁, p, ⟨x₁, held, ps, hposts, hps, hl₁, hrest⟩, hp, hlife⟩ := ho'.state
  rw [h.sftp_eq] at hposts
  refine ⟨ho'.sound, ho'.cls, hrest.imp (fun hgone => ?_) fun hsame => ?_, held, ps, p, hps, hp, ?_⟩
  · rw [hlife]
    exact (l₁.confirm_thread p).2.1.trans hgone
  · rw [hsame]
    exact h.stock.posts hposts
  · rw [hlife, hl₁]

theorem post_closing (h : Done o₀ o) : o₀.Closing (.session .post) o := by
  refine wp_mono_total h.toEnding.post fun _ o' ho' => ?_
  obtain ⟨hrest, held, ps, p, hps, hp, hlife⟩ := ho'.state
  -- nothing has been there to be moved
  obtain ⟨hnone, hempty⟩ := h.stock.held_eq_false h.nothing
  refine ⟨ho'.sound, ho'.cls, ?_, hrest.imp_right fun hstays => ?_⟩
  case refine_2 =>
    obtain ⟨hstock, hpending, hmessages⟩ := hstays
    refine ⟨hstock, ?_⟩
    by_contra hheld
    rw [hempty, drop_nil] at hmessages
    rw [pending, pending, hmessages, hempty, hnone] at hpending
    rcases hstock.held_eq_true (Bool.not_eq_false _ ▸ hheld) with hsome | hsome
    · exact hsome (by simpa using hpending)
    · exact hsome hmessages
  rw [hlife]
  have hsaid : ({ o.life.say ps with held := held } : Life).Ended :=
    ⟨h.ended.live, h.ended.opened, h.ended.doClose, h.ended.output, h.ended.thread⟩
  have hcloses := (hsaid.collect_closes h.said).confirm hp
  refine ⟨?_, hcloses.rest⟩
  rw [hcloses.outs]
  rw [say_outs, outs_plain hps, append_nil]
  rfl

theorem post_draining (h : Draining o₀ o) :
    wp (step (.session .post))
      (fun _ => DrainsOn o₀ o (o.session.stock.toChannel.messages.drop 1)) never o := by
  apply h.step
  refine wp_mono_total h.toEnding.post fun _ o' ho' => ?_
  obtain ⟨hstock, held, ps, p, hps, hp, hlife⟩ := ho'.state
  have halive : ¬({ o.life.say ps with held := held } : Life).IsDead :=
    fun hdead => by cases h.input.symm.trans hdead.1
  have houts : outs (o.life.say ps).sent = outs o.life.sent := by
    rw [say_outs, outs_plain hps, append_nil]
  have hdrains : o.life.Drains { o.life.say ps with held := held } :=
    ⟨⟨h.ended.live, h.ended.opened, h.ended.doClose, h.ended.output, h.ended.thread⟩, h.input, rfl,
      rfl, houts⟩
  have hgoes := hdrains.confirm hp
  rw [collect_alive halive] at hlife
  rw [← hlife] at hgoes
  exact ⟨ho'.sound, ho'.cls, hgoes, hstock.resolve_left (by rw [hgoes.ended.live]; decide)⟩

/-! ### `channel_output_poll` -/

theorem sendable_pos {c : Channel} (hsome : 0 < c.ascending.len)
    (hwindow : 0 < c.remoteWindow.toNat)
    (hmax : 0 < c.remoteMaxpacket.toNat) : 0 < c.sendable.toNat := by
  have hlen : (UInt32.ofNat c.ascending.len).toNat = c.ascending.len :=
    UInt32.toNat_ofNat_of_lt c.ascending.len_lt_size
  simp only [Channel.sendable]
  split <;> split <;> omega

theorem sendableData_isPrefix (s : SessionChannel) : s.sendableData <+: s.stock.ascending := by
  rw [sendableData]
  split
  case isTrue => exact nil_prefix
  case isFalse => exact take_prefix _ _

theorem Ending.outputPoll (h : Ending o₀ o) :
    wp (step (.session .outputPoll))
      (fun _ => o.Becomes fun l' x' =>
        x' = o.session.stock.send o.session.sendableData ∧
          l' = o.life.polled o.session.sendableData x'.held)
      never o := by
  have hlength := o.ascending_le o₀.sftp
  have hfits : min o.session.base.remoteMaxpacket.toNat (o.session.stock.pending o₀.sftp).length +
      14 ≤ bufferMaxChunk := h.stock.fits
  exact outputPoll_becomes h.sound h.live h.ended.opened (by omega)

theorem outputPoll_closing (h : Done o₀ o) (hsent : o.life.closeSent = true) :
    o₀.Closing (.session .outputPoll) o := by
  refine wp_mono_total h.toEnding.outputPoll fun _ o' ho' => ?_
  obtain ⟨hstock, hlife⟩ := ho'.state
  have hnil : o.session.sendableData = [] := by
    have hbegins := sendableData_isPrefix o.session
    rw [(h.stock.held_eq_false h.nothing).1] at hbegins
    exact prefix_nil.mp hbegins
  rw [hnil, send_nil] at hstock
  rw [hstock, hnil, h.nothing] at hlife
  refine ⟨ho'.sound, ho'.cls, ?_⟩
  rw [hstock, hlife, polled]
  have hsends := o.life.sends_outs [] false
  refine ⟨?_, .inr ⟨h.stock, h.nothing⟩⟩
  split
  case isTrue =>
    refine ⟨?_, .inr ⟨(h.ended.sends [] false).finish, ?_⟩⟩
    · have hsent' : (o.life.sends [] false).closeSent = true := hsent
      rw [finish_outs, hsent', hsent, Bool.or_true, if_pos rfl, if_pos rfl, hsends]
      simp [chunks]
    · rw [finish]
      split <;> exact hsent
  case isFalse =>
    refine ⟨?_, .inr ⟨h.ended.sends [] false, hsent⟩⟩
    rw [hsent, if_pos rfl, hsends]
    rfl

/-- What is in `ascending` can be sent, at least in part. -/
theorem Draining.sendableData_ne_nil (h : Draining o₀ o) (hsome : o.session.stock.ascending ≠ []) :
    o.session.sendableData ≠ [] := by
  have hinput : o.session.base.currentInputState ≠ .closed := by
    intro hclosed
    cases h.input.symm.trans hclosed
  have hpending : o.session.stock.pending o₀.sftp ≠ [] := append_ne_nil_of_left_ne_nil hsome _
  have hlength := length_pos_iff.mpr hpending
  have hwindow := h.stock.window
  have hlen : 0 < o.session.base.ascending.len := by
    rw [← Buffer.contents_length]
    exact length_pos_iff.mpr hsome
  have hpos : 0 < o.session.base.sendable.toNat :=
    sendable_pos hlen (lt_of_lt_of_le hlength hwindow) (h.stock.packet hpending)
  rw [sendableData, if_neg hinput, ne_eq, take_eq_nil_iff, not_or]
  exact ⟨ne_of_gt hpos, hsome⟩

/-- **One packet.** As long as there is something in `ascending`, less is left after it. -/
theorem outputPoll_draining (h : Draining o₀ o) :
    wp (step (.session .outputPoll))
      (fun _ o' => Finished o₀ o' ∨ Draining o₀ o' ∧
        o'.session.stock.left o₀.sftp ≤ o.session.stock.left o₀.sftp ∧
        (o.session.stock.toChannel.messages = [] →
          o'.session.stock.left o₀.sftp < o.session.stock.left o₀.sftp))
      never o := by
  refine wp_mono_total h.toEnding.outputPoll fun _ o' ho' => ?_
  obtain ⟨hstock, hlife⟩ := ho'.state
  obtain ⟨ds, hds, hgot⟩ := h.got
  obtain ⟨hsends, hpending⟩ := h.stock.send (sendableData_isPrefix o.session)
  rw [← hstock] at hsends hpending
  rw [h.ended.polled h.input] at hlife
  -- what the peer has got now
  have hds' : (ds ++ chunks o.session.sendableData).flatten ++
      o'.session.stock.pending o₀.sftp = o₀.pendingOutput := by
    rw [flatten_append, chunks_flatten, append_assoc, hpending, hds]
  have hgot' : outs (o.life.sends o.session.sendableData o'.session.stock.held).sent =
      outs o₀.life.sent ++ (ds ++ chunks o.session.sendableData).map .data := by
    rw [sends_outs, hgot, map_append, append_assoc]
  cases hheld : o'.session.stock.held with
  | false =>
    rw [hheld] at hlife hgot'
    rw [if_neg Bool.false_ne_true] at hlife
    have hfinished := (h.ended.sends o.session.sendableData false).finish
    rw [← hlife] at hfinished
    refine .inl ⟨h.toEnding.next ho' hfinished hsends, hheld, ?_, ?_, ?_⟩
    · rw [hlife]
      rfl
    · rw [hlife, ← h.closeSent, finish]
      split <;> rfl
    · obtain ⟨hnone, hempty⟩ := hsends.held_eq_false hheld
      refine ⟨ds ++ chunks o.session.sendableData, ?_, ?_⟩
      · rw [← hds', pending, hnone, hempty]
        simp
      · rw [hlife, finish_outs, hgot', append_assoc, ← h.eofSent, ← h.closeSent]
        rfl
  | true =>
    rw [hheld] at hlife hgot'
    rw [if_pos rfl] at hlife
    have hended := h.ended.sends o.session.sendableData true
    rw [← hlife] at hended
    refine .inr ⟨⟨h.toEnding.next ho' hended hsends, ?_, ?_, ?_, _, hds', ?_⟩, ?_⟩
    · rw [hlife]
      exact h.input
    · rw [hlife]
      exact h.eofSent
    · rw [hlife]
      exact h.closeSent
    · rw [hlife]
      exact hgot'
    · have hmessages : o'.session.stock.toChannel.messages =
          o.session.stock.toChannel.messages := by
        rw [hstock]
        rfl
      rw [left, left, hmessages, ← hpending, length_append]
      refine ⟨by omega, fun hempty => ?_⟩
      have hsome : o'.session.stock.ascending ≠ [] :=
        (hsends.held_eq_true hheld).resolve_right fun hmore => hmore (hmessages.trans hempty)
      have hsent := h.sendableData_ne_nil fun hnil => hsome (by
        rw [hstock, send, hnil, drop_nil])
      have hpos := length_pos_iff.mpr hsent
      omega

/-! ## §3 One round -/

/-- What `server_loop` does for a channel from one `channel_post` to the next, when no keys are
being exchanged: messages are dispatched, the channel is polled, it is looked at by
`fill_event_array` if the array of events is not full before, and if some thread has ended, its own
is looked at again. -/
structure Round where
  messages : List Server.Message
  fills : Bool
  exits : Bool

/-- The end of a round -/
def Round.last (r : Round) : List Event :=
  (if r.fills then [.session .fillEventArray] else []) ++
    if r.exits then [.session .exitMsg] else []

def Round.events (r : Round) : List Event :=
  .session .post :: (r.messages.map Server.Message.event ++ .session .outputPoll :: r.last)

/-- The end is not told once more to a channel that has not been looked at. -/
def Round.Collects (r : Round) : Prop := r.exits = true → r.fills = true

/-- The calls of a round without messages -/
theorem Round.mem_events (hquiet : r.messages = []) (h : event ∈ r.events) :
    event = .session .post ∨ event = .session .outputPoll ∨ event = .session .fillEventArray ∨
      event = .session .exitMsg := by
  rw [Round.events, hquiet, Round.last] at h
  simp only [map_nil, nil_append, mem_cons, mem_append] at h
  rcases h with h | h | h | h
  · exact .inl h
  · exact .inr (.inl h)
  · split at h
    case isTrue => exact .inr (.inr (.inl (mem_singleton.mp h)))
    case isFalse => cases h
  · split at h
    case isTrue => exact .inr (.inr (.inr (mem_singleton.mp h)))
    case isFalse => cases h

theorem quiet_meets {rounds : List Round} (hquiet : ∀ r ∈ rounds, r.messages = [])
    (o : ChannelObject) : Meets step Patient (rounds.flatMap Round.events) o := by
  refine meets_of_mem (fun event hevent o => ?_) o
  obtain ⟨r, hr, hmem⟩ := mem_flatMap.mp hevent
  rcases Round.mem_events (hquiet r hr) hmem with rfl | rfl | rfl | rfl <;> exact trivial

/-- The channel after `fill_event_array`, when `n` more rounds are enough -/
def Collected (o₀ : ChannelObject) (n : Nat) (o : ChannelObject) : Prop :=
  Draining o₀ o ∧ o.session.stock.left o₀.sftp + 2 ≤ n ∨ Shut o₀ o

/-- The channel between two rounds, when `n` more are enough -/
def Stage (o₀ : ChannelObject) (n : Nat) (o : ChannelObject) : Prop :=
  Collected o₀ n o ∨ Finished o₀ o ∧ 1 ≤ n

/-- The channel after `channel_post`, when `n` more rounds after this one are enough -/
def Moved (o₀ : ChannelObject) (n : Nat) (o : ChannelObject) : Prop :=
  Draining o₀ o ∧ (o.session.stock.left o₀.sftp + 2 ≤ n ∨
    o.session.stock.left o₀.sftp + 2 ≤ n + 1 ∧ o.session.stock.toChannel.messages = []) ∨
  Shut o₀ o

theorem Stage.mono (h : Stage o₀ n o) : Stage o₀ (n + 1) o := by
  rcases h with (⟨hdrains, hleft⟩ | hshut) | ⟨hfinished, hone⟩
  · exact .inl (.inl ⟨hdrains, Nat.le_succ_of_le hleft⟩)
  · exact .inl (.inr hshut)
  · exact .inr ⟨hfinished, Nat.le_succ_of_le hone⟩

theorem post_stage (h : Stage o₀ (n + 1) o) :
    wp (step (.session .post)) (fun _ => Moved o₀ n) never o := by
  rcases h with (⟨hdrains, hleft⟩ | hshut) | ⟨hfinished, -⟩
  · refine wp_mono_total (post_draining hdrains) fun _ o' ho' => .inl ⟨ho'.draining, ?_⟩
    rw [left] at hleft ⊢
    rw [ho'.pending, ho'.messages, length_drop]
    cases hms : o.session.stock.toChannel.messages with
    | nil =>
      exact .inr ⟨by rw [length_nil]; omega, rfl⟩
    | cons m ms =>
      rw [hms, length_cons] at hleft
      exact .inl (by rw [length_cons]; omega)
  · exact wp_mono_total (hshut.step fun hdone _ => post_closing hdone) fun _ _ => .inr
  · exact wp_mono_total (hfinished.step (post_closing hfinished.done)) fun _ _ => .inr

theorem message_moved (h : Moved o₀ n o) (hpatient : Patient m.event o) :
    wp (step m.event) (fun _ => Moved o₀ n) never o := by
  rcases h with ⟨hdrains, hleft⟩ | hshut
  · refine wp_mono_total (message_draining hdrains hpatient) fun _ o' ho' => .inl ⟨ho'.draining, ?_⟩
    rw [ho'.left_eq, ho'.messages]
    exact hleft
  · exact wp_mono_total (hshut.step fun hdone hsent => message_closing hdone hsent hpatient)
      fun _ _ => .inr

theorem messages_moved {ms : List Server.Message} (h : Moved o₀ n o)
    (hmeets : Meets step Patient (ms.map Server.Message.event) o) :
    wp (runAll step (ms.map Server.Message.event)) (fun _ => Moved o₀ n) never o := by
  induction ms generalizing o with
  | nil =>
    rw [map_nil, runAll, wp_pure]
    exact h
  | cons m ms ih => exact hmeets.runAll_cons (message_moved h) fun _ ho' hrest => ih ho' hrest

theorem outputPoll_moved (h : Moved o₀ n o) :
    wp (step (.session .outputPoll)) (fun _ => Stage o₀ n) never o := by
  rcases h with ⟨hdrains, hleft⟩ | hshut
  · refine wp_mono_total (outputPoll_draining hdrains) fun _ o' ho' => ?_
    rcases ho' with hfinished | ⟨hdrains', hle, hless⟩
    · exact .inr ⟨hfinished, by omega⟩
    · refine .inl (.inl ⟨hdrains', ?_⟩)
      rcases hleft with hleft | ⟨hleft, hempty⟩
      · omega
      · have hfewer := hless hempty
        omega
  · exact wp_mono_total (hshut.step outputPoll_closing) fun _ _ hshut' => .inl (.inr hshut')

theorem fillEventArray_stage (h : Stage o₀ n o) :
    wp (step (.session .fillEventArray)) (fun _ => Collected o₀ n) never o := by
  rcases h with (⟨hdrains, hleft⟩ | hshut) | ⟨hfinished, -⟩
  · refine wp_mono_total (fillEventArray_draining hdrains) fun _ o' ho' => .inl ⟨ho'.draining, ?_⟩
    rw [ho'.left_eq]
    exact hleft
  · exact wp_mono_total (hshut.step fun hdone _ => fillEventArray_closing hdone) fun _ _ => .inr
  · exact wp_mono_total (hfinished.step (fillEventArray_closing hfinished.done)) fun _ _ => .inr

theorem exitMsg_collected (h : Collected o₀ n o) :
    wp (step (.session .exitMsg)) (fun _ => Collected o₀ n) never o := by
  rcases h with ⟨hdrains, hleft⟩ | hshut
  · refine wp_mono_total (exitMsg_draining hdrains) fun _ o' ho' => .inl ⟨ho'.draining, ?_⟩
    rw [ho'.left_eq]
    exact hleft
  · exact wp_mono_total (hshut.step exitMsg_closing) fun _ _ => .inr

theorem last_stage (hr : r.Collects) (h : Stage o₀ n o) :
    wp (runAll step r.last) (fun _ => Stage o₀ n) never o := by
  rw [Round.last]
  cases hfills : r.fills with
  | false =>
    have hexits : r.exits = false :=
      Bool.eq_false_iff.mpr fun hexits => by cases hfills.symm.trans (hr hexits)
    rw [hexits]
    show wp (pure ()) _ _ _
    rw [wp_pure]
    exact h
  | true =>
    rw [wp_runAll_append, if_pos rfl, runAll]
    refine wp_seq_total (fillEventArray_stage h) fun _ o' ho' => ?_
    rw [runAll, wp_pure]
    split
    case isTrue =>
      rw [runAll]
      refine wp_seq_total (exitMsg_collected ho') fun _ o'' ho'' => ?_
      rw [runAll, wp_pure]
      exact .inl ho''
    case isFalse =>
      rw [runAll, wp_pure]
      exact .inl ho'

/-- **One round** takes one from the number of rounds that are enough. -/
theorem round_stage (hr : r.Collects) (h : Stage o₀ (n + 1) o)
    (hmeets : Meets step Patient r.events o) :
    wp (runAll step r.events) (fun _ => Stage o₀ n) never o := by
  refine hmeets.runAll_cons (fun _ => post_stage h) fun o' ho' hrest => ?_
  refine hrest.runAll_append (fun hms => messages_moved ho' hms) fun o'' ho'' _ => ?_
  rw [runAll]
  exact wp_seq_total (outputPoll_moved ho'') fun _ _ hpolled => last_stage hr hpolled

/-! ## §4 Main result -/

/-- Since `o`, whose subsystem had ended, the peer has got all that was pending, and then EOF and
CLOSE, if they had not been sent before. -/
structure Closed (o o' : ChannelObject) : Prop where
  got : o.GotAll o.closing o'
  order : o.pendingOutput ≠ [] → o.closing = [.eof, .close]

/-- The channel has been opened, what is pending has not been overtaken by EOF or CLOSE, and it is
within the limits of the buffers and of the peer's greatest packet. -/
structure Closable (o : ChannelObject) : Prop where
  opened : o.session.base.isOpened = true
  unsaid : o.pendingOutput ≠ [] → o.session.base.eofSent = false ∧ o.session.base.closeSent = false
  packet : o.pendingOutput ≠ [] → 0 < o.session.base.remoteMaxpacket.toNat
  short : ∀ m ∈ o.session.toChannel.messages, m.length ≤ 256 * 1024
  room : o.pendingOutput.length + 4 ≤ 6 * bufferMaxChunk
  fits : min o.session.base.remoteMaxpacket.toNat o.pendingOutput.length + 14 ≤ bufferMaxChunk
  forwards : o.session.stock.Forwards o.sftp

theorem Closable.sends (h : o.Closable) (hlive : o.session.deleted = false) (hstocked : o.Stocked)
    (hwindow : o.pendingOutput.length ≤ o.session.base.remoteWindow.toNat) :
    o.session.stock.Sends o.sftp := by
  obtain ⟨msgs, hq⟩ := hstocked hlive
  refine { h with queue := ?_, window := hwindow }
  have hmessages : o.session.stock.toChannel.messages = msgs := hq.messages_eq
  rw [hmessages]
  exact hq.mono False.elim

/-- The end has just been told. -/
theorem exitMsg_starts (ho : o.Sound) (hlive : o.session.deleted = false) (h : o.Closable)
    (hended : o.life.thread = .terminated) (hsends : o.session.stock.Sends o.sftp) :
    wp (step (.session .exitMsg))
      (fun _ o' => Stage o (o.session.stock.left o.sftp + 2) o') never o := by
  refine wp_mono_total (exitMsg_becomes ho hlive hended) fun _ o' ho' => ?_
  obtain ⟨hstock, hlife⟩ := ho'.state
  rw [Stage, Collected, hstock]
  refine .inl (.inl ⟨⟨⟨ho'.sound, ho'.cls, ?_, ?_⟩, ?_, ?_, ?_, [], ?_, ?_⟩, le_rfl⟩)
  · rw [hlife]
    exact ⟨hlive, h.opened, rfl, rfl, hended⟩
  · rw [hstock]
    exact hsends
  · rw [hlife]
    rfl
  · rw [hlife]
    rfl
  · rw [hlife]
    rfl
  · rw [hstock]
    rfl
  · rw [hlife, notify_outs]
    exact (append_nil _).symm

theorem Stage.closed (h : Stage o 0 o') (hclosable : o.Closable) : o.Closed o' := by
  rcases h with (⟨-, hleft⟩ | hshut) | ⟨-, hnone⟩
  · cases hleft
  · refine ⟨hshut.got, fun hpending => ?_⟩
    obtain ⟨heof, hclose⟩ := hclosable.unsaid hpending
    have heof' : o.life.eofSent = false := heof
    have hclose' : o.life.closeSent = false := hclose
    rw [closing, heof', hclose']
    rfl
  · cases hnone

/-- With its object a channel has lost its thread. -/
structure Whole (o : ChannelObject) : Prop where
  sound : o.Sound
  stocked : o.Stocked
  gone : o.session.deleted = true → o.life.thread = .none

theorem step_whole (event : Event) (o : ChannelObject) (ho : o.Whole) :
    wp (step event) (fun _ => Whole) any o := by
  refine wp_weaken (wp_and (step_lives ho.sound event)
    (step_stocked event o ⟨ho.sound, ho.stocked⟩))
    fun _ o' ho' => ?_
  obtain ⟨hlives, hsound, hstocked⟩ := ho'
  refine ⟨hsound, hstocked, ?_⟩
  cases hdeleted : o.session.deleted with
  | true =>
    rw [hdeleted, if_pos rfl] at hlives
    rw [hlives]
    exact ho.gone
  | false =>
    rw [hdeleted, if_neg Bool.false_ne_true] at hlives
    exact hlives.2.goes.gone hdeleted

theorem createDerivation_whole (ctype : ChannelType) (self remoteId rwindow rmaxpack : UInt32) :
    (createDerivation ctype self remoteId rwindow rmaxpack).Whole := by
  refine ⟨createDerivation_sound ctype self remoteId rwindow rmaxpack, fun _ => ⟨[], ?_⟩,
    fun hdeleted => ?_⟩
  · rw [createDerivation_holding ctype self remoteId rwindow rmaxpack]
    exact BusyThreadReadBuffer.queues_empty
  · cases ctype <;> cases hdeleted

/-- **Ended subsystems.** Whatever has happened to a channel: when its subsystem has ended and this
is told, a number of rounds is enough for the peer to get all that is pending, EOF and CLOSE. -/
theorem closes_after_rounds (ctype : ChannelType) (self remoteId rwindow rmaxpack : UInt32)
    (events : List Event) (o : ChannelObject)
    (hrun : runAll step events (createDerivation ctype self remoteId rwindow rmaxpack) = .ok () o)
    (hended : terminated o.session.subsystem = true)
    (hwindow : o.pendingOutput.length ≤ o.session.base.remoteWindow.toNat)
    (hclosable : o.Closable) :
    ∃ o₁ n, step (.session .exitMsg) o = .ok () o₁ ∧
      ∀ rounds : List Round, n ≤ rounds.length → (∀ r ∈ rounds, r.Collects) →
        Meets step Patient (rounds.flatMap Round.events) o₁ →
          ∃ o', runAll step (rounds.flatMap Round.events) o₁ = .ok () o' ∧ o.Closed o' := by
  have hkeeps := Keeps.runAll (E := fun _ => True) step_whole events _
    (createDerivation_whole ctype self remoteId rwindow rmaxpack)
  have hwhole := (wp_of_ok hrun).mp hkeeps
  have hthread := o.thread_terminated.mpr hended
  have hlive : o.session.deleted = false :=
    Bool.eq_false_iff.mpr fun hdeleted => by cases (hwhole.gone hdeleted).symm.trans hthread
  have hstarts := exitMsg_starts hwhole.sound hlive hclosable hthread
    (hclosable.sends hlive hwhole.stocked hwindow)
  obtain ⟨_, o₁, hexit, hstage⟩ := ok_of_wp_total hstarts
  refine ⟨o₁, o.session.stock.left o.sftp + 2, hexit, fun rounds hlength hcollects hmeets => ?_⟩
  have hmono : ∀ n o', Stage o n o' → Stage o (n + 1) o' := fun _ _ h => h.mono
  have hrounds := Meets.countdown (E := fun _ _ => False) hmono
    (fun r hr _ _ h hm => round_stage (hcollects r hr) h hm) hstage hmeets
  obtain ⟨_, o', hok, ho'⟩ := ok_of_wp_total hrounds
  rw [Nat.sub_eq_zero_of_le hlength] at ho'
  exact ⟨o', hok, ho'.closed hclosable⟩

/-- A shell that has said something and ended -/
def endedShell : List Event :=
  [.startSubsystem false false, .session (.workerPut [1, 2, 3]), .session .workerExit]

/-- A round in which the peer says nothing -/
def quietRound : Round := ⟨[], true, false⟩

theorem closes_after_rounds_shell :
    let o := endState (runAll step endedShell) (createDerivation .session 0 0 100 2)
    o.pendingOutput = [1, 2, 3] ∧ ∃ o₁ k o', step (.session .exitMsg) o = .ok () o₁ ∧
      runAll step ((List.replicate k quietRound).flatMap Round.events) o₁ = .ok () o' ∧
        o.Closed o' := by
  intro o
  have hrun : runAll step endedShell (createDerivation .session 0 0 100 2) = .ok () o :=
    ok_endState (by decide +kernel)
  have hpending : o.pendingOutput = [1, 2, 3] := by decide +kernel
  have hforwards : o.session.stock.Forwards o.sftp :=
    ⟨by decide +kernel, by decide +kernel, by decide +kernel, fun hno =>
      absurd hno (by decide +kernel)⟩
  have hclosable : o.Closable := by
    refine ⟨by decide +kernel, fun _ => by decide +kernel, fun _ => by decide +kernel,
      by decide +kernel, ?_, ?_, hforwards⟩
    · rw [hpending]
      decide
    · decide +kernel
  obtain ⟨o₁, n, hexit, hcloses⟩ := closes_after_rounds .session 0 0 100 2 endedShell o hrun
    (by decide +kernel) (by rw [hpending]; decide +kernel) hclosable
  have hquiet : ∀ r ∈ replicate n quietRound, r = quietRound := fun _ => eq_of_mem_replicate
  obtain ⟨o', hok, ho'⟩ := hcloses (replicate n quietRound) (by rw [length_replicate])
    (fun r hr _ => by rw [hquiet r hr]; rfl)
    (quiet_meets (fun r hr => by rw [hquiet r hr]; rfl) o₁)
  exact ⟨hpending, o₁, n, o', hexit, hok, ho'⟩

end ChannelObject

/-! ### Channels that have not been opened -/

/-- The end of a thread has been told that had not opened its channel. -/
structure Life.Unheard (l : Life) : Prop where
  live : l.deleted = false
  unopened : l.isOpened = false
  input : l.input = .waitDrain
  output : l.output = .closed
  thread : l.thread = .terminated

theorem Life.Unheard.confirm {l : Life} (h : l.Unheard) (p : Packet) : (l.confirm p).Unheard := by
  rw [Life.confirm]
  split <;> exact { h with }

theorem Life.Unheard.collect {l : Life} (h : l.Unheard) : l.collect = l :=
  collect_alive fun hdead => by cases h.input.symm.trans hdead.1

namespace ChannelObject

variable {o₀ o o' : ChannelObject}

/-- Since `o₀` the peer has got nothing, and it never will. -/
structure Mute (o₀ o : ChannelObject) : Prop where
  sound : o.Sound
  cls : o.cls = .tcpClient
  life : o.life.Unheard
  outs : outs o.life.sent = outs o₀.life.sent

variable (h : Mute o₀ o)
include h

theorem Mute.next
    (hb : o.Becomes
      (fun l' _ => l'.Unheard ∧ Channels.outs l'.sent = Channels.outs o.life.sent) o') :
    Mute o₀ o' :=
  ⟨hb.sound, hb.cls.trans h.cls, hb.state.1, hb.state.2.trans h.outs⟩

theorem outputPoll_mute :
    wp (step (.session .outputPoll)) (fun _ => Mute o₀) never o := by
  have hnot : o.session.base.isOpened = false := h.life.unopened
  rw [step_session h.life.live rfl, SessionChannel.stepEvent,
    SessionChannel.channelOutputPoll, wp_read,
    Channel.channelOutputPoll, wp_onBase_read, hnot, Bool.not_false, if_pos rfl,
    wp_onBase_pure]
  exact h

theorem fillEventArray_mute :
    wp (step (.session .fillEventArray)) (fun _ => Mute o₀) never o := by
  refine wp_mono_total (fillEventArray_becomes h.sound h.life.live h.life.output
    fun hdead => by cases h.life.input.symm.trans hdead.1) fun _ o' ho' =>
      h.next ⟨ho'.sound, ho'.cls, ?_⟩
  rw [ho'.state.2, h.life.collect]
  exact ⟨h.life, rfl⟩

theorem exitMsg_mute :
    wp (step (.session .exitMsg)) (fun _ => Mute o₀) never o := by
  refine wp_mono_total (exitMsg_becomes h.sound h.life.live h.life.thread)
    fun _ o' ho' => h.next ⟨ho'.sound, ho'.cls, ?_⟩
  rw [ho'.state.2]
  exact ⟨⟨h.life.live, h.life.unopened, rfl, rfl, h.life.thread⟩, o.life.notify_outs⟩

theorem post_mute : wp (step (.session .post)) (fun _ => Mute o₀) never o := by
  rw [step_live h.life.live]
  refine wp_channelPost (fun hcls => absurd h.cls hcls) fun _ => ?_
  have hcollects : wp (onSession (postAs false))
      (fun _ => o.Becomes fun l' _ => l' = o.life) never o := by
    refine onSession_becomes h.sound ?_
    rw [wp_postAs]
    refine ⟨fun hopened => absurd (h.life.unopened.symm.trans hopened) Bool.false_ne_true,
      fun _ => ?_⟩
    refine wp_mono_total (garbageCollect_collects h.sound.at fun hdead => by
      cases h.life.input.symm.trans hdead.1) fun _ s' hs' => ⟨_, ?_, hs'.1⟩
    exact h.life.collect
  refine wp_mono_total hcollects fun _ o1 ho1 => ?_
  have hmute : Mute o₀ o1 := h.next ⟨ho1.sound, ho1.cls, by rw [ho1.state]; exact ⟨h.life, rfl⟩⟩
  refine ⟨fun hwaits => ?_, fun _ => hmute⟩
  refine openConfirmation_lives hmute.sound fun p o2 hp hcls hsound hlife => ?_
  have hwaits' : o1.life.connecting = true := hwaits
  have hconfirmed : ({ o2 with isConnecting := false } : ChannelObject).life =
      o1.life.confirm p := by
    rw [confirm, if_pos hwaits', ← hlife]
    rfl
  refine hmute.next ⟨⟨hsound.counted, fun _ => rfl⟩, hcls, ?_⟩
  rw [hconfirmed]
  exact ⟨hmute.life.confirm p, o1.life.confirm_outs hp⟩

omit h in
theorem rounds_mute {rounds : List Round} (hquiet : ∀ r ∈ rounds, r.messages = []) :
    Keeps (Mute o₀) (runAll step (rounds.flatMap Round.events)) fun _ => False := by
  refine .runAll_mem fun event hevent o h => ?_
  obtain ⟨r, hr, hmem⟩ := mem_flatMap.mp hevent
  rcases Round.mem_events (hquiet r hr) hmem with rfl | rfl | rfl | rfl
  · exact post_mute h
  · exact outputPoll_mute h
  · exact fillEventArray_mute h
  · exact exitMsg_mute h

theorem Mute.not_closed (hclose : o₀.life.closeSent = false) : ¬o₀.Closed o := by
  intro hclosed
  obtain ⟨ds, -, hgot⟩ := hclosed.got
  rw [h.outs, closing, hclose, self_eq_append_right, append_eq_nil_iff,
    append_eq_nil_iff] at hgot
  cases hgot.2.2

/-- The connection could not be made. -/
def failedConnect : List Event := [.session .workerExit]

omit h

theorem failed_connect_never_closes :
    let o := endState (runAll step failedConnect) (createDerivation .directTcpip 0 0 100 100)
    returns (runAll step failedConnect) (createDerivation .directTcpip 0 0 100 100) = true ∧
      terminated o.session.subsystem = true ∧
      o.pendingOutput.length ≤ o.session.base.remoteWindow.toNat ∧
      ∃ o₁, step (.session .exitMsg) o = .ok () o₁ ∧
        ∀ rounds : List Round, (∀ r ∈ rounds, r.messages = []) →
          ∃ o', runAll step (rounds.flatMap Round.events) o₁ = .ok () o' ∧ ¬o.Closed o' := by
  intro o
  have hcls : o.cls = .tcpClient := by decide +kernel
  have hsound : o.Sound :=
    ⟨⟨by decide +kernel, by decide +kernel⟩, fun hno => absurd hcls hno⟩
  have hended : terminated o.session.subsystem = true := by decide +kernel
  have hlive : o.session.deleted = false := by decide +kernel
  have hthread := o.thread_terminated.mpr hended
  obtain ⟨_, o₁, hexit, ho₁⟩ := ok_of_wp_total (exitMsg_becomes hsound hlive hthread)
  have hmute : Mute o o₁ := by
    refine ⟨ho₁.sound, ho₁.cls.trans hcls, ?_, ?_⟩
    · rw [ho₁.state.2]
      exact ⟨hlive, by decide +kernel, rfl, rfl, hthread⟩
    · rw [ho₁.state.2]
      exact o.life.notify_outs
  refine ⟨by decide +kernel, hended, by decide +kernel, o₁, hexit, fun rounds hquiet => ?_⟩
  obtain ⟨_, o', hok, ho'⟩ := ok_of_wp_total (rounds_mute hquiet o₁ hmute)
  exact ⟨o', hok, ho'.not_closed (by decide +kernel)⟩

end ChannelObject

end Shiesh.Channels
