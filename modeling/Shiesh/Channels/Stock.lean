import Shiesh.Channels.Fifo
import Shiesh.Channels.LifeObjects
import Shiesh.Channels.Reassembly
import Shiesh.Channels.ToChannel

/-!
# What a Channel Holds for the Peer

The messages in `toChannel` and the bytes in `ascending`, and the functions that move them on, with
the limits within which none of them fails: a message of 256K is the longest that
`buffer_get_string` takes, and a buffer has room for another chunk of 1 MB as long as it holds no
more than 6 MB.
-/

namespace Shiesh.Channels

open Shiesh.Lib List SessionChannel Buffer Life UInt32 ReadRun

/-! ## §1 The messages in a queue -/

/-- A buffer and its counter. `rest` is the length field of a message that could not be put. -/
structure Half (b : Buffer) (n : Int) (msgs : List Bytes) (rest : Bytes) : Prop where
  contents : b.contents = frames msgs ++ rest
  count : n = msgs.length
  short : ∀ m ∈ msgs, m.length < UInt32.size

/-- The first `n` messages -/
def unframe : Nat → Bytes → List Bytes
  | 0, _ => []
  | n + 1, b =>
    let len := (getU32 (b.take 4)).toNat
    (b.drop 4).take len :: unframe n (b.drop (4 + len))

theorem unframe_frames (msgs : List Bytes) (rest : Bytes)
    (hshort : ∀ m ∈ msgs, m.length < size) :
    unframe msgs.length (frames msgs ++ rest) = msgs := by
  induction msgs with
  | nil => rfl
  | cons m msgs ih =>
    have hm : (ofNat m.length).toNat = m.length :=
      toNat_ofNat_of_lt (hshort m mem_cons_self)
    have hframes : frames (m :: msgs) ++ rest =
        putU32 (ofNat m.length) ++ (m ++ (frames msgs ++ rest)) := by
      simp only [frames, flatMap_cons, putString, append_assoc]
    have hhead : (frames (m :: msgs) ++ rest).take 4 = putU32 (ofNat m.length) := by
      exact take_left' (putU32_length _)
    have htail : (frames (m :: msgs) ++ rest).drop 4 = m ++ (frames msgs ++ rest) := by
      rw [hframes]
      exact drop_left' (putU32_length _)
    rw [length_cons, unframe, hhead, getU32_putU32, hm, ← drop_drop, htail,
      take_left, drop_left]
    rw [ih fun m' hm' => hshort m' (mem_cons_of_mem _ hm')]

namespace BusyThreadReadBuffer

/-- The messages that are waiting, from the oldest to the newest -/
def messages (q : BusyThreadReadBuffer) : List Bytes :=
  unframe q.nReadBufMsgs.toNat q.readBuf.contents ++
    unframe q.nWriteBufMsgs.toNat q.writeBuf.contents

/-- Both halves hold whole messages, and `clean` ones nothing else. -/
def Queues (clean : Prop) (q : BusyThreadReadBuffer) (msgs : List Bytes) : Prop :=
  ∃ r w rest rest', Half q.readBuf q.nReadBufMsgs r rest ∧ Half q.writeBuf q.nWriteBufMsgs w rest' ∧
    msgs = r ++ w ∧ (clean → rest = [] ∧ rest' = [])

variable {clean : Prop} {q : BusyThreadReadBuffer} {msgs : List Bytes} {m : Bytes}

theorem Queues.messages_eq (h : Queues clean q msgs) : q.messages = msgs := by
  obtain ⟨r, w, rest, rest', hr, hw, rfl, -⟩ := h
  rw [messages, hr.contents, hw.contents, hr.count, hw.count, Int.toNat_natCast, Int.toNat_natCast,
    unframe_frames r rest hr.short, unframe_frames w rest' hw.short]

theorem Queues.mono {clean' : Prop} (h : Queues clean q msgs) (hclean : clean' → clean) :
    Queues clean' q msgs := by
  obtain ⟨r, w, rest, rest', hr, hw, hmsgs, hrests⟩ := h
  exact ⟨r, w, rest, rest', hr, hw, hmsgs, fun h => hrests (hclean h)⟩

theorem queues_empty : Queues clean {} [] :=
  have hempty : Half .init 0 [] [] := ⟨rfl, rfl, fun _ hm => absurd hm not_mem_nil⟩
  ⟨[], [], [], [], hempty, hempty, rfl, fun _ => ⟨rfl, rfl⟩⟩

/-- Everything about the counters -/
theorem Queues.counters (h : Queues clean q msgs) :
    Counted q ∧ (msgs = [] ↔ q.nReadBufMsgs = 0 ∧ q.nWriteBufMsgs = 0) := by
  obtain ⟨r, w, rest, rest', hr, hw, rfl, -⟩ := h
  rw [Counted, hr.count, hw.count, append_eq_nil_iff]
  refine ⟨⟨Int.natCast_nonneg _, Int.natCast_nonneg _⟩, ?_⟩
  rw [← length_eq_zero_iff, ← length_eq_zero_iff]
  omega

/-! ### Putting a message -/

theorem Half.snoc {b b' : Buffer} {n : Int} (h : Half b n msgs [])
    (hb : b'.contents = b.contents ++ putString m) : Half b' (n + 1) (msgs ++ [m]) [] := by
  have hm : m.length < size := by
    have hlen := b'.len_lt_size
    rw [← contents_length, hb, length_append, putString, length_append] at hlen
    omega
  refine ⟨?_, ?_, fun m' hm' => ?_⟩
  · rw [hb, h.contents]
    simp [frames]
  · rw [h.count]
    simp
  · rcases mem_append.mp hm' with hbefore | hlast
    · exact h.short m' hbefore
    · rw [mem_singleton.mp hlast]
      exact hm

/-- A message that cannot be put may leave something behind it. -/
theorem put_queues (h : Queues True q msgs) (data : Bytes) :
    wp (put data) (fun _ q' => Queues True q' (msgs ++ [data]))
      (fun _ q' => Queues False q' msgs) q := by
  obtain ⟨r, w, rest, rest', hr, hw, rfl, hclean⟩ := h
  obtain ⟨rfl, rfl⟩ := hclean trivial
  rw [put, wp_bind, wp_zoom]
  refine wp_mono (wp_and (putString_spec data q.writeBuf)
    (putString_error data q.writeBuf)) (fun _ b hb => ?_) fun _ b hb => ?_
  · rw [wp_modify]
    refine ⟨r, w ++ [data], [], [], hr, ?_, (append_assoc ..), fun _ => ⟨rfl, rfl⟩⟩
    exact Half.snoc hw hb.1
  · obtain ⟨-, junk, -, hjunk⟩ := hb
    refine ⟨r, w, [], junk, hr, ⟨?_, hw.count, hw.short⟩, rfl, fun hno => hno.elim⟩
    rw [hjunk, hw.contents, append_nil]

/-! ### Taking a message -/

/-- The message is not longer than a string may be, and there is room for it. -/
def Takes (m : Bytes) (out : Buffer) : Prop :=
  m.length ≤ 256 * 1024 ∧ out.len + 4 ≤ 6 * bufferMaxChunk

theorem appendTo_takes (asString : Bool) (m : Bytes) (out : Buffer) (h : Takes m out) :
    wp (if asString then Buffer.putString m else Buffer.append m)
      (fun _ out' => out'.contents = out.contents ++ ReadRun.format asString m) never
      out := by
  have hchunk : m.length ≤ bufferMaxChunk := h.1.trans (by decide)
  rw [wp_ite]
  refine ⟨fun hstring => ?_, fun hraw => ?_⟩
  · rw [ReadRun.format, if_pos hstring]
    exact Buffer.putString_fits h.2 hchunk
  · rw [ReadRun.format, if_neg hraw]
    exact Buffer.append_fits (Nat.le_of_add_right_le h.2) hchunk

variable {asString : Bool}

/-- `take` moves the first message of the half that is read. -/
theorem take_first {r : List Bytes} {rest : Bytes}
    (hread : Half q.readBuf q.nReadBufMsgs (m :: r) rest) (out : Buffer) :
    wp (take asString)
      (fun _ t => Half t.1.readBuf t.1.nReadBufMsgs r rest ∧ t.1.writeBuf = q.writeBuf ∧
        t.1.nWriteBufMsgs = q.nWriteBufMsgs ∧
        t.2.contents = out.contents ++ format asString m)
      (fun _ _ => ¬Takes m out) (q, out) := by
  have hcontents : q.readBuf.contents = putString m ++ (frames r ++ rest) := by
    rw [hread.contents, frames, flatMap_cons, append_assoc]
    rfl
  rw [take, wp_update, wp_bind, wp_zoom]
  refine wp_mono (Buffer.getString_spec (hread.short m mem_cons_self) q.readBuf hcontents) ?_
    fun _ b hb htakes => absurd htakes.1 (not_le.mpr hb.2)
  intro data b hb
  obtain ⟨rfl, hb⟩ := hb
  have hrest : Half b (q.nReadBufMsgs - 1) r rest := by
    refine ⟨hb, ?_, fun m' hm' => hread.short m' (mem_cons_of_mem _ hm')⟩
    rw [hread.count, length_cons]
    omega
  rw [wp_bind, wp_zoom]
  by_cases htakes : Takes data out
  · refine wp_mono_total (appendTo_takes asString data out htakes) fun _ out' hout => ?_
    rw [wp_modify]
    exact ⟨hrest, rfl, rfl, hout⟩
  · refine wp_mono (appendTo_spec asString data out) (fun _ out' hout => ?_)
      fun _ _ _ => htakes
    rw [wp_modify]
    exact ⟨hrest, rfl, rfl, hout⟩

theorem get_nil (h : Queues clean q []) (out : Buffer) :
    wp (get asString) (fun _ t => Queues clean t.1 [] ∧ t.2 = out) never
      (q, out) := by
  obtain ⟨hread, hwrite⟩ := h.counters.2.mp rfl
  rw [get, wp_read]
  simp only [ne_eq, hread, hwrite, not_true_eq_false, if_false]
  rw [wp_update, wp_pure]
  exact ⟨h, rfl⟩

/-- **Taking.** `get` moves the oldest message, from whichever half it is in. -/
theorem get_cons (h : Queues clean q (m :: msgs)) (out : Buffer) :
    wp (get asString)
      (fun _ t => Queues clean t.1 msgs ∧ t.2.contents = out.contents ++ format asString m)
      (fun _ _ => ¬Takes m out) (q, out) := by
  obtain ⟨r, w, rest, rest', hr, hw, hmsgs, hclean⟩ := h
  rw [get, wp_read]
  rw [wp_ite, wp_ite, wp_bind, wp_bind]
  cases r with
  | cons m' r =>
    cases hmsgs
    refine ⟨fun _ => ?_, fun hzero => ?_⟩
    · refine wp_imp (take_first hr out) fun _ t ht => ?_
      obtain ⟨hread, hwriteBuf, hcount, hout⟩ := ht
      rw [wp_pure]
      refine ⟨⟨r, w, rest, rest', hread, ?_, rfl, hclean⟩, hout⟩
      rw [hwriteBuf, hcount]
      exact hw
    · have hcount := hr.count
      rw [length_cons] at hcount
      omega
  | nil =>
    rw [nil_append] at hmsgs
    subst hmsgs
    refine ⟨fun hne => absurd hr.count hne, fun _ => ⟨fun _ => ?_, fun hno => ?_⟩⟩
    · -- the halves are exchanged first
      rw [wp_modify]
      refine wp_seq (take_first (q := q.swap) hw out) fun _ t ht => ?_
      obtain ⟨hread, hwriteBuf, hcount, hout⟩ := ht
      rw [wp_pure]
      refine ⟨⟨msgs, [], rest', rest, hread, ?_, (append_nil msgs).symm, fun h => (hclean h).symm⟩,
        hout⟩
      rw [hwriteBuf, hcount]
      exact hr
    · have hcount := hw.count
      rw [length_cons] at hcount
      omega

theorem get_moves (h : Queues clean q msgs) (out : Buffer)
    (htakes : ∀ m ∈ msgs.take 1, Takes m out) :
    wp (get asString)
      (fun _ t => Queues clean t.1 (msgs.drop 1) ∧
        t.2.contents = out.contents ++ (msgs.take 1).flatMap (format asString))
      never (q, out) := by
  cases msgs with
  | nil =>
    refine wp_mono_total (get_nil h out) fun _ t ht => ⟨ht.1, ?_⟩
    rw [ht.2, take_nil, flatMap_nil, append_nil]
  | cons m msgs =>
    refine wp_mono (get_cons h out) (fun _ t ht => ⟨ht.1, ?_⟩) fun _ _ hnot =>
      hnot (htakes m mem_cons_self)
    rw [ht.2, take_succ_cons, take_zero, flatMap_singleton]

end BusyThreadReadBuffer

/-! ## §2 Every channel -/

namespace ChannelObject

open BusyThreadReadBuffer (Queues get_cons get_nil put_queues queues_empty)

variable {o : ChannelObject}

/-- `toChannel` holds whole messages, and as long as the thread has not ended nothing else. -/
def Stocked (o : ChannelObject) : Prop :=
  o.session.deleted = false →
    ∃ msgs, Queues (o.life.thread ≠ .terminated) o.session.toChannel msgs

theorem step_stocked (event : Event) (o : ChannelObject) (ho : o.Sound ∧ o.Stocked) :
    wp (step event) (fun _ o' => o'.Sound ∧ o'.Stocked) any o := by
  obtain ⟨hsound, hstocked⟩ := ho
  cases hdeleted : o.session.deleted with
  | true =>
    rw [step_deleted hdeleted]
    exact ⟨hsound, hstocked⟩
  | false =>
    obtain ⟨msgs, hq⟩ := hstocked hdeleted
    have hqueue : wp (step event)
        (fun _ o' => (∃ msgs, Queues (o.life.thread ≠ .terminated) o'.session.toChannel msgs) ∨
          (∃ msgs, Queues False o'.session.toChannel msgs) ∧
            terminated o'.session.subsystem = true)
        any o := by
      rw [step_live hdeleted]
      apply stepEvent_toChannel (P := fun q => ∃ msgs, Queues (o.life.thread ≠ .terminated) q msgs)
        (F := fun q => ∃ msgs, Queues False q msgs) event ⟨msgs, hq⟩
      · intro _ _ asString
        cases msgs with
        | nil =>
          exact wp_weaken (get_nil hq _) fun _ t ht => ⟨[], ht.1⟩
        | cons m msgs =>
          exact wp_weaken (get_cons hq _) fun _ t ht => ⟨msgs, ht.1⟩
      · intro data _ hrunning
        have hthread : o.life.thread ≠ .terminated := by
          rw [ne_eq, o.thread_terminated, hrunning]
          decide
        refine wp_mono (put_queues (hq.mono fun _ => hthread) data)
          (fun _ q hq' => ⟨_, hq'.mono fun _ => trivial⟩) fun _ q hq' => ⟨_, hq'⟩
    refine wp_weaken (wp_and (step_lives hsound event) hqueue) fun _ o' ho' => ?_
    obtain ⟨hlives, hqueue'⟩ := ho'
    rw [hdeleted, if_neg Bool.false_ne_true] at hlives
    refine ⟨hlives.1, fun hlive => ?_⟩
    rcases hqueue' with ⟨msgs', hq'⟩ | ⟨⟨msgs', hq'⟩, hended⟩
    · -- a thread that has ended stays so
      exact ⟨msgs', hq'.mono fun hnot hend => hnot (hlives.2.goes.ended hlive hend)⟩
    · exact ⟨msgs', hq'.mono fun hnot => hnot (o'.thread_terminated.mpr hended)⟩

end ChannelObject

/-! ## §3 Moving it on -/

/-- What is on its way through a channel, and the credit for it -/
structure Stock where
  ascending : Bytes
  toChannel : BusyThreadReadBuffer
  remoteWindow : UInt32
  remoteMaxpacket : UInt32
  descending : Buffer
  fromChannel : BusyThreadWriteBuffer

namespace Stock

/-- Something for the peer is there. -/
def held (x : Stock) : Bool :=
  x.ascending ≠ [] || x.toChannel.nReadBufMsgs ≠ 0 || x.toChannel.nWriteBufMsgs ≠ 0

/-- On the way to the peer there is the same. -/
structure SameOut (x x' : Stock) : Prop where
  ascending : x'.ascending = x.ascending
  toChannel : x'.toChannel = x.toChannel
  remoteWindow : x'.remoteWindow = x.remoteWindow
  remoteMaxpacket : x'.remoteMaxpacket = x.remoteMaxpacket

/-- The beginning of a message: its length field says that there is more to come. -/
def Incomplete (b : Bytes) : Prop :=
  b.length < 5 ∨ UInt32.ofNat b.length < getU32 (b.take 4) + 4

/-- Whole messages, and the beginning of one -/
def Framed (b : Bytes) : Prop := ∃ msgs rest, b = frames msgs ++ rest ∧ Incomplete rest

/-- There is room for the EOF marker in `fromChannel`. -/
abbrev TakesEof (x : Stock) : Prop := x.fromChannel.writeBuf.len ≤ 6 * bufferMaxChunk

/-- What is left for the subsystem can be put into `fromChannel`. -/
structure Forwards (sftp : Bool) (x : Stock) : Prop where
  marker : x.TakesEof
  chunk : x.descending.len ≤ bufferMaxChunk
  room : x.descending.len = 0 ∨
    x.fromChannel.writeBuf.len + x.descending.len + 4 ≤ 6 * bufferMaxChunk
  framed : sftp = true → Framed x.descending.contents

end Stock

namespace SessionChannel

def stock (s : SessionChannel) : Stock where
  ascending := s.base.ascending.contents
  toChannel := s.toChannel
  remoteWindow := s.base.remoteWindow
  remoteMaxpacket := s.base.remoteMaxpacket
  descending := s.base.descending
  fromChannel := s.fromChannel

end SessionChannel

theorem heldOf_stock (s : SessionChannel) : heldOf s = s.stock.held := by
  have hempty : s.base.ascending.len ≠ 0 ↔ s.base.ascending.contents ≠ [] := by
    rw [← contents_length, ne_eq, length_eq_zero_iff]
  rw [heldOf, decide_eq_decide.mpr hempty]
  rfl

/-! ### Functions that move nothing -/

section Frame

variable {x : Stock}

/-- The stock is as it was. -/
def Still (x : Stock) (s : SessionChannel) : Prop := s.stock = x

theorem message_still (type : UInt8) (body : ConM Unit) :
    Keeps (Still x) (onBase (message type body)) := by
  intro s hs
  rw [message, wp_onBase_read, onBase, wp_zoom, onCon, wp_zoom]
  exact wp_intro (fun _ _ _ => hs) fun _ _ _ => hs

theorem stock_aside {s : SessionChannel} {c : Channel} (hc : Aside s.base c) :
    ({ s with base := c } : SessionChannel).stock = s.stock := by
  have hascending : c.ascending.contents = s.base.ascending.contents :=
    congrArg Load.ascending hc.load
  have hdescending : c.descending = s.base.descending := congrArg Load.descending hc.load
  have hwindow : c.remoteWindow = s.base.remoteWindow := congrArg Load.remoteWindow hc.load
  have hmax : c.remoteMaxpacket = s.base.remoteMaxpacket := congrArg Load.remoteMaxpacket hc.load
  rw [stock, stock, hascending, hdescending, hwindow, hmax]

theorem still_frame : Frame (Still x) := ⟨fun h hc => (stock_aside hc).trans h, fun _ _ h => h⟩

/-- `fromChannel` apart -/
def StillBut (x : Stock) (s : SessionChannel) : Prop :=
  { s.stock with fromChannel := x.fromChannel } = x

theorem stillBut_frame : QueueFrame (StillBut x) := by
  refine ⟨⟨fun h hc => ?_, fun _ _ h => h⟩, fun _ h => h⟩
  rw [StillBut, stock_aside hc]
  exact h

/-- The end of `channel_output_poll` -/
theorem finish_still (said : Bool) : Keeps (Still x) (onBase (if !said then do
    Channel.sendEOF
    modify fun c : Channel => { c with currentInputState := .closed }
  else modify fun c : Channel => { c with currentInputState := .closed })) := by
  intro s hs
  rw [wp_onBase_ite, wp_onBase_bind, wp_onBase_modify]
  refine ⟨fun _ => ?_, fun _ => hs⟩
  refine wp_imp (still_frame.onBase (fun _ => sendEOF_aside) s hs) fun _ s1 hs1 => ?_
  rw [wp_onBase_modify]
  exact hs1

theorem channelCheckWindow_still : Keeps (Still x) (onBase Channel.channelCheckWindow) := by
  intro s hs
  exact wp_channelCheckWindow (fun _ _ => hs) hs

end Frame

/-! ### `channel_output_poll` -/

section Poll

variable {k : Bool} {l : Life} {s : SessionChannel}

/-- The DATA message for `d`, if there is anything in it -/
def dataPackets (remoteId : UInt32) (d : Bytes) : List Packet :=
  if d = [] then [] else [⟨Ssh2Msg.channelData, putU32 remoteId ++ putString d⟩]

/-- The life of a channel after `d` has been sent -/
def Life.sends (l : Life) (d : Bytes) (held : Bool) : Life :=
  { l.say (dataPackets l.remoteId d) with held := held }

/-- What `channel_output_poll` may send of `ascending` -/
def SessionChannel.sendableData (s : SessionChannel) : Bytes :=
  if s.base.currentInputState = .closed then []
  else s.base.ascending.contents.take s.base.sendable.toNat

/-- The stock when `d` has been sent. -/
def Stock.send (x : Stock) (d : Bytes) : Stock :=
  { x with
    ascending := x.ascending.drop d.length
    remoteWindow := x.remoteWindow - UInt32.ofNat d.length }

theorem Stock.send_nil (x : Stock) : x.send [] = x := by
  simp [Stock.send]

/-- **DATA.** What is sent is taken from `ascending` and from the window. -/
theorem sendAscending_sends (hs : At k l s)
    (hfits : min s.base.remoteMaxpacket.toNat s.base.ascending.len + 14 ≤ bufferMaxChunk) :
    wp (onBase Channel.sendAscending)
      (fun _ s' => At k (l.sends s.sendableData (heldOf s')) s' ∧
        s'.stock = s.stock.send s.sendableData ∧ s'.subsystem = s.subsystem)
      never s := by
  obtain ⟨hcount, rfl⟩ := hs
  have hnothing : s.sendableData = [] →
      At k ((lifeOf k s).sends s.sendableData (heldOf s)) s ∧
        s.stock = s.stock.send s.sendableData ∧ s.subsystem = s.subsystem := by
    intro hnil
    rw [hnil, Stock.send_nil, sends, dataPackets, if_pos rfl, say_nil]
    exact ⟨⟨hcount, rfl⟩, rfl, rfl⟩
  rw [Channel.sendAscending, wp_onBase_read, wp_onBase_ite, wp_onBase_pure]
  refine ⟨fun hsend => ?_, fun hnot => hnothing ?_⟩
  · have hinput : s.base.currentInputState ≠ .closed := by
      rcases hsend.1 with h | h <;> rw [h] <;> decide
    have hdata : s.sendableData = s.base.ascending.contents.take s.base.sendable.toNat :=
      if_neg hinput
    obtain ⟨hlen, hwin, hmax⟩ := sendable_le s.base
    rw [wp_onBase_ite, wp_onBase_pure]
    refine ⟨fun hpos => ?_, fun hzero => hnothing ?_⟩
    · have hne : 0 < s.base.sendable.toNat := UInt32.lt_iff_toNat_lt.mp hpos
      have hdlen : s.sendableData.length = s.base.sendable.toNat := by
        rw [hdata, length_take, contents_length]
        omega
      have hpackets : dataPackets s.base.remoteId s.sendableData =
          [⟨Ssh2Msg.channelData, putU32 s.base.remoteId ++ putString s.sendableData⟩] := by
        refine if_neg fun hnil => ?_
        rw [hnil] at hdlen
        exact absurd hdlen.symm (ne_of_gt hne)
      have hsent : UInt32.ofNat s.sendableData.length = s.base.sendable := by
        rw [hdlen, UInt32.ofNat_toNat]
      rw [wp_onBase_bind, onBase, wp_zoom, ← hdata]
      refine message_fits (.putString s.sendableData) ?_ fun con hcon => ?_
      · rw [putString_length, hdlen]
        omega
      -- `consume` does not fail: no more is sent than there is
      rw [wp_onBase_bind, onBase, wp_zoom, onAscending, wp_zoom]
      refine wp_mono (consume_spec _ _) ?_ fun _ _ hshort =>
        absurd hshort.2 (not_lt.mpr hlen)
      intro _ b hb
      rw [wp_onBase_modify]
      refine ⟨⟨hcount, ?_⟩, ?_, rfl⟩
      · simp only [lifeOf, sends, say, hcon, hpackets]
      · simp only [stock, Stock.send, hb.2, hdlen, UInt32.ofNat_toNat]
    · have hzero' : s.base.sendable.toNat = 0 := by
        have hle := UInt32.le_iff_toNat_le.mp (UInt32.not_lt.mp hzero)
        exact Nat.le_zero.mp hle
      rw [hdata, hzero', take_zero]
  · rw [sendableData]
    split
    case isTrue => rfl
    case isFalse hinput =>
      have hempty : ¬s.base.ascending.len > 0 := by
        intro hsome
        refine hnot ⟨?_, hsome⟩
        cases hstate : s.base.currentInputState with
        | «open» => exact .inl rfl
        | waitDrain => exact .inr rfl
        | closed => exact absurd hstate hinput
      have hnil : s.base.ascending.contents = [] := by
        rw [← length_eq_zero_iff, contents_length]
        omega
      rw [hnil, take_nil]

/-- What a call makes of the life of an opened channel -/
def Life.polled (l : Life) (d : Bytes) (held : Bool) : Life :=
  if l.input = .waitDrain ∧ held = false ∧ l.thread ≠ .running then (l.sends d held).finish
  else l.sends d held

theorem channelOutputPoll_polls (hs : At k l s) (hopened : l.isOpened = true)
    (hfits : min s.base.remoteMaxpacket.toNat s.base.ascending.len + 14 ≤ bufferMaxChunk) :
    wp channelOutputPoll
      (fun _ s' => At k (l.polled s.sendableData (s.stock.send s.sendableData).held) s' ∧
        s'.stock = s.stock.send s.sendableData)
      never s := by
  have hopened' : s.base.isOpened = true := (congrArg isOpened hs.life).trans hopened
  rw [channelOutputPoll, wp_read, Channel.channelOutputPoll,
    wp_onBase_read, hopened', if_neg (by decide), wp_onBase_bind]
  refine wp_mono_total (sendAscending_sends hs hfits) fun _ s1 h1 => ?_
  obtain ⟨hs1, hstock, hsub⟩ := h1
  have hqueue : s1.toChannel = s.toChannel := congrArg Stock.toChannel hstock
  -- `toChannel` and the thread have not changed since they were read
  have hdata : s.hasAscendingData s1.base = false ↔ s1.stock.held = false ∧ l.thread ≠
      .running := by
    rw [hasAscendingData_iff hs.counted, ← heldOf_stock, ← hs.life]
    simp only [heldOf, hqueue, lifeOf]
  have hinput : s1.base.currentInputState = l.input := congrArg input hs1.life
  rw [heldOf_stock] at hs1
  rw [← hstock, wp_onBase_read, wp_onBase_ite, wp_onBase_pure]
  refine ⟨fun hdrained => ?_, fun hnot => ⟨?_, rfl⟩⟩
  · obtain ⟨hempty, hthread⟩ := hdata.mp (by simpa using hdrained.2)
    have hpolled : l.polled s.sendableData s1.stock.held = (lifeOf k s1).finish :=
      (if_pos ⟨hinput.symm.trans hdrained.1, hempty, hthread⟩).trans (congrArg _ hs1.life.symm)
    rw [hpolled]
    have hfinish := finish_at (l := lifeOf k s1) (Q := fun _ => At k (lifeOf k s1).finish)
      (E := fun _ _ => False) ⟨hs1.counted, rfl⟩ fun _ h => h
    exact wp_and_mono hfinish (finish_still _ s1 rfl) fun _ _ h => h
  · have hpolled : l.polled s.sendableData s1.stock.held =
        l.sends s.sendableData s1.stock.held := by
      refine if_neg fun hdrained => ?_
      exact hnot ⟨hinput.trans hdrained.1, by simpa using hdata.mpr hdrained.2⟩
    rw [hpolled]
    exact hs1

end Poll

/-! ### `fill_event_array` -/

section Collect

variable {k : Bool} {l : Life} {s : SessionChannel} {s' : SessionChannel}

/-- The EOF marker is put only by a channel that is deleted then. -/
theorem collected (hcount : Counted s.toChannel)
    (h : lifeOf k s' = (lifeOf k s).collect ∧ s'.toChannel = s.toChannel ∧ Marked s.terminates s s')
    (hsame : StillBut s.stock s') : At k (lifeOf k s).collect s' ∧
      ((lifeOf k s).collect.deleted = true ∨ s'.stock = s.stock) := by
  obtain ⟨hlife, hqueue, hmarked⟩ := h
  refine ⟨⟨hqueue ▸ hcount, hlife⟩, ?_⟩
  cases hends : s.terminates with
  | true =>
    obtain ⟨hdead, hrcvd⟩ := terminates_dead k hends
    rw [collect_deletes hdead hrcvd]
    exact .inl rfl
  | false =>
    have hfrom : s'.fromChannel = s.fromChannel := by rwa [hends] at hmarked
    have hput : s.stock.fromChannel = s'.stock.fromChannel := hfrom.symm
    rw [StillBut, hput] at hsame
    exact .inr hsame

theorem not_full (hroom : (lifeOf k s).IsDead → s.stock.TakesEof) (hends : s.terminates = true)
    (hfull : s.fromChannel.writeBuf.hasRoom 4 = false) : False := by
  have hlen := hroom (terminates_dead k hends).1
  cases hfull.symm.trans (hasRoom_of_len hlen (by decide))

theorem garbageCollect_collects (hs : At k l s) (hroom : l.IsDead → s.stock.TakesEof) :
    wp garbageCollect
      (fun _ s' => At k l.collect s' ∧ (l.collect.deleted = true ∨ s'.stock = s.stock))
      never s := by
  obtain ⟨hcount, rfl⟩ := hs
  have hstill := (stillBut_frame (x := s.stock)).garbageCollect s rfl
  exact wp_mono (wp_and (garbageCollect_result k s) hstill)
    (fun _ _ h => collected hcount h.1 h.2) fun _ _ h => not_full hroom h.1.1 h.1.2.1

/-- With the output half closed there is nothing to do but to collect. -/
theorem fillEventArray_collects (hs : At k l s) (hclosed : l.output = .closed)
    (hroom : l.IsDead → s.stock.TakesEof) :
    wp fillEventArray
      (fun _ s' => At k l.collect s' ∧ (l.collect.deleted = true ∨ s'.stock = s.stock))
      never s := by
  obtain ⟨hcount, rfl⟩ := hs
  have hstate : s.base.currentOutputState = .closed := hclosed
  have hno : s.drains = false := by simp [drains, hstate]
  have hfill := fillEventArray_result k s
  rw [hno, Bool.false_or, if_neg Bool.false_ne_true] at hfill
  have hstill := (stillBut_frame (x := s.stock)).fillEventArray s rfl
  exact wp_mono (wp_and hfill hstill) (fun _ _ h => collected hcount h.1 h.2) fun _ _ h =>
    not_full hroom h.1.1 h.1.2.1

end Collect

/-! ### `channel_post` -/

section Post

variable {k : Bool} {l : Life} {s : SessionChannel}

open Stock (SameOut Forwards)

theorem descending2subproc_forwards (h : Forwards false s.stock) :
    wp descending2subproc
      (fun _ s' => SameOut s.stock s'.stock ∧ Forwards false s'.stock) never s := by
  have hchunk : s.base.descending.contents.length ≤ bufferMaxChunk := by
    rw [contents_length]
    exact h.chunk
  have hroom : s.base.descending.contents = [] ∨
      s.fromChannel.writeBuf.len + 4 ≤ 6 * bufferMaxChunk := by
    rcases h.room with hempty | hroom
    · left
      rw [← length_eq_zero_iff, contents_length]
      exact hempty
    · have hroom' : s.fromChannel.writeBuf.len + s.base.descending.len + 4 ≤ 6 * bufferMaxChunk :=
        hroom
      right
      omega
  rw [descending2subproc, wp_read, wp_bind, wp_zoom]
  refine wp_and_mono (SFTPChannel.put_fits hchunk _ _ hroom) (SFTPChannel.put_putTo _ _ _)
    fun _ t ht => ?_
  rw [onBase, wp_zoom, onDescending, wp_zoom]
  refine wp_mono (consume_spec _ _) (fun _ b hb => ⟨⟨rfl, rfl, rfl, rfl⟩, ?_⟩)
    fun _ _ hshort => absurd hshort.2 (lt_irrefl _)
  -- all of it has been put
  have hempty : b.len = 0 := by
    rw [← contents_length, hb.2, length_drop, contents_length, Nat.sub_self]
  refine ⟨?_, by show b.len ≤ _; omega, .inl hempty, fun hno => by cases hno⟩
  show t.1.writeBuf.len ≤ _
  have hlen := ht.2.len_le
  rw [contents_length] at hlen
  obtain ⟨-, hsame⟩ | ⟨hsome, -⟩ := ht.2
  · rw [hsame]
    exact h.marker
  · have hroom' : s.fromChannel.writeBuf.len + s.base.descending.len + 4 ≤ 6 * bufferMaxChunk :=
      h.room.resolve_left fun hnone => hsome (length_eq_zero_iff.mp
        (s.base.descending.contents_length.trans hnone))
    omega

/-- A complete message stands at the beginning, with its own length field. -/
theorem framed_cons {b : Buffer} (hframed : Stock.Framed b.contents)
    (hcomplete : SFTPChannel.isCompletePacketInDescending b = true) :
    ∃ m rest, b.contents = putString m ++ rest ∧ Stock.Framed rest := by
  obtain ⟨msgs, rest, hcontents, hrest⟩ := hframed
  cases msgs with
  | nil =>
    rw [frames, flatMap_nil, nil_append] at hcontents
    rw [Stock.Incomplete, ← hcontents, contents_length] at hrest
    rw [SFTPChannel.isCompletePacketInDescending, SFTPChannel.msgLen] at hcomplete
    rcases hrest with hshort | hmore
    · rw [if_pos hshort] at hcomplete
      cases hcomplete
    · split at hcomplete
      case isTrue => cases hcomplete
      case isFalse =>
        rw [decide_eq_true hmore] at hcomplete
        cases hcomplete
  | cons m msgs =>
    refine ⟨m, frames msgs ++ rest, ?_, msgs, rest, rfl, hrest⟩
    rw [hcontents, frames, flatMap_cons, append_assoc]
    rfl

/-- What is left after a message has been passed on can be put as before. -/
theorem SFTPChannel.Passed.forwards {m : Bytes} (h : Passed m s s')
    (hm : m.length ≤ bufferMaxChunk) (hs : Forwards true s.stock) : Forwards true s'.stock := by
  have hchunk : s.base.descending.len ≤ bufferMaxChunk := hs.chunk
  have hdescending := h.descending
  have hqueue := h.queue.len_le
  split at hdescending
  case isTrue hcomplete =>
    obtain ⟨m', rest, hcontents, hrest⟩ :=
      framed_cons (b := s.base.descending) (hs.framed rfl) hcomplete
    have hlen : s.base.descending.len = 4 + m.length + s'.base.descending.len := by
      rw [← contents_length, hdescending, length_append, putString_length, contents_length]
    have hm' : m'.length ≤ bufferMaxChunk := by
      rw [← contents_length, hcontents, length_append, putString, length_append]
        at hchunk
      omega
    have htail : s'.base.descending.contents = rest :=
      (putString_append_inj (hm.trans_lt (by decide)) (hm'.trans_lt (by decide))
        (hdescending.symm.trans hcontents)).2
    have hroom : s.fromChannel.writeBuf.len + s.base.descending.len + 4 ≤ 6 * bufferMaxChunk :=
      hs.room.resolve_left (by show s.base.descending.len ≠ 0; omega)
    refine ⟨?_, ?_, .inr ?_, fun _ => ?_⟩
    · show s'.fromChannel.writeBuf.len ≤ _
      omega
    · show s'.base.descending.len ≤ _
      omega
    · show s'.fromChannel.writeBuf.len + s'.base.descending.len + 4 ≤ _
      omega
    · show Stock.Framed s'.base.descending.contents
      rw [htail]
      exact hrest
  case isFalse =>
    -- only the count of consumed bytes has been fetched
    obtain ⟨hnil, hsame⟩ := hdescending
    obtain ⟨-, hq⟩ | ⟨hne, -⟩ := h.queue
    · refine ⟨?_, ?_, ?_, ?_⟩ <;> simp only [Stock.TakesEof, stock, hsame, hq]
      exacts [hs.marker, hs.chunk, hs.room, fun _ => hs.framed rfl]
    · exact absurd hnil hne

theorem sftpDescending2subproc_forwards (h : Forwards true s.stock) :
    wp SFTPChannel.descending2subproc
      (fun _ s' => SameOut s.stock s'.stock ∧ Forwards true s'.stock) never s := by
  have hchunk : s.base.descending.len ≤ bufferMaxChunk := h.chunk
  have hfits := SFTPChannel.descending2subproc_fits (s := s) fun hcomplete => by
    obtain ⟨m, rest, hcontents, -⟩ := framed_cons (b := s.base.descending) (h.framed rfl) hcomplete
    have hlen : s.base.descending.len = 4 + m.length + rest.length := by
      rw [← contents_length, hcontents, length_append, putString_length]
    have hroom : s.fromChannel.writeBuf.len + s.base.descending.len + 4 ≤ 6 * bufferMaxChunk :=
      h.room.resolve_left (by show s.base.descending.len ≠ 0; omega)
    rw [SFTPChannel.msgLen_putString hcontents (by omega)]
    omega
  refine wp_and_mono hfits (SFTPChannel.descending2subproc_result s) fun _ s' h' => ?_
  obtain ⟨-, m, hm, hpassed⟩ := h'
  refine ⟨?_, hpassed.forwards hm h⟩
  rw [hpassed.others]
  exact ⟨rfl, rfl, rfl, rfl⟩

open BusyThreadReadBuffer (Queues Takes)

namespace Stock

variable (sftp : Bool) (clean : Prop) (msgs : List Bytes) (x x' : Stock)

/-- The oldest message has come to `ascending`. -/
structure Pulls : Prop where
  queue : Queues clean x'.toChannel (msgs.drop 1)
  ascending : x'.ascending = x.ascending ++ (msgs.take 1).flatMap (ReadRun.format sftp)
  remoteWindow : x'.remoteWindow = x.remoteWindow
  remoteMaxpacket : x'.remoteMaxpacket = x.remoteMaxpacket

/-- What `channel_post` makes of the stock -/
structure Posts : Prop extends Pulls sftp clean msgs x x' where
  forwards : Forwards sftp x'

/-- What it makes of the channel, which is collected at the end -/
def PostsTo (l l' : Life) (x' : Stock) : Prop :=
  ∃ x₁ held ps, x.Posts sftp clean msgs x₁ ∧ Life.Plain ps ∧
    l' = ({ l.say ps with held := held } : Life).collect ∧ (l'.deleted = true ∨ x' = x₁)

/-- What `subproc2ascending` makes of it -/
structure Gets : Prop extends Pulls sftp clean msgs x x' where
  descending : x'.descending = x.descending
  fromChannel : x'.fromChannel = x.fromChannel

end Stock

variable {clean : Prop} {msgs : List Bytes}

theorem getAs_moves (sftp : Bool) (hs : At k l s) (hq : Queues clean s.toChannel msgs)
    (htakes : ∀ m ∈ msgs.take 1, Takes m s.base.ascending) :
    wp (getAs sftp) (fun _ s' => At k { l with held := s'.stock.held } s' ∧
      s.stock.Gets sftp clean msgs s'.stock) never s := by
  obtain ⟨hcount, rfl⟩ := hs
  rw [getAs, wp_bind, wp_zoom]
  refine wp_mono_total (BusyThreadReadBuffer.get_moves hq _ htakes) fun _ t ht => ?_
  rw [wp_pure]
  refine ⟨⟨ht.1.counters.1, ?_⟩, ⟨ht.1, ht.2, rfl, rfl⟩, rfl, rfl⟩
  rw [← heldOf_stock]
  rfl

theorem putAs_forwards {sftp : Bool} (h : Forwards sftp s.stock) :
    wp (putAs sftp) (fun _ s' => SameOut s.stock s'.stock ∧ Forwards sftp s'.stock) never s := by
  cases sftp with
  | false => exact descending2subproc_forwards h
  | true => exact sftpDescending2subproc_forwards h

/-- `channel_post` of the base class, with the functions of either class -/
theorem post_moves {sftp : Bool} (hs : At k l s) (hopened : l.isOpened = true)
    (hq : Queues clean s.toChannel msgs) (htakes : ∀ m ∈ msgs.take 1, Takes m s.base.ascending)
    (hforwards : Forwards sftp s.stock) :
    wp (postAs sftp)
      (fun _ s' => ∃ l', At k l' s' ∧ s.stock.PostsTo sftp clean msgs l l' s'.stock) never s := by
  have hopened' : s.base.isOpened = true := (congrArg isOpened hs.life).trans hopened
  rw [wp_postAs]
  refine ⟨fun _ => ?_, fun hnot => by cases hopened'.symm.trans hnot⟩
  refine wp_mono_total (getAs_moves sftp hs hq htakes) fun _ s1 h1 => ?_
  obtain ⟨hs1, hgets⟩ := h1
  have hforwards1 : Forwards sftp s1.stock := by
    refine ⟨?_, ?_, ?_, ?_⟩
    · rw [Stock.TakesEof, hgets.fromChannel]
      exact hforwards.marker
    · rw [hgets.descending]
      exact hforwards.chunk
    · rw [hgets.descending, hgets.fromChannel]
      exact hforwards.room
    · rw [hgets.descending]
      exact hforwards.framed
  refine wp_and_mono (putAs_forwards hforwards1) (putAs_at sftp s1 hs1) fun _ s2 h2 => ?_
  obtain ⟨⟨hsame, hforwards2⟩, hs2⟩ := h2
  have hcheck := channelCheckWindow_at (E := never)
    (Q := fun _ s' => ∃ ps, Life.Plain ps ∧
      At k (({ l with held := s1.stock.held } : Life).say ps) s') hs2
      fun ps _ hps hs' => ⟨ps, hps, hs'⟩
  refine wp_and_mono hcheck (channelCheckWindow_still s2 rfl) fun _ s3 h3 => ?_
  obtain ⟨⟨ps, hps, hs3⟩, hstill⟩ := h3
  have hroom : s3.stock.TakesEof := hstill ▸ hforwards2.marker
  refine wp_mono_total (garbageCollect_collects hs3 fun _ => hroom) fun _ s4 h4 => ?_
  obtain ⟨hs4, hstock4⟩ := h4
  rw [hstill] at hstock4
  refine ⟨_, hs4, s2.stock, _, ps, ⟨⟨?_, ?_, ?_, ?_⟩, hforwards2⟩, hps, rfl, hstock4⟩
  · rw [hsame.toChannel]
    exact hgets.queue
  · rw [hsame.ascending, hgets.ascending]
  · rw [hsame.remoteWindow, hgets.remoteWindow]
  · rw [hsame.remoteMaxpacket, hgets.remoteMaxpacket]

end Post

end Shiesh.Channels
