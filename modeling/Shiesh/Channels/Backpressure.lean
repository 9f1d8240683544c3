import Shiesh.Channels.Drain
import Shiesh.Channels.ServerRules

/-!
# Output That the Peer Does Not Take

A subsystem's thread puts its messages into `toChannel`, and `channel_post` moves them on to
`ascending`, whatever the peer has granted: the window is looked at when data is sent, and when
`fill_event_array` decides which channels to wait for. So the two buffers grow as long as the
thread goes on. They are safe from the limit of 10 MB as long as they are found with no more than
6 MB in them.
-/

namespace Shiesh.Channels

open Shiesh.Lib SessionChannel Buffer List

/-! ## §1 Calls that fill the buffers -/

namespace Server

/-- What the call appends to `toChannel` or to `ascending` is appended. No other call appends to
them. -/
def Appends (event : ChannelObject.Event) (e : Entry) : Prop :=
  match event with
  | .session (.workerPut data) =>
    returns (BusyThreadReadBuffer.put data) e.object.session.toChannel = true
  | .session .post => e.object.session.base.isOpened = true →
    returns (BusyThreadReadBuffer.get e.object.sftp)
      (e.object.session.toChannel, e.object.session.base.ascending) = true
  | _ => True

/-- The message is one that `buffer_get_string` takes, and the buffer that it is appended to holds
no more than 6 MB. -/
def Roomy (event : ChannelObject.Event) (e : Entry) : Prop :=
  match event with
  | .session (.workerPut data) => data.length ≤ 256 * 1024 ∧
    e.object.session.toChannel.writeBuf.len + 4 ≤ 6 * bufferMaxChunk
  | .session .post => e.object.session.base.ascending.len + 4 ≤ 6 * bufferMaxChunk
  | _ => True

instance Roomy.decidable (event : ChannelObject.Event) (e : Entry) : Decidable (Roomy event e) := by
  unfold Roomy
  split <;> infer_instance

end Server

namespace BusyThreadReadBuffer

variable {q : BusyThreadReadBuffer} {data : Bytes}

/-- The queue holds messages that can be taken, and nothing else. -/
def Short (q : BusyThreadReadBuffer) : Prop :=
  ∃ msgs, Queues True q msgs ∧ ∀ m ∈ msgs, m.length ≤ 256 * 1024

theorem short_empty : Short {} := ⟨[], queues_empty, fun _ hm => absurd hm not_mem_nil⟩

theorem put_short (hq : q.Short) (hdata : data.length ≤ 256 * 1024)
    (hroom : q.writeBuf.len + 4 ≤ 6 * bufferMaxChunk) : wp (put data) (fun _ => Short) never q := by
  obtain ⟨msgs, hqueues, hshort⟩ := hq
  have hfits : wp (put data) any never q := by
    rw [put, wp_bind, wp_zoom]
    refine wp_mono_total (putString_fits hroom (hdata.trans (by decide))) fun _ _ _ => ?_
    rw [wp_modify]
    exact trivial
  refine wp_mono (wp_and (put_queues hqueues data) hfits) (fun _ q' hq' => ?_) fun _ _ h => h.2
  refine ⟨_, hq'.1, fun m hm => ?_⟩
  rcases mem_append.mp hm with hbefore | hlast
  · exact hshort m hbefore
  · rw [mem_singleton.mp hlast]
    exact hdata

/-- Whatever the buffer is that the message goes to -/
theorem get_short (asString : Bool) (hq : q.Short) (out : Buffer) :
    wp (get asString) (fun _ t => t.1.Short)
      (fun _ _ => ¬out.len + 4 ≤ 6 * bufferMaxChunk) (q, out) := by
  obtain ⟨msgs, hqueues, hshort⟩ := hq
  cases msgs with
  | nil =>
    refine wp_mono_total (get_nil hqueues out) fun _ t ht => ⟨[], ht.1, hshort⟩
  | cons m msgs =>
    refine wp_mono (get_cons hqueues out) (fun _ t ht => ⟨msgs, ht.1, ?_⟩) fun _ _ hnot hroom => ?_
    · exact fun m' hm' => hshort m' (mem_cons_of_mem _ hm')
    · exact hnot ⟨hshort m mem_cons_self, hroom⟩

end BusyThreadReadBuffer

/-! ## §2 Runs that find room -/

namespace Server

open BusyThreadReadBuffer (Short get_short put put_short short_empty)

theorem roomy_rules :
    Rules (fun _ e => e.object.session.toChannel.Short) (fun _ => True) Roomy where
  step {_ event e} he hroomy hlive := by
    rw [ChannelObject.step_live hlive]
    have htoChannel := ChannelObject.stepEvent_toChannel (o := e.object) (P := Short)
      (F := fun _ => False) event he
    refine wp_weaken (htoChannel ?_ ?_) fun _ o' ho' => ?_
    · intro _ _ asString
      exact wp_weaken (get_short asString he _) fun _ _ ht => ht
    · intro data hput _
      subst hput
      exact put_short he hroomy.1 hroomy.2
    · exact ho'.resolve_right fun hfailed => hfailed.1
  exitMsg {_ e} he _ hlive := by
    rw [ChannelObject.step_live hlive]
    refine wp_weaken (ChannelObject.stepEvent_holding (.session .exitMsg) (by simp) (by simp)
      (q := e.object.session.toChannel) e.object rfl) fun _ o' ho' => ?_
    show o'.session.toChannel.Short
    rw [ho']
    exact he
  raise he := he
  gone he _ := he
  signal he _ := he
  safe _ := trivial
  create ctype number birth remoteId rwindow rmaxpack := by
    intro o e
    have hlive : o.session.deleted = false := by
      cases ctype with
      | session => rfl
      | directTcpip => rfl
    have hempty := ChannelObject.createDerivation_holding ctype
      (UInt32.ofNat number) remoteId rwindow
      rmaxpack
    refine wp_and_mono
      (ChannelObject.confirmOpen_sound (ChannelObject.createDerivation_sound ..) hlive)
      (ChannelObject.confirmOpen_holding o hempty) fun _ o' ho' => ⟨?_, ho'.1.2⟩
    have ho' : o'.session.toChannel = {} := ho'.2
    show o'.session.toChannel.Short
    rw [ho']
    exact short_empty

theorem appends_of_roomy {event : ChannelObject.Event} {e : Entry}
    (he : e.object.session.toChannel.Short) (hroomy : Roomy event e) : Appends event e := by
  unfold Appends
  unfold Roomy at hroomy
  split
  case h_1 data => exact returns_of_wp (put_short he hroomy.1 hroomy.2)
  case h_2 =>
    intro _
    refine returns_of_wp (Q := fun _ _ => True) ?_
    exact wp_mono (get_short _ he _) (fun _ _ _ => trivial)
      fun _ _ hnot => hnot hroomy
  case h_3 => exact trivial

/-- **Output never overflows a buffer that is found with room**: in every run whose calls find the
buffers with no more than 6 MB in them, and whose messages are of at most 256K, all that is
appended to `toChannel` and to `ascending` is appended, whatever window the peer grants. -/
theorem output_appended (events : List Event) (h : Meets step (Finds Roomy) events {}) :
    Meets step (Finds Appends) events {} := by
  refine .carry (fun event s hs hC => step_allKeep roomy_rules event hs hC)
    (fun event s hs hC => ?_) h init_allKeep
  exact hC.imp fun id e he event hroomy => appends_of_roomy (hs.live id e he).1 hroomy

/-- A message is put and moved on, and the peer has granted nothing. -/
theorem output_appended_once :
    let events : List Event :=
      [.channelOpen (some .session) 7 0 0x8000 true false, .message 1 (.startSubsystem true true),
        .thread 1 (.put [1, 2, 3])] ++ replicate 6 (.round false)
    Meets step (Finds Roomy) events {} ∧ Meets step (Finds Appends) events {} :=
  have hroomy : Meets step (Finds Roomy)
      ([.channelOpen (some .session) 7 0 0x8000 true false, .message 1 (.startSubsystem true true),
        .thread 1 (.put [1, 2, 3])] ++ replicate 6 (.round false)) {} := by decide +kernel
  ⟨hroomy, output_appended _ hroomy⟩

/-! ## §3 A peer that grants nothing -/

/-- The longest message that `buffer_get_string` takes -/
def chunk : Bytes := List.replicate (256 * 1024) 0

/-- A channel is opened with a window of 0, its subsystem is started, and `server_loop` comes to
wait. -/
def opening : List Event :=
  [.channelOpen (some .session) 7 0 0x8000 true false, .message 1 (.startSubsystem true true),
    .round false, .round false, .round false]

/-- Then the thread puts messages. Nobody is woken: the channel's event is not in the array. -/
def silentPeer (n : Nat) : List Event := opening ++ List.replicate n (.thread 1 (.put chunk))

/-- A channel whose thread may put, and that holds `n` of the messages -/
def Holds (n : Nat) (o : ChannelObject) : Prop :=
  (o.cls ≠ .tcpClient ∧ o.session.deleted = false) ∧
    o.session.subsystem.map Worker.pc = some .outside ∧
    o.session.toChannel.writeBuf.len = n * (256 * 1024 + 4)

instance (n : Nat) (o : ChannelObject) : Decidable (Holds n o) :=
  inferInstanceAs (Decidable ((_ ∧ _) ∧ _ ∧ _))

variable {n : Nat} {o : ChannelObject}

/-- No buffer holds 10 MB. -/
theorem Holds.bound (h : Holds n o) : n * (256 * 1024 + 4) < bufferMaxLen := by
  obtain ⟨-, -, hlen⟩ := h
  have halloc := o.session.toChannel.writeBuf.lt_alloc
  have hmax := o.session.toChannel.writeBuf.alloc_le
  rw [← hlen, len]
  omega

theorem put_longer {q : BusyThreadReadBuffer} (hlen : q.writeBuf.len = n * (256 * 1024 + 4))
    (hreturns : returns (put chunk) q = true) :
    wp (put chunk)
      (fun _ q' => q'.writeBuf.len = (n + 1) * (256 * 1024 + 4)) never q := by
  refine wp_of_returns (E := fun _ _ => True) ?_ hreturns
  rw [put, wp_bind, wp_zoom]
  refine wp_weaken (putString_spec chunk _) fun _ b hb => ?_
  rw [wp_modify]
  rw [← contents_length, hb, length_append, contents_length, hlen, putString_length, chunk,
    length_replicate]
  omega

theorem workerPut_holds (h : Holds n o)
    (hreturns : returns (put chunk) o.session.toChannel = true) :
    wp (ChannelObject.step (.session (.workerPut chunk))) (fun _ => Holds (n + 1))
      never o := by
  obtain ⟨⟨hcls, hlive⟩, hpc, hlen⟩ := h
  obtain ⟨w, hsub, hw⟩ := Option.map_eq_some_iff.mp hpc
  have hnot : ¬(o.cls = .tcpClient ∧ o.session.base.isOpened = false) :=
    fun hconnecting => hcls hconnecting.1
  rw [ChannelObject.step_live hlive]
  show wp (ChannelObject.afterConnect (stepEvent (.workerPut chunk))) _ _ _
  rw [ChannelObject.afterConnect, wp_read, if_neg hnot, onSession, wp_zoom,
    stepEvent, workerAt, wp_read, hsub]
  simp only
  rw [if_pos hw, wp_tryCatch, wp_zoom]
  refine wp_mono_total (put_longer hlen hreturns) fun _ q hq => ?_
  exact ⟨⟨hcls, hlive⟩, hpc, hq⟩

/-- It is channel 1. -/
def Fed (n : Nat) (s : Server) : Prop := ∃ e ∈ s.channels.getObjectById 1, Holds n e.object

instance (n : Nat) (s : Server) : Decidable (Fed n s) :=
  inferInstanceAs (Decidable (∃ _ ∈ _, Holds _ _))

theorem put_fed (h : Fed n s) (hC : Finds Appends (.thread 1 (.put chunk)) s) :
    wp (step (.thread 1 (.put chunk))) (fun _ => Fed (n + 1)) never s := by
  obtain ⟨e, hget, hholds⟩ := h
  refine wp_onObject_some hget ?_
  refine wp_mono_total (workerPut_holds hholds (hC e hget)) fun _ o ho => ?_
  refine ⟨e.after o, ?_, ho⟩
  rw [getObjectById_update hget, if_pos rfl, ho.1.2]
  exact if_neg Bool.false_ne_true

theorem puts_fed {k : Nat} (h : Fed n s)
    (hmeets : Meets step (Finds Appends) (replicate k (.thread 1 (.put chunk))) s) :
    (n + k) * (256 * 1024 + 4) < bufferMaxLen := by
  induction k generalizing n s with
  | zero =>
    obtain ⟨e, -, hholds⟩ := h
    exact hholds.bound
  | succ k ih =>
    rw [replicate_succ] at hmeets
    obtain ⟨hC, hrest⟩ := hmeets
    obtain ⟨_, s', hok, hs'⟩ := ok_of_wp_total (put_fed h hC)
    rw [hok] at hrest
    have hbound := ih hs' hrest
    rwa [Nat.add_right_comm] at hbound

/-- **A slow reader**: not all of the 41 messages fit into `toChannel`. -/
theorem silent_peer_overflows : ¬Meets step (Finds Appends) (silentPeer 41) {} := by
  intro hmeets
  have hreturns : returns (runAll step opening) {} = true := by decide +kernel
  have hfed : Fed 0 (endState (runAll step opening) {}) := by decide +kernel
  have hputs := (meets_append.mp hmeets).2 _ (ok_endState hreturns)
  exact absurd (puts_fed hfed hputs) (by decide)

end Server

end Shiesh.Channels
