import Shiesh.Channels.Relay
import Shiesh.Sftp.Outgoing

/-!
# The Framing of SFTP Messages

A message of the client has a length field when it comes out of CHANNEL_DATA, none in the queue to
the subsystem, where it is one string, and again one in `iqueue`. A reply goes the same way back.
The client may cut its stream as it likes: `process` is called once for each message, in their
order, with this message and nothing else in `iqueue`, and the replies come to `ascending` in the
order in which they were sent.

This needs room in the buffers, because nothing stops the subsystem from sending, and replies that
`buffer_get_string` takes: for a long path SSH2_FXP_REALPATH makes one that it does not take, and
`channel_post` fails on it.
-/

namespace Shiesh.Sftp

open Shiesh.Lib Shiesh.Channels List
open BusyThreadReadBuffer (Queues)
open SFTPChannel (frames_cons getCall isCompletePacketInDescending isComplete_iff msgLen
  wp_getCall)

variable {ω : Type}

/-! ## §1 A channel with its subsystem -/

/-- An `SFTPChannel` and its `SFTP`, with a record of what happened. The queue `toChannel` is that
of the channel. -/
structure Dialogue (ω : Type) where
  channel : SessionChannel
  sftp : SFTP ω
  -- `iqueue` at the calls of `process`
  invoked : List Bytes := []
  -- what `process` has put into `toChannel`
  replies : List Bytes := []
  -- what `channel_post` has added to `ascending`
  appended : Bytes := []

/-- What ends the work: something thrown in the connection's thread, or by `process` -/
inductive Fault where
  | channel (h : Halt)
  | process (e : SftpError)

abbrev DialogueM (ω : Type) := EStateM Fault (Dialogue ω)

namespace Dialogue

inductive Event where
  -- CHANNEL_DATA
  | data (chunk : Bytes)
  | post
  -- the subsystem's `get`, and `process` when it has got a message
  | get
  | outputPoll
  | windowAdjust (adjust : UInt32)
  | fillEventArray

def onChannel {α : Type} (m : SessionM α) : DialogueM ω α :=
  zoomWith .channel channel (fun c d => { d with channel := c }) m

def post : DialogueM ω Unit := do
  let before := (← get).channel.base.ascending.len
  onChannel (SFTPChannel.step .post)
  modify fun d =>
    { d with appended := d.appended ++ d.channel.base.ascending.contents.drop before }

section Server

variable (os : Win32 ω) (home : SFTPFilePath)

/-- The body of the loop of `SFTP::run`, behind `get` -/
def serve (msg : Bytes) : DialogueM ω Unit := do
  -- "copy to SFTP::iqueue"
  modify fun d =>
    { d with sftp := { d.sftp with
        iqueue := d.sftp.iqueue ++ putString msg
        toChannel := d.channel.toChannel } }
  modify fun d => { d with invoked := d.invoked ++ [d.sftp.iqueue] }
  zoomWith .process sftp (fun s d => { d with sftp := s }) (process os home)
  modify fun d =>
    { d with
      replies := d.replies ++
        d.sftp.toChannel.messages.drop d.channel.toChannel.messages.length
      channel := { d.channel with toChannel := d.sftp.toChannel } }

/-- What `get` has returned, if it does not wait -/
def serveNew : List Bytes → DialogueM ω Unit
  | [] => pure ()
  | msg :: _ =>
    -- "exit the thread"
    if msg = [] then onChannel (SFTPChannel.step .workerExit) else serve os home msg

def received (d : Dialogue ω) : List Bytes :=
  match d.channel.subsystem with
  | some w => w.received
  | none => []

def getMessage : DialogueM ω Unit := do
  let before := (← get).received.length
  onChannel getCall
  let now := (← get).received
  serveNew os home (now.drop before)

def step : Event → DialogueM ω Unit
  | .data chunk => onChannel (SFTPChannel.step (.data (putString chunk)))
  | .post => post
  | .get => getMessage os home
  | .outputPoll => onChannel (SFTPChannel.step .outputPoll)
  | .windowAdjust adjust => onChannel (SFTPChannel.step (.windowAdjust (putU32 adjust)))
  | .fillEventArray => onChannel (SFTPChannel.step .fillEventArray)

end Server

/-- The bytes of the client's stream in an event -/
def Event.bytes : Event → Bytes
  | .data chunk => chunk
  | _ => []

def arrived (events : List Event) : Bytes := events.flatMap Event.bytes

/-- DATA is within the window, and every other call has room for what it adds. -/
def Fits : Event → Dialogue ω → Prop
  | .data chunk, d => chunk.length ≤ 256 * 1024 ∧
      UInt32.ofNat chunk.length ≤ d.channel.base.localWindow
  | .post, d => d.channel.base.ascending.len + 4 ≤ 6 * bufferMaxChunk ∧
      d.channel.fromChannel.writeBuf.len + 4 ≤ 6 * bufferMaxChunk
  | .get, d => d.channel.toChannel.writeBuf.len + 4 ≤ 6 * bufferMaxChunk
  | .outputPoll, d =>
      min d.channel.base.remoteMaxpacket.toNat d.channel.base.ascending.len + 14 ≤ bufferMaxChunk
  | .windowAdjust _, _ | .fillEventArray, _ => True

instance Fits.decidable (event : Event) (d : Dialogue ω) : Decidable (Fits event d) :=
  match event with
  | .data _ => inferInstanceAs (Decidable (_ ∧ _))
  | .post => inferInstanceAs (Decidable (_ ∧ _))
  | .get => inferInstanceAs (Decidable (_ ≤ _))
  | .outputPoll => inferInstanceAs (Decidable (_ ≤ _))
  | .windowAdjust _ => isTrue trivial
  | .fillEventArray => isTrue trivial

/-! ## §2 What has passed between them -/

variable {msgs served queued : List Bytes} {bytes : Bytes} {d d' : Dialogue ω}

/-- Of the messages the first ones have been served and the next ones queued; of the others a part
may have arrived. -/
structure Talks (msgs served queued : List Bytes) (bytes : Bytes) (d : Dialogue ω) : Prop where
  isOpen : SFTPChannel.Open d.channel
  granted : SFTPChannel.Granted d.channel
  worker : ∃ w, d.channel.subsystem = some w ∧ Waiting d.channel.fromChannel w queued
  stream : frames (served ++ queued) ++ d.channel.base.descending.contents = bytes
  order : served ++ queued <+: msgs
  invoked : d.invoked = served.map putString
  iqueue : d.sftp.iqueue = []
  replies : ∃ taken rs, d.replies = taken ++ rs ∧ Queues True d.channel.toChannel rs ∧
    (∀ r ∈ rs, r.length ≤ maxString) ∧ d.appended = frames taken

/-- `process` has thrown; up to then everything was in order. -/
def Broken (msgs : List Bytes) (e : Fault) (d : Dialogue ω) : Prop :=
  (∃ x, e = .process x) ∧ d.invoked <+: msgs.map putString ∧
    ∃ taken, taken <+: d.replies ∧ d.appended = frames taken

theorem frames_append (a b : List Bytes) : frames (a ++ b) = frames a ++ frames b :=
  flatMap_append

/-- What is in `descending` is the beginning of what has not been queued. -/
theorem Talks.unqueued (h : Talks msgs served queued bytes d) (hcut : bytes <+: frames msgs) :
    ∃ left, msgs = served ++ queued ++ left ∧
      d.channel.base.descending.contents <+: frames left := by
  obtain ⟨left, hleft⟩ := h.order
  refine ⟨left, hleft.symm, ?_⟩
  rw [← h.stream, ← hleft, frames_append (served ++ queued) left] at hcut
  exact (prefix_append_right_inj _).mp hcut

variable {b : Buffer} {m : Bytes} {left : List Bytes}

/-- The length field of what has arrived is that of the next message. -/
theorem msgLen_of_prefix
    (hb : b.contents <+: frames (m :: left)) (hm : m.length ≤ bufferMaxChunk) (hfour : 4 ≤ b.len) :
    (msgLen b).toNat = m.length := by
  have htake : b.contents.take 4 = (frames (m :: left)).take 4 := by
    obtain ⟨rest, hrest⟩ := hb
    rw [← hrest, take_append_of_le_length (by rw [Buffer.contents_length]; exact hfour)]
  rw [msgLen, htake, frames_cons, putString, append_assoc,
    take_left' (putU32_length _), getU32_putU32, SFTPChannel.toNat_length hm]

/-- A message that is recognised has arrived as a whole. -/
theorem complete_of_prefix (hb : b.contents <+: frames left)
    (hleft : ∀ m ∈ left, m.length ≤ maxString) (hcomplete : isCompletePacketInDescending b = true) :
    ∃ m rest, left = m :: rest ∧ (msgLen b).toNat = m.length ∧
      4 + m.length ≤ b.len := by
  obtain ⟨hfive, hsum⟩ := (isComplete_iff b).mp hcomplete
  cases left with
  | nil =>
    have hnil : b.contents = [] := prefix_nil.mp hb
    rw [← Buffer.contents_length, hnil] at hfive
    cases hfive
  | cons m rest =>
    have hm := hleft m mem_cons_self
    have hlen := msgLen_of_prefix hb (hm.trans (by decide)) (by omega)
    refine ⟨m, rest, rfl, hlen, ?_⟩
    rw [hlen] at hsum
    simp only [maxString] at hm
    omega

/-- When all has arrived, the next message is recognised. -/
theorem complete_of_all
    (hb : b.contents = frames (m :: left)) (hm : 1 ≤ m.length) (hshort : m.length ≤ maxString) :
    isCompletePacketInDescending b = true := by
  have hlen : b.len = 4 + m.length + (frames left).length := by
    rw [← Buffer.contents_length, hb, frames_cons, length_append, putString_length]
  have hfield := SFTPChannel.msgLen_frames hb (hshort.trans (by decide))
  rw [isComplete_iff, hfield]
  simp only [maxString] at hshort
  omega

/-! ## §3 One step -/

section Step

variable (os : Win32 ω) (home : SFTPFilePath)

/-- Messages are not forgotten, and one that is queued stays there until it is served. -/
def Advances (served queued served' queued' : List Bytes) : Prop :=
  served <+: served' ∧ (queued ≠ [] → served.length < served'.length ∨ queued' ≠ [])

theorem advances_refl : Advances served queued served queued := ⟨prefix_rfl, .inr⟩

theorem wp_onChannel {m : SessionM Unit} {Q : Unit → Dialogue ω → Prop}
    {E : Fault → Dialogue ω → Prop} :
    wp (onChannel m) Q E d ↔
      wp m
        (fun a c => Q a { d with channel := c }) (fun e c => E (.channel e) { d with channel := c })
        d.channel := by
  rw [onChannel, wp_zoomWith]

variable {c : SessionChannel} {event : Event} {n : Nat}

variable (h : Talks msgs served queued bytes d)
include h

theorem Talks.beside
    (hc : SFTPChannel.Beside d.channel c) (hgranted : SFTPChannel.Granted c) :
    Talks msgs served queued bytes { d with channel := c } where
  isOpen := hc.isOpen
  granted := hgranted
  worker := by
    rw [hc.subsystem, hc.fromChannel]
    exact h.worker
  stream := by
    rw [hc.descending]
    exact h.stream
  order := h.order
  invoked := h.invoked
  iqueue := h.iqueue
  replies := by
    rw [hc.toChannel]
    exact h.replies

theorem Talks.counted : Counted d.channel.toChannel := by
  obtain ⟨-, rs, -, hqueue, -⟩ := h.replies
  exact hqueue.counters.1

/-- A call that has nothing to do with the stream -/
theorem beside_talks {event : SessionChannel.Event}
    (hevent : event.grantsNothing = true)
    (hbeside : wp (SFTPChannel.step event) (fun _ => SFTPChannel.Beside d.channel)
      never d.channel) :
    wp (onChannel (SFTPChannel.step event)) (fun _ => Talks msgs served queued bytes)
      never d := by
  rw [wp_onChannel]
  exact wp_and_mono hbeside (h.granted.quiet hevent) fun _ _ hc => h.beside hc.1 hc.2

theorem data_talks {chunk : Bytes}
    (hfits : Fits (.data chunk) d) :
    wp (step os home (.data chunk)) (fun _ => Talks msgs served queued (bytes ++ chunk))
      never d := by
  obtain ⟨hshort, hwindow⟩ := hfits
  have hdata := SFTPChannel.data_appends h.isOpen hshort hwindow h.granted.room
  have hgranted := h.granted.step (wp_mono_total hdata fun _ _ hc => hc.2.2.2.2.2.1)
  rw [step, wp_onChannel]
  refine wp_and_mono hdata hgranted fun _ c hc => ?_
  obtain ⟨⟨hopen, hdescending, hfrom, hto, hsub, -⟩, hgranted'⟩ := hc
  refine ⟨hopen, hgranted', ?_, ?_, h.order, h.invoked, h.iqueue, ?_⟩
  · rw [hsub, hfrom]
    exact h.worker
  · rw [hdescending, ← append_assoc, h.stream]
  · rw [hto]
    exact h.replies

/-- What is passed on is the next message. -/
theorem Talks.passes (hcut : bytes <+: frames msgs)
    (hmsgs : ∀ m ∈ msgs, 1 ≤ m.length ∧ m.length ≤ maxString) {rs : List Bytes}
    (hc : SFTPChannel.Relayed rs d.channel c) :
    ∃ more, (∃ w, c.subsystem = some w ∧ Waiting c.fromChannel w (queued ++ more)) ∧
      frames (served ++ (queued ++ more)) ++ c.base.descending.contents = bytes ∧
      served ++ (queued ++ more) <+: msgs ∧
      (bytes = frames msgs → queued ++ more = [] → served = msgs) := by
  obtain ⟨left, rfl, hleft⟩ := h.unqueued hcut
  obtain ⟨w, hw, hwaiting⟩ := h.worker
  obtain ⟨m, hm, hput, hdescending⟩ := hc.passed
  split at hdescending
  case isTrue hcomplete =>
    obtain ⟨m', rest, rfl, -, -⟩ := complete_of_prefix hleft
      (fun m hmem => (hmsgs m (mem_append_right _ hmem)).2) hcomplete
    have hm' := hmsgs m' (mem_append_right _ mem_cons_self)
    -- the message at the front is the next one
    have hsame : m = m' ∧ c.base.descending.contents <+: frames rest := by
      obtain ⟨t, ht⟩ := hleft
      rw [hdescending, append_assoc, frames_cons] at ht
      obtain ⟨heq, hrest⟩ := putString_append_inj (hm.trans_lt (by decide))
        (hm'.2.trans_lt (by decide)) ht
      exact ⟨heq, t, hrest⟩
    obtain ⟨rfl, hrest⟩ := hsame
    have hne : m ≠ [] := fun hnil => by
      rw [hnil] at hm'
      exact absurd hm'.1 (by decide)
    obtain ⟨hnil, -⟩ | ⟨-, b, hb, hq⟩ := hput
    · exact absurd hnil hne
    · refine ⟨[m], ⟨w, hc.subsystem.trans hw, ?_⟩, ?_, ?_, fun _ hnil => ?_⟩
      · rw [hq]
        exact hwaiting.put (lt_of_le_of_lt hm (by decide)) hb 0
      · rw [← h.stream, hdescending, ← append_assoc served, frames_append (served ++ queued),
          append_assoc]
        refine congrArg _ ?_
        rw [frames_cons]
        exact congrArg (· ++ _) (append_nil _)
      · rw [← append_assoc]
        exact ⟨rest, by rw [append_assoc, singleton_append]⟩
      · exact absurd hnil (append_ne_nil_of_right_ne_nil _ (cons_ne_nil _ _))
  case isFalse hpart =>
    obtain ⟨rfl, hsame⟩ := hdescending
    obtain ⟨-, hq⟩ | ⟨hne, -⟩ := hput
    · refine ⟨[], ⟨w, hc.subsystem.trans hw, ?_⟩, ?_, ?_, fun hall hnil => ?_⟩
      · rw [hq, append_nil]
        exact hwaiting.collected
      · rw [hsame, append_nil]
        exact h.stream
      · rw [append_nil]
        exact h.order
      · -- all has arrived and nothing is queued: then nothing is left
        rw [append_nil] at hnil
        subst hnil
        have hdesc : d.channel.base.descending.contents = frames left := by
          have hstream := h.stream
          rw [hall, frames_append (served ++ []) left] at hstream
          exact append_cancel_left hstream
        cases left with
        | nil => rw [append_nil, append_nil]
        | cons m' rest =>
          have hm' := hmsgs m' (mem_append_right _ mem_cons_self)
          exact absurd (complete_of_all hdesc hm'.1 hm'.2) hpart
    · exact absurd rfl hne

theorem post_talks (hcut : bytes <+: frames msgs)
    (hmsgs : ∀ m ∈ msgs, 1 ≤ m.length ∧ m.length ≤ maxString) (hfits : Fits .post d) :
    wp (step os home .post) (fun _ d' => ∃ more, Talks msgs served (queued ++ more) bytes d' ∧
        (bytes = frames msgs → queued ++ more = [] → served = msgs)) never d := by
  obtain ⟨left, hleft, hprefix⟩ := h.unqueued hcut
  obtain ⟨taken, rs, hreplies, hqueue, hshort, happended⟩ := h.replies
  have htakes : ∀ r ∈ rs.take 1, BusyThreadReadBuffer.Takes r d.channel.base.ascending :=
    fun r hr =>
    ⟨hshort r (mem_of_mem_take hr), hfits.1⟩
  have hforwards : isCompletePacketInDescending d.channel.base.descending = true →
      4 + (msgLen d.channel.base.descending).toNat ≤ d.channel.base.descending.len ∧
        (msgLen d.channel.base.descending).toNat ≤ bufferMaxChunk ∧
        d.channel.fromChannel.writeBuf.len + 4 ≤ 6 * bufferMaxChunk := by
    intro hcomplete
    have hmax : ∀ m ∈ left, m.length ≤ maxString := fun m hm =>
      (hmsgs m (by rw [hleft]; exact mem_append_right _ hm)).2
    obtain ⟨m, rest, rfl, hlen, hwhole⟩ := complete_of_prefix hprefix hmax hcomplete
    rw [hlen]
    exact ⟨hwhole, (hmax m mem_cons_self).trans (by decide), hfits.2⟩
  have hpost := SFTPChannel.post_relays h.isOpen hqueue htakes hforwards
  have hgranted := h.granted.step (wp_mono_total hpost fun _ _ hc => hc.windowMax)
  rw [step, post, wp_read, wp_bind, wp_onChannel]
  refine wp_and_mono hpost hgranted fun _ c hboth => ?_
  obtain ⟨hc, hgranted'⟩ := hboth
  obtain ⟨more, hworker, hstream, horder, hall⟩ := h.passes hcut hmsgs hc
  rw [wp_modify]
  refine ⟨more, ⟨hc.isOpen, hgranted', hworker, hstream, horder, h.invoked, h.iqueue, ?_⟩, hall⟩
  refine ⟨taken ++ rs.take 1, rs.drop 1, ?_, hc.toChannel, fun r hr => ?_, ?_⟩
  · rw [append_assoc, take_append_drop]
    exact hreplies
  · exact hshort r (mem_of_mem_drop hr)
  · -- what has been added to `ascending`
    rw [hc.ascending, ← Buffer.contents_length, drop_left, happended, frames_append]

omit h in
/-- `process` is called with the message that has been taken from the queue, and with nothing else
in `iqueue`. -/
theorem serve_talks {m : Bytes} {q : BusyThreadWriteBuffer} {w : Worker}
    (h : Talks msgs served (m :: queued) bytes d) (hw : Waiting q w queued)
    (hgranted : SFTPChannel.Granted { d.channel with fromChannel := q, subsystem := some w })
    (hm : m.length ≤ maxString) (hreply : ShortReply os home m) (hroom : Fits .get d) :
    wp (serve os home m) (fun _ => Talks msgs (served ++ [m]) queued bytes) (Broken msgs)
      { d with channel := { d.channel with fromChannel := q, subsystem := some w } } := by
  obtain ⟨taken, rs, hreplies, hqueue, hshort, happended⟩ := h.replies
  have hnext : served ++ m :: queued = served ++ [m] ++ queued := by
    rw [append_assoc, singleton_append]
  have horder := h.order
  have hstream := h.stream
  rw [hnext] at horder hstream
  have hinvoked : d.invoked ++ [putString m] = (served ++ [m]).map putString := by
    rw [h.invoked, map_append, map_singleton]
  rw [serve, wp_update, wp_update, wp_bind, wp_zoomWith]
  rw [h.iqueue, nil_append]
  have hclear : Clear rs ({ d.sftp with iqueue := putString m, toChannel := d.channel.toChannel } :
      SFTP ω) := ⟨hqueue, hroom⟩
  have hsize : m.length < UInt32.size := lt_of_le_of_lt hm (by decide)
  refine wp_mono (wp_and (process_adds os home hclear rfl hreply)
    (process_empties os home (show _ = putString m from rfl) hsize)) (fun _ s' hs' => ?_)
    fun e s' _ => ?_
  · obtain ⟨⟨new, hnew, hnewShort⟩, hempty⟩ := hs'
    rw [wp_modify]
    refine ⟨⟨h.isOpen.opened, h.isOpen.output, h.isOpen.input, h.isOpen.live⟩,
      hgranted.toChannel s'.toChannel, ⟨w, rfl, hw⟩, hstream, horder, hinvoked, hempty, taken,
      rs ++ new, ?_, hnew, ?_, happended⟩
    · show d.replies ++ s'.toChannel.messages.drop d.channel.toChannel.messages.length = _
      rw [hnew.messages_eq, hqueue.messages_eq, drop_left, hreplies, append_assoc]
    · intro r hr
      rcases mem_append.mp hr with hold | hadded
      · exact hshort r hold
      · exact hnewShort r hadded
  · refine ⟨⟨e, rfl⟩, ?_, taken, ?_, happended⟩
    · show d.invoked ++ [putString m] <+: _
      rw [hinvoked]
      exact ((prefix_append _ _).trans horder).map putString
    · show taken <+: d.replies
      rw [hreplies]
      exact prefix_append _ _

theorem get_talks
    (hmsgs : ∀ m ∈ msgs, 1 ≤ m.length ∧ m.length ≤ maxString)
    (hreplies : ∀ m ∈ msgs, ShortReply os home m) (hroom : Fits .get d) :
    wp (step os home .get)
      (fun _ => Talks msgs (served ++ queued.take 1) (queued.drop 1) bytes) (Broken msgs) d := by
  obtain ⟨w, hw, hwaiting⟩ := h.worker
  have hbefore : d.received = w.received := by rw [received, hw]
  have hgranted := (wp_getCall h.isOpen.live hw).mp (SFTPChannel.getCall_granted h.granted)
  rw [step, getMessage, wp_read, wp_bind, wp_onChannel, wp_getCall h.isOpen.live hw,
    wp_read, hbefore]
  cases queued with
  | nil =>
    obtain ⟨hsame, hstill⟩ := completeGet_nothing hwaiting
    rw [append_nil] at hsame
    show wp (serveNew os home ((completeGet d.channel.fromChannel w).2.received.drop _)) _ _ _
    rw [hsame, drop_length, serveNew, wp_pure, take_nil, append_nil]
    exact { h with isOpen := { h.isOpen with }, granted := hgranted, worker := ⟨_, rfl, hstill⟩ }
  | cons m queued =>
    have hmem : m ∈ msgs := h.order.subset (mem_append_right _ mem_cons_self)
    obtain ⟨hpos, hm⟩ := hmsgs m hmem
    have hne : m ≠ [] := fun hnil => by
      rw [hnil] at hpos
      cases hpos
    obtain ⟨htaken, hrest⟩ := completeGet_first hwaiting hm
    show wp (serveNew os home ((completeGet d.channel.fromChannel w).2.received.drop _)) _ _ _
    rw [htaken, drop_left, serveNew, if_neg hne]
    exact serve_talks os home h hrest hgranted hm (hreplies m hmem) hroom

theorem step_talks
    (hcut : bytes ++ event.bytes <+: frames msgs)
    (hmsgs : ∀ m ∈ msgs, 1 ≤ m.length ∧ m.length ≤ maxString)
    (hreplies : ∀ m ∈ msgs, ShortReply os home m) (hfits : Fits event d) :
    wp (step os home event) (fun _ d' => ∃ served' queued',
        Talks msgs served' queued' (bytes ++ event.bytes) d' ∧
          Advances served queued served' queued') (Broken msgs) d := by
  have hsame : ∀ {m : DialogueM ω Unit}, event.bytes = [] →
      wp m (fun _ => Talks msgs served queued bytes) never d →
      wp m (fun _ d' => ∃ served' queued', Talks msgs served' queued' (bytes ++ event.bytes) d' ∧
        Advances served queued served' queued') (Broken msgs) d := by
    intro m hnil hm
    refine wp_mono_total hm fun _ d' h' => ⟨served, queued, ?_, advances_refl⟩
    rw [hnil, append_nil]
    exact h'
  cases event with
  | data chunk =>
    refine wp_mono_total (data_talks os home h hfits) fun _ d' h' => ?_
    exact ⟨served, queued, h', advances_refl⟩
  | post =>
    have hnil : Event.post.bytes = [] := rfl
    rw [hnil, append_nil] at hcut ⊢
    refine wp_mono_total (post_talks os home h hcut hmsgs hfits) fun _ d' h' => ?_
    obtain ⟨more, htalks, -⟩ := h'
    refine ⟨served, queued ++ more, htalks, prefix_rfl, fun hne => .inr ?_⟩
    exact append_ne_nil_of_left_ne_nil hne _
  | get =>
    have hnil : Event.get.bytes = [] := rfl
    rw [hnil, append_nil]
    refine wp_imp (get_talks os home h hmsgs hreplies hfits) fun _ d' h' => ?_
    refine ⟨_, _, h', prefix_append _ _, fun hne => .inl ?_⟩
    cases queued with
    | nil => exact absurd rfl hne
    | cons m queued =>
      rw [length_append]
      exact Nat.lt_succ_self _
  | outputPoll =>
    exact hsame rfl (beside_talks h rfl (SFTPChannel.outputPoll_beside h.isOpen h.counted hfits))
  | windowAdjust adjust =>
    exact hsame rfl (beside_talks h rfl (SFTPChannel.windowAdjust_beside h.isOpen adjust))
  | fillEventArray =>
    exact hsame rfl (beside_talks h rfl (SFTPChannel.fillEventArray_beside h.isOpen))

/-! ## §4 Runs -/

omit h

theorem arrived_append (events more : List Event) :
    arrived (events ++ more) = arrived events ++ arrived more := flatMap_append

theorem arrived_singleton (event : Event) : arrived [event] = event.bytes :=
  flatMap_singleton ..

/-- `channel_post`, and later a `get` -/
structure Round where
  before : List Event
  between : List Event

def Round.events (r : Round) : List Event := r.before ++ .post :: (r.between ++ [.get])

/-- All has arrived, and at most `n` messages have not been served. -/
def Remain (msgs : List Bytes) (n : Nat) (d : Dialogue ω) : Prop :=
  ∃ served queued, Talks msgs served queued (frames msgs) d ∧ msgs.length ≤ served.length + n

/-- As `Remain`, or else there is one in the queue. -/
def Primed (msgs : List Bytes) (n : Nat) (d : Dialogue ω) : Prop :=
  ∃ served queued, Talks msgs served queued (frames msgs) d ∧
    msgs.length ≤ served.length + (n + 1) ∧ (msgs.length ≤ served.length + n ∨ queued ≠ [])

/-- What each step keeps that brings no bytes, a run of such steps keeps. -/
theorem quiets_keep {I : Dialogue ω → Prop} {events : List Event}
    (hstep : ∀ event d, event.bytes = [] → I d → Fits event d →
      wp (step os home event) (fun _ => I) (Broken msgs) d)
    (hquiet : ∀ event ∈ events, event.bytes = []) (h : I d)
    (hfits : Meets (step os home) Fits events d) :
    wp (runAll (step os home) events) (fun _ => I) (Broken msgs) d := by
  have hused : ∀ (used : List Event) event d, used ++ [event] <+: events → I d → Fits event d →
      wp (step os home event) (fun _ => I) (Broken msgs) d := by
    intro used event d hused hd hevent
    refine hstep event d (hquiet event (hused.subset ?_)) hd hevent
    exact mem_append_right _ mem_cons_self
  exact Meets.runAll_used hused hfits h

variable (hmsgs : ∀ m ∈ msgs, 1 ≤ m.length ∧ m.length ≤ maxString)
  (hreplies : ∀ m ∈ msgs, ShortReply os home m)

include hmsgs hreplies

theorem run_talks (h : Talks msgs [] [] [] d) {events : List Event}
    (hcut : arrived events <+: frames msgs) (hfits : Meets (step os home) Fits events d) :
    wp (runAll (step os home) events)
      (fun _ d' => ∃ served queued, Talks msgs served queued (arrived events) d')
      (Broken msgs) d := by
  have hstep : ∀ used event (d' : Dialogue ω), used ++ [event] <+: events →
      (∃ served queued, Talks msgs served queued (arrived used) d') → Fits event d' →
      wp (step os home event)
        (fun _ d'' => ∃ served queued, Talks msgs served queued (arrived (used ++ [event])) d'')
        (Broken msgs) d' := by
    intro used event d' hused hd' hevent
    obtain ⟨served, queued, htalks⟩ := hd'
    have hbytes : arrived (used ++ [event]) = arrived used ++ event.bytes := by
      rw [arrived_append, arrived_singleton]
    have hstream : arrived used ++ event.bytes <+: frames msgs := by
      obtain ⟨rest, hrest⟩ := hused
      refine List.IsPrefix.trans ?_ hcut
      rw [← hbytes, ← hrest, arrived_append (used ++ [event])]
      exact prefix_append _ _
    refine wp_imp (step_talks os home htalks hstream hmsgs hreplies hevent) fun _ d'' h'' => ?_
    obtain ⟨served', queued', htalks', -⟩ := h''
    rw [hbytes]
    exact ⟨served', queued', htalks'⟩
  exact Meets.runAll_used hstep hfits ⟨[], [], h⟩

/-- A step when all has arrived -/
theorem quiet_talks (hquiet : event.bytes = [])
    (h : Talks msgs served queued (frames msgs) d) (hfits : Fits event d) :
    wp (step os home event) (fun _ d' => ∃ served' queued',
        Talks msgs served' queued' (frames msgs) d' ∧ Advances served queued served' queued')
      (Broken msgs) d := by
  have hstep := step_talks os home h (by rw [hquiet, append_nil]) hmsgs
    hreplies hfits
  rw [hquiet, append_nil] at hstep
  exact hstep

theorem quiet_remain (hquiet : event.bytes = []) (h : Remain msgs n d) (hfits : Fits event d) :
    wp (step os home event) (fun _ => Remain msgs n) (Broken msgs) d := by
  obtain ⟨served, queued, htalks, hleft⟩ := h
  refine wp_imp (quiet_talks os home hmsgs hreplies hquiet htalks hfits) fun _ d' h' => ?_
  obtain ⟨served', queued', htalks', hadvances⟩ := h'
  refine ⟨served', queued', htalks', hleft.trans ?_⟩
  exact Nat.add_le_add_right hadvances.1.length_le n

theorem quiet_primed (hquiet : event.bytes = []) (h : Primed msgs n d) (hfits : Fits event d) :
    wp (step os home event) (fun _ => Primed msgs n) (Broken msgs) d := by
  obtain ⟨served, queued, htalks, hleft, hprimed⟩ := h
  refine wp_imp (quiet_talks os home hmsgs hreplies hquiet htalks hfits) fun _ d' h' => ?_
  obtain ⟨served', queued', htalks', hadvances⟩ := h'
  have hle := hadvances.1.length_le
  refine ⟨served', queued', htalks', by omega, ?_⟩
  rcases hprimed with hfew | hne
  · exact .inl (by omega)
  · rcases hadvances.2 hne with hmore | hne'
    · exact .inl (by omega)
    · exact .inr hne'

omit hreplies in
/-- After `channel_post` there is a message in the queue, unless all have been served. -/
theorem post_primes (h : Remain msgs (n + 1) d) (hfits : Fits .post d) :
    wp (step os home .post) (fun _ => Primed msgs n) (Broken msgs) d := by
  obtain ⟨served, queued, htalks, hleft⟩ := h
  refine wp_mono_total (post_talks os home htalks prefix_rfl hmsgs hfits) fun _ d' h' => ?_
  obtain ⟨more, htalks', hall⟩ := h'
  refine ⟨served, queued ++ more, htalks', hleft, ?_⟩
  by_cases hnil : queued ++ more = []
  · left
    rw [hall rfl hnil]
    exact Nat.le_add_right _ _
  · exact .inr hnil

theorem get_remains (h : Primed msgs n d) (hfits : Fits .get d) :
    wp (step os home .get) (fun _ => Remain msgs n) (Broken msgs) d := by
  obtain ⟨served, queued, htalks, hleft, hprimed⟩ := h
  refine wp_imp (get_talks os home htalks hmsgs hreplies hfits) fun _ d' h' => ?_
  refine ⟨_, _, h', ?_⟩
  rw [length_append]
  rcases hprimed with hfew | hne
  · omega
  · cases queued with
    | nil => exact absurd rfl hne
    | cons m queued =>
      rw [take_succ_cons, length_cons]
      omega

theorem round_remains (r : Round) (hquiet : ∀ event ∈ r.events, event.bytes = [])
    (h : Remain msgs (n + 1) d) (hfits : Meets (step os home) Fits r.events d) :
    wp (runAll (step os home) r.events) (fun _ => Remain msgs n) (Broken msgs) d := by
  have hbefore : ∀ event ∈ r.before, event.bytes = [] := fun event hmem =>
    hquiet event (mem_append_left _ hmem)
  have hbetween : ∀ event ∈ r.between, event.bytes = [] := fun event hmem =>
    hquiet event (mem_append_right _ (mem_cons_of_mem _ (mem_append_left _ hmem)))
  refine hfits.runAll_append (quiets_keep os home (fun event d hq =>
    quiet_remain os home hmsgs hreplies hq) hbefore h) fun d1 h1 hrest => ?_
  refine hrest.runAll_cons (post_primes os home hmsgs h1) fun d2 h2 hrest => ?_
  refine hrest.runAll_append (quiets_keep os home (fun event d hq =>
    quiet_primed os home hmsgs hreplies hq) hbetween h2) fun d3 h3 hlast => ?_
  rw [runAll]
  refine wp_seq (get_remains os home hmsgs hreplies h3 hlast.1) fun _ d4 h4 => ?_
  rw [runAll, wp_pure]
  exact h4

theorem rounds_serve {rounds : List Round}
    (hquiet : ∀ r ∈ rounds, ∀ event ∈ r.events, event.bytes = []) (h : Remain msgs rounds.length d)
    (hfits : Meets (step os home) Fits (rounds.flatMap Round.events) d) :
    wp (runAll (step os home) (rounds.flatMap Round.events)) (fun _ => Remain msgs 0) (Broken msgs)
      d := by
  have hmono : ∀ n d, Remain (ω := ω) msgs n d → Remain msgs (n + 1) d := by
    intro n d hd
    obtain ⟨served, queued, htalks, hleft⟩ := hd
    exact ⟨served, queued, htalks, by omega⟩
  have hround : ∀ r ∈ rounds, ∀ n d, Remain msgs (n + 1) d →
      Meets (step os home) Fits r.events d →
      wp (runAll (step os home) r.events) (fun _ => Remain msgs n) (Broken msgs) d :=
    fun r hr n d hd hmeets => round_remains os home hmsgs hreplies r (hquiet r hr) hd hmeets
  have hcount := Meets.countdown hmono hround h hfits
  rw [Nat.sub_self] at hcount
  exact hcount

end Step

/-! ## §5 Main result -/

section Result

variable (os : Win32 ω) (home : SFTPFilePath)

/-- "sftp" has been started on a new channel. -/
def start (version : Int32) (w : ω) (remoteId rwindow rmaxpack : UInt32) (reply : Bool) :
    Dialogue ω where
  channel := endState (SFTPChannel.step (.request reply))
    (SessionChannel.create remoteId rwindow rmaxpack)
  sftp := { version := version, world := w }

theorem start_fresh (version : Int32) (w : ω) (remoteId rwindow rmaxpack : UInt32) (reply : Bool) :
    SFTPChannel.Fresh (start version w remoteId rwindow rmaxpack reply).channel := by
  have hstart := SFTPChannel.request_starts remoteId rwindow rmaxpack reply
  obtain ⟨u, s, hok, hfresh⟩ := ok_of_wp_total hstart
  rw [start, endState, hok]
  exact hfresh

theorem start_talks (msgs : List Bytes) (version : Int32) (w : ω)
    (remoteId rwindow rmaxpack : UInt32) (reply : Bool) :
    Talks msgs [] [] [] (start version w remoteId rwindow rmaxpack reply) := by
  have hfresh := start_fresh version w remoteId rwindow rmaxpack reply
  refine ⟨hfresh.isOpen, hfresh.granted, ?_, ?_, nil_prefix, rfl, rfl, ?_⟩
  · rw [hfresh.subsystem, hfresh.fromChannel]
    exact ⟨_, rfl, waiting_init⟩
  · rw [hfresh.descending]
    rfl
  · rw [hfresh.toChannel]
    exact ⟨[], [], rfl, BusyThreadReadBuffer.queues_empty, fun _ hr => absurd hr not_mem_nil, rfl⟩

/-- `process` has been called with the first messages, one by one. The first replies have come to
`ascending`, the others are in the queue. -/
structure Delivered (msgs : List Bytes) (d : Dialogue ω) : Prop where
  invoked : d.invoked <+: msgs.map putString
  iqueue : d.sftp.iqueue = []
  replies : ∃ taken, d.replies = taken ++ d.channel.toChannel.messages ∧ d.appended = frames taken

theorem Talks.delivered (h : Talks msgs served queued bytes d) : Delivered msgs d where
  invoked := by
    rw [h.invoked]
    exact ((prefix_append _ _).trans h.order).map putString
  iqueue := h.iqueue
  replies := by
    obtain ⟨taken, rs, hreplies, hqueue, -, happended⟩ := h.replies
    refine ⟨taken, ?_, happended⟩
    rw [hqueue.messages_eq]
    exact hreplies

theorem Remain.all (h : Remain msgs 0 d) : d.invoked = msgs.map putString := by
  obtain ⟨served, queued, htalks, hleft⟩ := h
  have hserved : served <+: msgs := (prefix_append _ _).trans htalks.order
  rw [htalks.invoked, hserved.eq_of_length_le (by simpa using hleft)]

/-- **The framing of SFTP messages.** However the stream is cut and whatever the order of the calls,
`process` is called with the messages one by one, and their replies come to `ascending` in their
order; when everything has arrived, as many rounds as there are messages bring all of them to
`process`. And `process` takes the message as a whole, whatever it is. -/
theorem framing_independent (hmsgs : ∀ m ∈ msgs, 1 ≤ m.length ∧ m.length ≤ maxString)
    (hreplies : ∀ m ∈ msgs, ShortReply os home m) (version : Int32) (w : ω)
    (remoteId rwindow rmaxpack : UInt32) (reply : Bool) :
    (∀ events, arrived events <+: frames msgs →
      Meets (step os home) Fits events (start version w remoteId rwindow rmaxpack reply) →
      wp (runAll (step os home) events) (fun _ => Delivered msgs) (Broken msgs)
        (start version w remoteId rwindow rmaxpack reply)) ∧
    (∀ events (rounds : List Round), arrived events = frames msgs →
      (∀ r ∈ rounds, ∀ event ∈ r.events, event.bytes = []) → msgs.length ≤ rounds.length →
      Meets (step os home) Fits (events ++ rounds.flatMap Round.events)
        (start version w remoteId rwindow rmaxpack reply) →
      wp (runAll (step os home) (events ++ rounds.flatMap Round.events))
        (fun _ d => d.invoked = msgs.map putString) (Broken msgs)
        (start version w remoteId rwindow rmaxpack reply)) ∧
    ∀ (msg : Bytes) (s : SFTP ω), msg.length ≤ maxString → s.iqueue = putString msg →
      wp (processSwitch os home)
        (fun msgLen s' => iqueueGrew msgLen s' = false ∧ consumedMore msgLen s' = false)
        (fun _ _ => True) s ∧
      wp (process os home) (fun _ s' => s'.iqueue = []) (fun _ _ => True) s := by
  have hstart := start_talks msgs version w remoteId rwindow rmaxpack reply
  refine ⟨fun events hcut hfits => ?_, fun events rounds hall hquiet henough hfits => ?_,
    fun msg s hlen hmsg => ?_⟩
  · refine wp_imp (run_talks os home hmsgs hreplies hstart hcut hfits) fun _ d' h' => ?_
    obtain ⟨served, queued, htalks⟩ := h'
    exact htalks.delivered
  · have hcut : arrived events <+: frames msgs := by rw [hall]
    refine hfits.runAll_append (run_talks os home hmsgs hreplies hstart hcut) fun d1 h1 hrest => ?_
    obtain ⟨served, queued, htalks⟩ := h1
    rw [hall] at htalks
    have hremain : Remain msgs rounds.length d1 :=
      ⟨served, queued, htalks, henough.trans (Nat.le_add_left _ _)⟩
    exact wp_imp (rounds_serve os home hmsgs hreplies hquiet hremain hrest)
      fun _ _ hend => hend.all
  · have hsize : msg.length < UInt32.size := lt_of_le_of_lt hlen (by decide)
    refine ⟨?_, process_empties os home hmsg hsize⟩
    refine wp_weaken (processSwitch_left os home hmsg hsize) fun msgLen s' hleft => ?_
    exact ⟨iqueueGrew_of_left hleft, consumedMore_of_left hleft⟩

end Result

-- SSH2_FXP_READLINK, in two pieces
theorem framing_independent_readlink :
    let msg : Bytes := [19, 0, 0, 0, 7, 0, 0, 0, 1, 65]
    let events : List Event := [.data [0, 0, 0, 10, 19, 0], .post, .get, .data (msg.drop 2)]
    let all := events ++ [Round.mk [] [], Round.mk [] []].flatMap Round.events
    let d := endState (runAll (step (brokenSystem 2) someHome) all) (start 3 () 7 100 100 true)
    d.invoked = [putString msg] ∧ d.replies.length = 1 ∧ d.appended = frames d.replies := by
  intro msg events all d
  have hreply : ∀ m ∈ [msg], ShortReply (brokenSystem 2) someHome m := by
    intro m hm id name rest hsame
    rw [mem_singleton.mp hm] at hsame
    cases (cons.inj hsame).1
  have hmsgs : ∀ m ∈ [msg], 1 ≤ m.length ∧ m.length ≤ maxString := by decide
  have hrun := (framing_independent (brokenSystem 2) someHome hmsgs hreply 3 () 7 100 100 true).2.1
    events [⟨[], []⟩, ⟨[], []⟩] (by decide) (by decide) (by decide) (by decide +kernel)
  have hreturns : returns (runAll (step (brokenSystem 2) someHome) all)
    (start 3 () 7 100 100 true) =
      true := by decide +kernel
  exact ⟨(wp_of_ok (ok_endState hreturns)).mp hrun, by decide +kernel, by decide +kernel⟩

end Dialogue

end Shiesh.Sftp
