import Shiesh.Channels.Identity

/-!
# Channel Requests

`server_input_channel_req` from the bytes of the packet on: the header, the parameters that
`get_subsystem_by_name` reads for the names it knows, and the call of the channel's
`input_channel_req`.

A session answers every request that wants an answer, with one message. A `TCPClientChannel`
answers none, it throws.
-/

namespace Shiesh.Channels

open Shiesh.Lib List ChannelObject Nat Ssh2Msg

/-! ## §1 The parameters of a request -/

/-- The loop of `tty_parse_modes`, with `n_bytes`. Nothing is done with the modes. -/
def ttyModes : Nat → Nat → Get Nat
  | 0, nBytes => pure nBytes
  | fuel + 1, nBytes => do
    let opcode ← packetGetChar
    -- TTY_OP_END
    if opcode = 0 then
      pure (nBytes + 1)
    -- the two speeds of protocol 1, and all opcodes that are defined
    else if opcode = 192 ∨ opcode = 193 ∨ opcode < 160 then do
      let _ ← packetGetInt
      ttyModes fuel (nBytes + 5)
    else
      pure (nBytes + 1)

/-- `PTY::tty_parse_modes`, with what is stored in `n_bytes_ptr`. Each turn reads a byte, so there
are not more turns than bytes. -/
def ttyParseModes : Get Nat := do
  let nBytes ← packetGetInt
  if nBytes = 0 then
    pure 0
  else do
    let rest ← get
    ttyModes (rest.length + 1) 0

structure PTYPars where
  term : Bytes
  col : UInt32
  row : UInt32
  xpixel : UInt32
  ypixel : UInt32

def PTYPars.readFromPacket : Get PTYPars := do
  let term ← packetGetString
  let col ← packetGetInt
  let row ← packetGetInt
  let xpixel ← packetGetInt
  let ypixel ← packetGetInt
  let _ ← ttyParseModes
  packetCheckEom
  pure ⟨cstr term, col, row, xpixel, ypixel⟩

/-- `ChannelRequestPars` and the classes derived from it -/
inductive ChannelRequestPars where
  | pty (pars : PTYPars)
  | shell
  | subsystem (subsystemName : Bytes)

/-- `SubsystemParsFactory::get_subsystem_by_name` -/
def getSubsystemByName (name : Bytes) : Get ChannelRequestPars := do
  if name = ascii "pty-req" then do
    let pars ← PTYPars.readFromPacket
    pure (.pty pars)
  else if name = ascii "shell" then
    pure .shell
  else if name = ascii "subsystem" then do
    let subsystemName ← packetGetString
    packetCheckEom
    pure (.subsystem (cstr subsystemName))
  else
    throw (.exception "Invalid parameters for repository object creation")

/-! ## §2 The handler -/

variable (terminfo : Bytes → Bool) (start : Start) {ms : List (UInt8 × UInt32)}

/-- What is then done. A terminal is created if `terminfo` has a file for it, and "sftp" is the only
name that `SubsystemPars::create_derivation` knows. -/
def ChannelRequestPars.event (reply : Bool) :
    ChannelRequestPars → ChannelObject.Event
  | .pty pars => .otherRequest (terminfo pars.term) reply
  | .shell => .startSubsystem false reply start
  | .subsystem subsystemName =>
    if subsystemName = ascii "sftp" then .startSubsystem true reply start
    else .otherRequest false reply

/-- `input_channel_req`. Parameters are only read for a session that is not opened. What is thrown
on the way is an `SException` and caught, but `packet_disconnect` has closed the connection before
it throws. -/
def ChannelObject.inputNamedReq (rtype : Bytes) (reply : Bool) :
    ObjectM Unit := do
  let o ← get
  if o.cls = .tcpClient ∨ o.session.base.isOpened then
    otherChannelReq false reply
  else
    match getSubsystemByName rtype o.session.base.con.incomingPacket with
    | .ok pars _ => stepEvent (pars.event terminfo start reply)
    | .error (.disconnect fmt args) _ => throw (.disconnect fmt args)
    | .error _ _ => otherChannelReq false reply

/-- The channel, the name of the request, and whether an answer is wanted -/
def requestHeader : Get (UInt32 × Bytes × UInt8) := do
  let id ← packetGetInt
  let rtype ← packetGetString
  let reply ← packetGetChar
  pure (id, rtype, reply)

def Server.serverInputChannelReq (packet : Bytes) : ServerM Unit := do
  match requestHeader packet with
  | .error e _ => throw e
  | .ok (id, rtype, reply) body => do
    let s ← get
    if (s.channels.getObjectById id.toNat).isNone then
      throw (.disconnect "server_input_channel_req: unknown channel %d" [.int id.toInt32.toInt])
    else
      onObject id.toNat do
        onSession (SessionChannel.received body)
        ChannelObject.inputNamedReq terminfo start (cstr rtype) (reply ≠ 0)

/-! ## §3 Well-formed requests -/

def encodeMode (m : UInt8 × UInt32) : Bytes := m.1 :: putU32 m.2

/-- Encoded terminal modes: none at all, or opcodes with their arguments and TTY_OP_END. -/
def WellFormedModes (modes : Bytes) : Prop :=
  modes.length ≤ 256 * 1024 ∧ (modes = [] ∨ ∃ ms : List (UInt8 × UInt32),
    (∀ m ∈ ms, 0 < m.1 ∧ m.1 < 160) ∧ modes = ms.flatMap encodeMode ++ [0])

/-- The part of a request behind its header. Requests that the server does not know may have any
contents. -/
def WellFormedBody (rtype body : Bytes) : Prop :=
  (rtype = ascii "pty-req" → ∃ (term : Bytes) (col row xpixel ypixel : UInt32) (modes : Bytes),
    term.length ≤ 256 * 1024 ∧ WellFormedModes modes ∧
    body = putString term ++ (putU32 col ++ (putU32 row ++ (putU32 xpixel ++ (putU32 ypixel ++
      putString modes))))) ∧
  (rtype = ascii "subsystem" → ∃ name : Bytes, name.length ≤ 256 * 1024 ∧ body = putString name)

abbrev HasArgument (opcode : UInt8) : Prop :=
  opcode ≠ 0 ∧ (opcode = 192 ∨ opcode = 193 ∨ opcode < 160)

/-- No mode stands in front: the packet ends, or the opcode has no argument. -/
def NoMode (b : Bytes) : Prop := ∀ c rest, b = c :: rest → HasArgument c → rest.length < 4

theorem wp_packetGetChar {c : UInt8} {b : Bytes} {Q : UInt8 → Bytes → Prop}
    {E : Halt → Bytes → Prop} : wp packetGetChar Q E (c :: b) ↔ Q c b := by
  rw [packetGetChar, wp_bind, ← singleton_append, wp_bufferGetOr _ length_singleton, wp_pure]
  rfl

theorem ttyModes_spec {tail : Bytes} (hms : ∀ m ∈ ms, HasArgument m.1)
    (htail : NoMode tail) {fuel : Nat} (hfuel : ms.length < fuel) (k : Nat) :
    wp (ttyModes fuel k) (fun v left => v = k + 5 * ms.length + 1 ∧ tail ≠ [] ∧ left = tail.tail)
      (fun _ left => left = tail.tail ∧ ∀ c rest, tail = c :: rest → HasArgument c)
      (ms.flatMap encodeMode ++ tail) := by
  induction ms generalizing fuel k with
  | nil =>
    obtain ⟨fuel, rfl⟩ := exists_eq_succ_of_ne_zero (ne_of_gt hfuel)
    rw [flatMap_nil, nil_append, ttyModes, wp_bind]
    cases tail with
    | nil =>
      rw [packetGetChar, wp_bind]
      refine wp_mono (bufferGetOr_takes _ 1 []) (fun front rest h => ?_) fun _ _ h => ⟨h, ?_⟩
      · rw [(append_eq_nil_iff.mp h.2.symm).1] at h
        cases h.1
      · exact fun c rest hc => by cases hc
    | cons c rest =>
      rw [wp_packetGetChar, wp_ite, wp_ite, wp_pure]
      have hend : k + 1 = k + 5 * 0 + 1 ∧ c :: rest ≠ [] ∧ rest = rest :=
        ⟨rfl, cons_ne_nil _ _, rfl⟩
      refine ⟨fun _ => hend, fun hne => ⟨fun hmode => ?_, fun _ => hend⟩⟩
      -- the argument is cut off
      have hshort := htail c rest rfl ⟨hne, hmode⟩
      rw [wp_bind, packetGetInt]
      refine wp_mono (bufferGetInt_takes rest) (fun v left h => ?_) fun _ _ h => ⟨h, ?_⟩
      · rw [h, length_append, putU32_length] at hshort
        omega
      · intro c' rest' hc'
        cases hc'
        exact ⟨hne, hmode⟩
  | cons m ms ih =>
    obtain ⟨fuel, rfl⟩ := exists_eq_succ_of_ne_zero (ne_of_gt (zero_lt_of_lt hfuel))
    obtain ⟨hne, hmode⟩ := hms m mem_cons_self
    rw [flatMap_cons, encodeMode, cons_append, cons_append, append_assoc, ttyModes, wp_bind,
      wp_packetGetChar, if_neg hne, if_pos hmode, wp_bind, packetGetInt, wp_bufferGetInt]
    refine wp_imp (ih (fun m' hm' => hms m' (mem_cons_of_mem _ hm')) (lt_of_succ_lt_succ hfuel) _)
      fun v left h => ⟨?_, h.2⟩
    rw [h.1, length_cons]
    omega

theorem modes_length (ms : List (UInt8 × UInt32)) : ms.length ≤ (ms.flatMap encodeMode).length := by
  induction ms with
  | nil => exact le_refl 0
  | cons m ms ih =>
    rw [flatMap_cons, encodeMode, length_append, length_cons, length_cons]
    omega

theorem ttyParseModes_reads {modes : Bytes} (h : WellFormedModes modes) :
    Reads ttyParseModes (putString modes) := by
  intro rest
  obtain ⟨hlen, hmodes⟩ := h
  rw [putString, append_assoc, ttyParseModes, wp_bind, packetGetInt, wp_bufferGetInt]
  obtain rfl | ⟨ms, hms, rfl⟩ := hmodes
  · exact (wp_pure _).mpr rfl
  · have hsome : UInt32.ofNat (ms.flatMap encodeMode ++ [0]).length ≠ 0 := by
      have hnat := (ofNat_length hlen).1
      intro hzero
      rw [hzero, length_append] at hnat
      cases hnat
    have hmodes : ∀ m ∈ ms, HasArgument m.1 := fun m hm =>
      ⟨fun hzero => absurd (hzero ▸ (hms m hm).1) (by decide), .inr (.inr (hms m hm).2)⟩
    have hend : ∀ c rest', 0 :: rest = c :: rest' → ¬HasArgument c := by
      rintro c rest' heq hc
      cases heq
      exact hc.1 rfl
    rw [if_neg hsome, wp_read, append_assoc, singleton_append]
    refine wp_mono (ttyModes_spec hmodes (fun c rest' heq hc => absurd hc (hend c rest' heq)) ?_ 0)
      (fun _ _ h => h.2.2) fun _ _ h => hend 0 rest rfl (h.2 0 rest rfl)
    have := modes_length ms
    rw [length_append]
    omega

/-! ### The announced length -/

theorem exists_modes (b : Bytes) : ∃ (ms : List (UInt8 × UInt32)) (tail : Bytes),
    (∀ m ∈ ms, HasArgument m.1) ∧ NoMode tail ∧ b = ms.flatMap encodeMode ++ tail := by
  induction hlen : b.length using Nat.strong_induction_on generalizing b with
  | _ n ih =>
    by_cases hstop : NoMode b
    · exact ⟨[], b, fun m hm => absurd hm not_mem_nil, hstop, rfl⟩
    · simp only [NoMode, not_forall, not_lt] at hstop
      obtain ⟨c, rest, rfl, hc, hfour⟩ := hstop
      obtain ⟨ms, tail, hms, htail, heq⟩ := ih (rest.drop 4).length
        (by rw [← hlen, length_drop, length_cons]; omega) (rest.drop 4) rfl
      refine ⟨(c, getU32 (rest.take 4)) :: ms, tail, forall_mem_cons.mpr ⟨hc, hms⟩, htail, ?_⟩
      rw [flatMap_cons, append_assoc, ← heq, encodeMode, putU32_getU32 (length_take_of_le hfour),
        cons_append, take_append_drop]

/-- The opcodes with their arguments, and the one that ends them, are not more than `n` bytes. -/
def ModesFit (n : Nat) (b : Bytes) : Prop :=
  n = 0 ∨ ∃ (ms : List (UInt8 × UInt32)) (tail : Bytes), (∀ m ∈ ms, HasArgument m.1) ∧
    NoMode tail ∧ b = ms.flatMap encodeMode ++ tail ∧ 5 * ms.length + min 1 tail.length ≤ n

theorem ttyModes_inside {tail b : Bytes} (n : Nat)
    (hms : ∀ m ∈ ms, HasArgument m.1) (htail : NoMode tail)
    (hb : b = ms.flatMap encodeMode ++ tail) :
    wp (ttyModes (b.length + 1) 0) (fun v left => 4 + v + left.length = 4 + b.length ∧ v ≤ n)
      (fun _ left => 4 + b.length ≤ 4 + n + left.length) b ↔
    5 * ms.length + min 1 tail.length ≤ n := by
  have hlen : b.length = 5 * ms.length + tail.length := by
    rw [hb, length_append, length_flatMap]
    simp [encodeMode, mul_comm]
  have hfuel : ms.length < b.length + 1 := by omega
  have hrun := ttyModes_spec hms htail hfuel 0
  rw [← hb] at hrun
  cases hr : ttyModes (b.length + 1) 0 b with
  | ok v left =>
    obtain ⟨rfl, hne, rfl⟩ := (wp_of_ok hr).mp hrun
    have hpos := length_pos_iff.mpr hne
    rw [wp_of_ok hr, length_tail]
    omega
  | error e left =>
    obtain ⟨rfl, -⟩ := (wp_of_error hr).mp hrun
    rw [wp_of_error hr, length_tail]
    omega

/-- **`tty_parse_modes` stays inside its field** exactly if the opcodes do; the number of bytes it
returns is right. -/
theorem modes_inside_iff (p : Bytes) :
    wp ttyParseModes
      (fun v left => 4 + v + left.length = p.length ∧ v ≤ (getU32 (p.take 4)).toNat)
      (fun _ left => p.length ≤ 4 + (getU32 (p.take 4)).toNat + left.length) p ↔
    (4 ≤ p.length → ModesFit (getU32 (p.take 4)).toNat (p.drop 4)) := by
  rw [ttyParseModes, wp_bind, packetGetInt]
  by_cases hfour : 4 ≤ p.length
  · generalize hn : getU32 (p.take 4) = n
    generalize hb : p.drop 4 = b
    obtain rfl : p = putU32 n ++ b := by
      rw [← hn, ← hb, putU32_getU32 (length_take_of_le hfour), take_append_drop]
    rw [wp_bufferGetInt, wp_ite, wp_pure, wp_read, length_append, putU32_length]
    by_cases hzero : n = 0
    · subst hzero
      exact iff_of_true ⟨fun _ => ⟨rfl, le_refl 0⟩, fun hne => absurd rfl hne⟩ fun _ => .inl rfl
    · constructor
      · intro h _
        obtain ⟨ms, tail, hms, htail, heq⟩ := exists_modes b
        exact .inr ⟨ms, tail, hms, htail, heq, (ttyModes_inside _ hms htail heq).mp (h.2 hzero)⟩
      · intro h
        refine ⟨fun hz => absurd hz hzero, fun _ => ?_⟩
        rcases h (le_add_right _ _) with hz | ⟨ms, tail, hms, htail, heq, hle⟩
        · exact absurd (UInt32.toNat_inj.mp hz) hzero
        · exact (ttyModes_inside _ hms htail heq).mpr hle
  · refine iff_of_true ?_ fun h => absurd h hfour
    refine wp_mono (bufferGetInt_takes p) (fun v rest h => ?_) fun _ left h => ?_
    · rw [h, length_append, putU32_length] at hfour
      omega
    · rw [h]
      omega

/-- A string of one byte, the opcode of a mode; its argument and TTY_OP_END are read beyond it. -/
theorem modes_beyond :
    ¬wp ttyParseModes
      (fun v left => 4 + v + left.length = 10 ∧ v ≤ (getU32 [0, 0, 0, 1]).toNat)
      (fun _ left => 10 ≤ 4 + (getU32 [0, 0, 0, 1]).toNat + left.length)
      [0, 0, 0, 1, 1, 0, 0, 0, 0, 0] := by
  have hrun : ttyParseModes [0, 0, 0, 1, 1, 0, 0, 0, 0, 0] = .ok 6 [] := rfl
  rw [wp_of_ok hrun]
  decide

/-- **Well-formed parameters** are read to their end, or not at all. -/
theorem getSubsystemByName_wellFormed {rtype body : Bytes} (h : WellFormedBody rtype body) :
    wp (getSubsystemByName rtype) any
      (fun e _ => ∀ fmt args, e ≠ .disconnect fmt args) body := by
  rw [getSubsystemByName, wp_ite]
  constructor
  · intro hpty
    obtain ⟨term, col, row, xpixel, ypixel, modes, hterm, hmodes, rfl⟩ := h.1 hpty
    rw [wp_bind, PTYPars.readFromPacket, wp_bind, packetGetString, wp_bufferGetString hterm]
    simp only [packetGetInt, wp_bind, wp_bufferGetInt]
    rw [← append_nil (putString modes)]
    refine wp_mono_total (ttyParseModes_reads hmodes []) fun _ rest hrest => ?_
    rw [hrest, wp_packetCheckEom, wp_pure, wp_pure]
    trivial
  · intro _
    rw [wp_ite]
    refine ⟨fun _ => (wp_pure _).mpr trivial, fun _ => ?_⟩
    rw [wp_ite, wp_throw]
    refine ⟨fun hsubsystem => ?_, fun _ _ _ hne => by cases hne⟩
    obtain ⟨name, hname, rfl⟩ := h.2 hsubsystem
    rw [wp_bind, packetGetString, ← append_nil (putString name), wp_bufferGetString hname,
      wp_bind, wp_packetCheckEom, wp_pure]
    trivial

/-! ## §4 Answers -/

def isAnswer (p : Packet) : Bool :=
  p.type = Ssh2Msg.channelSuccess ∨ p.type = Ssh2Msg.channelFailure

/-- The thread has been started, whatever has become of it. -/
def SessionChannel.started (s : SessionChannel) : Bool := s.subsystem.any fun w => w.pc ≠ .ready

/-- What a request has done to its channel: it is still there, one answer was sent if one was
wanted, and a failure only if the request has neither started a subsystem nor opened the channel. -/
structure RequestAnswered (reply : Bool) (s s' : SessionChannel) : Prop where
  live : s'.deleted = s.deleted
  answers : ∃ more, s'.base.con.sent = s.base.con.sent ++ more ∧
    more.countP isAnswer = (if reply then 1 else 0) ∧
    ((∃ p ∈ more, p.type = Ssh2Msg.channelFailure) →
      s'.started = s.started ∧ s'.base.isOpened = s.base.isOpened)

namespace SessionChannel

variable {s : SessionChannel} {E : Halt → SessionChannel → Prop}

/-- The answer to a request -/
def answer (processed : Bool) (s : SessionChannel) : Packet :=
  ⟨if processed then Ssh2Msg.channelSuccess else Ssh2Msg.channelFailure, putU32 s.base.remoteId⟩

theorem isAnswer_answer (processed : Bool) (s : SessionChannel) :
    isAnswer (s.answer processed) = true := by
  cases processed with
  | true => exact decide_eq_true (.inl rfl)
  | false => exact decide_eq_true (.inr rfl)

theorem wp_answer (processed : Bool) {Q : Unit → SessionChannel → Prop}
    (hQ : ∀ con : Con, con.sent = s.base.con.sent ++ [s.answer processed] →
      Q () { s with base := { s.base with con := con } }) :
    wp (onBase (message (if processed then channelSuccess else channelFailure)
      (pure ()))) Q E s := by
  rw [onBase, wp_zoom]
  apply message_fits Fits.pure (by decide)
  intro con hcon
  rw [append_nil] at hcon
  exact hQ con hcon

/-- A request that starts and opens nothing, whether it is processed or not. -/
theorem reply_answered (processed reply : Bool) {s' : SessionChannel}
    (hbase : s'.base = s.base) (hlive : s'.deleted = s.deleted) (hsame : s'.started = s.started) :
    wp (do
      if reply then
        onBase (message (if processed then channelSuccess else channelFailure)
          (pure ())))
      (fun _ => RequestAnswered reply s) E s' := by
  have hopened : s'.base.isOpened = s.base.isOpened := by rw [hbase]
  cases reply with
  | false =>
    rw [if_neg Bool.false_ne_true, wp_pure]
    exact ⟨hlive, [], by rw [hbase, append_nil], rfl, fun _ => ⟨hsame, hopened⟩⟩
  | true =>
    rw [if_pos rfl]
    apply wp_answer processed
    intro con hcon
    refine ⟨hlive, [s'.answer processed], by rw [hcon, hbase], ?_, fun _ => ⟨hsame, hopened⟩⟩
    rw [countP_singleton, isAnswer_answer]

theorem inputChannelReq_answered (reply : Bool) (start : Start) :
    wp (inputChannelReq reply start) (fun _ => RequestAnswered reply s) E s := by
  have hstart : ∀ (s' : SessionChannel) (p : Packet), s'.deleted = s.deleted →
      s'.base.con.sent = s.base.con.sent ++ [p] → p.type = channelWindowAdjust →
      wp (do
        if reply then
          onBase (message channelSuccess (pure ())))
        (fun _ => RequestAnswered reply s) E s' := by
    intro s' p hlive hsent hp
    have hwindow : isAnswer p = false := by
      rw [isAnswer, hp]
      decide
    cases reply with
    | false =>
      rw [if_neg Bool.false_ne_true, wp_pure]
      refine ⟨hlive, [p], hsent, ?_, fun hfailure => ?_⟩
      · rw [countP_singleton, hwindow]
      · obtain ⟨p', hp', htype⟩ := hfailure
        rw [mem_singleton.mp hp', hp] at htype
        exact absurd htype (by decide)
    | true =>
      rw [if_pos rfl]
      apply wp_answer true
      intro con hcon
      refine ⟨hlive, [p, s'.answer true], ?_, ?_, fun hfailure => ?_⟩
      · rw [hcon, hsent, append_assoc]
        rfl
      · rw [countP_cons, countP_singleton, hwindow, isAnswer_answer]
        rfl
      · obtain ⟨p', hp', htype⟩ := hfailure
        obtain rfl | hlast := mem_cons.mp hp'
        · rw [hp] at htype
          exact absurd htype (by decide)
        · rw [mem_singleton.mp hlast] at htype
          exact absurd htype (show channelSuccess ≠ channelFailure by decide)
  rw [inputChannelReq, wp_bind]
  refine wp_startSubsystem (fun _ hnone _ => ?_)
    (fun _ _ con hcon => hstart _ _ rfl hcon rfl) fun _ => reply_answered false reply rfl rfl rfl
  -- the thread exists, and has not been started
  refine reply_answered false reply rfl rfl ?_
  rw [started, started, hnone]
  rfl

end SessionChannel

/-- The request is one for the subsystem "sftp". -/
def AsksSftp (rtype body : Bytes) : Prop :=
  ∃ rest, getSubsystemByName rtype body = .ok (.subsystem (ascii "sftp")) rest

namespace ChannelObject

variable {o : ChannelObject} {E : Halt → ChannelObject → Prop} {rtype : Bytes}

theorem inputChannelReq_answered (hcls : o.cls ≠ .tcpClient) {sftp : Bool} (reply : Bool)
    {start : Start} (hcrash : ¬o.Crashes sftp start) :
    wp (inputChannelReq sftp reply start)
      (fun _ o' => RequestAnswered reply o.session o'.session) E o := by
  refine wp_inputChannelReq (fun htcp => absurd htcp hcls) (fun h => absurd h hcrash)
    fun _ _ _ => ?_
  rw [onSession, wp_zoom]
  exact SessionChannel.inputChannelReq_answered reply start

theorem otherChannelReq_answered (hcls : o.cls ≠ .tcpClient) (created reply : Bool) :
    wp (otherChannelReq created reply) (fun _ o' => RequestAnswered reply o.session o'.session)
      E o := by
  have hsession := fun processed => SessionChannel.reply_answered (s := o.session)
    (E := fun e s => E e { o with session := s }) processed reply rfl rfl rfl
  apply wp_otherChannelReq (fun htcp => absurd htcp hcls)
  · intro hno
    have hsilent := hsession false
    rw [hno, if_neg Bool.false_ne_true, wp_pure] at hsilent
    rw [hno]
    exact hsilent
  · intro hyes processed
    have hreply := hsession processed
    rw [hyes, if_pos rfl] at hreply
    rw [onSession, wp_zoom, hyes]
    exact hreply

theorem inputNamedReq_answered (terminfo : Bytes → Bool) {start : Start}
    (reply : Bool) (hcls : o.cls ≠ .tcpClient)
    (hcrash : ¬(AsksSftp rtype o.session.base.con.incomingPacket ∧ o.Crashes true start))
    (hbody : WellFormedBody rtype o.session.base.con.incomingPacket) :
    wp (inputNamedReq terminfo start rtype reply)
      (fun _ o' => RequestAnswered reply o.session o'.session) E o := by
  have hpars := getSubsystemByName_wellFormed hbody
  rw [inputNamedReq, wp_read, wp_ite]
  refine ⟨fun _ => otherChannelReq_answered hcls false reply, fun _ => ?_⟩
  cases hrun : getSubsystemByName rtype o.session.base.con.incomingPacket with
  | ok pars rest =>
    cases pars with
    | pty pars => exact otherChannelReq_answered hcls _ reply
    | shell => exact inputChannelReq_answered hcls reply fun h => by cases h.sftp
    | subsystem name =>
      show wp (stepEvent (if name = ascii "sftp" then .startSubsystem true reply start
        else .otherRequest false reply)) _ _ _
      split
      next hsftp =>
        exact inputChannelReq_answered hcls reply fun h => hcrash ⟨⟨rest, hsftp ▸ hrun⟩, h⟩
      next => exact otherChannelReq_answered hcls false reply
  | error e rest =>
    replace hpars := (wp_of_error hrun).mp hpars
    cases e with
    | disconnect fmt args => exact absurd rfl (hpars fmt args)
    | fatal fmt args => exact otherChannelReq_answered hcls false reply
    | exit code => exact otherChannelReq_answered hcls false reply
    | exception what => exact otherChannelReq_answered hcls false reply

theorem inputNamedReq_crashes (terminfo : Bytes → Bool) {start : Start}
    (reply : Bool) (hasks : AsksSftp rtype o.session.base.con.incomingPacket)
    (hcrash : o.Crashes true start) :
    wp (inputNamedReq terminfo start rtype reply) never any o := by
  obtain ⟨rest, hrun⟩ := hasks
  have hreads : ¬(o.cls = .tcpClient ∨ o.session.base.isOpened = true) := by
    simp [hcrash.cls, hcrash.unopened]
  rw [inputNamedReq, wp_read, if_neg hreads, hrun]
  exact crashes_throws hcrash

end ChannelObject

/-! ## §5 Requests on the wire -/

namespace Server

/-- SSH2_MSG_CHANNEL_REQUEST, behind its type -/
def requestPacket (id : UInt32) (rtype : Bytes) (reply : Bool) (body : Bytes) : Bytes :=
  putU32 id ++ (putString rtype ++ ((if reply then 1 else 0) :: body))

theorem requestHeader_packet (id : UInt32) (hname : rtype.length ≤ 256 * 1024)
    (reply : Bool) (body : Bytes) :
    requestHeader (requestPacket id rtype reply body) =
      .ok (id, rtype, if reply then 1 else 0) body := by
  have hread : wp requestHeader (fun header rest => header = (id, rtype, if reply then 1 else 0) ∧
      rest = body) never (requestPacket id rtype reply body) := by
    rw [requestHeader, requestPacket, wp_bind, packetGetInt, wp_bufferGetInt, wp_bind,
      packetGetString, wp_bufferGetString hname, wp_bind, packetGetChar, wp_bind,
      ← singleton_append, wp_bufferGetOr _ length_singleton, wp_pure, wp_pure]
    exact ⟨rfl, rfl⟩
  obtain ⟨header, rest, hrun, rfl, rfl⟩ := ok_of_wp_total hread
  exact hrun

/-- The handler gives the rest of the packet to the channel. -/
theorem wp_serverInputChannelReq (terminfo : Bytes → Bool) (start : Start) {s : Server} {e : Entry}
    {id : UInt32}
    (reply : Bool) {body : Bytes} {Q : Unit → Server → Prop}
    {E : Halt → Server → Prop} (he : s.channels.getObjectById id.toNat = some e)
    (hname : rtype.length ≤ 256 * 1024)
    (h : ∀ o : ChannelObject, o.cls = e.object.cls →
      o.session = { e.object.session with base := { e.object.session.base with
        con := { e.object.session.base.con with incomingPacket := body } } } →
      wp (inputNamedReq terminfo start (cstr rtype) reply)
        (fun _ o' => Q () (s.update id.toNat e o')) (fun x o' => E x (s.update id.toNat e o')) o) :
    wp (serverInputChannelReq terminfo start (requestPacket id rtype reply body)) Q E s := by
  have hwants : decide ((if reply then 1 else 0 : UInt8) ≠ 0) = reply := by
    cases reply <;> rfl
  rw [serverInputChannelReq, requestHeader_packet id hname]
  simp only [wp_bind, wp_get, he, hwants]
  rw [Option.isNone_some, if_neg Bool.false_ne_true]
  refine wp_onObject_some he ?_
  rw [wp_bind, onSession, wp_zoom, wp_received]
  exact h _ rfl rfl

/-- A connection with one channel, number 1. -/
def oneChannel (ctype : ChannelType) : Server :=
  endState (step (.channelOpen (some ctype) 7 100 100 true false)) {}

theorem oneChannel_exists (ctype : ChannelType) :
    ∃ e, (oneChannel ctype).channels.getObjectById 1 = some e ∧
      e.object.session.deleted = false ∧
      e.object.cls = (createDerivation ctype 1 7 100 100).cls := by
  have hopened : ((oneChannel ctype).channels.getObjectById 1).any (fun e =>
      !e.object.session.deleted &&
        e.object.cls = (createDerivation ctype 1 7 100 100).cls) = true := by
    cases ctype <;> decide +kernel
  cases he : (oneChannel ctype).channels.getObjectById 1 with
  | none =>
    rw [he] at hopened
    cases hopened
  | some e =>
    rw [he, Option.any_some, Bool.and_eq_true, Bool.not_eq_true', decide_eq_true_iff] at hopened
    exact ⟨e, rfl, hopened⟩

theorem shell_wellFormed (body : Bytes) : WellFormedBody (cstr (ascii "shell")) body :=
  ⟨fun h => absurd h (by decide), fun h => absurd h (by decide)⟩

end Server

end Shiesh.Channels
