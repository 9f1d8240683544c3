import Mathlib.Data.List.Infix
import Shiesh.Channels.Grants

/-!
# Client Data within the Window

A peer that sends only what it has credit for loses nothing: all its bytes go to `descending`,
in order and once, until it sends EOF or CLOSE or until the thread has ended.

The credit of the peer is read from the messages it gets, while `channel_input_data` looks at
`local_window` and at `isOpened`. The two agree as long as the output half is open, the window
that a `TCPClientChannel` has not announced yet apart. But such a channel announces its window
with the OPEN_CONFIRMATION, in `channel_post`, and is opened by its thread: DATA that comes in
between is dropped.
-/

namespace Shiesh.Channels

open Shiesh.Lib List Bool ChannelObject SFTPChannel Channel Ledger
open SessionChannel (packetDefaultSize setWorker startSubsystem terminated windowDefaultSize
  workerAt)

/-! ## §1 The run -/

/-- A channel object, with what has been sent to it. -/
structure DataRun where
  object : ChannelObject
  -- the number of bytes in all DATA messages
  total : Nat := 0
  -- the bytes sent before EOF, before CLOSE and before the end of the thread
  sent : Bytes := []
  ended : Bool := false
  -- what has left `descending`
  taken : Bytes := []

namespace DataRun

def descending (r : DataRun) : Bytes := r.object.session.base.descending.contents

/-- Everything that has ever been appended to `descending` -/
def stream (r : DataRun) : Bytes := r.taken ++ r.descending

def inUse (r : DataRun) : Bool :=
  !r.ended && !terminated r.object.session.subsystem

/-- The bytes in a DATA message -/
def carried : ChannelObject.Event → Bytes
  | .session (.data body) => body.drop 4
  | _ => []

def step (event : ChannelObject.Event) : EStateM Halt DataRun Unit := do
  let r ← get
  zoom DataRun.object (fun o r => { r with object := o }) (ChannelObject.step event)
  modify fun r' =>
    { r' with
      total := r.total + (carried event).length
      sent := if r.inUse then r.sent ++ carried event else r.sent
      ended := r.ended || Life.ends event
      taken := r.taken ++ r.descending.take (r.descending.length - r'.descending.length) }

/-- The channel after the reply to CHANNEL_OPEN, or without it when the reply is delayed -/
def start (ctype : ChannelType) (self remoteId rwindow rmaxpack : UInt32) : DataRun where
  object := endState ChannelObject.confirmOpen
    (.createDerivation ctype self remoteId rwindow rmaxpack)

/-- A peer that keeps to the protocol: DATA carries a string that fits in a packet, and the peer
has credit for it. Before the confirmation there is none. -/
def lawful (event : ChannelObject.Event) (r : DataRun) : Bool :=
  match event with
  | .session (.data body) =>
    body = putString (carried event) && (carried event).length ≤ 256 * 1024 &&
      r.total + (carried event).length ≤ granted r.object.session.base.con.sent
  | _ => true

/-- No DATA comes to a `TCPClientChannel` that is not opened. -/
def findsOpened (event : ChannelObject.Event) (r : DataRun) : Bool :=
  match event with
  | .session (.data _) => r.object.cls ≠ .tcpClient || r.object.session.base.isOpened
  | _ => true

end DataRun

/-! ## §2 The credit and the window -/

/-- The peer's credit is the window, and what the peer has not been told yet. `waiting` says
that this is the whole window. -/
structure Credited (waiting : Bool) (total : Nat) (c : Channel) : Prop where
  balance : c.currentOutputState = .open →
    granted c.con.sent + (if waiting then windowDefaultSize.toNat else 0) =
      total + c.localWindow.toNat
  whole : waiting = true → c.currentOutputState = .open →
    c.localWindow = windowDefaultSize ∧
      c.localWindowMax = windowDefaultSize

/-- The window is as large as before, or has just been set; `descending` has lost bytes at its
front. -/
structure Flows (c₀ c : Channel) : Prop where
  max : c.localWindowMax = c₀.localWindowMax ∨
    c₀.localWindowMax = 0 ∧ c.localWindowMax = windowDefaultSize
  descending : c.descending.contents <:+ c₀.descending.contents

/-- The credit is kept while data flows on. -/
def CreditedFrom (waiting : Bool) (total : Nat) (c₀ c : Channel) : Prop :=
  Credited waiting total c ∧ Flows c₀ c

section Credit

variable {waiting : Bool} {total lost : Nat} {c₀ c c' : Channel} {s : SessionChannel}
  {B : SessionChannel → Prop} {α : Type} {m : SessionM α}

theorem Credited.steady (h : Credited waiting total c) (hc : Steady c c') :
    Credited waiting total c' := by
  refine ⟨fun hopen => ?_, fun hwaits hopen => ?_⟩
  · rw [hc.granted, hc.localWindow]
    exact h.balance (hc.accepting hopen)
  · rw [hc.localWindow, hc.localWindowMax]
    exact h.whole hwaits (hc.accepting hopen)

theorem Flows.steady (h : Flows c₀ c) (hc : Steady c c') : Flows c₀ c' :=
  ⟨by rw [hc.localWindowMax]; exact h.max, hc.descending.trans h.descending⟩

theorem CreditedFrom.steady (h : CreditedFrom waiting total c₀ c) (hc : Steady c c') :
    CreditedFrom waiting total c₀ c' := ⟨h.1.steady hc, h.2.steady hc⟩

theorem Keeps.credited
    (hm : ∀ c₁, Keeps (SteadyFrom c₁) m ⊤) :
    Keeps (fun s => CreditedFrom waiting total c₀ s.base) m ⊤ := by
  intro s hs
  exact wp_imp (hm s.base s (.refl _)) fun _ _ hsteady => hs.steady hsteady

variable (hs : CreditedFrom waiting total c₀ s.base)
include hs

/-- **WINDOW_ADJUST.** What is granted is added to the window, which does not wrap while data is
accepted. -/
theorem channelCheckWindow_credited
    (hkept : KeptBy (Ledger.Owes lost) B s) :
    wp (onBase channelCheckWindow)
      (fun _ s' => CreditedFrom waiting total c₀ s'.base) any s := by
  rw [onBase, wp_zoom, channelCheckWindow, wp_read, wp_ite, wp_pure]
  refine ⟨fun hadjust => ?_, fun _ => hs⟩
  rw [wp_bind]
  refine message_spec (.putInt _) (fun con hsent => ?_) fun _ _ _ => trivial
  rw [wp_modify]
  refine ⟨⟨fun hopen => ?_, fun hwaits hopen => ?_⟩, hs.2.max, hs.2.descending⟩
  · have hexact := hkept.kept.exact (by simpa [Ledger.shrunk, ledger] using hopen)
    have hsum : s.base.localWindow.toNat + s.base.localConsumed.toNat ≤
        ((ledger s).shrunk lost).max.toNat := by
      refine le_trans ?_ hexact
      simp only [Ledger.total, Ledger.shrunk, ledger]
      omega
    have hbalance := hs.1.balance hopen
    rw [hsent, granted_snoc, grantOf_adjust, Ledger.toNat_add_of_le _ hsum]
    omega
  · -- the whole window is there, so that nothing is to be adjusted
    obtain ⟨hwindow, hmax⟩ := hs.1.whole hwaits hopen
    simp [hwindow, hmax, windowDefaultSize, packetDefaultSize] at hadjust

/-- `channel_post`, when the ledger is kept until `channel_check_window` -/
theorem post_credited {sftp : Bool}
    (hkept : s.base.isOpened = true → wp (getAs sftp)
      (fun _ => wp (putAs sftp) (fun _ s' => ∃ lost, KeptBy (Ledger.Owes lost) B s') any) any s) :
    wp (postAs sftp) (fun _ s' => CreditedFrom waiting total c₀ s'.base) any s := by
  have hcollect : Keeps (fun s => CreditedFrom waiting total c₀ s.base)
      SessionChannel.garbageCollect ⊤ := Keeps.credited fun _ =>
      steady_frame.garbageCollect.mono fun _ _ => trivial
  rw [wp_postAs]
  refine ⟨fun hopened => ?_, fun _ => hcollect s hs⟩
  refine wp_weaken (wp_and (Keeps.credited (fun _ => getAs_steady sftp) s hs) (hkept hopened)) ?_
  intro _ s1 h1
  obtain ⟨hs1, hkept1⟩ := h1
  refine wp_weaken (wp_and (Keeps.credited (fun _ => putAs_steady sftp) s1 hs1) hkept1) ?_
  intro _ s2 h2
  obtain ⟨hs2, lost, hkept2⟩ := h2
  exact wp_imp (channelCheckWindow_credited hs2 hkept2) fun _ s3 hs3 => hcollect s3 hs3

theorem sessionPost_credited
    (hR : FrugalRules (Ledger.Owes lost) B) (hkept : KeptBy (Ledger.Owes lost) B s) :
    wp (postAs false) (fun _ s' => CreditedFrom waiting total c₀ s'.base) any s := by
  refine post_credited (B := B) hs fun hopened => ?_
  refine wp_imp (getAs_kept false s ⟨hkept, hopened⟩) fun _ s1 hs1 => ?_
  exact wp_imp (descending2subproc_kept hR s1 hs1) fun _ _ hs2 => ⟨lost, hs2.1⟩

theorem sftpPost_credited
    (hkept : KeptBy (Ledger.Owes lost) Larval s) :
    wp (postAs true) (fun _ s' => CreditedFrom waiting total c₀ s'.base) any s := by
  refine post_credited (B := Larval) hs fun hopened => ?_
  refine wp_imp (getAs_kept true s ⟨hkept, hopened⟩) fun _ s1 hs1 => ?_
  exact wp_imp (descending2subproc_owes hs1) fun _ _ hs2 => ⟨_, hs2.1⟩

omit hs

/-- **A subsystem is started.** The window is granted, on a ledger that is blank. -/
theorem startSubsystem_credited (hs : Credited false total s.base) (start : Start)
    (hlarval : s.base.isOpened = false → Larval s) :
    wp (startSubsystem start) (fun _ s' => CreditedFrom false total s.base s'.base)
      any s := by
  have hsame : CreditedFrom false total s.base s.base := ⟨hs, .inl rfl, suffix_refl _⟩
  refine wp_startSubsystem (fun _ _ _ => hsame) (fun hclosed _ con hsent => ?_) fun _ => hsame
  obtain ⟨-, accepting, hblank⟩ := hlarval hclosed
  have hwindow : s.base.localWindow = 0 := congrArg window hblank
  have hmax : s.base.localWindowMax = 0 := congrArg max hblank
  refine ⟨⟨fun hopen => ?_, fun hwaits => by cases hwaits⟩, .inr ⟨hmax, rfl⟩, suffix_refl _⟩
  have hbalance := hs.balance hopen
  rw [hwindow] at hbalance
  rw [hsent, granted_snoc, grantOf_adjust]
  simpa using hbalance

/-- Neither a request nor DATA nor `channel_post` -/
def SessionChannel.Event.grantsNothing : SessionChannel.Event → Bool
  | .request .. | .data _ | .post => false
  | _ => true

theorem stepEvent_steady (event : SessionChannel.Event) (h : event.grantsNothing = true) :
    Keeps (SteadyFrom c₀) (SessionChannel.stepEvent event) ⊤ := by
  have haside : event.aside = true →
      Keeps (SteadyFrom c₀) (SessionChannel.stepEvent event) ⊤ :=
    fun haside => (steady_frame.step haside).mono fun _ _ => trivial
  cases event with
  | windowAdjust body =>
    exact ((steady_frame.received body).mono fun _ _ => trivial).bind fun _ =>
      onBase_steady channelInputWindowAdjust_steady
  | outputPoll => exact Keeps.get.bind fun _ => onBase_steady (channelOutputPoll_steady _)
  | workerPut data => exact workerPut_steady data
  | request | data | post => cases h
  | eof | close | fillEventArray | exitMsg | callGet | getStep | otherEvent | workerExit =>
    exact haside rfl

end Credit

/-! ## §3 The ledger of channel objects -/

namespace ChannelObject

/-- A session that is not opened has no subsystem; a `TCPClientChannel` has its thread from the
beginning. -/
def Unopened (cls : ChannelClass) (s : SessionChannel) : Prop := cls ≠ .tcpClient → Larval s

section Ledger

variable {o : ChannelObject} {cls : ChannelClass} {lost : Nat} {P : Ledger → Prop}

theorem unopened_frugal (cls : ChannelClass) (hP : Ledger.StableFrugal P) :
    FrugalRules P (Unopened cls) where
  step := hP
  same hs hsub hledger := fun hcls => (larval_frugal hP).same (hs hcls) hsub hledger
  refuse hs hsub hledger := fun hcls => (larval_frugal hP).refuse (hs hcls) hsub hledger

theorem unopened_rules (cls : ChannelClass) (hP : Ledger.Stable P) : Rules P (Unopened cls) :=
  ⟨(unopened_frugal cls (Ledger.Stable.frugal hP)).toTame, hP⟩

theorem unopened_larval {s : SessionChannel} (hcls : cls ≠ .tcpClient) :
    KeptBy P (Unopened cls) s ↔ KeptBy P Larval s :=
  ⟨fun h => ⟨h.queue, h.kept, fun hnot => h.unopened hnot hcls⟩,
    fun h => ⟨h.queue, h.kept, fun hnot _ => h.unopened hnot⟩⟩

variable (hP : Ledger.StableFrugal P)
include hP

/-- Events of sessions, DATA and `channel_post` apart -/
theorem sessionEvent_kept (hcls : cls ≠ .tcpClient)
    (event : SessionChannel.Event) (hpost : event ≠ .post) (hdata : ∀ body, event ≠ .data body) :
    Keeps (KeptBy P (Unopened cls)) (SessionChannel.stepEvent event) ⊤ := by
  intro s hs
  refine wp_imp (stepEvent_frugal hP event hpost hdata s ((unopened_larval hcls).mp hs))
    fun _ s' hs' => (unopened_larval hcls).mpr hs'

omit hP in
/-- The thread of a `TCPClientChannel` goes to another place, also before the channel is opened. -/
theorem tcpGoto_kept {pc pc' : Pc} (hrun : pc ≠ .terminated) (hok : ∀ q, PcOk q pc') :
    Keeps (KeptBy P (Unopened .tcpClient))
      (workerAt pc fun w => setWorker { w with pc := pc' })
      ⊤ := by
  refine fun s hs => wp_workerAt hs fun w hsub hpc => ?_
  rw [setWorker, wp_modify]
  have hqueue : QueueOk (some w) s.fromChannel := hsub ▸ hs.queue
  exact ⟨hqueue.goto (hpc ▸ hrun) s.fromChannel.dataArrived (hok _), hs.kept,
    fun _ hnot => absurd rfl hnot⟩

theorem tcpGetStep_kept :
    Keeps (KeptBy P (Unopened .tcpClient)) (SessionChannel.stepEvent .getStep) ⊤ := by
  intro s hs
  rw [SessionChannel.stepEvent, wp_modify]
  cases hsub : s.subsystem with
  | none => exact hs
  | some w =>
    have hqueue : QueueOk (some w) s.fromChannel := hsub ▸ hs.queue
    obtain ⟨hnext, heffect⟩ := getStep_ok hqueue
    exact ⟨hnext, heffect.kept hP hs.kept, fun _ hnot => absurd rfl hnot⟩

/-- The ledger of the object has been kept. -/
def KeptObject (P : Ledger → Prop) (o : ChannelObject) : Prop :=
  KeptBy P (Unopened o.cls) o.session

omit hP in
theorem onSession_object (ho : KeptObject P o)
    (hm : Keeps (KeptBy P (Unopened o.cls)) m ⊤) :
    wp (onSession m) (fun _ => KeptObject P) any o := by
  rw [onSession, wp_zoom]
  exact hm o.session ho

/-- A message that has nothing to do with the ledger -/
theorem onSession_message (ho : KeptObject P o) (type : UInt8)
    (body : ConM Unit) :
    wp (onSession (onBase (message type body))) (fun _ => KeptObject P) any o := by
  refine onSession_object ho ?_
  exact .mono (onBase_kept (unopened_frugal o.cls hP) fun _ => message_same _ _)
    fun _ _ => trivial

theorem inputChannelReq_object (ho : KeptObject P o) (sftp reply : Bool) (start : Start) :
    wp (inputChannelReq sftp reply start) (fun _ => KeptObject P) any o := by
  refine wp_inputChannelReq (fun _ => trivial) (fun _ => trivial) fun hsession cls hcls => ?_
  refine onSession_object ((unopened_larval hcls.1).mpr ((unopened_larval hsession).mp ho)) ?_
  exact sessionEvent_kept hP hcls.1 (.request reply start) (by simp) (by simp)

/-- Steps of the thread: the one of a `TCPClientChannel` runs before the channel is opened. -/
theorem workerEvent_object (ho : KeptObject P o)
    {event : SessionChannel.Event} (hpost : event ≠ .post) (hdata : ∀ body, event ≠ .data body)
    (htcp : Keeps (KeptBy P (Unopened .tcpClient)) (SessionChannel.stepEvent event)
      ⊤) :
    wp (onSession (SessionChannel.stepEvent event)) (fun _ => KeptObject P) any
      o := by
  refine onSession_object ho ?_
  by_cases hcls : o.cls = .tcpClient
  · rw [hcls]
    exact htcp
  · exact sessionEvent_kept hP hcls event hpost hdata

theorem afterConnect_object (ho : KeptObject P o)
    {event : SessionChannel.Event} (hevent : event = .callGet ∨ ∃ data, event = .workerPut data) :
    wp (afterConnect (SessionChannel.stepEvent event)) (fun _ => KeptObject P) any
      o := by
  refine wp_afterConnect ho fun hafter => ?_
  by_cases hopened : o.session.base.isOpened = true
  · rw [onSession, wp_zoom]
    refine wp_imp (workerEvent_kept (unopened_frugal o.cls hP) event ?_ o.session ⟨ho, hopened⟩)
      fun _ _ h => h.1
    rcases hevent with rfl | ⟨data, rfl⟩
    · exact .inl rfl
    · exact .inr (.inr (.inr (.inr ⟨data, rfl⟩)))
  · have hcls : o.cls ≠ .tcpClient := fun hcls => hopened (hafter hcls)
    refine onSession_object ho (sessionEvent_kept hP hcls event ?_ ?_)
    · rcases hevent with rfl | ⟨data, rfl⟩ <;> simp
    · rcases hevent with rfl | ⟨data, rfl⟩ <;> simp

/-- **Events and the ledger**, DATA and `channel_post` apart -/
theorem stepEvent_object_frugal (ho : KeptObject P o) (event : Event)
    (hpost : event ≠ .session .post) (hdata : ∀ body, event ≠ .session (.data body)) :
    wp (stepEvent event) (fun _ => KeptObject P) any o := by
  cases event with
  | startSubsystem sftp reply start => exact inputChannelReq_object hP ho sftp reply start
  | otherRequest created reply =>
    exact wp_otherChannelReq (fun _ => trivial) (fun _ => ho) fun _ _ =>
      onSession_message hP ho _ _
  | connected =>
    exact wp_connected ho fun _ _ => ⟨ho.queue, ho.kept, fun hnot => by cases hnot⟩
  | session event =>
    cases event with
    | request reply start => exact inputChannelReq_object hP ho false reply start
    | post => exact absurd rfl hpost
    | data body => exact absurd rfl (hdata body)
    | eof | close | windowAdjust | outputPoll | fillEventArray | exitMsg =>
      exact onSession_object ho (loopEvent_frugal (unopened_frugal o.cls hP) _ rfl (by simp))
    | callGet => exact afterConnect_object hP ho (.inl rfl)
    | workerPut data => exact afterConnect_object hP ho (.inr ⟨data, rfl⟩)
    | getStep => exact workerEvent_object hP ho (by simp) (by simp) (tcpGetStep_kept hP)
    | otherEvent =>
      exact workerEvent_object hP ho (by simp) (by simp)
        (tcpGoto_kept (by decide) fun _ => trivial)
    | workerExit =>
      exact workerEvent_object hP ho (by simp) (by simp)
        (tcpGoto_kept (by decide) fun _ => trivial)

omit hP

/-- With DATA, also from a peer that does not keep to its credit -/
theorem stepEvent_object (hP : Ledger.Stable P) (ho : KeptObject P o) (event : Event)
    (hpost : event ≠ .session .post) : wp (stepEvent event) (fun _ => KeptObject P) any o := by
  by_cases hdata : ∃ body, event = .session (.data body)
  · obtain ⟨body, rfl⟩ := hdata
    exact onSession_object ho (dataEvent_kept (unopened_rules o.cls hP) body)
  · exact stepEvent_object_frugal (Ledger.Stable.frugal hP) ho event hpost
      fun body h => hdata ⟨body, h⟩

/-- The ledger has been kept, and no more than `most` of the window has been lost. -/
def Owed (most : Nat) (o : ChannelObject) : Prop := ∃ lost ≤ most, KeptObject (Ledger.Owes lost) o

/-- No more is held or lost than there is. -/
theorem held_le {s : SessionChannel} {B : SessionChannel → Prop}
    (hkept : KeptBy (Ledger.Owes lost) B s) (hsmall : lost ≤ s.base.localWindowMax.toNat) :
    s.base.descending.len + lost ≤ s.base.localWindowMax.toNat := by
  have hbounded := hkept.kept.bounded
  have hlost : (UInt32.ofNat lost).toNat = lost :=
    UInt32.toNat_ofNat_of_lt (lt_of_le_of_lt hsmall (UInt32.toNat_lt _))
  have hmax : (s.base.localWindowMax - UInt32.ofNat lost).toNat =
      s.base.localWindowMax.toNat - lost := by
    rw [UInt32.toNat_sub_of_le _ _ (UInt32.le_iff_toNat_le.mpr (by omega)), hlost]
  simp only [shrunk, held, ledger, hmax] at hbounded
  omega

theorem losesHeader_length {s : SessionChannel} (h : losesHeader s = true) :
    4 ≤ s.base.descending.len := by
  by_contra hshort
  have hshort' : s.base.descending.len < 5 := by omega
  simp [losesHeader, isCompletePacketInDescending, hshort'] at h

theorem channelPost_owed (ho : Owed o.session.base.localWindowMax.toNat o) :
    wp channelPost (fun _ => Owed o.session.base.localWindowMax.toNat) any o := by
  obtain ⟨lost, hsmall, ho⟩ := ho
  have hpost : wp (onSession SessionChannel.channelPost)
      (fun _ => KeptObject (Ledger.Owes lost)) any o :=
    onSession_object ho (channelPost_kept (unopened_rules o.cls (stable_owes lost)).frugal)
  apply wp_channelPost
  · intro hcls
    cases o.sftp with
    | false => exact wp_imp hpost fun _ _ h => ⟨lost, hsmall, h⟩
    | true =>
      have hkept : KeptBy (Ledger.Owes lost) Larval o.session := (unopened_larval hcls).mp ho
      rw [onSession, wp_zoom]
      refine wp_imp (channelPost_owes hkept) fun _ s' hs' => ?_
      refine ⟨_, ?_, (unopened_larval hcls).mpr hs'⟩
      split
      case isTrue hloses =>
        have hheld := held_le hkept hsmall
        have hfour := losesHeader_length hloses
        omega
      case isFalse => exact hsmall
  · intro _
    refine wp_imp hpost fun _ o1 ho1 => ⟨fun _ => ?_, fun _ => ⟨lost, hsmall, ho1⟩⟩
    rw [openConfirmation, wp_read]
    exact wp_imp (onSession_message (Ledger.Stable.frugal (stable_owes lost)) ho1 _ _)
      fun _ o2 ho2 => ⟨lost, hsmall, ho2⟩

theorem stepEvent_owed (ho : Owed o.session.base.localWindowMax.toNat o) (event : Event) :
    wp (stepEvent event) (fun _ => Owed o.session.base.localWindowMax.toNat) any
      o := by
  by_cases hpost : event = .session .post
  · rw [hpost]
    exact channelPost_owed ho
  · obtain ⟨lost, hsmall, ho⟩ := ho
    exact wp_imp (stepEvent_object (stable_owes lost) ho event hpost)
      fun _ _ h => ⟨lost, hsmall, h⟩

end Ledger

/-! ### Credit of channel objects -/

section Credit

variable {o : ChannelObject} {total : Nat}

theorem onSession_credited {c₀ : Channel}
    (h : wp m (fun _ s' => CreditedFrom o.isConnecting total c₀ s'.base) any
      o.session) :
    wp (onSession m) (fun _ o' => CreditedFrom o'.isConnecting total c₀ o'.session.base)
      any o := by
  rw [onSession, wp_zoom]
  exact h

theorem credited_refl {waiting : Bool} {c : Channel} (h : Credited waiting total c) :
    CreditedFrom waiting total c c := ⟨h, .inl rfl, suffix_refl _⟩

theorem reply_credited {waiting : Bool} {c₀ : Channel} (processed : Bool) :
    Keeps (fun s => CreditedFrom waiting total c₀ s.base) (onBase (message
      (if processed then Ssh2Msg.channelSuccess else Ssh2Msg.channelFailure) (pure ())))
      ⊤ := by
  refine Keeps.credited fun _ => onBase_steady (aside_steady fun _ => message_aside .pure ?_)
  cases processed <;> decide

theorem inputChannelReq_credited (ho : o.Sound)
    (hcredit : Credited o.isConnecting total o.session.base)
    (howed : Owed o.session.base.localWindowMax.toNat o) (sftp reply : Bool) (start : Start) :
    wp (inputChannelReq sftp reply start)
      (fun _ o' => CreditedFrom o'.isConnecting total o.session.base o'.session.base)
      any o := by
  obtain ⟨lost, -, hkept⟩ := howed
  refine wp_inputChannelReq (fun _ => trivial) (fun _ => trivial) fun hsession cls _ => ?_
  have hanswered : o.isConnecting = false := ho.delayed hsession
  refine onSession_credited (o := { o with cls := cls }) ?_
  simp only [hanswered] at hcredit ⊢
  rw [SessionChannel.inputChannelReq]
  refine wp_seq (startSubsystem_credited hcredit start fun hnot => hkept.unopened hnot hsession) ?_
  intro processed s1 hs1
  rw [wp_ite, wp_pure]
  exact ⟨fun _ => reply_credited processed s1 hs1, fun _ => hs1⟩

/-- **The delayed OPEN_CONFIRMATION** tells the peer the whole window. -/
theorem openConfirmation_credited {c₀ : Channel}
    (hcredit : CreditedFrom true total c₀ o.session.base) :
    wp openConfirmation (fun _ o' => CreditedFrom false total c₀ o'.session.base)
      any o := by
  rw [openConfirmation, wp_read, onSession, wp_zoom, onBase, wp_zoom]
  have hbody := (Appends.putInt o.self).bind ((Appends.putInt o.session.base.localWindow).bind
    (.putInt o.session.base.localMaxpacket))
  refine message_spec hbody (fun con hsent => ?_) fun _ _ _ => trivial
  refine ⟨⟨fun hopen => ?_, fun hwaits => by cases hwaits⟩, hcredit.2.max, hcredit.2.descending⟩
  have hbalance := hcredit.1.balance hopen
  obtain ⟨hwindow, -⟩ := hcredit.1.whole rfl hopen
  rw [hsent, granted_snoc, grantOf_confirmation, hwindow]
  rw [hwindow, if_pos rfl] at hbalance
  exact hbalance

theorem channelPost_credited (hcredit : Credited o.isConnecting total o.session.base)
    (howed : Owed o.session.base.localWindowMax.toNat o) :
    wp channelPost (fun _ o' => CreditedFrom o'.isConnecting total o.session.base o'.session.base)
      any o := by
  obtain ⟨lost, -, hkept⟩ := howed
  have hR := (unopened_rules o.cls (@stable_owes lost)).frugal
  have hpost := onSession_credited (sessionPost_credited (credited_refl hcredit) hR hkept)
  apply wp_channelPost
  · intro hcls
    cases o.sftp with
    | false => exact hpost
    | true =>
      exact onSession_credited (sftpPost_credited (credited_refl hcredit)
        ((unopened_larval hcls).mp hkept))
  · intro _
    refine wp_imp hpost fun _ o1 ho1 => ⟨fun hwaits => ?_, fun _ => ho1⟩
    rw [hwaits] at ho1
    exact wp_imp (openConfirmation_credited ho1) fun _ o2 ho2 => ho2

theorem stepEvent_credited (ho : o.Sound) (hcredit : Credited o.isConnecting total o.session.base)
    (howed : Owed o.session.base.localWindowMax.toNat o) (event : Event)
    (hdata : ∀ body, event ≠ .session (.data body)) :
    wp (stepEvent event)
      (fun _ o' => CreditedFrom o'.isConnecting total o.session.base o'.session.base)
      any o := by
  apply wp_stepEvent event (credited_refl hcredit)
  · exact fun _ => inputChannelReq_credited ho hcredit howed
  · refine fun _ _ => wp_otherChannelReq (fun _ => trivial) (fun _ => credited_refl hcredit)
      fun _ _ => ?_
    exact onSession_credited (reply_credited _ o.session (credited_refl hcredit))
  · exact wp_connected (credited_refl hcredit) fun _ _ =>
      (credited_refl hcredit).steady ⟨rfl, rfl, rfl, suffix_refl _, id⟩
  · exact fun _ => channelPost_credited hcredit howed
  · intro event' hevent hsession
    have hgrants : event'.grantsNothing = true := by
      cases event' with
      | data body => exact absurd hevent (hdata body)
      | request | post => cases hsession
      | eof | close | windowAdjust | outputPoll | fillEventArray | exitMsg | callGet | getStep
      | otherEvent | workerPut | workerExit => rfl
    exact onSession_credited (Keeps.credited (fun _ => stepEvent_steady event' hgrants) o.session
      (credited_refl hcredit))

end Credit

end ChannelObject

/-! ## §4 DATA -/

/-- What DATA does to a channel. -/
structure Received (data : Bytes) (c c' : Channel) : Prop where
  sent : c'.con.sent = c.con.sent
  output : c'.currentOutputState = c.currentOutputState
  max : c'.localWindowMax = c.localWindowMax
  accepted : c.isOpened = true → c.currentOutputState = .open →
    c'.descending.contents = c.descending.contents ++ data ∧
      c'.localWindow = c.localWindow - UInt32.ofNat data.length
  refused : c.isOpened = false ∨ c.currentOutputState ≠ .open → c'.descending = c.descending
  dropped : c.isOpened = false → c'.localWindow = c.localWindow

/-- **DATA within the window** is appended to `descending`, if the channel is opened and accepts
data. In no case is the connection ended. -/
theorem data_received {s : SessionChannel} {data : Bytes} (hlen : data.length ≤ 256 * 1024)
    (hroom : s.base.descending.len ≤ 6 * bufferMaxChunk)
    (hwindow : s.base.isOpened = true → s.base.currentOutputState = .open →
      data.length ≤ s.base.localWindow.toNat) :
    wp (SessionChannel.stepEvent (.data (putString data)))
      (fun _ s' => Received data s.base s'.base) never s := by
  have hstring : putString data = putString data ++ [] := (append_nil _).symm
  have hlen' := (ofNat_length hlen).1
  rw [SessionChannel.stepEvent, wp_bind, wp_received, onBase, wp_zoom, channelInputData, wp_read,
    wp_ite, wp_pure]
  refine ⟨fun hclosed => ?_, fun hopen => ?_⟩
  · have hnot : s.base.isOpened = false := by simpa using hclosed
    refine ⟨rfl, rfl, rfl, fun hopened => ?_, fun _ => rfl, fun _ => rfl⟩
    cases hnot.symm.trans hopened
  have hopened : s.base.isOpened = true := by simpa using hopen
  have hdropped : ∀ {P : Prop}, s.base.isOpened = false → P := fun hnot => by
    cases hopened.symm.trans hnot
  rw [wp_bind, reading, onCon, wp_zoom, wp_zoom]
  rw [hstring, wp_packetGetStringPtr hlen, wp_ite, wp_ite, wp_pure, wp_modify]
  refine ⟨fun hout => ?_, fun hout => ⟨fun hbeyond => ?_, fun _ => ?_⟩⟩
  · exact ⟨rfl, rfl, rfl, fun _ haccepts => absurd haccepts hout, fun _ => rfl, hdropped⟩
  · -- the peer has kept to its window
    have hwithin := hwindow hopened (not_not.mp hout)
    rw [gt_iff_lt, UInt32.lt_iff_toNat_lt, hlen'] at hbeyond
    exact absurd hwithin (not_le.mpr hbeyond)
  · have hchunk : data.length ≤ bufferMaxChunk := le_trans hlen (by decide)
    rw [wp_update, wp_bind, putRawData, onDescending, wp_zoom]
    refine wp_imp (Buffer.append_fits hroom hchunk) fun _ b hb => ?_
    rw [reading, onCon, wp_zoom, wp_zoom]
    rw [wp_packetCheckEom]
    refine ⟨rfl, rfl, rfl, fun _ _ => ⟨hb, rfl⟩, fun hno => ?_, hdropped⟩
    rcases hno with hnot | hnot
    · exact hdropped hnot
    · exact absurd hnot hout

/-! ## §5 Steps and runs -/

/-- The output half accepts data until the peer or the thread has ended. -/
structure Life.Serves (ended : Bool) (l : Life) : Prop where
  refused : l.output ≠ .open → ended = true ∨ l.thread = .terminated
  closed : l.closeRcvd = true → ended = true
  gone : l.deleted = true → ended = true ∧ l.output ≠ .open

theorem Life.Serves.step {event : ChannelObject.Event} {ended : Bool} {l l' : Life}
    (h : l.Serves ended) (hlive : l.deleted = false) (hstep : Step event l l') :
    l'.Serves (ended || ends event) ∧
      (l.thread = .terminated → (ended || ends event) = true ∨ l'.thread = .terminated) := by
  have hhalves := hstep.halves
  have hbefore : ended = true → (ended || ends event) = true := fun h => by rw [h, Bool.true_or]
  have hrcvd : l'.closeRcvd = true → (ended || ends event) = true := by
    intro hclose
    rw [or_eq_true]
    exact (hhalves.closed hclose).imp h.closed id
  have hgone : l'.deleted = true → (ended || ends event) = true ∧ l'.output ≠ .open := by
    intro hdeleted
    obtain ⟨-, hdead, hclose⟩ := hstep.deletes hlive hdeleted
    exact ⟨hbefore (h.closed hclose), hhalves.stays (by rw [hdead.2]; decide)⟩
  have hthread : l.thread = .terminated →
      (ended || ends event) = true ∨ l'.thread = .terminated := by
    intro hend
    cases hdeleted : l'.deleted with
    | true => exact .inl (hgone hdeleted).1
    | false => exact .inr (hstep.goes.ended hdeleted hend)
  refine ⟨⟨fun hout => ?_, hrcvd, hgone⟩, hthread⟩
  rcases hhalves.refused hout with hrefused | hends | hend
  · rcases h.refused hrefused with hended | hend
    · exact .inl (hbefore hended)
    · exact hthread hend
  · exact .inl (by rw [hends, Bool.or_true])
  · exact hthread hend

namespace DataRun

/-- What holds all the time. -/
structure Safe (r : DataRun) : Prop where
  sound : r.object.Sound
  serves : r.object.life.Serves r.ended
  owed : r.object.Owed r.object.session.base.localWindowMax.toNat
  max : r.object.session.base.localWindowMax.toNat ≤ windowDefaultSize.toNat
  credited : Credited r.object.isConnecting r.total r.object.session.base
  order : r.sent <+: r.stream
  exact : r.inUse = true → r.stream = r.sent

variable {r : DataRun} {event : ChannelObject.Event}

variable (hr : r.Safe)
include hr

/-- What an event other than DATA does to the object -/
theorem Safe.object (hdata : ∀ body, event ≠ .session (.data body)) :
    wp (ChannelObject.step event)
      (fun _ o' => o'.Sound ∧ o'.life.Serves (r.ended || Life.ends event) ∧
        (r.object.life.thread = .terminated →
          (r.ended || Life.ends event) = true ∨ o'.life.thread = .terminated) ∧
        o'.Owed r.object.session.base.localWindowMax.toNat ∧
        CreditedFrom o'.isConnecting r.total r.object.session.base o'.session.base)
      any r.object := by
  rw [ChannelObject.step, wp_read, wp_ite, wp_pure]
  refine ⟨fun hdeleted => ?_, fun hlive => ?_⟩
  · have hended : r.ended = true := (hr.serves.gone hdeleted).1
    have hsame : (r.ended || Life.ends event) = r.ended := by rw [hended, Bool.true_or]
    rw [hsame]
    exact ⟨hr.sound, hr.serves, fun _ => .inl hended, hr.owed,
      ChannelObject.credited_refl hr.credited⟩
  · have hlive' : r.object.life.deleted = false := eq_false_iff.mpr hlive
    have hstep := wp_and (ChannelObject.stepEvent_lives hr.sound event)
      (wp_and (ChannelObject.stepEvent_owed hr.owed event)
        (ChannelObject.stepEvent_credited hr.sound hr.credited hr.owed event hdata))
    refine wp_weaken hstep fun _ o' h => ?_
    obtain ⟨⟨hsound, hlife⟩, howed, hcredited⟩ := h
    obtain ⟨hserves, hthread⟩ := hr.serves.step hlive' hlife
    exact ⟨hsound, hserves, hthread, howed, hcredited⟩

omit hr in
theorem inUse_iff : r.inUse = true ↔ r.ended = false ∧ r.object.life.thread ≠ .terminated := by
  rw [inUse, and_eq_true, not_eq_true', not_eq_true', ne_eq,
    thread_terminated, not_eq_true]

omit hr in
/-- Bytes that leave `descending` at its front stay in the stream. -/
theorem stream_taken {taken before after : Bytes} (h : after <:+ before) :
    taken ++ before.take (before.length - after.length) ++ after = taken ++ before := by
  obtain ⟨front, rfl⟩ := h
  rw [length_append, Nat.add_sub_cancel, take_left, append_assoc]

theorem Safe.other (hdata : ∀ body, event ≠ .session (.data body)) :
    wp (step event) (fun _ => Safe) any r := by
  have hcarried : carried event = [] := by
    unfold carried
    split
    case h_1 body => exact absurd rfl (hdata body)
    case h_2 => rfl
  rw [step, wp_read, wp_bind, wp_zoom]
  refine wp_imp (hr.object hdata) fun _ o' h => ?_
  obtain ⟨hsound, hserves, hthread, howed, hcredited, hflows⟩ := h
  rw [wp_modify, hcarried]
  have hmax : r.object.session.base.localWindowMax.toNat ≤ o'.session.base.localWindowMax.toNat ∧
      o'.session.base.localWindowMax.toNat ≤ windowDefaultSize.toNat := by
    rcases hflows.max with hsame | ⟨hzero, hset⟩
    · rw [hsame]
      exact ⟨le_rfl, hr.max⟩
    · rw [hzero, hset]
      exact ⟨Nat.zero_le _, Nat.le_refl _⟩
  obtain ⟨lost, hsmall, hkept⟩ := howed
  have hsent : (if r.inUse then r.sent ++ [] else r.sent) = r.sent := by
    rw [append_nil, ite_self]
  refine ⟨hsound, hserves, ⟨lost, le_trans hsmall hmax.1, hkept⟩, hmax.2, hcredited, ?_,
    fun huse => ?_⟩
  · show (if r.inUse then r.sent ++ [] else r.sent) <+: r.taken ++ _ ++ _
    rw [hsent]
    exact (stream_taken hflows.descending).symm ▸ hr.order
  · show r.taken ++ _ ++ _ = (if r.inUse then r.sent ++ [] else r.sent)
    rw [hsent]
    refine (stream_taken hflows.descending).trans (hr.exact ?_)
    -- what is in use now was in use before
    rw [inUse_iff] at huse ⊢
    obtain ⟨hgoes, hrun⟩ := huse
    refine ⟨(or_eq_false_iff.mp hgoes).1, fun hend => ?_⟩
    rcases hthread hend with hended | hend'
    · cases hgoes.symm.trans hended
    · exact hrun hend'

/-- The credit covers what a lawful peer sends. -/
theorem Safe.covers {data : Bytes}
    (hcredit : r.total + data.length ≤ granted r.object.session.base.con.sent)
    (haccepts : r.object.session.base.currentOutputState = .open) :
    data.length ≤ r.object.session.base.localWindow.toNat ∧
      (r.object.isConnecting = true → data.length = 0) := by
  have hbalance := hr.credited.balance haccepts
  cases hwaits : r.object.isConnecting with
  | false =>
    rw [hwaits, if_neg (by decide)] at hbalance
    exact ⟨by omega, fun h => by cases h⟩
  | true =>
    obtain ⟨hwindow, -⟩ := hr.credited.whole hwaits haccepts
    rw [hwaits, if_pos rfl, hwindow] at hbalance
    exact ⟨by omega, fun _ => by omega⟩

theorem Safe.room : r.object.session.base.descending.len ≤ 6 * bufferMaxChunk := by
  obtain ⟨lost, hsmall, hkept⟩ := hr.owed
  have hheld := held_le hkept hsmall
  have hmax := hr.max
  have hsize : windowDefaultSize.toNat ≤ 6 * bufferMaxChunk := by decide
  omega

/-- A channel that is not opened is a session here, and its peer has no credit. -/
theorem Safe.uncovered {data : Bytes}
    (hcredit : r.total + data.length ≤ granted r.object.session.base.con.sent)
    (haccepts : r.object.session.base.currentOutputState = .open)
    (hsession : r.object.cls ≠ .tcpClient) (hnot : r.object.session.base.isOpened = false) :
    data = [] := by
  obtain ⟨lost, -, hkept⟩ := hr.owed
  obtain ⟨-, accepting, hblank⟩ := hkept.unopened hnot hsession
  have hwindow : r.object.session.base.localWindow = 0 := congrArg window hblank
  have hcovers := (hr.covers hcredit haccepts).1
  rw [hwindow] at hcovers
  exact length_eq_zero_iff.mp (Nat.le_zero.mp hcovers)

theorem Safe.charged {data : Bytes} {c' : Channel} (hlen : data.length ≤ 256 * 1024)
    (hcredit : r.total + data.length ≤ granted r.object.session.base.con.sent)
    (hopened : r.object.cls = .tcpClient → r.object.session.base.isOpened = true)
    (h : Received data r.object.session.base c') :
    Credited r.object.isConnecting (r.total + data.length) c' := by
  have hlen' := (ofNat_length hlen).1
  refine ⟨fun haccepts => ?_, fun hwaits haccepts => ?_⟩
  · rw [h.output] at haccepts
    have hbalance := hr.credited.balance haccepts
    rw [h.sent]
    cases hopen : r.object.session.base.isOpened with
    | true =>
      obtain ⟨hwithin, -⟩ := hr.covers hcredit haccepts
      rw [(h.accepted hopen haccepts).2, UInt32.toNat_sub_of_le _ _
        (UInt32.le_iff_toNat_le.mpr (by omega)), hlen']
      omega
    | false =>
      have hsession : r.object.cls ≠ .tcpClient := fun htcp => by
        cases hopen.symm.trans (hopened htcp)
      rw [hr.uncovered hcredit haccepts hsession hopen, h.dropped hopen]
      exact hbalance
  · rw [h.output] at haccepts
    have htcp : r.object.cls = .tcpClient := by
      by_contra hsession
      cases (hr.sound.delayed hsession).symm.trans hwaits
    obtain ⟨hwindow, hmax⟩ := hr.credited.whole hwaits haccepts
    have hnone : data.length = 0 := (hr.covers hcredit haccepts).2 hwaits
    rw [(h.accepted (hopened htcp) haccepts).2, h.max, hnone, hwindow]
    exact ⟨rfl, hmax⟩

/-- What DATA of a lawful peer does to the object -/
theorem Safe.dataObject {data : Bytes} (hlen : data.length ≤ 256 * 1024)
    (hcredit : r.total + data.length ≤ granted r.object.session.base.con.sent) :
    wp (ChannelObject.step (.session (.data (putString data))))
      (fun _ o' => o'.Sound ∧ o'.life = r.object.life ∧
        o'.Owed r.object.session.base.localWindowMax.toNat ∧
        Received data r.object.session.base o'.session.base)
      never r.object := by
  rw [ChannelObject.step, wp_read, wp_ite, wp_pure]
  refine ⟨fun hdeleted => ?_, fun _ => ?_⟩
  · have hrefuses := (hr.serves.gone hdeleted).2
    exact ⟨hr.sound, rfl, hr.owed, rfl, rfl, rfl, fun _ haccepts => absurd haccepts hrefuses,
      fun _ => rfl, fun _ => rfl⟩
  · have hreceived : wp (ChannelObject.stepEvent (.session (.data (putString data))))
        (fun _ o' => Received data r.object.session.base o'.session.base) never
        r.object := by
      show wp (onSession (SessionChannel.stepEvent (.data (putString data)))) _ _ _
      rw [onSession, wp_zoom]
      exact data_received hlen hr.room fun _ haccepts => (hr.covers hcredit haccepts).1
    have hstep := wp_and hreceived (wp_and (ChannelObject.stepEvent_lives hr.sound _)
      (ChannelObject.stepEvent_owed hr.owed _))
    refine wp_mono hstep (fun _ o' h => ?_) fun _ _ h => h.1
    obtain ⟨hreceived, ⟨hsound, hlife⟩, howed⟩ := h
    exact ⟨hsound, hlife, howed, hreceived⟩

/-- As long as the channel is in use, all that comes is appended. -/
theorem Safe.appended {data : Bytes} {c' : Channel}
    (hcredit : r.total + data.length ≤ granted r.object.session.base.con.sent)
    (hopened : r.object.cls = .tcpClient → r.object.session.base.isOpened = true)
    (h : Received data r.object.session.base c') :
    ∃ added, c'.descending.contents = r.descending ++ added ∧ (r.inUse = true → added = data) := by
  by_cases haccepts : r.object.session.base.currentOutputState = .open
  · cases hopen : r.object.session.base.isOpened with
    | true => exact ⟨data, (h.accepted hopen haccepts).1, fun _ => rfl⟩
    | false =>
      have hsession : r.object.cls ≠ .tcpClient := fun htcp => by
        cases hopen.symm.trans (hopened htcp)
      refine ⟨[], ?_, fun _ => (hr.uncovered hcredit haccepts hsession hopen).symm⟩
      rw [h.refused (.inl hopen), append_nil, descending]
  · refine ⟨[], ?_, fun huse => ?_⟩
    · rw [h.refused (.inr haccepts), append_nil, descending]
    · rw [inUse_iff] at huse
      rcases hr.serves.refused haccepts with hended | hend
      · cases huse.1.symm.trans hended
      · exact absurd hend huse.2

/-- **DATA of a lawful peer** is added to the stream, as long as the channel is in use. -/
theorem Safe.data {body : Bytes} (hlawful : lawful (.session (.data body)) r = true)
    (hfinds : findsOpened (.session (.data body)) r = true) :
    wp (step (.session (.data body))) (fun _ => Safe) never r := by
  obtain ⟨data, hdata⟩ : ∃ data, carried (.session (.data body)) = data := ⟨_, rfl⟩
  simp only [lawful, hdata, and_eq_true, decide_eq_true_eq] at hlawful
  obtain ⟨⟨hbody, hlen⟩, hcredit⟩ := hlawful
  have hopened : r.object.cls = .tcpClient → r.object.session.base.isOpened = true := by
    intro htcp
    simpa [findsOpened, htcp] using hfinds
  rw [step, wp_read, wp_bind, wp_zoom, hbody]
  refine wp_imp (hr.dataObject hlen hcredit) fun _ o' h => ?_
  obtain ⟨hsound, hlife, ⟨lost, hsmall, hkept⟩, hreceived⟩ := h
  have hconnecting : o'.isConnecting = r.object.isConnecting := congrArg Life.connecting hlife
  rw [wp_modify, ← hbody, hdata]
  obtain ⟨added, hadded, hall⟩ := hr.appended hcredit hopened hreceived
  have hstream : r.taken ++ r.descending.take
      (r.descending.length - o'.session.base.descending.contents.length) ++
      o'.session.base.descending.contents = r.stream ++ added := by
    rw [hadded, length_append, Nat.sub_eq_zero_of_le (Nat.le_add_right _ _), take_zero, append_nil]
    exact (append_assoc ..).symm
  refine ⟨hsound, ?_, ?_, ?_, ?_, ?_, fun huse => ?_⟩
  · show o'.life.Serves (r.ended || false)
    rw [hlife, Bool.or_false]
    exact hr.serves
  · exact ⟨lost, by rw [hreceived.max]; exact hsmall, hkept⟩
  · show o'.session.base.localWindowMax.toNat ≤ _
    rw [hreceived.max]
    exact hr.max
  · show Credited o'.isConnecting _ _
    rw [hconnecting]
    exact hr.charged hlen hcredit hopened hreceived
  · show (if r.inUse then r.sent ++ data else r.sent) <+: r.taken ++ _ ++ _
    refine hstream.symm ▸ ?_
    split
    case isTrue huse =>
      rw [hr.exact huse, hall huse]
    case isFalse => exact hr.order.trans (prefix_append _ _)
  · have hbefore : r.inUse = true := by
      rw [inUse_iff] at huse ⊢
      exact ⟨(or_eq_false_iff.mp huse.1).1, hlife ▸ huse.2⟩
    rw [if_pos hbefore]
    refine hstream.trans ?_
    rw [hr.exact hbefore, hall hbefore]

theorem Safe.step (hlawful : lawful event r = true)
    (hfinds : findsOpened event r = true) : wp (DataRun.step event) (fun _ => Safe) any r := by
  by_cases hdata : ∀ body, event ≠ .session (.data body)
  · exact hr.other hdata
  · obtain ⟨body, hbody⟩ := not_forall.mp hdata
    rw [not_not.mp hbody] at hlawful hfinds ⊢
    exact wp_mono_total (hr.data hlawful hfinds) fun _ _ h => h

omit hr

theorem start_safe (ctype : ChannelType) (self remoteId rwindow rmaxpack : UInt32) :
    (start ctype self remoteId rwindow rmaxpack).Safe := by
  refine wp_endState_both (P := fun o => DataRun.Safe { object := o }) ?_
  rw [confirmOpen, wp_read]
  cases ctype with
  | session =>
    -- the confirmation tells the peer a window of 0
    have hbody := (Fits.putInt self).bind ((Fits.putInt 0).bind
      (.putInt packetDefaultSize))
    have hcls : (createDerivation .session self remoteId rwindow rmaxpack).cls ≠
        .tcpClient := show ChannelClass.session ≠ .tcpClient by decide
    rw [if_pos hcls, openConfirmation, wp_read, onSession, wp_zoom, onBase,
      wp_zoom]
    refine message_fits hbody (by simp [putU32_length, bufferMaxChunk]) fun con hsent => ?_
    refine ⟨⟨⟨Int.le_refl 0, Int.le_refl 0⟩, fun _ => rfl⟩,
      ⟨fun h => absurd rfl h, (fun h => by cases h), fun h => by cases h⟩,
      ⟨0, Nat.zero_le _, QueueOk.init (fun _ hw => by cases hw), owes_blank true,
        fun _ _ => ⟨.none, true, rfl⟩⟩,
      Nat.zero_le _, ⟨fun _ => ?_, fun h => by cases h⟩, prefix_refl _, fun _ => rfl⟩
    rw [hsent, granted_snoc, grantOf_confirmation]
    rfl
  | directTcpip =>
    have houtside : ∀ w : Worker, some ({} : Worker) = some w → w.pc = .outside := by
      intro w hw
      cases hw
      rfl
    have hcls : (createDerivation .directTcpip self remoteId rwindow rmaxpack).cls =
        .tcpClient := rfl
    rw [if_neg (not_not.mpr hcls), wp_pure]
    refine ⟨⟨⟨Int.le_refl 0, Int.le_refl 0⟩, fun h => absurd rfl h⟩,
      ⟨fun h => absurd rfl h, (fun h => by cases h), fun h => by cases h⟩,
      ⟨0, Nat.zero_le _, .init houtside, ?_, fun _ h => absurd rfl h⟩,
      le_rfl, ⟨fun _ => rfl, fun _ _ => ⟨rfl, rfl⟩⟩, prefix_refl _, fun _ => rfl⟩
    exact stable_owes 0 (.grant true windowDefaultSize)
      (owes_blank true)

/-- **No loss of data within the window.** In every run in which the peer keeps to its credit and
no DATA comes to a `TCPClientChannel` that is not opened: what has been appended to `descending`
is what was sent, as long as the channel is in use, and begins with it afterwards; and DATA of
such a peer does not end the connection. -/
theorem in_window_data (ctype : ChannelType) (self remoteId rwindow rmaxpack : UInt32)
    (events : List ChannelObject.Event) (r : DataRun)
    (h : runAll step events (start ctype self remoteId rwindow rmaxpack) = .ok () r)
    (hmeets : Meets step (fun event r => lawful event r = true ∧ findsOpened event r = true) events
      (start ctype self remoteId rwindow rmaxpack)) :
    (r.inUse = true → r.stream = r.sent) ∧ r.sent <+: r.stream ∧
      ∀ body, lawful (.session (.data body)) r = true →
        findsOpened (.session (.data body)) r = true →
        returns (step (.session (.data body))) r = true := by
  have hrun := Meets.runAll (E := fun _ => True)
    (fun event r (hr : r.Safe) hC => hr.step hC.1 hC.2) hmeets (start_safe _ _ _ _ _)
  rw [wp_of_ok h] at hrun
  exact ⟨hrun.exact, hrun.order, fun body hlawful hfinds =>
    returns_of_wp (hrun.data hlawful hfinds)⟩

/-- A forwarding with its connection: one message is on its way to the thread, another in
`descending`. -/
theorem in_window_data_connected :
    let events : List ChannelObject.Event :=
      [.connected, .session .post, .session (.data (putString [1, 2, 3])), .session .post,
        .session (.data (putString [4]))]
    let r := endState (runAll step events) (start .directTcpip 1 7 100 100)
    (r.inUse = true ∧ r.sent = [1, 2, 3, 4] ∧ r.descending = [4]) ∧ r.stream = r.sent := by
  intro events r
  have h := in_window_data .directTcpip 1 7 100 100 events r (ok_endState (by decide +kernel))
    (by decide +kernel)
  exact ⟨by decide +kernel, h.1 (by decide +kernel)⟩

/-- The confirmation has been sent, with the whole window, and the thread is still connecting. -/
theorem early_data_dropped :
    let events : List ChannelObject.Event :=
      [.session .post, .session (.data (putString [1, 2, 3])), .connected]
    let r := endState (runAll step events) (start .directTcpip 1 7 100 100)
    runAll step events (start .directTcpip 1 7 100 100) = .ok () r ∧
      Meets step (fun event r => lawful event r = true) events (start .directTcpip 1 7 100 100) ∧
      granted r.object.session.base.con.sent = 2097152 ∧
      r.inUse = true ∧ r.sent = [1, 2, 3] ∧ r.stream = [] := by
  intro events r
  exact ⟨ok_endState (by decide +kernel), by decide +kernel, by decide +kernel, by decide +kernel,
    by decide +kernel, by decide +kernel⟩

end DataRun

end Shiesh.Channels
