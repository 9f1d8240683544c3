import Mathlib.Order.PropInstances
import Shiesh.Lib.Credit
import Shiesh.Channels.Messages
import Shiesh.Channels.ObjectRules

/-!
# Incoming Credit of a Session Channel

A session channel keeps a credit ledger: its windows, `descending`, the bytes waiting in
`fromChannel` and the counters of consumed bytes are the entries, and everything that can
happen to the channel writes it by the rules of such a ledger.

A run that is ended by `fatal` has no channel any more. What is said here is about the
states in which the connection goes on.
-/

namespace Shiesh.Channels

open Shiesh.Lib Buffer Channel
open UInt32 (ofNat)
open SessionChannel (channelPost create descending2subproc drained garbageCollect putEof rcvdIeof
  received setWorker startSubsystem step stepEvent waitsForData windowDefaultSize workerAt)

/-! ## §1 The ledger -/

def ledger (s : SessionChannel) : Ledger where
  window := s.base.localWindow
  consumed := s.base.localConsumed
  buffered := s.base.descending.len
  waiting := s.fromChannel.waiting
  counting := s.fromChannel.nReadConsumed.toUInt32
  counted := s.fromChannel.nWriteConsumed.toUInt32
  max := s.base.localWindowMax
  accepting := s.base.currentOutputState = .open

/-- The ledger has been kept so that `P` holds of it, and `B` of a channel that is not
opened yet. -/
structure KeptBy (P : Ledger → Prop) (B : SessionChannel → Prop) (s : SessionChannel) : Prop where
  queue : QueueOk s.subsystem s.fromChannel
  kept : P (ledger s)
  unopened : s.base.isOpened = false → B s

/-- `B` is about the subsystem and the ledger only. -/
structure Tame (B : SessionChannel → Prop) : Prop where
  same {s s' : SessionChannel} : B s → s'.subsystem = s.subsystem ∨ s'.subsystem = none →
    ledger s' = ledger s → B s'
  refuse {s s' : SessionChannel} : B s → s'.subsystem = s.subsystem →
    ledger s' = { ledger s with accepting := false } → B s'

/-- What `P` and `B` have to be like: the rules of a ledger keep `P`. -/
structure Rules (P : Ledger → Prop) (B : SessionChannel → Prop) : Prop extends Tame B where
  step : Ledger.Stable P

/-- As `Rules`, for a peer that keeps to its credit. -/
structure FrugalRules (P : Ledger → Prop) (B : SessionChannel → Prop) : Prop extends Tame B where
  step : Ledger.StableFrugal P

theorem Rules.frugal {P : Ledger → Prop} {B : SessionChannel → Prop} (h : Rules P B) :
    FrugalRules P B :=
  ⟨h.toTame, Ledger.Stable.frugal h.step⟩

/-- There is no thread, or it could not be started. -/
def Unstarted (subsystem : Option Worker) : Prop := ∀ w, subsystem = some w → w.pc = .ready

theorem Unstarted.none : Unstarted none := fun _ h => by cases h

/-- A session without a subsystem. -/
def Larval (s : SessionChannel) : Prop :=
  Unstarted s.subsystem ∧ ∃ accepting, ledger s = .blank accepting

/-- The ledger has been kept since the channel was created. -/
abbrev Kept : SessionChannel → Prop := KeptBy (Ledger.Steps (.blank true)) Larval

theorem larval_frugal {P : Ledger → Prop} (hP : Ledger.StableFrugal P) : FrugalRules P Larval where
  step := hP
  same hs hsub hledger := by
    obtain ⟨hnone, accepting, hblank⟩ := hs
    refine ⟨?_, accepting, hledger.trans hblank⟩
    rcases hsub with hsub | hsub <;> rw [hsub]
    · exact hnone
    · exact .none
  refuse hs hsub hledger := by
    obtain ⟨hnone, accepting, hblank⟩ := hs
    refine ⟨hsub ▸ hnone, false, ?_⟩
    rw [hledger, hblank]
    rfl

theorem larval_rules {P : Ledger → Prop} (hP : Ledger.Stable P) : Rules P Larval :=
  ⟨(larval_frugal (Ledger.Stable.frugal hP)).toTame, hP⟩

/-- Nothing in the ledger has changed. -/
structure SameCredit (c c' : Channel) : Prop where
  isOpened : c'.isOpened = c.isOpened
  localWindow : c'.localWindow = c.localWindow
  localConsumed : c'.localConsumed = c.localConsumed
  localWindowMax : c'.localWindowMax = c.localWindowMax
  descending : c'.descending = c.descending
  output : c'.currentOutputState = c.currentOutputState

theorem SameCredit.refl (c : Channel) : SameCredit c c := ⟨rfl, rfl, rfl, rfl, rfl, rfl⟩

theorem SameCredit.trans {c c' c'' : Channel} (h : SameCredit c c') (h' : SameCredit c' c'') :
    SameCredit c c'' :=
  ⟨h'.isOpened.trans h.isOpened, h'.localWindow.trans h.localWindow,
    h'.localConsumed.trans h.localConsumed, h'.localWindowMax.trans h.localWindowMax,
    h'.descending.trans h.descending, h'.output.trans h.output⟩

variable {s : SessionChannel} {c c' : Channel} {P : Ledger → Prop} {B : SessionChannel → Prop}

theorem SameCredit.ledger_eq (h : SameCredit s.base c') :
    ledger { s with base := c' } = ledger s := by
  simp only [ledger, h.localWindow, h.localConsumed, h.descending, h.localWindowMax, h.output]

theorem KeptBy.sameCredit (hs : KeptBy P B s) (hR : FrugalRules P B) (h : SameCredit s.base c') :
    KeptBy P B { s with base := c' } where
  queue := hs.queue
  kept := by
    rw [h.ledger_eq]
    exact hs.kept
  unopened := by
    intro hopen
    exact hR.same (hs.unopened (h.isOpened.symm.trans hopen)) (.inl rfl) h.ledger_eq

def KeptOpen (P : Ledger → Prop) (B : SessionChannel → Prop) (s : SessionChannel) : Prop :=
  KeptBy P B s ∧ s.base.isOpened = true

/-- The output half is closed or starts draining. -/
theorem KeptBy.refused (hs : KeptBy P B s) (hR : FrugalRules P B) (output input : ChanState)
    (h : output ≠ .open) :
    KeptBy P B { s with base :=
      { s.base with currentOutputState := output, currentInputState := input } } := by
  have hledger : ledger { s with base :=
      { s.base with currentOutputState := output, currentInputState := input } } =
      { ledger s with accepting := false } := by
    simp only [ledger, h, decide_false]
  refine ⟨hs.queue, ?_, fun hopen => hR.refuse (hs.unopened hopen) rfl hledger⟩
  rw [hledger]
  exact hR.step (.refuse _) (.refl _) hs.kept

/-! ## §2 Frames -/

section Frames

variable {c₀ : Channel}

variable {α : Type}

theorem onCon_same (m : ConM α) : Keeps (SameCredit c₀) (onCon m) := by
  intro c h
  rw [onCon, wp_zoom]
  exact wp_intro (fun _ _ _ => h.trans ⟨rfl, rfl, rfl, rfl, rfl, rfl⟩)
    fun _ _ _ => h.trans ⟨rfl, rfl, rfl, rfl, rfl, rfl⟩

theorem onAscending_same (m : BufferM α) : Keeps (SameCredit c₀) (onAscending m) := by
  intro c h
  rw [onAscending, wp_zoom]
  exact wp_intro (fun _ _ _ => h.trans ⟨rfl, rfl, rfl, rfl, rfl, rfl⟩)
    fun _ _ _ => h.trans ⟨rfl, rfl, rfl, rfl, rfl, rfl⟩

theorem modify_same {f : Channel → Channel} (hf : ∀ c, SameCredit c (f c)) :
    Keeps (SameCredit c₀) (modify f : ChannelM Unit) :=
  .modify fun c h => h.trans (hf c)

theorem message_same (type : UInt8) (body : ConM Unit) :
    Keeps (SameCredit c₀) (message type body) :=
  Keeps.get.bind fun _ => onCon_same _

theorem reading_same (g : Get α) : Keeps (SameCredit c₀) (reading g) := onCon_same _

theorem sendEOF_same : Keeps (SameCredit c₀) sendEOF :=
  (message_same _ _).bind fun _ => modify_same fun _ => ⟨rfl, rfl, rfl, rfl, rfl, rfl⟩

theorem sendAscending_same : Keeps (SameCredit c₀) sendAscending := by
  refine Keeps.get.bind fun c => .ite (.ite ?_ (.pure _)) (.pure _)
  refine (message_same _ _).bind fun _ => (onAscending_same _).bind fun _ => ?_
  exact modify_same fun _ => ⟨rfl, rfl, rfl, rfl, rfl, rfl⟩

theorem channelOutputPoll_same (hasAscendingData : Channel → Bool) :
    Keeps (SameCredit c₀) (channelOutputPoll hasAscendingData) := by
  have hclosed : Keeps (SameCredit c₀)
      (modify fun c : Channel => { c with currentInputState := .closed } : ChannelM Unit) :=
    modify_same fun _ => ⟨rfl, rfl, rfl, rfl, rfl, rfl⟩
  refine Keeps.get.bind fun c => .ite (.pure ()) ?_
  refine sendAscending_same.bind fun _ => Keeps.get.bind fun c' => ?_
  exact .ite (.ite (sendEOF_same.bind fun _ => hclosed) hclosed) (.pure ())

theorem chanIsDead_same (doSend : Bool) : Keeps (SameCredit c₀) (chanIsDead doSend) := by
  refine Keeps.get.bind fun c => .ite (.pure _) (.ite ?_ (.pure _))
  refine (message_same _ _).bind fun _ => .bind ?_ fun _ => .pure _
  exact modify_same fun _ => ⟨rfl, rfl, rfl, rfl, rfl, rfl⟩

theorem channelInputWindowAdjust_same : Keeps (SameCredit c₀) channelInputWindowAdjust := by
  refine (reading_same _).bind fun _ => (reading_same _).bind fun _ => ?_
  exact modify_same fun _ => ⟨rfl, rfl, rfl, rfl, rfl, rfl⟩

end Frames

theorem onBase_modify (f : Channel → Channel) (s : SessionChannel)
    {Q : Unit → SessionChannel → Prop} {E : Halt → SessionChannel → Prop} :
    wp (onBase (modify f)) Q E s ↔ Q () { s with base := f s.base } := by
  rw [onBase, wp_zoom, wp_modify]

section Rules

variable (hR : FrugalRules P B)

include hR

variable {α : Type} {q : BusyThreadWriteBuffer} {w' : Worker} {subsystem : Option Worker}

/-- A function of the base class that does not write the ledger. -/
theorem onBase_kept {m : ChannelM α} (hm : ∀ c₀, Keeps (SameCredit c₀) m) :
    Keeps (KeptBy P B) (onBase m) := by
  intro s hs
  rw [onBase, wp_zoom]
  exact wp_mono (hm s.base s.base (.refl _)) (fun _ _ h => hs.sameCredit hR h)
    fun _ _ h => hs.sameCredit hR h

/-! ## §3 Messages from the peer -/

/-- **DATA.** What is accepted was in the window; what is not accepted any more is counted as
consumed. -/
theorem channelInputData_spec (hs : KeptBy P B s)
    (hdiscard : s.base.currentOutputState ≠ .open → ∀ data rest,
      packetGetStringPtr s.base.con.incomingPacket = .ok data rest →
      P { ledger s with
        window := s.base.localWindow - ofNat data.length
        consumed := s.base.localConsumed + ofNat data.length }) :
    wp (onBase channelInputData) (fun _ => KeptBy P B) any s := by
  rw [onBase, wp_zoom, channelInputData, wp_read, wp_ite, wp_pure]
  refine ⟨fun _ => hs, fun hopen => ?_⟩
  have hopened : s.base.isOpened = true := by simpa using hopen
  rw [wp_bind, reading, onCon, wp_zoom, wp_zoom]
  refine wp_intro (fun data rest hget => ?_) fun _ _ _ => trivial
  have hdata := (wp_of_ok hget).mp (packetGetStringPtr_short s.base.con.incomingPacket)
  have hlen : (ofNat data.length).toNat = data.length := UInt32.toNat_ofNat_of_lt hdata
  rw [wp_ite, wp_ite, wp_pure, wp_modify]
  refine ⟨fun hout => ?_, fun hout => ⟨fun _ => ?_, fun hwindow => ?_⟩⟩
  · exact ⟨hs.queue, hdiscard hout data rest hget, fun hnot => by cases hopened.symm.trans hnot⟩
  · exact hs.sameCredit hR ⟨rfl, rfl, rfl, rfl, rfl, rfl⟩
  · rw [wp_update, wp_bind, putRawData, onDescending, wp_zoom]
    refine wp_weaken (append_spec _ _) ?_
    intro _ b hb
    have hbuffered : b.len = s.base.descending.len + data.length := by
      rw [← b.contents_length, hb, List.length_append, contents_length]
    have hreceived : KeptBy P B { s with base :=
        { s.base with
          localWindow := s.base.localWindow - ofNat data.length
          descending := b } } := by
      have hwithin := UInt32.not_lt.mp hwindow
      have hstep := Ledger.Step.receive (ledger s) (ofNat data.length) hwithin
        (by simpa [ledger] using hout)
      have hkept := hR.step hstep (.inl (UInt32.sub_le hwithin)) hs.kept
      rw [hlen] at hkept
      refine ⟨hs.queue, ?_, fun hnot => by cases hopened.symm.trans hnot⟩
      simp only [ledger, hbuffered]
      exact hkept
    refine wp_weaken (reading_same packetCheckEom _ (.refl _)) ?_
    intro _ c' h
    exact hreceived.sameCredit hR { h with }

omit hR in
theorem channelInputData_kept (hR : Rules P B) :
    Keeps (KeptBy P B) (onBase channelInputData) ⊤ := by
  intro s hs
  apply channelInputData_spec hR.frugal hs
  intro hout data rest _
  exact hR.step (.discard (ledger s) (ofNat data.length) (by simp [ledger, hout])) hs.kept

theorem channelInputOclose_kept :
    Keeps (KeptBy P B) (onBase channelInputOclose) ⊤ := by
  intro s hs
  rw [onBase, wp_zoom, channelInputOclose]
  refine wp_seq_any (reading_same packetCheckEom s.base (.refl _)) ?_
  intro _ c1 h1
  have hs1 : KeptBy P B { s with base := { c1 with closeRcvd := true } } :=
    hs.sameCredit hR (h1.trans ⟨rfl, rfl, rfl, rfl, rfl, rfl⟩)
  rw [wp_update, wp_read, wp_ite, wp_modify]
  refine ⟨fun _ => hs1.refused hR _ _ (by decide), fun _ => ?_⟩
  -- whatever the output half has become, the input half does not matter
  have hclosed : ∀ c₀, Keeps (SameCredit c₀)
      (modify fun c : Channel => { c with currentInputState := .closed } : ChannelM Unit) :=
    fun _ => modify_same fun _ => ⟨rfl, rfl, rfl, rfl, rfl, rfl⟩
  have hinput : ∀ input : ChannelM Unit, (∀ c₀, Keeps (SameCredit c₀) input) → ∀ c2,
      KeptBy P B { s with base := c2 } →
      wp input (fun _ c' => KeptBy P B { s with base := c' }) any c2 :=
    fun _ hsame c2 h2 =>
      wp_weaken (hsame c2 c2 (.refl _)) fun _ _ h => h2.sameCredit hR h
  have hrest : ∀ input : ChannelM Unit, (∀ c₀, Keeps (SameCredit c₀) input) →
      wp (if c1.currentOutputState = .open then do
          modify fun c : Channel => { c with currentOutputState := .waitDrain }
          input
        else input) (fun _ c' => KeptBy P B { s with base := c' }) any
        { c1 with closeRcvd := true } := by
    intro input hsame
    rw [wp_ite, wp_update]
    exact ⟨fun _ => hinput input hsame _ (hs1.refused hR _ _ (by decide)),
      fun _ => hinput input hsame _ hs1⟩
  apply hrest
  intro c₀
  cases c1.currentInputState with
  | «open» => exact hclosed c₀
  | waitDrain => exact sendEOF_same.bind fun _ => hclosed c₀
  | closed => exact .pure ()

theorem putEof_kept : Keeps (KeptBy P B) putEof ⊤ := by
  intro s hs
  rw [putEof, wp_zoom]
  refine wp_weaken (putEof_result _) fun _ q hq => ?_
  obtain ⟨-, b, hb, hq⟩ := hq
  obtain ⟨hqueue, hwaiting⟩ := hs.queue.added (by decide) hb true s.fromChannel.nWriteConsumed
  rw [← hq] at hqueue hwaiting
  have hledger : ledger { s with fromChannel := q } = ledger s := by
    simp only [ledger, hwaiting]
    rw [hq]
    rfl
  refine ⟨hqueue, ?_, ?_⟩
  · rw [hledger]
    exact hs.kept
  · exact fun hopen => hR.same (hs.unopened hopen) (.inl rfl) hledger

theorem drained_kept : Keeps (KeptBy P B) drained ⊤ := by
  refine (putEof_kept hR).bind fun _ => ?_
  intro s hs
  rw [onBase_modify]
  exact hs.refused hR _ _ (by decide)

theorem channelInputEof_kept : Keeps (KeptBy P B) SessionChannel.channelInputEof ⊤ := by
  have heom : Keeps (KeptBy P B) (onBase (reading packetCheckEom)) :=
    onBase_kept hR fun _ => reading_same _
  refine (heom.mono fun _ _ => trivial).bind fun _ => ?_
  intro s hs
  have hs1 : KeptBy P B { s with base := { s.base with eofRcvd := true } } :=
    hs.sameCredit hR ⟨rfl, rfl, rfl, rfl, rfl, rfl⟩
  rw [rcvdIeof, wp_bind, onBase_modify, wp_read, wp_ite, wp_pure]
  refine ⟨fun _ => ?_, fun _ => hs1⟩
  have hs2 : KeptBy P B { s with base :=
      { s.base with eofRcvd := true, currentOutputState := .waitDrain } } :=
    hs1.refused hR .waitDrain s.base.currentInputState (by decide)
  rw [wp_bind, onBase_modify, wp_ite, wp_pure]
  exact ⟨fun _ => drained_kept hR _ hs2, fun _ => hs2⟩

/-! ## §4 Rounds of the server loop -/

theorem channelOutputPoll_kept : Keeps (KeptBy P B) SessionChannel.channelOutputPoll :=
  Keeps.get.bind fun _ => onBase_kept hR fun _ => channelOutputPoll_same _

omit hR in
theorem KeptOpen.not_unopened {Q : Prop} (hs : KeptOpen P B s) (h : s.base.isOpened = false) :
    Q := by
  cases hs.2.symm.trans h

omit hR in
/-- `toChannel` and `ascending` are not in the ledger. -/
theorem getAs_kept (sftp : Bool) : Keeps (KeptOpen P B) (getAs sftp) ⊤ := by
  intro s hs
  rw [getAs, wp_bind, wp_zoom]
  refine wp_intro (fun _ t _ => ?_) fun _ _ _ => trivial
  rw [wp_pure]
  exact ⟨⟨hs.1.queue, hs.1.kept, hs.not_unopened⟩, hs.2⟩

/-- **Forwarding.** What the subsystem has consumed is collected, and all of `descending`
goes to `fromChannel`. -/
theorem descending2subproc_kept : Keeps (KeptOpen P B) descending2subproc ⊤ := by
  intro s hs
  rw [descending2subproc, wp_read, wp_bind, wp_zoom]
  refine wp_weaken (put_spec hs.1.queue _ s.base.localConsumed) ?_
  intro _ t ht
  obtain ⟨hqueue, hwaiting, hread, hwrite, hconsumed⟩ := ht
  rw [onBase, wp_zoom, onDescending, wp_zoom]
  refine wp_weaken (consume_spec _ _) ?_
  intro _ b hb
  have hempty : b.len = 0 := by
    rw [← b.contents_length, hb.2, List.length_drop, contents_length, Nat.sub_self]
  refine ⟨⟨hqueue, ?_, hs.not_unopened⟩, hs.2⟩
  have hcollected := hR.step (.collect (ledger s)) (.refl _) hs.1.kept
  have hforward := hR.step (.forward _) (.refl _) hcollected
  simp only [ledger, contents_length] at hforward hwaiting ⊢
  simp only [hempty, hwaiting, hread, hwrite, hconsumed]
  exact hforward

theorem channelCheckWindow_kept :
    Keeps (KeptOpen P B) (onBase channelCheckWindow) ⊤ := by
  intro s hs
  refine wp_channelCheckWindow (fun con _ => ?_) hs
  exact ⟨⟨hs.1.queue, hR.step (.adjust _) (.inr rfl) hs.1.kept, hs.not_unopened⟩, hs.2⟩

omit hR in
theorem QueueOk.closed (h : QueueOk subsystem q) : QueueOk none q := by
  obtain ⟨junk, msgs, hr, -⟩ := h.read
  exact ⟨h.write, ⟨junk, msgs, hr, fun _ hw => by cases hw⟩, fun _ hw => by cases hw⟩

theorem garbageCollect_kept : Keeps (KeptBy P B) garbageCollect ⊤ := by
  have hdead : ∀ doSend, Keeps (KeptBy P B) (onBase (chanIsDead doSend)) ⊤ :=
    fun doSend => .mono (onBase_kept hR fun _ => chanIsDead_same doSend) fun _ _ => trivial
  have hnone : Keeps (KeptBy P B)
      (modify fun s => { s with subsystem := none } : SessionM Unit) ⊤ :=
    .modify fun s hs =>
      ⟨hs.queue.closed, hs.kept, fun hnot => hR.same (hs.unopened hnot) (.inr rfl) rfl⟩
  refine Keeps.get.bind fun s => (hdead _).bind fun _ => .ite ?_ (.pure _)
  refine .bind (Keeps.get.bind fun s => .ite ((putEof_kept hR).bind fun _ => hnone) hnone) fun _ =>
    (hdead _).bind fun _ => .ite (.modify fun s hs => ?_) (.pure _)
  exact ⟨hs.queue, hs.kept, fun hnot => hR.same (hs.unopened hnot) (.inl rfl) rfl⟩

/-- `channel_post`, with the function that moves the data to the subsystem -/
theorem post_kept (sftp : Bool) (hput : Keeps (KeptOpen P B) (putAs sftp) ⊤) :
    Keeps (KeptBy P B) (postAs sftp) ⊤ := by
  intro s hs
  rw [wp_postAs]
  refine ⟨fun hopened => ?_, fun _ => garbageCollect_kept hR s hs⟩
  refine wp_imp (getAs_kept sftp s ⟨hs, hopened⟩) fun _ s1 h1 => ?_
  refine wp_imp (hput s1 h1) fun _ s2 h2 => ?_
  exact wp_imp (channelCheckWindow_kept hR s2 h2) fun _ s3 h3 =>
    garbageCollect_kept hR s3 h3.1

theorem channelPost_kept : Keeps (KeptBy P B) channelPost ⊤ :=
  post_kept hR false (descending2subproc_kept hR)

theorem fillEventArray_kept : Keeps (KeptBy P B) SessionChannel.fillEventArray ⊤ := by
  have hcheck : Keeps (KeptBy P B) (onBase checkAscendingChanRbuf) ⊤ :=
    .mono (onBase_kept hR fun _ => onAscending_same _) fun _ _ => trivial
  have hwaits : Keeps (KeptBy P B) waitsForData ⊤ :=
    Keeps.get.bind fun _ => .ite hcheck (.pure _)
  refine hwaits.bind fun waits => Keeps.get.bind fun s => .ite ?_ ?_
  · exact (drained_kept hR).bind fun _ => (garbageCollect_kept hR).bind fun _ => .pure _
  · exact (garbageCollect_kept hR).bind fun _ => .pure _

theorem subprocTerminatedNotify_kept :
    Keeps (KeptBy P B) SessionChannel.subprocTerminatedNotify ⊤ := by
  refine .bind (.mono (onBase_kept hR fun _ => message_same _ _) fun _ _ => trivial) ?_
  intro _ s hs
  rw [onBase_modify]
  have hs1 : KeptBy P B { s with base := { s.base with doClose := true } } :=
    hs.sameCredit hR ⟨rfl, rfl, rfl, rfl, rfl, rfl⟩
  exact hs1.refused hR .closed .waitDrain (by decide)

/-! ## §5 The subsystem -/

omit hR in
/-- Steps of the subsystem in `get` are steps of the ledger. -/
theorem Effect.kept (h : Effect s.fromChannel q)
    (hP : Ledger.StableFrugal P) (hs : P (ledger s)) : P (ledger { s with fromChannel := q }) := by
  cases h with
  | same hwaiting hr hw =>
    have hledger : ledger { s with fromChannel := q } = ledger s := by
      simp only [ledger, hwaiting, hr, hw]
    rw [hledger]
    exact hs
  | swap hwaiting hr hw =>
    have hkept := hP (.swap (ledger s)) (.refl _) hs
    simp only [ledger, hwaiting, hr, hw] at hkept ⊢
    exact hkept
  | take n hwaiting hr hw =>
    have hkept := hP (.take (ledger s) n (by simp only [ledger, hwaiting]; omega)) (.refl _) hs
    have hrest : s.fromChannel.waiting - n = q.waiting := by omega
    simp only [ledger, hrest, hr, hw] at hkept ⊢
    exact hkept

/-- The subsystem moves on, perhaps with the queue. -/
theorem KeptOpen.worker (hs : KeptOpen P B s)
    (hqueue : QueueOk (some w') q) (heffect : Effect s.fromChannel q) :
    KeptOpen P B { s with fromChannel := q, subsystem := some w' } :=
  ⟨⟨hqueue, heffect.kept hR.step hs.1.kept, hs.not_unopened⟩, hs.2⟩

/-- The subsystem goes to a place about which nothing is to be known. -/
theorem setWorker_kept {w : Worker} (hs : KeptOpen P B s) (hsub : s.subsystem = some w)
    (hrun : w.pc ≠ .terminated) (hpc : PcOk s.fromChannel w'.pc) :
    wp (setWorker w') (fun _ => KeptOpen P B) any s := by
  rw [setWorker, wp_modify]
  have hqueue : QueueOk (some w) s.fromChannel := hsub ▸ hs.1.queue
  exact hs.worker hR (hqueue.goto hrun s.fromChannel.dataArrived hpc) (.same rfl rfl rfl)

theorem getStep_kept : Keeps (KeptOpen P B) (stepEvent .getStep) ⊤ := by
  intro s hs
  rw [stepEvent, wp_modify]
  cases hsub : s.subsystem with
  | none => exact hs
  | some w =>
    have hqueue : QueueOk (some w) s.fromChannel := hsub ▸ hs.1.queue
    obtain ⟨hnext, heffect⟩ := getStep_ok hqueue
    exact hs.worker hR hnext heffect

theorem workerPut_kept (data : Bytes) :
    Keeps (KeptOpen P B) (stepEvent (.workerPut data)) ⊤ := by
  refine fun s hs => wp_workerAt hs fun w hsub hpc => ?_
  have hframe : ∀ q : BusyThreadReadBuffer, KeptOpen P B { s with toChannel := q } :=
    fun q => ⟨⟨hs.1.queue, hs.1.kept, hs.not_unopened⟩, hs.2⟩
  rw [wp_tryCatch, wp_zoom]
  refine wp_intro (fun _ q _ => hframe q) fun _ q _ => ?_
  exact setWorker_kept hR (hframe q) hsub (by rw [hpc]; decide) trivial

/-- `SendExitMsg`, for a channel that is open or not. -/
theorem exitMsg_kept : Keeps (KeptBy P B) (stepEvent .exitMsg) ⊤ := by
  exact fun s hs => wp_workerAt hs fun _ _ _ => subprocTerminatedNotify_kept hR s hs

/-- Events of `server_loop` that all classes handle in the same way -/
def SessionChannel.Event.inLoop : SessionChannel.Event → Bool
  | .data _ | .eof _ | .close _ | .windowAdjust _ | .outputPoll | .fillEventArray | .exitMsg => true
  | _ => false

theorem loopEvent_frugal (event : SessionChannel.Event) (h : event.inLoop = true)
    (hdata : ∀ body, event ≠ .data body) :
    Keeps (KeptBy P B) (stepEvent event) ⊤ := by
  have hreceived : ∀ body, Keeps (KeptBy P B) (received body) ⊤ :=
    fun body => .mono (onBase_kept hR fun _ => onCon_same _) fun _ _ => trivial
  cases event with
  | data body => exact absurd rfl (hdata body)
  | eof body => exact (hreceived body).bind fun _ => channelInputEof_kept hR
  | close body => exact (hreceived body).bind fun _ => channelInputOclose_kept hR
  | windowAdjust body =>
    exact (hreceived body).bind fun _ =>
      .mono (onBase_kept hR fun _ => channelInputWindowAdjust_same) fun _ _ => trivial
  | outputPoll => exact (channelOutputPoll_kept hR).mono fun _ _ => trivial
  | fillEventArray => exact (fillEventArray_kept hR).bind fun _ => .pure _
  | exitMsg => exact exitMsg_kept hR
  | request | post | callGet | getStep | otherEvent | workerPut | workerExit => cases h

omit hR in
theorem dataEvent_kept (hR : Rules P B) (body : Bytes) :
    Keeps (KeptBy P B) (stepEvent (.data body)) ⊤ := by
  have hreceived : Keeps (KeptBy P B) (received body) ⊤ :=
    .mono (onBase_kept hR.frugal fun _ => onCon_same _) fun _ _ => trivial
  exact hreceived.bind fun _ => channelInputData_kept hR

/-- **Steps of the subsystem** in a channel that is open. -/
theorem workerEvent_kept (event : SessionChannel.Event)
    (h : event = .callGet ∨ event = .getStep ∨ event = .otherEvent ∨ event = .workerExit ∨
      ∃ data, event = .workerPut data) :
    Keeps (KeptOpen P B) (stepEvent event) ⊤ := by
  have hgoto : ∀ {pc pc' : Pc}, pc ≠ .terminated → (∀ q, PcOk q pc') →
      Keeps (KeptOpen P B) (workerAt pc fun w =>
        setWorker { w with pc := pc' }) ⊤ :=
    fun hrun hok s hs => wp_workerAt hs fun w hsub hpc =>
      setWorker_kept hR hs hsub (by rw [hpc]; exact hrun) (hok _)
  rcases h with rfl | rfl | rfl | rfl | ⟨data, rfl⟩
  · exact hgoto (by decide) fun _ => trivial
  · exact getStep_kept hR
  · exact hgoto (by decide) fun _ => trivial
  · exact hgoto (by decide) fun _ => trivial
  · exact workerPut_kept hR data

end Rules

/-! ## §6 Sessions -/

section Sessions

variable (hP : Ledger.StableFrugal P)

/-- A ledger that is blank has no message that failed. -/
theorem QueueOk.started {q : BusyThreadWriteBuffer} {w : Worker}
    (h : QueueOk subsystem q) (hwaiting : q.waiting = 0) (hpc : PcOk q w.pc) :
    QueueOk (some w) q := by
  obtain ⟨msgs, hw⟩ := h.write
  obtain ⟨junk, msgs', hr, -⟩ := h.read
  have hjunk : junk = [] := by
    rw [waiting_of_holds hr hw] at hwaiting
    exact List.length_eq_zero_iff.mp (by omega)
  refine ⟨⟨msgs, hw⟩, ⟨junk, msgs', hr, fun _ _ _ => hjunk⟩, ?_⟩
  intro w hw'
  cases hw'
  exact hpc

include hP

/-- **Opening.** The window is granted on a blank ledger, also when telling the peer fails. -/
theorem startSubsystem_kept (start : Start) : Keeps (KeptBy P Larval) (startSubsystem start) ⊤ := by
  intro s hs
  have hwaiting : s.base.isOpened = false → s.fromChannel.waiting = 0 := by
    intro hclosed
    obtain ⟨-, _, hblank⟩ := hs.unopened hclosed
    exact congrArg Ledger.waiting hblank
  refine wp_startSubsystem (fun hclosed _ _ => ?_) (fun hclosed _ con _ => ?_) fun _ => hs
  · refine ⟨hs.queue.started (hwaiting hclosed) trivial, hs.kept, fun _ => ⟨fun w hw => ?_,
      (hs.unopened hclosed).2⟩⟩
    cases hw
    rfl
  obtain ⟨-, accepting, hblank⟩ := hs.unopened hclosed
  have hgranted : KeptBy P Larval { s with
      subsystem := some {}
      base := { s.base with
        isOpened := true
        localWindow := windowDefaultSize
        localWindowMax := windowDefaultSize } } := by
    refine ⟨hs.queue.started (hwaiting hclosed) trivial, ?_, fun hnot => by cases hnot⟩
    have hledger : ledger { s with
        subsystem := some {}
        base := { s.base with
          isOpened := true
          localWindow := windowDefaultSize
          localWindowMax := windowDefaultSize } } =
        { ledger s with
          window := windowDefaultSize
          max := windowDefaultSize } := rfl
    rw [hledger, hblank]
    refine hP (.grant accepting windowDefaultSize) (.inr rfl) ?_
    rw [← hblank]
    exact hs.kept
  exact hgranted.sameCredit (larval_frugal hP) ⟨rfl, rfl, rfl, rfl, rfl, rfl⟩

theorem inputChannelReq_kept (reply : Bool) (start : Start) :
    Keeps (KeptBy P Larval) (SessionChannel.inputChannelReq reply start) ⊤ := by
  refine (startSubsystem_kept hP start).bind fun _ => .ite ?_ (.pure _)
  exact .mono (onBase_kept (larval_frugal hP) fun _ => message_same _ _) fun _ _ => trivial

omit hP in
/-- A step of the subsystem: only a channel that is open has one. -/
theorem sessionWorker_kept {event : SessionChannel.Event}
    (hopen : Keeps (KeptOpen P Larval) (stepEvent event) ⊤)
    (hidle : ∀ s, Unstarted s.subsystem → stepEvent event s = .ok () s) :
    Keeps (KeptBy P Larval) (stepEvent event) ⊤ := by
  intro s hs
  cases hopened : s.base.isOpened with
  | true => exact wp_weaken (hopen s ⟨hs, hopened⟩) fun _ _ h => h.1
  | false =>
    rw [wp_of_ok (hidle s (hs.unopened hopened).1)]
    exact hs

/-- Everything but DATA and `channel_post`, which classes override. -/
theorem stepEvent_frugal (event : SessionChannel.Event) (hpost : event ≠ .post)
    (hdata : ∀ body, event ≠ .data body) :
    Keeps (KeptBy P Larval) (stepEvent event) ⊤ := by
  have hR := larval_frugal hP
  have hidle : ∀ {pc : Pc} {f : Worker → SessionM Unit}, pc ≠ .ready → ∀ s : SessionChannel,
      Unstarted s.subsystem → workerAt pc f s = .ok () s := by
    intro pc f hpc s hno
    rw [workerAt, get_bind_apply]
    cases hsub : s.subsystem with
    | none => rfl
    | some w => exact congrFun (if_neg fun h => hpc (h.symm.trans (hno w hsub))) s
  cases event with
  | request reply start => exact inputChannelReq_kept hP reply start
  | post => exact absurd rfl hpost
  | data body => exact absurd rfl (hdata body)
  | eof | close | windowAdjust | outputPoll | fillEventArray | exitMsg =>
    exact loopEvent_frugal hR _ rfl hdata
  | getStep =>
    refine sessionWorker_kept (workerEvent_kept hR _ (by simp)) fun s hno => ?_
    show EStateM.Result.ok _ _ = _
    cases hsub : s.subsystem with
    | none => simp only [hsub]
    | some w =>
      simp only [hsub, getStep, hno w hsub]
      rw [← hsub]
  | callGet | otherEvent | workerPut | workerExit =>
    exact sessionWorker_kept (workerEvent_kept hR _ (by simp)) (hidle (by decide))

end Sessions

theorem stepEvent_kept (hP : Ledger.Stable P) (event : SessionChannel.Event)
    (hpost : event ≠ .post) : Keeps (KeptBy P Larval) (stepEvent event) ⊤ := by
  cases event with
  | data body => exact dataEvent_kept (larval_rules hP) body
  | _ => exact stepEvent_frugal hP.frugal _ hpost fun body h => by cases h

theorem step_kept (event : SessionChannel.Event) : Keeps Kept (step event) ⊤ := by
  refine Keeps.get.bind fun _ => .ite (.pure _) ?_
  by_cases hpost : event = .post
  · rw [hpost]
    exact channelPost_kept (larval_rules (Ledger.stable_steps _)).frugal
  · exact stepEvent_kept (Ledger.stable_steps _) event hpost

theorem create_kept (hP : P (.blank true)) (remoteId rwindow rmaxpack : UInt32) :
    KeptBy P Larval (create remoteId rwindow rmaxpack) := by
  refine ⟨.init fun _ hw => ?_, hP, fun _ => ⟨.none, true, rfl⟩⟩
  cases hw

/-- **Incoming credit.** In every state that a session channel reaches, the windows, the bytes
held and the bytes consumed add up to the window that was granted, and no more bytes are
held than that. -/
theorem session_credit (remoteId rwindow rmaxpack : UInt32)
    (events : List SessionChannel.Event) (s : SessionChannel)
    (h : runAll step events (create remoteId rwindow rmaxpack) =
      .ok () s) :
    s.base.localWindow + s.base.localConsumed +
        ofNat (s.base.descending.len + s.fromChannel.waiting) -
        s.fromChannel.nReadConsumed.toUInt32 - s.fromChannel.nWriteConsumed.toUInt32 =
      s.base.localWindowMax ∧
    s.base.descending.len + s.fromChannel.waiting ≤ s.base.localWindowMax.toNat := by
  have hrun := Keeps.runAll step_kept events _ (create_kept .refl remoteId rwindow rmaxpack)
  rw [wp_of_ok h] at hrun
  have hok := Ledger.Steps.ok hrun.kept (Ledger.blank_ok true)
  exact ⟨hok.conserved, hok.bounded⟩

/-- A subsystem is started, gets one of two messages, and has the rest waiting. -/
theorem session_credit_shell :
    let events : List SessionChannel.Event :=
      [.request true, .data (putString [1, 2, 3]), .post, .data (putString [4, 5]), .callGet,
        .getStep, .getStep, .getStep, .getStep, .getStep, .post]
    let s := endState (runAll step events) (create 7 100 100)
    (s.subsystem.map Worker.received = some [[1, 2, 3]] ∧ s.fromChannel.waiting = 2) ∧
      s.base.descending.len + s.fromChannel.waiting ≤ s.base.localWindowMax.toNat := by
  intro events s
  exact ⟨by decide +kernel,
    (session_credit 7 100 100 events s (ok_endState (by decide +kernel))).2⟩

end Shiesh.Channels
