import Shiesh.Channels.LifeObjects

/-!
# The Close Protocol

What the server sends at the end of a channel: one EOF at most, one CLOSE at most, and nothing
that the peer is not prepared for behind them.

Two functions do not look at what has been sent before: `subproc_terminated_notify` reopens the
input half for draining, and `channel_input_oclose` sends EOF for a half that is draining. The
protocol is kept as long as the first finds nothing to drain and the second does not come in
between.

## Main result

- `close_protocol`: the protocol is kept in every run in which those two functions find the
  channel as they take it to be
-/

namespace Shiesh.Channels

open Shiesh.Lib List Life
open Ssh2Msg (channelClose channelData channelEof channelRequest)

/-! ## §1 The protocol -/

def types (sent : List Packet) : List UInt8 := sent.map Packet.type

theorem types_snoc (sent : List Packet) (p : Packet) :
    types (sent ++ [p]) = types sent ++ [p.type] := map_append

/-- At most one EOF and one CLOSE; no DATA behind EOF, neither EOF nor DATA behind CLOSE. -/
structure ClosesOnce (sent : List Packet) : Prop where
  oneEof : (types sent).count channelEof ≤ 1
  oneClose : (types sent).count channelClose ≤ 1
  noDataAfterEof : (types sent).Pairwise fun first later =>
    first = channelEof → later ≠ channelData
  silentAfterClose : (types sent).Pairwise fun first later =>
    first = channelClose → later ≠ channelEof ∧ later ≠ channelData

theorem ClosesOnce.nil : ClosesOnce [] := ⟨Nat.zero_le 1, Nat.zero_le 1, .nil, .nil⟩

/-- What has to be true of the messages before, for `p` to be sent. -/
def MaySend (sent : List Packet) (p : Packet) : Prop :=
  (p.type = channelEof ∨ p.type = channelData →
    channelEof ∉ types sent ∧ channelClose ∉ types sent) ∧
  (p.type = channelClose → channelClose ∉ types sent)

variable {sent : List Packet} {p : Packet}

theorem count_snoc_le {type : UInt8}
    (h : (types sent).count type ≤ 1) (hp : p.type = type → type ∉ types sent) :
    (types (sent ++ [p])).count type ≤ 1 := by
  rw [types_snoc, count_append]
  by_cases htype : p.type = type
  · rw [count_eq_zero.mpr (hp htype)]
    simp [htype]
  · simp [htype, h]

theorem pairwise_snoc {R : UInt8 → UInt8 → Prop}
    (h : (types sent).Pairwise R) (hp : ∀ a ∈ types sent, R a p.type) :
    (types (sent ++ [p])).Pairwise R := by
  rw [types_snoc, pairwise_append]
  refine ⟨h, pairwise_singleton R _, ?_⟩
  intro a ha b hb
  rw [mem_singleton.mp hb]
  exact hp a ha

theorem ClosesOnce.snoc (h : ClosesOnce sent)
    (hp : MaySend sent p) : ClosesOnce (sent ++ [p]) where
  oneEof := count_snoc_le h.oneEof fun htype => (hp.1 (Or.inl htype)).1
  oneClose := count_snoc_le h.oneClose hp.2
  noDataAfterEof := by
    refine pairwise_snoc h.noDataAfterEof fun a ha heof hdata => ?_
    exact (hp.1 (.inr hdata)).1 (heof ▸ ha)
  silentAfterClose := by
    refine pairwise_snoc h.silentAfterClose fun a ha hclose => ⟨fun heof => ?_, fun hdata => ?_⟩
    · exact (hp.1 (.inl heof)).2 (hclose ▸ ha)
    · exact (hp.1 (.inr hdata)).2 (hclose ▸ ha)

/-! ## §2 Lives that keep it -/

/-- The flags know what has been sent, and nothing is left to be sent behind it. -/
structure Closing (l : Life) : Prop where
  closes : ClosesOnce l.sent
  eof : l.eofSent = false → channelEof ∉ types l.sent
  close : l.closeSent = false → channelClose ∉ types l.sent
  drains : l.input = .waitDrain → l.output = .closed
  ended : l.eofSent = true ∨ l.closeSent = true →
    l.output = .closed ∧ (l.input = .closed ∨ l.held = false ∧ l.thread ≠ .running)
  unopened : l.isOpened = false → l.eofSent = false ∧
    (l.closeSent = true → l.deleted = true) ∧ (l.input = .closed → l.closeRcvd = true)

/-- When the two functions are called: what they find. -/
def Guarded (event : ChannelObject.Event) (l : Life) : Prop :=
  match event with
  | .session .exitMsg =>
    l.thread = .terminated → l.eofSent = true ∨ l.closeSent = true → l.held = false
  | .session (.close _) => l.input = .waitDrain → l.eofSent = false ∧ l.closeSent = false
  | _ => True

namespace Closing

variable {l l' : Life}

/-- A message that is none of the three. -/
def Calm (p : Packet) : Prop :=
  p.type ≠ channelEof ∧ p.type ≠ channelData ∧ p.type ≠ channelClose

variable {p : Packet} {ps : List Packet}

variable (h : Closing l)
include h

theorem say_one (hp : Calm p) : Closing (l.say [p]) where
  closes := by
    refine h.closes.snoc ⟨fun htype => ?_, fun htype => absurd htype hp.2.2⟩
    rcases htype with htype | htype
    · exact absurd htype hp.1
    · exact absurd htype hp.2.1
  eof hnot := by
    rw [say, types_snoc, mem_append, mem_singleton, not_or]
    exact ⟨h.eof hnot, fun htype => hp.1 htype.symm⟩
  close hnot := by
    rw [say, types_snoc, mem_append, mem_singleton, not_or]
    exact ⟨h.close hnot, fun htype => hp.2.2 htype.symm⟩
  drains := h.drains
  ended := h.ended
  unopened := h.unopened

theorem say (hps : ∀ p ∈ ps, Calm p) : Closing (l.say ps) := by
  induction ps generalizing l with
  | nil =>
    rw [say_nil]
    exact h
  | cons p ps ih =>
    have hnext := ih (h.say_one (hps p mem_cons_self)) fun p' hp' =>
      hps p' (mem_cons_of_mem _ hp')
    simpa [say] using hnext

omit h in
theorem calm_of_plain (h : Life.Plain ps) : ∀ p ∈ ps, Calm p := by
  intro p hp
  rcases h p hp with htype | htype | htype <;> rw [Calm, htype] <;> decide

theorem sendEof (hnew : l.eofSent = false ∧ l.closeSent = false)
    (hopened : l.isOpened = true) (hinput : l.input = .waitDrain) :
    Closing { l.sendEof with input := .closed } where
  closes := h.closes.snoc
    ⟨fun _ => ⟨h.eof hnew.1, h.close hnew.2⟩, fun htype =>
      absurd htype (show channelEof ≠ channelClose by decide)⟩
  eof hnot := by cases hnot
  close hnot := by
    have hclose := h.close hnot
    rw [Life.sendEof, Life.say, types_snoc, mem_append, mem_singleton, not_or]
    exact ⟨hclose, show channelClose ≠ channelEof by decide⟩
  drains hdrain := by cases hdrain
  ended _ := ⟨h.drains hinput, .inl rfl⟩
  unopened hnot := by cases hopened.symm.trans hnot

/-- The input half is closed, whatever it was. -/
theorem closed (hopened : l.isOpened = true) :
    Closing { l with input := .closed } where
  closes := h.closes
  eof := h.eof
  close := h.close
  drains hdrain := by cases hdrain
  ended hend := ⟨(h.ended hend).1, .inl rfl⟩
  unopened hnot := by cases hopened.symm.trans hnot

/-- The output half is not open any more, in a channel that has not ended. -/
theorem refused (output : ChanState) (hnew : l.eofSent = false ∧ l.closeSent = false)
    (hdrains : l.input = .waitDrain → output = .closed) : Closing { l with output := output } where
  closes := h.closes
  eof := h.eof
  close := h.close
  drains := hdrains
  ended hend := by
    rcases hend with hend | hend
    · cases hnew.1.symm.trans hend
    · cases hnew.2.symm.trans hend
  unopened := h.unopened

/-- As long as the output half is not closed, nothing has been said about the end. -/
theorem not_ended (houtput : l.output ≠ .closed) :
    l.eofSent = false ∧ l.closeSent = false := by
  constructor
  · exact Bool.eq_false_iff.mpr fun hend => houtput (h.ended (.inl hend)).1
  · exact Bool.eq_false_iff.mpr fun hend => houtput (h.ended (.inr hend)).1

theorem drained (houtput : l.output ≠ .closed) :
    Closing { l with output := .closed, input := .waitDrain } where
  closes := h.closes
  eof := h.eof
  close := h.close
  drains _ := rfl
  ended hend := absurd (h.ended hend).1 houtput
  unopened hnot := ⟨(h.unopened hnot).1, (h.unopened hnot).2.1, fun hclosed => by cases hclosed⟩

theorem refuse : Closing l.refuse := by
  rw [Life.refuse]
  split
  case isTrue hopen =>
    refine h.refused .waitDrain (h.not_ended (by rw [hopen]; decide)) fun hdrain => ?_
    cases hopen.symm.trans (h.drains hdrain)
  case isFalse => exact h

/-! ### The steps of the table -/

theorem request (hstep : l.Request l') (hlive : l.deleted = false) :
    Closing l' := by
  obtain ⟨ps, hps, hl'⟩ := hstep
  have hsaid := h.say (calm_of_plain hps)
  rcases hl' with rfl | ⟨hnew, hthread, _, rfl⟩
  · exact hsaid
  · obtain ⟨heof, hclose, -⟩ := h.unopened hnew
    have hnot : l.closeSent ≠ true := fun hsent => by cases hlive.symm.trans (hclose hsent)
    refine { hsaid with ended := fun hend => ?_, unopened := fun _ => h.unopened hnew }
    rcases hend with hend | hend
    · cases heof.symm.trans hend
    · exact absurd hend hnot

theorem peerEof (hstep : l.PeerEof l') : Closing l' := by
  rw [Life.PeerEof] at hstep
  split at hstep
  case isTrue hopen =>
    rcases hstep with rfl | rfl
    · have hrefuse := h.refuse
      rwa [Life.refuse, if_pos hopen] at hrefuse
    · exact h.drained (by rw [hopen]; decide)
  case isFalse =>
    rw [hstep]
    exact h

theorem peerClose
    (hguard : l.input = .waitDrain → l.eofSent = false ∧ l.closeSent = false) :
    Closing l.peerClose := by
  have hrcvd : Closing { l with closeRcvd := true } :=
    { h with unopened := fun hnot => ⟨(h.unopened hnot).1, (h.unopened hnot).2.1, fun _ => rfl⟩ }
  rw [Life.peerClose]
  split
  case isTrue hnew =>
    obtain ⟨heof, hclose, -⟩ := h.unopened hnew
    refine ⟨h.closes, h.eof, h.close, (fun hdrain => by cases hdrain), fun _ => ⟨rfl, .inl rfl⟩, ?_⟩
    exact fun _ => ⟨heof, hclose, fun _ => rfl⟩
  case isFalse hopen =>
    have hopened : l.isOpened = true := by simpa using hopen
    have hrefuse := hrcvd.refuse
    -- `refuse` does not touch what matters here
    have hsame : ({ l with closeRcvd := true } : Life).refuse.isOpened = l.isOpened ∧
        ({ l with closeRcvd := true } : Life).refuse.eofSent = l.eofSent ∧
        ({ l with closeRcvd := true } : Life).refuse.closeSent = l.closeSent := by
      rw [Life.refuse]
      split <;> exact ⟨rfl, rfl, rfl⟩
    have hinput := Life.refuse_input { l with closeRcvd := true }
    rw [Life.shut]
    split
    case isTrue hdrain =>
      have hnew := hguard (hinput.symm.trans hdrain)
      exact hrefuse.sendEof ⟨hsame.2.1.trans hnew.1, hsame.2.2.trans hnew.2⟩
        (hsame.1.trans hopened) hdrain
    case isFalse => exact hrefuse.closed (hsame.1.trans hopened)

theorem send (hstep : l.Send l') : Closing l' := by
  rcases hstep with rfl | ⟨hinput, hheld, p, held, hp, rfl⟩
  · exact h
  have hnew : ¬(l.eofSent = true ∨ l.closeSent = true) := by
    intro hend
    rcases (h.ended hend).2 with hclosed | hquiet
    · exact hinput hclosed
    · cases hheld.symm.trans hquiet.1
  rw [not_or, Bool.not_eq_true, Bool.not_eq_true] at hnew
  have hother : ∀ type, type ≠ channelData → type ∉ types l.sent →
      type ∉ types (l.sent ++ [p]) := by
    intro type htype hnot
    rw [types_snoc, mem_append, mem_singleton, not_or]
    exact ⟨hnot, fun heq => htype (heq.trans hp)⟩
  refine ⟨h.closes.snoc ⟨fun _ => ⟨h.eof hnew.1, h.close hnew.2⟩, fun htype => ?_⟩, ?_, ?_,
    h.drains, ?_, h.unopened⟩
  · cases hp.symm.trans htype
  · exact fun hnot => hother _ (by decide) (h.eof hnot)
  · exact fun hnot => hother _ (by decide) (h.close hnot)
  · intro hend
    rcases hend with hend | hend
    · cases hnew.1.symm.trans hend
    · cases hnew.2.symm.trans hend

theorem poll (hstep : l.Poll l') : Closing l' := by
  rw [Life.Poll] at hstep
  split at hstep
  case isTrue =>
    rw [hstep]
    exact h
  case isFalse hopen =>
    obtain ⟨l₁, hsend, rfl⟩ := hstep
    have hopened : l₁.isOpened = true := by
      have hbefore : l.isOpened = true := by simpa using hopen
      rcases hsend with rfl | ⟨-, -, p, held, -, rfl⟩
      · exact hbefore
      · exact hbefore
    have h₁ := h.send hsend
    split
    case isTrue hdrained =>
      rw [finish]
      split
      case isTrue => exact h₁.closed hopened
      case isFalse hfirst =>
        rw [Bool.not_eq_true, Bool.or_eq_false_iff] at hfirst
        exact h₁.sendEof hfirst hopened hdrained.1
    case isFalse => exact h₁

theorem sayClose (hdead : l.IsDead)
    (hgone : l.isOpened = false → l.deleted = true) (doSend : Bool) :
    Closing (l.sayClose doSend) := by
  rw [Life.sayClose]
  split
  case isTrue hsend =>
    have hnew : l.closeSent = false := by
      simp only [Bool.and_eq_true, Bool.not_eq_true'] at hsend
      exact hsend.1
    refine ⟨h.closes.snoc ⟨fun htype => ?_, fun _ => h.close hnew⟩, fun hnot => ?_,
      (fun hnot => by cases hnot), h.drains, fun _ => ⟨hdead.2, .inl hdead.1⟩, fun hnot => ?_⟩
    · have hnone : ¬(channelClose = channelEof ∨
          channelClose = channelData) := by decide
      exact absurd htype hnone
    · have heof := h.eof hnot
      rw [Life.say, types_snoc, mem_append, mem_singleton, not_or]
      exact ⟨heof, show channelEof ≠ channelClose by decide⟩
    · exact ⟨(h.unopened hnot).1, fun _ => hgone hnot, (h.unopened hnot).2.2⟩
  case isFalse => exact h

theorem collect : Closing l.collect := by
  by_cases hdead : l.IsDead
  · cases hrcvd : l.closeRcvd with
    | false =>
      rw [Life.collect_waits hdead hrcvd]
      refine h.sayClose hdead (fun hnot => ?_) _
      cases hrcvd.symm.trans ((h.unopened hnot).2.2 hdead.1)
    | true =>
      have hgone : Closing { l with thread := .none, deleted := true } := by
        refine { h with ended := fun hend => ⟨hdead.2, .inl hdead.1⟩, unopened := ?_ }
        exact fun hnot => ⟨(h.unopened hnot).1, fun _ => rfl, (h.unopened hnot).2.2⟩
      have hsaid := hgone.sayClose hdead (fun _ => rfl) true
      have hsame : ({ l with thread := .none, deleted := true } : Life).sayClose true =
          { l.sayClose true with thread := .none, deleted := true } := by
        rw [Life.sayClose, Life.sayClose]
        split <;> rfl
      rw [Life.collect_deletes hdead hrcvd, ← hsame]
      exact hsaid
  · rw [Life.collect_alive hdead]
    exact h

theorem confirm (hp : p.type = Ssh2Msg.channelOpenConfirmation) :
    Closing (l.confirm p) := by
  rw [Life.confirm]
  split
  case isTrue =>
    have hsaid := h.say_one (p := p) (by rw [Calm, hp]; decide)
    exact { hsaid with }
  case isFalse => exact h

theorem post (hstep : l.Post l') : Closing l' := by
  obtain ⟨held, ps, p, hheld, hps, hp, rfl⟩ := hstep
  have hsaid := h.say (calm_of_plain hps)
  have hmoved : Closing { l.say ps with held := held } := by
    refine { hsaid with ended := fun hend => ?_ }
    obtain ⟨houtput, hquiet⟩ := h.ended hend
    refine ⟨houtput, hquiet.imp_right fun hq => ⟨?_, hq.2⟩⟩
    -- nothing comes from nothing
    exact Bool.eq_false_iff.mpr fun htrue => by cases (hheld htrue).symm.trans hq.1
  exact hmoved.collect.confirm hp

theorem notify (hthread : l.thread = .terminated)
    (hguard : l.eofSent = true ∨ l.closeSent = true → l.held = false) : Closing l.notify := by
  have hcalm : Calm (exitStatus l.remoteId) :=
    show channelRequest ≠ channelEof ∧
      channelRequest ≠ channelData ∧
      channelRequest ≠ channelClose by decide
  have hsaid := h.say_one hcalm
  refine ⟨hsaid.closes, hsaid.eof, hsaid.close, fun _ => rfl, fun hend => ⟨rfl, .inr ?_⟩, ?_⟩
  · refine ⟨hguard hend, ?_⟩
    have hsame : l.notify.thread = l.thread := rfl
    rw [hsame, hthread]
    decide
  · exact fun hnot => ⟨(h.unopened hnot).1, (h.unopened hnot).2.1, fun hclosed => by cases hclosed⟩

theorem work (hstep : l.Work l') : Closing l' := by
  rcases hstep with rfl | ⟨hrun, hl'⟩
  · exact h
  -- with the thread running, a channel that has ended has its input half closed
  have hclosed : l.eofSent = true ∨ l.closeSent = true → l.input = .closed := by
    intro hend
    rcases (h.ended hend).2 with hclosed | hquiet
    · exact hclosed
    · exact absurd hrun hquiet.2
  rcases hl' with rfl | rfl
  · exact { h with ended := fun hend => ⟨(h.ended hend).1, .inl (hclosed hend)⟩ }
  · exact { h with ended := fun hend => ⟨(h.ended hend).1, .inl (hclosed hend)⟩ }

theorem step (hlive : l.deleted = false) {event : ChannelObject.Event}
    (hguard : Guarded event l) (hstep : Life.Step event l l') : Closing l' := by
  cases event with
  | startSubsystem sftp reply => exact h.request hstep hlive
  | otherRequest created reply =>
    obtain ⟨ps, hps, rfl⟩ := hstep
    exact h.say (calm_of_plain hps)
  | connected =>
    rcases hstep with rfl | ⟨-, rfl⟩
    · exact h
    · exact { h with unopened := fun hnot => by cases hnot }
  | session event =>
    cases event with
    | request reply => exact h.request hstep hlive
    | data body => exact hstep ▸ h
    | eof body => exact h.peerEof hstep
    | close body => exact hstep ▸ h.peerClose hguard
    | windowAdjust body => exact hstep ▸ h
    | outputPoll => exact h.poll hstep
    | fillEventArray =>
      obtain ⟨l₁, hl₁, rfl⟩ := hstep
      rcases hl₁ with rfl | ⟨houtput, rfl⟩
      · exact h.collect
      · exact (h.drained (by rw [houtput]; decide)).collect
    | post => exact h.post hstep
    | exitMsg =>
      rw [hstep]
      split
      case isTrue hthread => exact h.notify hthread (hguard hthread)
      case isFalse => exact h
    | callGet | getStep | otherEvent | workerPut | workerExit => exact h.work hstep

end Closing

/-! ## §3 Runs -/

namespace ChannelObject

/-- What `subproc_terminated_notify` and `channel_input_oclose` do not check. -/
def closeGuard (event : Event) (o : ChannelObject) : Bool :=
  let c := o.session.base
  match event with
  | .session .exitMsg => !(SessionChannel.terminated o.session.subsystem) ||
      !(c.eofSent || c.closeSent) || !o.session.hasAscendingData c
  | .session (.close _) => c.currentInputState ≠ .waitDrain || !(c.eofSent || c.closeSent)
  | _ => true

theorem guarded_of_closeGuard {event : Event} {o : ChannelObject} (ho : o.Sound)
    (h : closeGuard event o = true) : Guarded event o.life := by
  cases event with
  | session event =>
    cases event with
    | exitMsg =>
      intro hthread hend
      have hterminated : SessionChannel.terminated o.session.subsystem = true := by
        cases hsub : o.session.subsystem with
        | none => simp [life, lifeOf, hsub, threadOf] at hthread
        | some w =>
          by_cases hpc : w.pc = .terminated
          · simp [SessionChannel.terminated, hpc]
          · simp [life, lifeOf, hsub, threadOf_running hpc] at hthread
      have hsent : (o.session.base.eofSent || o.session.base.closeSent) = true := by
        rw [Bool.or_eq_true]
        exact hend
      have hquiet : o.session.hasAscendingData o.session.base = false := by
        simpa [closeGuard, hterminated, hsent] using h
      exact ((hasAscendingData_iff ho.counted _).mp hquiet).1
    | close body =>
      intro hinput
      have hdrain : o.session.base.currentInputState = .waitDrain := hinput
      simp only [closeGuard, hdrain, ne_eq, not_true_eq_false, decide_false, Bool.false_or,
        Bool.not_eq_true', Bool.or_eq_false_iff] at h
      exact h
    | request | data | eof | windowAdjust | outputPoll | fillEventArray | post | callGet
    | getStep | otherEvent | workerPut | workerExit => trivial
  | startSubsystem | otherRequest | connected => trivial

theorem step_closing (event : Event) (o : ChannelObject) (ho : o.Sound ∧ Closing o.life)
    (hguard : closeGuard event o = true) :
    wp (step event) (fun _ o' => o'.Sound ∧ Closing o'.life)
      (fun _ o' => ClosesOnce o'.session.base.con.sent) o := by
  refine wp_mono (step_lives ho.1 event) ?_ fun _ o' hstops => ?_
  · intro _ o' ho'
    cases hdeleted : o.session.deleted with
    | true =>
      rw [hdeleted, if_pos rfl] at ho'
      rw [ho']
      exact ho
    | false =>
      rw [hdeleted, if_neg (by decide)] at ho'
      exact ⟨ho'.1, ho.2.step hdeleted (guarded_of_closeGuard ho.1 hguard) ho'.2⟩
  · rcases hstops with hsilent | ⟨-, -, ps, hps, hsent⟩
    · rw [hsilent.1]
      exact ho.2.closes
    have hsaid := ho.2.say (Closing.calm_of_plain hps)
    rcases hsent with hsent | hsent <;> rw [hsent]
    · exact hsaid.closes
    · exact hsaid.collect.closes

theorem createDerivation_closing (ctype : ChannelType) (self remoteId rwindow rmaxpack : UInt32) :
    Closing (createDerivation ctype self remoteId rwindow rmaxpack).life := by
  cases ctype with
  | session | directTcpip =>
    refine ⟨.nil, fun _ => not_mem_nil, fun _ => not_mem_nil,
      (fun hdrain => by cases hdrain), ?_, ?_⟩
    · intro hend
      rcases hend with hend | hend <;> cases hend
    · exact fun _ => ⟨rfl, (fun hsent => by cases hsent), fun hclosed => by cases hclosed⟩

/-- **The close protocol.** In every run in which no thread's end is reported with data left
after EOF or CLOSE has been sent, and in which no CLOSE arrives while a channel is draining that
has sent one of them before, all messages sent for the channel keep the close protocol. -/
theorem close_protocol (ctype : ChannelType) (self remoteId rwindow rmaxpack : UInt32)
    (events : List Event)
    (h : Meets step (fun event o => closeGuard event o = true) events
      (createDerivation ctype self remoteId rwindow rmaxpack)) :
    ClosesOnce (endState (runAll step events)
      (createDerivation ctype self remoteId rwindow rmaxpack)).session.base.con.sent := by
  have hrun := Meets.runAll step_closing h
    ⟨createDerivation_sound ctype self remoteId rwindow rmaxpack,
      createDerivation_closing ctype self remoteId rwindow rmaxpack⟩
  exact wp_endState_both (P := fun o => ClosesOnce o.session.base.con.sent)
    (wp_mono hrun (fun _ _ h => h.2.closes) fun _ _ h => h)

/-- The peer ends its stream, the thread ends, the peer closes after it has been told. -/
theorem close_protocol_shell :
    let events : List Event :=
      [.startSubsystem false true, .session (.eof []), .session .workerExit, .session .outputPoll,
        .session .exitMsg, .session .outputPoll, .session .post, .session (.close []),
        .session .post]
    let o := createDerivation .session 1 7 100 100
    types (endState (runAll step events) o).session.base.con.sent = [93, 99, 96, 98, 97] ∧
      ClosesOnce (endState (runAll step events) o).session.base.con.sent := by
  intro events o
  exact ⟨by decide +kernel, close_protocol .session 1 7 100 100 events (by decide +kernel)⟩

/-- A session whose client closes it in the round in which the shell's end is reported: EOF is
sent twice. -/
theorem eof_sent_again :
    let round : List Event := [.session .outputPoll, .session .fillEventArray]
    let events : List Event :=
      [.startSubsystem false true] ++ round ++ [.session .post, .session (.eof [])] ++ round ++
      -- the shell gets the end of its input, and exits
      [.session .callGet, .session .getStep, .session .getStep, .session .getStep,
        .session .getStep, .session .getStep, .session .workerExit, .session .post] ++ round ++
      [.session .exitMsg, .session .post, .session (.close [])]
    let o := endState (runAll step events) (createDerivation .session 1 7 100 100)
    o.session.subsystem.map Worker.received = some [[]] ∧
      types o.session.base.con.sent = [93, 99, 96, 98, 96] ∧
      ¬ClosesOnce o.session.base.con.sent := by
  intro round events o
  have hsent : types o.session.base.con.sent = [93, 99, 96, 98, 96] := by decide +kernel
  refine ⟨by decide +kernel, hsent, fun h => ?_⟩
  have hone := h.oneEof
  rw [hsent] at hone
  exact absurd hone (by decide)

end ChannelObject

end Shiesh.Channels
