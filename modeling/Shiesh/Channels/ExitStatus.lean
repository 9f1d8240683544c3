import Shiesh.Channels.ServerRules
import Shiesh.Channels.LifeObjects

/-!
# Exit Status

What the client is told about the end of a subsystem. All threads share one event; when it is
set, `SendExitMsg` goes through all threads that have terminated, and it does not remember which
of them it has seen before. A channel that the client has closed may also be collected, thread
and all, before `SendExitMsg` has been at it.

## Main result

- `exit_status_once`: where neither happens, every subsystem's end is told once, before CLOSE
-/

namespace Shiesh.Channels

open Shiesh.Lib List ChannelObject Life Bool
open Ssh2Msg (channelClose channelRequest)

/-! ## §1 What is told -/

/-- A request named "exit-status", behind the number of the channel -/
def isExitStatus (p : Packet) : Bool :=
  p.type = channelRequest &&
    (putCstring (ascii "exit-status")).isPrefixOf (p.payload.drop 4)

/-- The end has been told `n` times, never behind CLOSE. -/
structure Tells (n : Nat) (sent : List Packet) : Prop where
  count : sent.countP isExitStatus = n
  beforeClose : sent.Pairwise fun first later =>
    first.type = channelClose → isExitStatus later = false

namespace Tells

variable {n : Nat} {sent ps : List Packet}

theorem append (h : Tells n sent) (hps : ∀ p ∈ ps, isExitStatus p = false) :
    Tells n (sent ++ ps) where
  count := by
    have hnone : ps.countP isExitStatus = 0 :=
      countP_eq_zero.mpr fun p hp => by rw [hps p hp]; decide
    rw [countP_append, h.count, hnone]
    rfl
  beforeClose := by
    rw [pairwise_append]
    refine ⟨h.beforeClose, ?_, fun _ _ p hp _ => hps p hp⟩
    exact List.Pairwise.imp_of_mem (fun _ hp _ _ => hps _ hp)
      (pairwise_of_forall fun _ _ => trivial)

theorem first (h : Tells 0 sent) (hopen : ∀ p ∈ sent, p.type ≠ channelClose)
    {p : Packet} (hp : isExitStatus p = true) : Tells 1 (sent ++ [p]) where
  count := by
    rw [countP_append, h.count, countP_singleton, if_pos hp]
  beforeClose := by
    rw [pairwise_append]
    refine ⟨h.beforeClose, pairwise_singleton _ _, fun q hq _ _ hclose => ?_⟩
    exact absurd hclose (hopen q hq)

end Tells

theorem isExitStatus_exitStatus (remoteId : UInt32) :
    isExitStatus (exitStatus remoteId) = true := by
  have hlength : (putU32 remoteId).length = 4 := putU32_length remoteId
  simp only [isExitStatus, exitStatus, decide_true, Bool.true_and,
    drop_left' hlength]
  decide

theorem isExitStatus_of_type {p : Packet} (h : p.type ≠ channelRequest) :
    isExitStatus p = false := by
  rw [isExitStatus, decide_eq_false h, Bool.false_and]

/-! ## §2 One channel -/

/-- `do_close` knows whether the end has been told, and CLOSE is not sent before. -/
structure Told (l : Life) : Prop where
  tells : Tells (if l.doClose then 1 else 0) l.sent
  unclosed : l.deleted = false → l.doClose = false → ∀ p ∈ l.sent, p.type ≠ channelClose
  ended : l.deleted = false → l.doClose = true → l.thread = .terminated

namespace Told

variable {l l' : Life}

variable {p : Packet}

theorem ordinary (h : Life.Ordinary p) : isExitStatus p = false ∧ p.type ≠ channelClose := by
  have hnot : p.type ≠ channelRequest ∧ p.type ≠ channelClose := by
    rw [Life.Ordinary] at h
    constructor
    · intro htype
      rw [htype] at h
      exact absurd h (by decide)
    · intro htype
      rw [htype] at h
      exact absurd h (by decide)
  exact ⟨isExitStatus_of_type hnot.1, hnot.2⟩

variable (h : Told l)
include h

theorem once : ∃ n ≤ 1, Tells n l.sent := by
  refine ⟨_, ?_, h.tells⟩
  split <;> decide

theorem moves (hmoves : l.Moves l') : Told l' := by
  obtain ⟨ps, hps, hsent⟩ := hmoves.said
  refine ⟨?_, fun hlive hnot => ?_, fun hlive hdo => ?_⟩
  · rw [hmoves.doClose, hsent]
    exact h.tells.append fun p hp => (ordinary (hps p hp)).1
  · rw [hmoves.deleted] at hlive
    rw [hmoves.doClose] at hnot
    intro p hp
    rw [hsent] at hp
    rcases mem_append.mp hp with hp | hp
    · exact h.unclosed hlive hnot p hp
    · exact (ordinary (hps p hp)).2
  · rw [hmoves.deleted] at hlive
    rw [hmoves.doClose] at hdo
    exact hmoves.ended (h.ended hlive hdo)

/-- CLOSE is sent when the end has been told, or when the channel is deleted. -/
theorem sayClose (doSend : Bool) (hsend : doSend = true → l.doClose = true) :
    Told (l.sayClose doSend) := by
  rw [Life.sayClose]
  split
  case isTrue hnew =>
    have hdo : l.doClose = true := hsend (and_eq_true _ _ ▸ hnew).2
    refine ⟨h.tells.append fun p hp => ?_, fun _ hnot => ?_, h.ended⟩
    · rw [mem_singleton.mp hp]
      exact isExitStatus_of_type (show channelClose ≠ channelRequest by decide)
    · cases hdo.symm.trans hnot
  case isFalse => exact h

theorem deletes : Told { l.sayClose true with thread := .none, deleted := true } := by
  refine ⟨?_, (fun hlive => by cases hlive), fun hlive => by cases hlive⟩
  rw [Life.sayClose]
  split
  case isTrue =>
    refine h.tells.append fun p hp => ?_
    rw [mem_singleton.mp hp]
    exact isExitStatus_of_type (show channelClose ≠ channelRequest by decide)
  case isFalse => exact h.tells

theorem collect : Told l.collect := by
  by_cases hdead : l.IsDead
  · cases hrcvd : l.closeRcvd with
    | false =>
      rw [collect_waits hdead hrcvd]
      exact h.sayClose _ id
    | true =>
      rw [collect_deletes hdead hrcvd]
      exact h.deletes
  · rw [collect_alive hdead]
    exact h

theorem confirmed (hp : p.type = Ssh2Msg.channelOpenConfirmation) :
    Told (l.say [p]) := by
  have hother : p.type ≠ channelRequest ∧ p.type ≠ channelClose := by
    rw [hp]
    decide
  refine ⟨h.tells.append fun q hq => ?_, fun hlive hnot q hq => ?_, h.ended⟩
  · rw [mem_singleton.mp hq]
    exact isExitStatus_of_type hother.1
  · rcases mem_append.mp hq with hq | hq
    · exact h.unclosed hlive hnot q hq
    · rw [mem_singleton.mp hq]
      exact hother.2

theorem confirm (hp : p.type = Ssh2Msg.channelOpenConfirmation) :
    Told (l.confirm p) := by
  rw [Life.confirm]
  split
  case isTrue =>
    have hsaid := h.confirmed hp
    exact { hsaid with }
  case isFalse => exact h

theorem notify (hlive : l.deleted = false) (hthread : l.thread = .terminated)
    (hnew : l.doClose = false) : Told l.notify := by
  have htells := h.tells
  rw [hnew] at htells
  refine ⟨?_, (fun _ hnot => by cases hnot), fun _ _ => hthread⟩
  exact htells.first (h.unclosed hlive hnew) (isExitStatus_exitStatus l.remoteId)

theorem step (hlive : l.deleted = false) {event : ChannelObject.Event}
    (hstep : Life.Step event l l')
    (hnew : event = .session .exitMsg → l.thread = .terminated → l.doClose = false) : Told l' := by
  rcases hstep.shape with hmoves | ⟨l₁, hmoves, -, -, hcollect⟩ | ⟨hevent, hthread, rfl⟩
  · exact h.moves hmoves
  · rcases hcollect with ⟨-, rfl⟩ | ⟨p, -, hp, rfl⟩
    · exact (h.moves hmoves).collect
    · exact (h.moves hmoves).collect.confirm hp
  · exact h.notify hlive hthread (hnew hevent hthread)

end Told

/-! ## §3 All channels -/

namespace Entry

/-- What `SendExitMsg` and `garbage_collect` do not check: the end has not been told before, and
has been told when the channel is deleted. -/
def exitGuard (event : ChannelObject.Event) (e : Entry) : Bool :=
  let c := e.object.session.base
  match event with
  | .session .exitMsg => !SessionChannel.terminated e.object.session.subsystem || !c.doClose
  | .session .fillEventArray | .session .post =>
    !(c.currentInputState = .closed && c.currentOutputState = .closed && c.closeRcvd) ||
      c.doClose || e.object.session.subsystem.isNone
  | _ => true

/-- Of a channel that had a thread: the end is told before the channel is gone, and an end that
has been signalled and not been told yet is `pending`. -/
structure Reported (pending : Bool) (e : Entry) : Prop where
  sound : e.object.Sound
  told : Told e.object.life
  hasThread : e.object.life.deleted = false → e.hadThread = true → e.object.life.thread ≠ .none
  signal : e.object.life.deleted = false → e.signalled = true → e.object.life.thread = .terminated
  gone : e.object.life.deleted = true → e.hadThread = true → e.object.life.doClose = true
  waits : e.object.life.deleted = false → e.object.life.thread = .terminated →
    e.object.life.doClose = false → e.signalled = true → pending = true

/-- The same where the connection ends -/
structure Kept (e : Entry) : Prop where
  tells : ∃ n ≤ 1, Tells n e.object.session.base.con.sent
  gone : e.object.session.deleted = true → e.hadThread = true →
    Tells 1 e.object.session.base.con.sent

variable {e : Entry} {pending : Bool}

theorem thread_none (o : ChannelObject) : o.life.thread = .none ↔ o.session.subsystem = none := by
  cases hsub : o.session.subsystem with
  | none => simp [life, lifeOf, hsub, threadOf]
  | some w =>
    by_cases hpc : w.pc = .terminated <;> simp [life, lifeOf, hsub, threadOf, hpc]

theorem Reported.kept (h : Reported pending e) : Kept e where
  tells := h.told.once
  gone hgone hthread := by
    have htells := h.told.tells
    rw [h.gone hgone hthread] at htells
    exact htells

variable {event : ChannelObject.Event} {o : ChannelObject}

theorem not_again (h : exitGuard event e = true)
    (hevent : event = .session .exitMsg) (hthread : e.object.life.thread = .terminated) :
    e.object.life.doClose = false := by
  have hguard : (!SessionChannel.terminated e.object.session.subsystem ||
      !e.object.session.base.doClose) = true := by
    rw [hevent] at h
    exact h
  rw [(thread_terminated _).mp hthread] at hguard
  exact (not_eq_true' _).mp hguard

/-- A channel that is deleted now has no thread, or its end has been told. -/
theorem told_before (h : exitGuard event e = true) {l' : Life}
    (hstep : Life.Step event e.object.life l') (hlive : e.object.life.deleted = false)
    (hgone : l'.deleted = true) : e.object.life.doClose = true ∨ e.object.life.thread = .none := by
  obtain ⟨hevent, hdead, hrcvd⟩ := hstep.deletes hlive hgone
  have hclosed : (e.object.session.base.currentInputState = .closed &&
      e.object.session.base.currentOutputState = .closed &&
      e.object.session.base.closeRcvd) = true := by
    simp only [and_eq_true, decide_eq_true_eq]
    exact ⟨hdead, hrcvd⟩
  have hguard : (e.object.session.base.doClose || e.object.session.subsystem.isNone) = true := by
    rcases hevent with rfl | rfl <;> simpa [exitGuard, hclosed] using h
  rcases (or_eq_true _ _).mp hguard with hdo | hnone
  · exact .inl hdo
  · exact .inr ((thread_none _).mpr (Option.isNone_iff_eq_none.mp hnone))

theorem Reported.step (h : Reported pending e)
    (hguard : exitGuard event e = true) (hlive : e.object.life.deleted = false)
    (ho : o.Sound) (hstep : Life.Step event e.object.life o.life) :
    Reported pending (e.after o) := by
  have hgoes := hstep.goes
  -- a channel that stays is not newly signalled, and has had a thread before or has one now
  have hsignalled : o.life.deleted = false → (e.after o).signalled = true → e.signalled = true := by
    intro hlive' hsignal
    rcases (or_eq_true _ _).mp hsignal with hbefore | hnow
    · exact hbefore
    · rw [and_eq_true, Option.isNone_iff_eq_none, ← thread_none] at hnow
      have hnone := (thread_none _).mp (hgoes.started hlive' hnow.2)
      rw [hnone] at hnow
      cases hnow.1
  have hthread : (e.after o).hadThread = true → o.life.thread = .none → e.hadThread = true := by
    intro hhad hnone
    rcases (or_eq_true _ _).mp hhad with hbefore | hnow
    · exact hbefore
    · rw [(thread_none o).mp hnone] at hnow
      cases hnow
  refine ⟨ho, ?_, fun hlive' hhad hnone => ?_, fun hlive' hsignal => ?_, fun hgone hhad => ?_,
    fun hlive' hend hnot hsignal => ?_⟩
  · exact h.told.step hlive hstep fun hevent => not_again hguard hevent
  · exact h.hasThread hlive (hthread hhad hnone) (hgoes.started hlive' hnone)
  · exact hgoes.ended hlive' (h.signal hlive (hsignalled hlive' hsignal))
  · rcases hstep.doClose with hsame | ⟨-, -, hnotify⟩
    · rcases told_before hguard hstep hlive hgone with hdo | hnone
      · exact hsame.trans hdo
      · exact absurd hnone (h.hasThread hlive (hthread hhad (hgoes.gone hlive hgone)))
    · exact congrArg doClose hnotify
  · have hbefore := hsignalled hlive' hsignal
    rcases hstep.doClose with hsame | ⟨-, -, hnotify⟩
    · exact h.waits hlive (h.signal hlive hbefore) (hsame.symm.trans hnot) hbefore
    · cases (congrArg doClose hnotify).symm.trans hnot

/-- After `SendExitMsg` nothing waits. -/
theorem Reported.looked (h : Reported pending e)
    (hdone : e.object.life.thread = .terminated → e.object.life.doClose = true) :
    Reported false e :=
  ⟨h.sound, h.told, h.hasThread, h.signal, h.gone, fun _ hend hnot => by
    cases (hdone hend).symm.trans hnot⟩

/-- A step that fails has told nothing. -/
theorem Reported.fails (h : Reported pending e) (hlive : e.object.session.deleted = false)
    (ho : e.object.Stops o) : Kept (e.after o) where
  tells := by
    rcases ho with hsilent | ⟨-, -, ps, hps, hsent⟩
    · exact hsilent.1 ▸ h.told.once
    have hsaid := h.told.moves (moves_say _ hps.ordinary)
    rcases hsent with hsent | hsent
    · exact hsent ▸ hsaid.once
    · exact hsent ▸ hsaid.collect.once
  gone hgone := by cases (ho.deleted.trans hlive).symm.trans hgone

theorem create_reported (ctype : ChannelType) (number birth : Nat)
    (remoteId rwindow rmaxpack : UInt32) :
    let o := createDerivation ctype (UInt32.ofNat number) remoteId rwindow rmaxpack
    let e : Entry :=
      { object := o, number := number, birth := birth, hadThread := o.session.subsystem.isSome }
    wp confirmOpen
      (fun _ o' => Reported false (e.after o') ∧ o'.session.deleted = false) never o := by
  intro o e
  have hsound := createDerivation_sound ctype (UInt32.ofNat number) remoteId rwindow
    rmaxpack
  have hlive : o.session.deleted = false := by cases ctype <;> rfl
  have hnew : Told o.life ∧ o.life.thread ≠ .terminated := by
    cases ctype with
    | session | directTcpip =>
      exact ⟨⟨⟨rfl, .nil⟩, fun _ _ p hp => absurd hp not_mem_nil, fun _ hdo => by cases hdo⟩,
        fun hend => by cases hend⟩
  -- whatever is said, the thread is as it was
  have hentry : ∀ o' : ChannelObject, o'.Sound → Told o'.life → o'.life.thread = o.life.thread →
      o'.session.deleted = false →
      Reported false (e.after o') ∧ o'.session.deleted = false := by
    intro o' ho' htold hthread hlive'
    have hsub : o'.session.subsystem = none ↔ o.session.subsystem = none := by
      rw [← thread_none, ← thread_none, hthread]
    refine ⟨⟨ho', htold, fun _ hhad hnone => ?_, fun _ hsignal => ?_, fun hgone => ?_,
      fun _ hend => ?_⟩, hlive'⟩
    · have hnone' := (thread_none o').mp hnone
      simp [e, Entry.after, hnone', hsub.mp hnone'] at hhad
    · simp only [e, Entry.after, Bool.false_or, Bool.and_eq_true,
        Option.isNone_iff_eq_none] at hsignal
      rw [hsub.mp hsignal.2] at hsignal
      cases hsignal.1
    · cases hlive'.symm.trans hgone
    · exact absurd (hthread.symm.trans hend) hnew.2
  refine wp_imp (confirmOpen_lives hsound) fun _ o' h => ?_
  split at h
  case isTrue => exact h ▸ hentry o hsound hnew.1 rfl hlive
  case isFalse =>
    obtain ⟨-, ho', p, hp, hlife⟩ := h
    refine hentry o' ho' ?_ ?_ ?_
    · rw [hlife]
      exact hnew.1.confirmed hp
    · rw [hlife]
      rfl
    · have hsame : o'.life.deleted = (o.life.say [p]).deleted := congrArg deleted hlife
      exact hsame.trans hlive

end Entry

namespace Server

theorem exit_rules :
    Rules Entry.Reported Entry.Kept (fun event e => Entry.exitGuard event e = true) where
  step {pending event e} he hguard hlive := by
    refine wp_mono (step_lives he.sound event) (fun _ o ho => ?_)
      fun _ o ho => he.fails hlive ho
    rw [hlive, if_neg (by decide)] at ho
    exact he.step hguard hlive ho.1 ho.2
  exitMsg {pending e} he hguard hlive := by
    refine wp_mono (step_lives he.sound _) (fun _ o ho => ?_)
      fun _ o ho => he.fails hlive ho
    rw [hlive, if_neg (by decide)] at ho
    refine (he.step hguard hlive ho.1 ho.2).looked fun hend => ?_
    have hlife : o.life = if e.object.life.thread = .terminated then e.object.life.notify
      else e.object.life := ho.2
    split at hlife
    case isTrue => exact congrArg doClose hlife
    case isFalse hnot => exact absurd ((congrArg thread hlife).symm.trans hend) hnot
  raise he := { he with waits := fun _ _ _ _ => rfl }
  gone he hgone := ⟨he.sound, he.told, he.hasThread, he.signal, he.gone, fun hlive => by
    cases hlive.symm.trans hgone⟩
  signal he hend :=
    { he with signal := fun _ _ => (thread_terminated _).mpr hend, waits := fun _ _ _ _ => rfl }
  safe he := he.kept
  create := Entry.create_reported

/-- The end of the channel's subsystem has been told as often as it should have been by now. -/
def ToldOnce (s : Server) (e : Entry) : Prop :=
  SessionChannel.terminated e.object.session.subsystem = true → e.signalled = true →
    s.pending = false → Tells 1 e.object.session.base.con.sent

/-- **Exit status.** In every run in which `SendExitMsg` finds no terminated subsystem whose end
it has told before, and in which `garbage_collect` does not delete a channel with a subsystem
whose end has not been told: however the run ends, the end of a subsystem has been told at most
once for each channel, and not behind CLOSE; it has been told once for each channel that is gone
and had a subsystem; and as long as the connection goes on, also for each channel that is still
there and whose subsystem has terminated, as soon as the event has been looked at. -/
theorem exit_status_once (events : List Event)
    (h : Meets step (Finds fun event e => Entry.exitGuard event e = true) events {}) :
    let s := endState (runAll step events) {}
    (∀ e ∈ s.everyone, ∃ n ≤ 1, Tells n e.object.session.base.con.sent) ∧
      (∀ e ∈ s.removed, e.hadThread = true → Tells 1 e.object.session.base.con.sent) ∧
      (returns (runAll step events) {} = true → ∀ e ∈ s.channels.toList, s.ToldOnce e) := by
  intro s
  have hrun :=
    Meets.runAll (fun event s hs hC => step_allKeep exit_rules event hs hC) h init_allKeep
  have hsafe : AllSafe Entry.Kept s :=
    wp_endState_both (wp_mono hrun (fun _ _ hs => hs.safe exit_rules) fun _ _ hs => hs)
  refine ⟨fun e he => ?_,
    fun e he => (hsafe.2 e he).1.gone (hsafe.2 e he).2, fun hreturns e he => ?_⟩
  · rcases mem_everyone he with ⟨id, hid⟩ | hgone
    · exact (hsafe.1 id e hid).tells
    · exact (hsafe.2 e hgone).1.tells
  · intro hend hsignal hpending
    obtain ⟨-, hs⟩ := wp_endState hrun hreturns
    obtain ⟨id, hid⟩ := Repository.mem_toList.mp he
    obtain ⟨hreported, hlive⟩ := hs.live id e hid
    have hdo : e.object.life.doClose = true := by
      refine not_eq_false _ ▸ fun hnot => ?_
      cases hpending.symm.trans
        (hreported.waits hlive ((thread_terminated _).mpr hend) hnot hsignal)
    have htells := hreported.told.tells
    rw [hdo] at htells
    exact htells

/-- A session is opened, its shell started; the shell exits, the client is told and closes. -/
def oneShell : List Event :=
  [.channelOpen (some .session) 7 100 100 true false, .message 1 (.startSubsystem false true),
    .round false, .thread 1 .exit, .signal 1, .round false, .round false, .round false,
    .round false, .round false, .round false, .round false, .round false, .round false,
    .round false,
    .round false, .message 1 (.close []), .round false, .round false, .round false]

theorem exit_status_once_shell :
    let s := endState (runAll step oneShell) {}
    s.removed.map (fun e => (e.hadThread, e.object.session.base.con.sent.countP isExitStatus)) =
        [(true, 1)] ∧
      ∀ e ∈ s.removed, e.hadThread = true → Tells 1 e.object.session.base.con.sent := by
  intro s
  exact ⟨by decide +kernel, (exit_status_once oneShell (by decide +kernel)).2.1⟩

/-- Two sessions with a shell each. The first shell exits, the client is told and the channel
closed; before the client has closed it, the second shell exits. -/
def twoShells : List Event :=
  let round : List Event := List.replicate 6 (.round false)
  [.channelOpen (some .session) 7 100 100 true false,
    .channelOpen (some .session) 8 100 100 true false,
    .message 1 (.startSubsystem false true), .message 2 (.startSubsystem false true)] ++ round ++
  [.thread 1 .exit, .signal 1] ++ round ++ round ++ [.thread 2 .exit, .signal 2] ++ round

/-- The client closes the session, and the shell exits when it has got the end of its input. -/
def closedByClient : List Event :=
  let round : List Event := List.replicate 6 (.round false)
  [.channelOpen (some .session) 7 100 100 true false, .message 1 (.startSubsystem false true)] ++
    round ++ [.message 1 (.close [])] ++ round ++ [.thread 1 .exit, .signal 1] ++ round

/-- The end of the first of two shells is told twice, the second time behind CLOSE. The end of a
shell whose session was closed by the client is never told. -/
theorem exit_status_again :
    let s := endState (runAll step twoShells) {}
    let s' := endState (runAll step closedByClient) {}
    s.channels.toList.map (fun e => e.object.session.base.con.sent.map Packet.type) =
        [[91, 93, 99, 98, 96, 97, 98], [91, 93, 99, 98]] ∧
      s.channels.toList.map (fun e => e.object.session.base.con.sent.countP isExitStatus) = [2, 1] ∧
      (¬∀ e ∈ s.everyone, ∃ n ≤ 1, Tells n e.object.session.base.con.sent) ∧
      s'.removed.map (fun e => (e.hadThread, e.object.session.base.con.sent.map Packet.type)) =
        [(true, [91, 93, 99, 96, 97])] := by
  intro s s'
  have hcount : s.channels.toList.map
      (fun e => e.object.session.base.con.sent.countP isExitStatus) = [2, 1] := by decide +kernel
  refine ⟨by decide +kernel, hcount, fun hall => ?_, by decide +kernel⟩
  have htwice : 2 ∈ s.channels.toList.map
      (fun e => e.object.session.base.con.sent.countP isExitStatus) := by
    rw [hcount]
    decide
  obtain ⟨e, he, htwo⟩ := mem_map.mp htwice
  obtain ⟨n, hn, htells⟩ := hall e (mem_append_left _ he)
  have hcount' := htells.count
  omega

end Server

end Shiesh.Channels
