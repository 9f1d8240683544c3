import Shiesh.Channels.ObjectRules

/-!
# The Life of a Channel

A channel as the protocol sees it: the states of its halves, its flags, whether there is still
something for the peer, whether its thread runs, and what has been sent for it. How much data
there is and where it is waiting is left out.

`Life.Step` is the table of what can happen. `Shiesh.Channels.LifeObjects` shows once and for
all that the machine of a channel object keeps to it, so that what is said about whole runs needs
to look at the table only.
-/

namespace Shiesh.Channels

open Shiesh.Lib List Ssh2Msg

/-! ## §1 The table -/

inductive Thread where
  | none
  | running
  | terminated
  deriving DecidableEq, Repr

structure Life where
  connecting : Bool
  isOpened : Bool
  eofSent : Bool
  closeRcvd : Bool
  closeSent : Bool
  doClose : Bool
  input : ChanState
  output : ChanState
  -- something for the peer is in `ascending` or in `toChannel`
  held : Bool
  thread : Thread
  deleted : Bool
  remoteId : UInt32
  sent : List Packet

namespace Life

def eof (remoteId : UInt32) : Packet := ⟨Ssh2Msg.channelEof, putU32 remoteId⟩

def close (remoteId : UInt32) : Packet := ⟨Ssh2Msg.channelClose, putU32 remoteId⟩

/-- The "exit-status" request: no reply is wanted, the status is always 0. -/
def exitStatus (remoteId : UInt32) : Packet :=
  ⟨Ssh2Msg.channelRequest,
    putU32 remoteId ++ (putCstring (ascii "exit-status") ++ ([0] ++ putU32 0))⟩

/-- Messages that say nothing about the end of the channel. -/
def Plain (ps : List Packet) : Prop :=
  ∀ p ∈ ps, p.type = Ssh2Msg.channelWindowAdjust ∨ p.type = Ssh2Msg.channelSuccess ∨
    p.type = Ssh2Msg.channelFailure

def say (l : Life) (ps : List Packet) : Life := { l with sent := l.sent ++ ps }

def sendEof (l : Life) : Life := { l.say [eof l.remoteId] with eofSent := true }

/-- The output half takes no more data. -/
def refuse (l : Life) : Life := if l.output = .open then { l with output := .waitDrain } else l

/-- The input half is closed at once; when it is draining, the peer gets an EOF. -/
def shut (l : Life) : Life :=
  { (if l.input = .waitDrain then l.sendEof else l) with input := .closed }

/-- CLOSE from the peer -/
def peerClose (l : Life) : Life :=
  if l.isOpened = false then { l with closeRcvd := true, output := .closed, input := .closed }
  else ({ l with closeRcvd := true } : Life).refuse.shut

/-- The input half has drained. -/
def finish (l : Life) : Life :=
  let l := if l.eofSent || l.closeSent then l else l.sendEof
  { l with input := .closed }

/-- The thread's end is told to the peer. -/
def notify (l : Life) : Life :=
  { l.say [exitStatus l.remoteId] with doClose := true, output := .closed, input := .waitDrain }

/-- Both halves are closed. -/
def IsDead (l : Life) : Prop := l.input = .closed ∧ l.output = .closed

instance (l : Life) : Decidable l.IsDead := inferInstanceAs (Decidable (_ ∧ _))

def collect (l : Life) : Life :=
  if l.IsDead then
    let said := if l.closeSent = false ∧ (l.doClose = true ∨ l.closeRcvd = true) then
      { l.say [close l.remoteId] with closeSent := true } else l
    if l.closeRcvd then { said with thread := .none, deleted := true } else said
  else l

/-- The reply to the open request, when it was delayed -/
def confirm (l : Life) (p : Packet) : Life :=
  if l.connecting then { l.say [p] with connecting := false } else l

/-- A request: it may start the thread. One that could not be started counts as running: it will
not end. -/
def Request (l l' : Life) : Prop :=
  ∃ ps, Plain ps ∧ (l' = l.say ps ∨ l.isOpened = false ∧ l.thread = .none ∧
    ∃ opened, l' = { l.say ps with isOpened := opened, thread := .running })

def PeerEof (l l' : Life) : Prop :=
  if l.output = .open then
    l' = { l with output := .waitDrain } ∨ l' = { l with output := .closed, input := .waitDrain }
  else l' = l

def Send (l l' : Life) : Prop :=
  l' = l ∨ l.input ≠ .closed ∧ l.held = true ∧
    ∃ p held, p.type = Ssh2Msg.channelData ∧ l' = { l.say [p] with held := held }

def Poll (l l' : Life) : Prop :=
  if l.isOpened = false then l' = l
  else ∃ l₁, Send l l₁ ∧ l' =
    if l₁.input = .waitDrain ∧ l₁.held = false ∧ l₁.thread ≠ .running then l₁.finish else l₁

def Fill (l l' : Life) : Prop :=
  ∃ l₁, (l₁ = l ∨ l.output = .waitDrain ∧ l₁ = { l with output := .closed, input := .waitDrain }) ∧
    l' = l₁.collect

def Post (l l' : Life) : Prop :=
  ∃ held ps p, (held = true → l.held = true) ∧ Plain ps ∧
    p.type = Ssh2Msg.channelOpenConfirmation ∧
    l' = ({ l.say ps with held := held } : Life).collect.confirm p

def Work (l l' : Life) : Prop :=
  l' = l ∨ l.thread = .running ∧
    (l' = { l with held := true } ∨ l' = { l with thread := .terminated })

/-- What can happen, and what comes of it. -/
def Step : ChannelObject.Event → Life → Life → Prop
  | .startSubsystem .., l, l' => Request l l'
  | .otherRequest _ _, l, l' => ∃ ps, Plain ps ∧ l' = l.say ps
  | .connected, l, l' => l' = l ∨ l.thread = .running ∧ l' = { l with isOpened := true }
  | .session (.request ..), l, l' => Request l l'
  | .session (.data _), l, l' => l' = l
  | .session (.eof _), l, l' => PeerEof l l'
  | .session (.close _), l, l' => l' = l.peerClose
  | .session (.windowAdjust _), l, l' => l' = l
  | .session .outputPoll, l, l' => Poll l l'
  | .session .fillEventArray, l, l' => Fill l l'
  | .session .post, l, l' => Post l l'
  | .session .exitMsg, l, l' => l' = if l.thread = .terminated then l.notify else l
  | .session _, l, l' => Work l l'

/-! ## §2 What the table says -/

theorem refuse_input (l : Life) : l.refuse.input = l.input := by
  rw [refuse]
  split <;> rfl

theorem plain_singleton {p : Packet} (h : p.type = channelWindowAdjust ∨
    p.type = channelSuccess ∨ p.type = channelFailure) : Plain [p] := by
  intro p' hp'
  rw [mem_singleton.mp hp']
  exact h

variable {ps : List Packet} {l' : Life} {event : ChannelObject.Event}

variable {l : Life}

theorem Plain.append {ps' : List Packet} (h : Plain ps) (h' : Plain ps') : Plain (ps ++ ps') := by
  intro p hp
  rcases mem_append.mp hp with hp | hp
  · exact h p hp
  · exact h' p hp

theorem say_nil (l : Life) : l.say [] = l := by
  rw [say, append_nil]

theorem request_refl (l : Life) : l.Request l :=
  ⟨[], fun _ hp => absurd hp not_mem_nil, .inl l.say_nil.symm⟩

theorem Request.andSay (h : l.Request l') (hps : Plain ps) : l.Request (l'.say ps) := by
  obtain ⟨qs, hqs, h⟩ := h
  refine ⟨qs ++ ps, hqs.append hps, ?_⟩
  rcases h with rfl | ⟨hnew, hthread, opened, rfl⟩
  · exact .inl (by simp [say])
  · exact .inr ⟨hnew, hthread, opened, by simp [say]⟩

/-- CLOSE is sent, unless it has been sent before. -/
def sayClose (l : Life) (doSend : Bool) : Life :=
  if !l.closeSent && doSend then { l.say [close l.remoteId] with closeSent := true } else l

theorem sayClose_again (l : Life) (doSend : Bool) :
    (l.sayClose doSend).sayClose true = l.sayClose true := by
  cases hsent : l.closeSent <;> cases doSend <;> simp [sayClose, say, hsent]

theorem sayClose_none (l : Life) (doSend : Bool) :
    ({ l with thread := .none } : Life).sayClose doSend =
      { l.sayClose doSend with thread := .none } := by
  simp only [sayClose]
  split <;> rfl

theorem collect_alive (h : ¬l.IsDead) : l.collect = l := if_neg h

theorem collect_waits (h : l.IsDead) (hrcvd : l.closeRcvd = false) :
    l.collect = l.sayClose l.doClose := by
  rw [collect, if_pos h, hrcvd]
  simp [sayClose]

theorem collect_deletes (h : l.IsDead) (hrcvd : l.closeRcvd = true) :
    l.collect = { l.sayClose true with thread := .none, deleted := true } := by
  rw [collect, if_pos h, hrcvd]
  simp [sayClose]

theorem sayClose_same (l : Life) (doSend : Bool) :
    (l.sayClose doSend).input = l.input ∧ (l.sayClose doSend).output = l.output ∧
      (l.sayClose doSend).closeRcvd = l.closeRcvd ∧
      (l.sayClose doSend).deleted = l.deleted := by
  rw [sayClose]
  split <;> exact ⟨rfl, rfl, rfl, rfl⟩

theorem sayClose_closeSent (l : Life) (doSend : Bool) :
    (l.sayClose doSend).closeSent = (l.closeSent || doSend) := by
  cases hsent : l.closeSent <;> cases doSend <;> simp [sayClose, hsent]

/-- The thread goes with the channel, and not before. -/
theorem collect_thread (l : Life) : l.collect.doClose = l.doClose ∧
    (l.collect.deleted = false → l.collect.thread = l.thread) ∧
    (l.deleted = false → l.collect.deleted = true → l.collect.thread = .none) := by
  rw [collect]
  split
  case isFalse => exact ⟨rfl, fun _ => rfl, fun hlive h => by cases hlive.symm.trans h⟩
  case isTrue =>
    cases l.closeRcvd with
    | true =>
      refine ⟨?_, (fun h => by cases h), fun _ _ => rfl⟩
      split <;> rfl
    | false =>
      split
      case isTrue => exact ⟨rfl, fun _ => rfl, fun hlive h => by cases hlive.symm.trans h⟩
      case isFalse => exact ⟨rfl, fun _ => rfl, fun hlive h => by cases hlive.symm.trans h⟩

/-- Only a dead channel is deleted, when CLOSE has been received. -/
theorem collect_deleted (hlive : l.deleted = false) (h : l.collect.deleted = true) :
    l.IsDead ∧ l.closeRcvd = true := by
  by_cases hdead : l.IsDead
  · cases hrcvd : l.closeRcvd with
    | false =>
      rw [collect_waits hdead hrcvd, (l.sayClose_same _).2.2.2] at h
      cases hlive.symm.trans h
    | true => exact ⟨hdead, rfl⟩
  · rw [collect_alive hdead] at h
    cases hlive.symm.trans h

/-! ### The shape of a step -/

/-- Messages that are sent while a channel is in use -/
def Ordinary (p : Packet) : Prop :=
  p.type ∈ [Ssh2Msg.channelWindowAdjust, Ssh2Msg.channelSuccess, Ssh2Msg.channelFailure,
    Ssh2Msg.channelData, Ssh2Msg.channelEof]

/-- A step that is nothing special: the channel stays, and so does its thread, once started. -/
structure Moves (l l' : Life) : Prop where
  connecting : l'.connecting = l.connecting
  doClose : l'.doClose = l.doClose
  deleted : l'.deleted = l.deleted
  remoteId : l'.remoteId = l.remoteId
  opened : l.isOpened = true → l'.isOpened = true
  started : l'.thread = .none → l.thread = .none
  ended : l.thread = .terminated → l'.thread = .terminated
  said : ∃ ps, (∀ p ∈ ps, Ordinary p) ∧ l'.sent = l.sent ++ ps

theorem Plain.ordinary (h : Plain ps) : ∀ p ∈ ps, Ordinary p := by
  intro p hp
  rcases h p hp with htype | htype | htype <;> rw [Ordinary, htype] <;> decide

theorem moves_refl (l : Life) : Moves l l :=
  ⟨rfl, rfl, rfl, rfl, id, id, id, [], fun _ hp => absurd hp not_mem_nil,
    (append_nil _).symm⟩

theorem Moves.trans {l'' : Life} (h : Moves l l') (h' : Moves l' l'') : Moves l l'' := by
  obtain ⟨ps, hps, hsent⟩ := h.said
  obtain ⟨ps', hps', hsent'⟩ := h'.said
  refine ⟨h'.connecting.trans h.connecting, h'.doClose.trans h.doClose,
    h'.deleted.trans h.deleted, h'.remoteId.trans h.remoteId,
    fun hopened => h'.opened (h.opened hopened), fun hnone => h.started (h'.started hnone),
    fun hend => h'.ended (h.ended hend), ps ++ ps', fun p hp => ?_, ?_⟩
  · rcases mem_append.mp hp with hp | hp
    · exact hps p hp
    · exact hps' p hp
  · rw [hsent', hsent, append_assoc]

theorem moves_say (l : Life) (hps : ∀ p ∈ ps, Ordinary p) :
    Moves l (l.say ps) := ⟨rfl, rfl, rfl, rfl, id, id, id, ps, hps, rfl⟩

theorem moves_sendEof (l : Life) : Moves l l.sendEof := by
  refine ⟨rfl, rfl, rfl, rfl, id, id, id, [eof l.remoteId], fun p hp => ?_, rfl⟩
  have htype : p.type = channelEof := congrArg Packet.type (mem_singleton.mp hp)
  rw [Ordinary, htype]
  decide

/-- The states of the halves are not looked at here. -/
theorem Moves.halves (h : Moves l l') (closeRcvd held : Bool)
    (input output : ChanState) : Moves l { l' with
      closeRcvd := closeRcvd, held := held, input := input, output := output } :=
  { h with }

theorem Request.moves (h : l.Request l') : Moves l l' := by
  obtain ⟨ps, hps, rfl | ⟨hnew, hthread, _, rfl⟩⟩ := h
  · exact moves_say l hps.ordinary
  · refine ⟨rfl, rfl, rfl, rfl, fun hopened => ?_, fun hnone => hthread, fun hend => ?_, ps,
      hps.ordinary, rfl⟩
    · cases hnew.symm.trans hopened
    · cases hthread.symm.trans hend

theorem PeerEof.moves (h : l.PeerEof l') : Moves l l' := by
  rw [PeerEof] at h
  split at h
  case isTrue =>
    rcases h with rfl | rfl
    · exact l.moves_refl.halves l.closeRcvd l.held l.input .waitDrain
    · exact l.moves_refl.halves l.closeRcvd l.held .waitDrain .closed
  case isFalse => exact h ▸ l.moves_refl

theorem moves_refuse (l : Life) : Moves l l.refuse := by
  rw [refuse]
  split
  case isTrue => exact l.moves_refl.halves l.closeRcvd l.held l.input .waitDrain
  case isFalse => exact l.moves_refl

theorem moves_shut (l : Life) : Moves l l.shut := by
  rw [shut]
  split
  case isTrue => exact l.moves_sendEof.halves l.closeRcvd l.held .closed l.output
  case isFalse => exact l.moves_refl.halves l.closeRcvd l.held .closed l.output

theorem moves_peerClose (l : Life) : Moves l l.peerClose := by
  rw [peerClose]
  split
  case isTrue => exact l.moves_refl.halves true l.held .closed .closed
  case isFalse =>
    have hrcvd := l.moves_refl.halves true l.held l.input l.output
    exact hrcvd.trans ((moves_refuse _).trans (moves_shut _))

theorem Send.moves (h : l.Send l') : Moves l l' := by
  rcases h with rfl | ⟨-, -, p, held, hp, rfl⟩
  · exact moves_refl l'
  · have hordinary : ∀ q ∈ [p], Ordinary q := by
      intro q hq
      rw [mem_singleton.mp hq, Ordinary, hp]
      decide
    exact (l.moves_say hordinary).halves l.closeRcvd held l.input l.output

theorem moves_finish (l : Life) : Moves l l.finish := by
  rw [finish]
  split
  case isTrue => exact l.moves_refl.halves l.closeRcvd l.held .closed l.output
  case isFalse => exact l.moves_sendEof.halves l.closeRcvd l.held .closed l.output

theorem Poll.moves (h : l.Poll l') : Moves l l' := by
  rw [Poll] at h
  split at h
  case isTrue => exact h ▸ l.moves_refl
  case isFalse =>
    obtain ⟨l₁, hsend, rfl⟩ := h
    split
    case isTrue => exact hsend.moves.trans l₁.moves_finish
    case isFalse => exact hsend.moves

theorem Work.moves (h : l.Work l') : Moves l l' := by
  rcases h with rfl | ⟨hrun, rfl | rfl⟩
  · exact moves_refl l'
  · exact l.moves_refl.halves l.closeRcvd true l.input l.output
  · exact ⟨rfl, rfl, rfl, rfl, id, (fun hnone => by cases hnone), fun _ => rfl, l.moves_refl.said⟩

/-- A step that ends with `garbage_collect`, with the delayed reply behind it in `channel_post` -/
def Collects (event : ChannelObject.Event) (l l' : Life) : Prop :=
  ∃ l₁, Moves l l₁ ∧ (l₁.IsDead → l.IsDead) ∧ l₁.closeRcvd = l.closeRcvd ∧
    (event = .session .fillEventArray ∧ l' = l₁.collect ∨
      ∃ p, event = .session .post ∧ p.type = Ssh2Msg.channelOpenConfirmation ∧
        l' = l₁.collect.confirm p)

variable (h : Step event l l')
include h

theorem Step.shape :
    Moves l l' ∨ Collects event l l' ∨
      event = .session .exitMsg ∧ l.thread = .terminated ∧ l' = l.notify := by
  cases event with
  | startSubsystem sftp reply => exact .inl (Request.moves h)
  | otherRequest created reply =>
    obtain ⟨ps, hps, rfl⟩ := h
    exact .inl (l.moves_say hps.ordinary)
  | connected =>
    rcases h with rfl | ⟨-, rfl⟩
    · exact .inl (moves_refl l')
    · exact .inl ⟨rfl, rfl, rfl, rfl, fun _ => rfl, id, id, l.moves_refl.said⟩
  | session event =>
    cases event with
    | request reply => exact .inl (Request.moves h)
    | data body => exact .inl (h ▸ l.moves_refl)
    | eof body => exact .inl (PeerEof.moves h)
    | close body => exact .inl (h ▸ l.moves_peerClose)
    | windowAdjust body => exact .inl (h ▸ l.moves_refl)
    | outputPoll => exact .inl (Poll.moves h)
    | fillEventArray =>
      obtain ⟨l₁, hl₁, hcollect⟩ := h
      refine .inr (.inl ⟨l₁, ?_, ?_, ?_, .inl ⟨rfl, hcollect⟩⟩)
      · rcases hl₁ with rfl | ⟨-, rfl⟩
        · exact moves_refl l₁
        · exact l.moves_refl.halves l.closeRcvd l.held .waitDrain .closed
      · -- a half that has just begun to drain is not closed
        rcases hl₁ with rfl | ⟨-, rfl⟩
        · exact id
        · exact fun hdead => by cases hdead.1
      · rcases hl₁ with rfl | ⟨-, rfl⟩ <;> rfl
    | post =>
      obtain ⟨held, ps, p, -, hps, hp, hcollect⟩ := h
      refine .inr (.inl ⟨_, ?_, ?_, ?_, .inr ⟨p, rfl, hp, hcollect⟩⟩)
      · exact (l.moves_say hps.ordinary).halves l.closeRcvd held l.input l.output
      · exact id
      · rfl
    | exitMsg =>
      have h' : l' = if l.thread = .terminated then l.notify else l := h
      split at h'
      case isTrue hthread => exact .inr (.inr ⟨rfl, hthread, h'⟩)
      case isFalse => exact .inl (h' ▸ l.moves_refl)
    | callGet | getStep | otherEvent | workerPut | workerExit => exact .inl (Work.moves h)

omit h in
theorem confirm_thread (l : Life) (p : Packet) : (l.confirm p).doClose = l.doClose ∧
    (l.confirm p).deleted = l.deleted ∧ (l.confirm p).thread = l.thread := by
  rw [confirm]
  split <;> exact ⟨rfl, rfl, rfl⟩

/-- What a step makes of the thread -/
structure Goes (l l' : Life) : Prop where
  started : l'.deleted = false → l'.thread = .none → l.thread = .none
  ended : l'.deleted = false → l.thread = .terminated → l'.thread = .terminated
  gone : l.deleted = false → l'.deleted = true → l'.thread = .none

theorem Step.goes : Goes l l' := by
  rcases h.shape with hmoves | ⟨l₁, hmoves, -, -, hcollect⟩ | ⟨-, hthread, rfl⟩
  · refine ⟨fun _ => hmoves.started, fun _ => hmoves.ended, fun hlive hgone => ?_⟩
    cases (hmoves.deleted.trans hlive).symm.trans hgone
  · have hcollected : Goes l l₁.collect := by
      obtain ⟨-, hsame, hgone⟩ := l₁.collect_thread
      refine ⟨fun hlive hnone => ?_,
        fun hlive hend => ?_, fun hlive => hgone (hmoves.deleted.trans hlive)⟩
      · exact hmoves.started ((hsame hlive).symm.trans hnone)
      · exact (hsame hlive).trans (hmoves.ended hend)
    rcases hcollect with ⟨-, rfl⟩ | ⟨p, -, -, rfl⟩
    · exact hcollected
    · obtain ⟨-, hdeleted, hsame⟩ := l₁.collect.confirm_thread p
      refine ⟨?_, ?_, ?_⟩
      · rw [hdeleted, hsame]
        exact hcollected.started
      · rw [hdeleted, hsame]
        exact hcollected.ended
      · rw [hdeleted, hsame]
        exact hcollected.gone
  · exact ⟨fun _ => id, fun _ => id, fun hlive hgone => by cases hlive.symm.trans hgone⟩

/-- Only the report of the thread's end sets `do_close`. -/
theorem Step.doClose :
    l'.doClose = l.doClose ∨
      event = .session .exitMsg ∧ l.thread = .terminated ∧ l' = l.notify := by
  rcases h.shape with hmoves | ⟨l₁, hmoves, -, -, hcollect⟩ | hnotify
  · exact .inl hmoves.doClose
  · rcases hcollect with ⟨-, rfl⟩ | ⟨p, -, -, rfl⟩
    · exact .inl (l₁.collect_thread.1.trans hmoves.doClose)
    · exact .inl ((l₁.collect.confirm_thread p).1.trans
        (l₁.collect_thread.1.trans hmoves.doClose))
  · exact .inr hnotify

/-- An opened channel stays opened. -/
theorem Step.opened (hopened : l.isOpened = true) : l'.isOpened = true := by
  have hcollect : ∀ l₁ : Life, l₁.collect.isOpened = l₁.isOpened := by
    intro l₁
    rw [collect]
    split <;> (try split) <;> (try split) <;> rfl
  rcases h.shape with hmoves | ⟨l₁, hmoves, -, -, ⟨-, rfl⟩ | ⟨p, -, -, rfl⟩⟩ | ⟨-, -, rfl⟩
  · exact hmoves.opened hopened
  · exact (hcollect l₁).trans (hmoves.opened hopened)
  · have hsame : (l₁.collect.confirm p).isOpened = l₁.collect.isOpened := by
      rw [confirm]
      split <;> rfl
    exact hsame.trans ((hcollect l₁).trans (hmoves.opened hopened))
  · exact hopened

/-- What is deleted by a step was dead before it. -/
theorem Step.deletes (hlive : l.deleted = false) (hgone : l'.deleted = true) :
    (event = .session .fillEventArray ∨ event = .session .post) ∧ l.IsDead ∧
      l.closeRcvd = true := by
  rcases h.shape with hmoves | ⟨l₁, hmoves, hdead, hsame, hcollect⟩ | ⟨-, -, rfl⟩
  · cases (hmoves.deleted.trans hlive).symm.trans hgone
  · have hlive₁ : l₁.deleted = false := hmoves.deleted.trans hlive
    rcases hcollect with ⟨hevent, rfl⟩ | ⟨p, hevent, -, rfl⟩
    · obtain ⟨hdead₁, hrcvd⟩ := collect_deleted hlive₁ hgone
      exact ⟨.inl hevent, hdead hdead₁, hsame.symm.trans hrcvd⟩
    · rw [(l₁.collect.confirm_thread p).2.1] at hgone
      obtain ⟨hdead₁, hrcvd⟩ := collect_deleted hlive₁ hgone
      exact ⟨.inr hevent, hdead hdead₁, hsame.symm.trans hrcvd⟩
  · cases hlive.symm.trans hgone

omit h in
/-- The halves are not touched when the channel is collected or confirmed. -/
theorem collect_halves (l : Life) :
    l.collect.output = l.output ∧ l.collect.closeRcvd = l.closeRcvd := by
  rw [collect]
  split <;> (try split) <;> (try split) <;> exact ⟨rfl, rfl⟩

omit h in
theorem confirm_halves (l : Life) (p : Packet) :
    (l.confirm p).output = l.output ∧ (l.confirm p).closeRcvd = l.closeRcvd := by
  rw [confirm]
  split <;> exact ⟨rfl, rfl⟩

/-- EOF or CLOSE from the peer -/
def ends : ChannelObject.Event → Bool
  | .session (.eof _) | .session (.close _) => true
  | _ => false

/-- The output half stops to take data when the peer has no more, or after the thread's end, and
does not start again. -/
structure Halves (ended : Bool) (l l' : Life) : Prop where
  refused : l'.output ≠ .open → l.output ≠ .open ∨ ended = true ∨ l.thread = .terminated
  stays : l.output ≠ .open → l'.output ≠ .open
  closed : l'.closeRcvd = true → l.closeRcvd = true ∨ ended = true

omit h in
theorem shut_output (l : Life) : l.shut.output = l.output := by
  rw [shut]
  split <;> rfl

omit h in
theorem peerClose_output (l : Life) : l.peerClose.output ≠ .open := by
  rw [peerClose]
  split
  case isTrue => exact fun h => by cases h
  case isFalse =>
    rw [shut_output, refuse]
    split
    case isTrue => exact fun h => by cases h
    case isFalse hrefused => exact hrefused

omit h in
/-- The output half of an open channel drains after CLOSE, unless it is closed. -/
theorem peerClose_drains (hopened : l.isOpened = true) :
    l.peerClose.output = if l.output = .closed then .closed else .waitDrain := by
  rw [peerClose, if_neg (by rw [hopened]; decide), shut_output, refuse]
  cases l.output <;> simp

omit h in
theorem peerClose_closed (hclosed : l.output = .closed) : l.peerClose.output = .closed := by
  cases hopened : l.isOpened with
  | false => rw [peerClose, if_pos hopened]
  | true => rw [peerClose_drains hopened, if_pos hclosed]

omit h in
theorem peerClose_deleted (l : Life) : l.peerClose.deleted = l.deleted := by
  rw [peerClose]
  split
  case isTrue => rfl
  case isFalse =>
    rw [shut, refuse]
    split <;> split <;> rfl

/-- The steps that may end the stream to the subsystem, or close its half of the channel -/
def halts : ChannelObject.Event → Bool
  | .session (.eof _) | .session (.close _) | .session .fillEventArray | .session .exitMsg => true
  | _ => false

/-- All others leave the output half alone. -/
theorem Step.sameOutput
    (hno : halts event = false) : l'.output = l.output ∧ l'.closeRcvd = l.closeRcvd := by
  have hrequest : l.Request l' → l'.output = l.output ∧ l'.closeRcvd = l.closeRcvd := by
    rintro ⟨ps, -, rfl | ⟨-, -, _, rfl⟩⟩ <;> exact ⟨rfl, rfl⟩
  have hwork : l.Work l' → l'.output = l.output ∧ l'.closeRcvd = l.closeRcvd := by
    rintro (rfl | ⟨-, rfl | rfl⟩) <;> exact ⟨rfl, rfl⟩
  cases event with
  | startSubsystem sftp reply => exact hrequest h
  | otherRequest created reply =>
    obtain ⟨ps, -, rfl⟩ := h
    exact ⟨rfl, rfl⟩
  | connected =>
    rcases h with rfl | ⟨-, rfl⟩
    · exact ⟨rfl, rfl⟩
    · exact ⟨rfl, rfl⟩
  | session event =>
    cases event with
    | request reply => exact hrequest h
    | data body => exact ⟨congrArg Life.output h, congrArg Life.closeRcvd h⟩
    | windowAdjust body => exact ⟨congrArg Life.output h, congrArg Life.closeRcvd h⟩
    | outputPoll =>
      have hpoll : l.Poll l' := h
      rw [Poll] at hpoll
      split at hpoll
      case isTrue => exact ⟨congrArg Life.output hpoll, congrArg Life.closeRcvd hpoll⟩
      case isFalse =>
        obtain ⟨l₁, hsend, hnext⟩ := hpoll
        have hsent : l₁.output = l.output ∧ l₁.closeRcvd = l.closeRcvd := by
          rcases hsend with rfl | ⟨-, -, p, held, -, rfl⟩ <;> exact ⟨rfl, rfl⟩
        split at hnext
        case isTrue =>
          have hfinish : l₁.finish.output = l₁.output ∧ l₁.finish.closeRcvd = l₁.closeRcvd := by
            rw [finish]
            split <;> exact ⟨rfl, rfl⟩
          rw [← hnext] at hfinish
          exact ⟨hfinish.1.trans hsent.1, hfinish.2.trans hsent.2⟩
        case isFalse =>
          rw [← hnext] at hsent
          exact hsent
    | post =>
      obtain ⟨held, ps, p, -, -, -, rfl⟩ := h
      exact ⟨(confirm_halves _ p).1.trans (collect_halves _).1,
        (confirm_halves _ p).2.trans (collect_halves _).2⟩
    | callGet | getStep | otherEvent | workerPut | workerExit => exact hwork h
    | eof | close | fillEventArray | exitMsg => cases hno

/-- The output half is not opened again. -/
theorem Step.closed (hclosed : l.output = .closed) : l'.output = .closed := by
  cases hhalts : halts event with
  | false => exact (h.sameOutput hhalts).1.trans hclosed
  | true =>
    unfold halts at hhalts
    split at hhalts
    case h_1 body =>
      have heof : l.PeerEof l' := h
      rw [PeerEof, if_neg (by rw [hclosed]; decide)] at heof
      exact heof ▸ hclosed
    case h_2 body =>
      exact h ▸ peerClose_closed hclosed
    case h_3 =>
      obtain ⟨l₁, hl₁, rfl⟩ := h
      rw [l₁.collect_halves.1]
      rcases hl₁ with rfl | ⟨-, rfl⟩
      · exact hclosed
      · rfl
    case h_4 =>
      rw [h]
      split
      case isTrue => rfl
      case isFalse => exact hclosed
    case h_5 => cases hhalts

theorem Step.halves : Halves (ends event) l l' := by
  have hsame : l'.output = l.output → l'.closeRcvd = l.closeRcvd →
      Halves (ends event) l l' := by
    intro houtput hrcvd
    refine ⟨?_, ?_, ?_⟩
    · rw [houtput]
      exact .inl
    · rw [houtput]
      exact id
    · rw [hrcvd]
      exact .inl
  cases hhalts : halts event with
  | false => exact hsame (h.sameOutput hhalts).1 (h.sameOutput hhalts).2
  | true =>
    unfold halts at hhalts
    split at hhalts
    case h_1 body =>
      refine ⟨fun _ => .inr (.inl rfl), fun hrefused => ?_, fun _ => .inr rfl⟩
      have heof : l.PeerEof l' := h
      rw [PeerEof, if_neg hrefused] at heof
      rw [heof]
      exact hrefused
    case h_2 body =>
      refine ⟨fun _ => .inr (.inl rfl), fun _ => ?_, fun _ => .inr rfl⟩
      rw [h]
      exact l.peerClose_output
    case h_3 =>
      obtain ⟨l₁, hl₁, rfl⟩ := h
      rcases hl₁ with rfl | ⟨hdrains, rfl⟩
      · exact hsame l₁.collect_halves.1 l₁.collect_halves.2
      · refine ⟨fun _ => .inl (by rw [hdrains]; decide), fun _ => ?_, fun hrcvd => .inl ?_⟩
        · rw [(collect_halves _).1]
          exact fun h => by cases h
        · rw [(collect_halves _).2] at hrcvd
          exact hrcvd
    case h_4 =>
      have hexit : l' = if l.thread = .terminated then l.notify else l := h
      split at hexit
      case isTrue hthread =>
        rw [hexit]
        exact ⟨fun _ => .inr (.inr hthread), (fun _ h => by cases h), .inl⟩
      case isFalse => exact hsame (congrArg Life.output hexit) (congrArg Life.closeRcvd hexit)
    case h_5 => cases hhalts

end Life

/-! ## §3 The life of a channel -/

def threadOf (subsystem : Option Worker) : Thread :=
  match subsystem with
  | none => .none
  | some w => if w.pc = .terminated then .terminated else .running

/-- `hasAscendingData`, the thread apart -/
def heldOf (s : SessionChannel) : Bool :=
  s.base.ascending.len ≠ 0 || s.toChannel.nReadBufMsgs ≠ 0 || s.toChannel.nWriteBufMsgs ≠ 0

def lifeOf (connecting : Bool) (s : SessionChannel) : Life where
  connecting := connecting
  isOpened := s.base.isOpened
  eofSent := s.base.eofSent
  closeRcvd := s.base.closeRcvd
  closeSent := s.base.closeSent
  doClose := s.base.doClose
  input := s.base.currentInputState
  output := s.base.currentOutputState
  held := heldOf s
  thread := threadOf s.subsystem
  deleted := s.deleted
  remoteId := s.base.remoteId
  sent := s.base.con.sent

/-- The counters of a queue are not negative. -/
def Counted (q : BusyThreadReadBuffer) : Prop := 0 ≤ q.nReadBufMsgs ∧ 0 ≤ q.nWriteBufMsgs

/-- The channel is at the point `l` of its life. -/
structure At (connecting : Bool) (l : Life) (s : SessionChannel) : Prop where
  counted : Counted s.toChannel
  life : lifeOf connecting s = l

/-- Nothing has been sent since `l`, and nothing deleted. -/
def Silent (l : Life) (s : SessionChannel) : Prop :=
  s.base.con.sent = l.sent ∧ s.deleted = l.deleted

/-- A dead channel could not be deleted: nothing has been sent for it since `l` but credit and
CLOSE. -/
def Broken (l : Life) (s : SessionChannel) : Prop :=
  s.deleted = l.deleted ∧ l.IsDead ∧ ∃ ps, Life.Plain ps ∧
    (s.base.con.sent = (l.say ps).sent ∨ s.base.con.sent = (l.say ps).collect.sent)

/-- A call has failed. -/
def Stops (l : Life) (s : SessionChannel) : Prop := Silent l s ∨ Broken l s

variable {k : Bool} {l : Life} {s : SessionChannel}

theorem Silent.stops (h : Silent l s) : Stops l s := .inl h

theorem Stops.deleted (h : Stops l s) : s.deleted = l.deleted := h.elim And.right And.left

theorem At.silent (h : At k l s) : Silent l s :=
  ⟨congrArg Life.sent h.life, congrArg Life.deleted h.life⟩

end Shiesh.Channels
