import Shiesh.Channels.Identity
import Shiesh.Channels.Transitions
import Shiesh.Channels.DataReady
import Shiesh.Channels.Waiting
import Shiesh.Channels.ToChannel

/-!
# Sleeping on Pending Output

Does `server_loop` block while a channel has a message for the peer and room to send it?

A channel is waited for by the event `dataReady` of its `toChannel`, if `fill_event_array` has put
the event into the array. It does so only for an input half that is "open", for as many channels as
the array has places, and when `ascending` can take 16K more. A channel whose input half is
"waitDrain" is never waited for, and a `dataReady` that was reset too early does not wake anybody.
-/

namespace Shiesh.Channels

open Shiesh.Lib SessionChannel ChannelObject List

/-! ## §1 What a channel keeps -/

namespace BusyThreadReadBuffer

def NonePending (q : BusyThreadReadBuffer) : Prop := q.nReadBufMsgs = 0 ∧ q.nWriteBufMsgs = 0

instance (q : BusyThreadReadBuffer) : Decidable q.NonePending := inferInstanceAs (Decidable (_ ∧ _))

variable {q : BusyThreadReadBuffer}

theorem get_nonePending (h : q.NonePending) (asString : Bool) (out : Buffer) :
    wp (get asString) (fun _ t => t.1.NonePending) any (q, out) := by
  rw [get, wp_read]
  simp only [ne_eq, h.1, h.2, not_true_eq_false, if_false]
  rw [wp_update, wp_pure]
  exact h

/-- An event that is not set says that nothing is pending. -/
theorem Truthful.nonePending (h : q.Truthful) (hready : q.dataReady = false) : q.NonePending := by
  constructor
  · by_contra hread
    cases hready.symm.trans (h (.inl hread))
  · by_contra hwrite
    cases hready.symm.trans (h (.inr hwrite))

/-- What becomes of `toChannel`: the event stays truthful, and nothing comes from nothing. -/
structure Settles (q q' : BusyThreadReadBuffer) : Prop where
  truthful : q'.Truthful
  none : q.NonePending → q'.NonePending

theorem get_settles (h : q.Truthful) (hlast : q.NoneBehind) (asString : Bool) (out : Buffer) :
    wp (get asString) (fun _ t => Settles q t.1) any (q, out) := by
  by_cases hnone : q.NonePending
  · refine wp_weaken (wp_and (get_truthful h hlast asString out)
      (get_nonePending hnone asString out))
      fun _ t ht => ⟨ht.1, fun _ => ht.2⟩
  · refine wp_weaken (get_truthful h hlast asString out) fun _ t ht => ⟨ht, ?_⟩
    exact fun hnone' => absurd hnone' hnone

end BusyThreadReadBuffer

open BusyThreadReadBuffer (Settles get_settles nMsgsInTheBuffer put_truthful)

namespace ChannelObject

variable {o : ChannelObject}

/-- What `dataReady` and the input half "waitDrain" promise: the event is truthful, and there is
nothing left to drain. -/
structure Quiet (o : ChannelObject) : Prop where
  sound : o.Sound
  truthful : o.session.toChannel.Truthful
  drained : o.session.base.currentInputState = .waitDrain → o.session.toChannel.NonePending

/-- What becomes of `toChannel` in one step -/
theorem stepEvent_settles (event : Event) (h : o.session.toChannel.Truthful)
    (hlast : event = .session .post → o.session.base.isOpened = true →
      o.session.toChannel.NoneBehind) :
    wp (stepEvent event) (fun _ o' => o'.session.toChannel.Truthful ∧
      ((∀ data, event ≠ .session (.workerPut data)) →
        Settles o.session.toChannel o'.session.toChannel)) any o := by
  -- a message from the subsystem makes the second half void
  let P (q : BusyThreadReadBuffer) : Prop :=
    q.Truthful ∧ ((∀ data, event ≠ .session (.workerPut data)) → Settles o.session.toChannel q)
  have hstep : wp (stepEvent event)
      (fun _ o' => P o'.session.toChannel ∨
        P o'.session.toChannel ∧ terminated o'.session.subsystem = true)
      any o := by
    apply stepEvent_toChannel event ⟨h, fun _ => (⟨h, id⟩)⟩
    · intro hpost hopened asString
      exact wp_weaken (get_settles h (hlast hpost hopened) asString _)
        fun _ t ht => ⟨ht.truthful, fun _ => ht⟩
    · intro data hworker _
      have hput : ∀ q : BusyThreadReadBuffer, q.Truthful → P q :=
        fun q hq => ⟨hq, fun hnot => absurd hworker (hnot data)⟩
      exact wp_mono (put_truthful h data) (fun _ q hq => hput q hq)
        fun _ q hq => hput q hq
  exact wp_weaken hstep fun _ o' ho' => ho'.elim id And.left

/-- What an event must find so that the promise is kept. The stream to the subsystem and the
subsystem itself end with nothing pending, the subsystem puts nothing after that, and no message is
taken with others behind it. -/
def tame (event : Event) (o : ChannelObject) : Bool :=
  let c := o.session.base
  let q := o.session.toChannel
  match event with
  | .session (.eof _) => c.currentOutputState ≠ .open || c.descending.len ≠ 0 || q.NonePending
  | .session .fillEventArray =>
    c.currentOutputState ≠ .waitDrain || c.descending.len ≠ 0 || q.NonePending
  | .session .exitMsg => !SessionChannel.terminated o.session.subsystem || q.NonePending
  | .session (.workerPut _) => c.currentInputState ≠ .waitDrain
  | .session .post => !c.isOpened || q.NoneBehind
  | _ => true

/-- The input half begins to drain with nothing pending, and not because of a message. -/
theorem step_drains (ho : o.Sound) (hlive : o.session.deleted = false) (event : Event)
    (htame : tame event o = true) :
    wp (step event) (fun _ o' => o'.session.base.currentInputState = .waitDrain →
      (∀ data, event ≠ .session (.workerPut data)) ∧
        (o.session.base.currentInputState = .waitDrain ∨ o.session.toChannel.NonePending))
      any o := by
  by_cases heof : ∃ body, event = .session (.eof body)
  · obtain ⟨body, rfl⟩ := heof
    refine wp_weaken (step_eof_life ho hlive body)
      fun _ o' ho' hdrain => ⟨fun _ h => (by cases h), ?_⟩
    have hinput : o'.life.input = .waitDrain := hdrain
    rw [ho'] at hinput
    split at hinput
    case isTrue hopen =>
      have hopen' : o.session.base.currentOutputState = .open := hopen
      split at hinput
      case isTrue hempty =>
        simp only [tame, hopen', hempty] at htame
        exact .inr (by simpa using htame)
      case isFalse => exact .inl hinput
    case isFalse => exact .inl hinput
  by_cases hfill : event = .session .fillEventArray
  · subst hfill
    refine wp_weaken (step_fill_life ho hlive) fun _ o' ho' hdrain => ⟨fun _ h => (by cases h), ?_⟩
    have hinput : o'.life.input = .waitDrain := hdrain
    rw [ho', Life.collect_input] at hinput
    split at hinput
    case isTrue hends =>
      have houtput : o.session.base.currentOutputState = .waitDrain := hends.1
      simp only [tame, houtput, hends.2] at htame
      exact .inr (by simpa using htame)
    case isFalse => exact .inl hinput
  refine wp_weaken (step_lives ho event) fun _ o' ho' hdrain => ?_
  rw [hlive, if_neg Bool.false_ne_true] at ho'
  have hinput : o'.life.input = .waitDrain := hdrain
  by_cases hexit : event = .session .exitMsg
  · subst hexit
    refine ⟨fun _ h => (by cases h), ?_⟩
    rw [ho'.2] at hinput
    split at hinput
    case isTrue hthread =>
      have hterminated := o.thread_terminated.mp hthread
      simp only [tame, hterminated] at htame
      exact .inr (by simpa using htame)
    case isFalse => exact .inl hinput
  · have hbefore : o.life.input = .waitDrain := by
      rcases ho'.2.input (fun body h => heof ⟨body, h⟩) hfill hexit with hsame | hclosed
      · exact hsame.symm.trans hinput
      · cases hclosed.symm.trans hinput
    have hbefore' : o.session.base.currentInputState = .waitDrain := hbefore
    refine ⟨fun data h => ?_, .inl hbefore'⟩
    subst h
    simp [tame, hbefore'] at htame

theorem step_quiet {event : Event} (ho : o.Quiet) (htame : tame event o = true)
    (hlive : o.session.deleted = false) : wp (step event) (fun _ => Quiet) any o := by
  have hlast : event = .session .post → o.session.base.isOpened = true →
      o.session.toChannel.NoneBehind := by
    rintro rfl hopened
    simpa [tame, hopened] using htame
  have hsettles : wp (step event) (fun _ o' => o'.session.toChannel.Truthful ∧
      ((∀ data, event ≠ .session (.workerPut data)) →
        Settles o.session.toChannel o'.session.toChannel)) any o := by
    rw [step_live hlive]
    exact stepEvent_settles event ho.truthful hlast
  refine wp_weaken (wp_and (wp_and (step_lives ho.sound event) hsettles)
    (step_drains ho.sound hlive event htame)) fun _ o' ho' => ?_
  obtain ⟨⟨hlives, htruthful, hsame⟩, hdrains⟩ := ho'
  rw [hlive, if_neg Bool.false_ne_true] at hlives
  refine ⟨hlives.1, htruthful, fun hdrain => ?_⟩
  obtain ⟨hput, hbefore | hnone⟩ := hdrains hdrain
  · exact (hsame hput).none (ho.drained hbefore)
  · exact (hsame hput).none hnone

theorem create_quiet (ctype : ChannelType) (self remoteId rwindow rmaxpack : UInt32) :
    wp confirmOpen (fun _ o' => o'.Quiet ∧ o'.session.deleted = false) never
      (createDerivation ctype self remoteId rwindow rmaxpack) := by
  have hsound := createDerivation_sound ctype self remoteId rwindow rmaxpack
  have hempty := createDerivation_holding ctype self remoteId rwindow rmaxpack
  have hlive : (createDerivation ctype self remoteId rwindow rmaxpack).session.deleted = false := by
    cases ctype <;> rfl
  refine wp_and_mono (confirmOpen_sound hsound hlive) (confirmOpen_holding _ hempty)
    fun _ o' ho' => ?_
  obtain ⟨⟨hsound', hlive'⟩, hholds⟩ := ho'
  refine ⟨⟨hsound', ?_, fun _ => ?_⟩, hlive'⟩
  · rw [hholds]
    decide
  · rw [hholds]
    decide

end ChannelObject

/-! ## §2 Channels that are waited for -/

/-- The subsystem may go on: the input half is open, and the peer takes more than is there. -/
def Channel.Waits (c : Channel) : Prop :=
  c.currentInputState = .open ∧ c.remoteWindow > 0 ∧ UInt32.ofNat c.ascending.len < c.remoteWindow

instance (c : Channel) : Decidable c.Waits := inferInstanceAs (Decidable (_ ∧ _))

section NoNew

variable {c₀ : Channel}

/-- The channel is not waited for if it was not before. -/
def NoNew (c₀ : Channel) (s : SessionChannel) : Prop := s.base.Waits → c₀.Waits

theorem noNew_frame : QueueFrame (NoNew c₀) where
  base := by
    intro s c h hc hwaits
    have hwindow : c.remoteWindow = s.base.remoteWindow := congrArg Load.remoteWindow hc.load
    have hlen : c.ascending.len = s.base.ascending.len :=
      Buffer.len_of_contents (congrArg Load.ascending hc.load)
    rw [Channel.Waits, hwindow, hlen] at hwaits
    exact h ⟨not_not.mp fun hnot => hc.input hnot hwaits.1, hwaits.2⟩
  thread _ _ h := h
  queue _ h := h

end NoNew

namespace ChannelObject

variable {o : ChannelObject}

/-- `check_ascending_chan_rbuf ()` -/
def rbufHasRoom (o : ChannelObject) : Bool :=
  match Channel.checkAscendingChanRbuf o.session.base with
  | .ok answer _ => answer
  | .error _ _ => false

theorem waits_of_room (hwaits : o.session.base.Waits) (hroom : o.rbufHasRoom = true) :
    Server.waits o = true := by
  have hcheck : waitsForData o.session =
      onBase Channel.checkAscendingChanRbuf o.session := by
    rw [waitsForData, get_bind_apply]
    exact congrFun (if_pos hwaits) o.session
  rw [rbufHasRoom] at hroom
  rw [Server.waits, hcheck, onBase, zoom]
  cases hrun : Channel.checkAscendingChanRbuf o.session.base with
  | ok answer c =>
    rw [hrun] at hroom
    exact hroom
  | error e c =>
    rw [hrun] at hroom
    cases hroom

/-- The channel is not waited for if it was not before. -/
def NoNew (o o' : ChannelObject) : Prop := o'.session.base.Waits → o.session.base.Waits

theorem onSession_noNew {m : SessionM Unit} (hm : Keeps (Channels.NoNew o.session.base) m) :
    wp (onSession m) (fun _ => o.NoNew) any o := by
  rw [onSession, wp_zoom]
  exact wp_weaken (hm o.session id) fun _ _ h => h

theorem step_noNew {event : Event} (h : wp (stepEvent event) (fun _ => o.NoNew) any o) :
    wp (step event) (fun _ => o.NoNew) any o := by
  rw [step, wp_read, wp_ite, wp_pure]
  exact ⟨fun _ => id, fun _ => h⟩

theorem fill_noNew : wp (step (.session .fillEventArray)) (fun _ => o.NoNew) any o :=
  step_noNew (onSession_noNew (noNew_frame.step rfl))

/-- Threads do not change what is looked at. -/
theorem thread_noNew (t : Server.ThreadStep) : wp (step t.event) (fun _ => o.NoNew) any o := by
  have hafter : ∀ {m : SessionM Unit}, Keeps (Channels.NoNew o.session.base) m →
      wp (afterConnect m) (fun _ => o.NoNew) any o :=
    fun hm => wp_afterConnect id fun _ => onSession_noNew hm
  apply step_noNew
  cases t with
  | connected => exact wp_connected id fun _ _ => id
  | callGet => exact hafter (noNew_frame.step rfl)
  | put data =>
    refine hafter (workerAt_keeps _ fun w => .tryCatch (fun s hs => ?_) fun _ =>
      noNew_frame.setWorker _)
    rw [wp_zoom]
    exact wp_intro (fun _ _ _ => hs) fun _ _ _ => hs
  | getStep | otherEvent | exit => exact onSession_noNew (noNew_frame.step rfl)

end ChannelObject

/-! ## §3 The event array -/

namespace Server

variable {s s' : Server}

/-- The channels that `fill_event_array` puts into the array. It looks at each channel before it
does anything to it, and what it does to a channel changes no other one. -/
def chanNums (s : Server) (mapSize : Nat) : List Nat → List Nat
  | [] => []
  | id :: ids =>
    match s.channels.getObjectById id with
    | none => s.chanNums mapSize ids
    | some e =>
      if mapSize ≥ eventsMaxSize then []
      else if waits e.object then id :: s.chanNums (mapSize + 1) ids
      else s.chanNums mapSize ids

/-- The array has places for all channels, and `ascending` of those that are to be waited for can
take more. -/
def arrayFits (s : Server) : Bool :=
  s.channels.toList.length ≤ eventsMaxSize &&
    s.channels.toList.all fun e => !decide e.object.session.base.Waits || e.object.rbufHasRoom

variable {id : Nat} {e : Entry} (p : Phase)

theorem mem_chanNums {mapSize : Nat} {ids : List Nat}
    (hfits : mapSize + (ids.filterMap s.channels.getObjectById).length ≤ eventsMaxSize)
    (hid : id ∈ ids) (he : s.channels.getObjectById id = some e)
    (hwaits : waits e.object = true) : id ∈ s.chanNums mapSize ids := by
  induction ids generalizing mapSize with
  | nil => cases hid
  | cons id' ids ih =>
    rw [chanNums]
    cases hget : s.channels.getObjectById id' with
    | none =>
      rw [filterMap_cons_none hget] at hfits
      have hne : id ≠ id' := by
        intro heq
        rw [heq, hget] at he
        cases he
      exact ih hfits ((mem_cons.mp hid).resolve_left hne)
    | some e' =>
      rw [filterMap_cons_some hget, length_cons] at hfits
      simp only
      rw [if_neg (by omega)]
      by_cases heq : id = id'
      · rw [heq, hget] at he
        cases he
        rw [if_pos hwaits, heq]
        exact mem_cons_self
      · have hrest := (mem_cons.mp hid).resolve_left heq
        split
        case isTrue => exact mem_cons_of_mem _ (ih (by omega) hrest)
        case isFalse => exact ih (by omega) hrest

/-- An array that fits holds every channel that is to be waited for. -/
theorem chanNums_complete (hfits : s.arrayFits = true)
    (he : s.channels.getObjectById id = some e) (hwaits : e.object.session.base.Waits) :
    id ∈ s.chanNums 0 s.channels.ids := by
  rw [arrayFits, Bool.and_eq_true, decide_eq_true_eq, all_eq_true] at hfits
  have hroom : e.object.rbufHasRoom = true := by
    simpa [hwaits] using hfits.2 e (Repository.mem_toList.mpr ⟨id, he⟩)
  exact mem_chanNums (by rw [zero_add]; exact hfits.1) (Repository.mem_ids he) he
    (waits_of_room hwaits hroom)

/-- No channel has come to be waited for. -/
def NoNew (s s' : Server) : Prop :=
  ∀ id e', s'.channels.getObjectById id = some e' →
    ∃ e, s.channels.getObjectById id = some e ∧ e.object.NoNew e'.object

theorem NoNew.refl (s : Server) : NoNew s s := fun _ e he => ⟨e, he, id⟩

theorem NoNew.trans {s'' : Server} (h : NoNew s s') (h' : NoNew s' s'') : NoNew s s'' := by
  intro id e'' he''
  obtain ⟨e', he', hnew'⟩ := h' id e'' he''
  obtain ⟨e, he, hnew⟩ := h id e' he'
  exact ⟨e, he, fun hwaits => hnew (hnew' hwaits)⟩

theorem onObject_noNew {m : ObjectM Unit}
    (hm : ∀ o : ChannelObject, wp m (fun _ => o.NoNew) any o) :
    wp (onObject id m) (fun _ s' => NoNew s s' ∧ SameLoop s s') any s := by
  refine wp_onObject (fun _ => ⟨.refl s, .refl s⟩) fun e he => ?_
  refine wp_weaken (hm e.object) fun _ o ho => ⟨fun id' e' he' => ?_, sameLoop_update s id e o⟩
  rcases getObjectById_update_cases he he' with ⟨rfl, -, rfl⟩ | ⟨-, he'⟩
  · exact ⟨e, he, ho⟩
  · exact ⟨e', he', fun h => h⟩

theorem fillEventArray_noNew (mapSize : Nat) (ids : List Nat) :
    wp (fillEventArray mapSize ids) (fun _ => NoNew s) any s := by
  refine fillEventArray_keeps (I := NoNew s) (fun id s1 hs1 => ?_) mapSize ids s (.refl s)
  refine wp_weaken (onObject_noNew fun _ => fill_noNew) fun _ s2 hs2 => ?_
  exact hs1.trans hs2.1

theorem signal_noNew (id : Nat) :
    wp (signal id) (fun _ s' => NoNew s s' ∧ s'.phase = s.phase ∧ s'.rekeying = s.rekeying)
      any s := by
  refine wp_signal ⟨.refl s, rfl, rfl⟩ fun e channels hget _ hassign =>
    ⟨fun id' e' he' => ?_, rfl, rfl⟩
  rw [hassign] at he'
  split at he'
  case isTrue heq =>
    cases he'
    exact ⟨e, heq ▸ hget, fun h => h⟩
  case isFalse => exact ⟨e', he', fun h => h⟩

theorem onObject_phase (id : Nat) (m : ObjectM Unit) :
    Keeps (fun s => s.phase = p) (onObject id m) := by
  intro s hs
  refine wp_onObject (fun _ => hs) fun e _ => ?_
  have hphase : ∀ o, (s.update id e o).phase = p := fun o =>
    (sameLoop_update s id e o).phase.trans hs
  exact wp_intro (fun _ o _ => hphase o) fun _ o _ => hphase o

theorem serverInputChannelOpen_phase (ctype : Option ChannelType)
    (remoteId rwindow rmaxpack : UInt32) (resolves bug : Bool) :
    Keeps (fun s => s.phase = p)
      (serverInputChannelOpen ctype remoteId rwindow rmaxpack resolves bug) := by
  intro s hs
  cases ctype with
  | none =>
    rw [serverInputChannelOpen, openFailure, wp_zoom]
    exact wp_intro (fun _ _ _ => hs) fun _ _ _ => hs
  | some ctype =>
    rw [serverInputChannelOpen, wp_ite, wp_throw, wp_read, wp_write]
    exact ⟨fun _ => hs, fun _ => onObject_phase p _ _ _ hs⟩

theorem dispatch_phase (id : UInt32) (m : Message) :
    Keeps (fun s => s.phase = p) (dispatch id m) := by
  have hunknown : Keeps (fun s => s.phase = p) (m.unknown id) := by
    cases m with
    | windowAdjust body => exact .pure ()
    | startSubsystem | otherRequest | data | eof | close => exact .throw _
  exact Keeps.get.bind fun _ => .ite hunknown (onObject_phase p _ _)

/-- How the server has come to wait with no keys being exchanged: it did before, or this was the
call of `fill_event_array`. Either way no channel has come to be waited for. -/
structure CameToWait (event : Event) (s s' : Server) : Prop where
  noNew : NoNew s s'
  rekeying : s.rekeying = false
  before : s.phase = .wait ∨ s.phase = .fillEventArray ∧ ∃ rekeying, event = .round rekeying

theorem nextPhase_waits (rekeying : Bool) :
    wp (nextPhase rekeying) (fun _ s' => s'.phase = .wait → s'.rekeying = false →
      CameToWait (.round rekeying) s s') any s := by
  -- what ends by going on to another phase
  have hother : ∀ {m : ServerM Unit} (phase : Phase), phase ≠ .wait →
      wp (do m; modify fun s : Server => { s with phase := phase })
        (fun _ s' => s'.phase = .wait → s'.rekeying = false → CameToWait (.round rekeying) s s')
        any s := by
    intro m phase hne
    rw [wp_bind]
    refine wp_intro (fun _ s1 _ => ?_) fun _ _ _ => trivial
    rw [wp_modify]
    exact fun hwait => absurd hwait hne
  rw [nextPhase, wp_read]
  cases hphase : s.phase with
  | dispatch =>
    rw [wp_modify]
    exact fun hwait => by cases hwait
  | outputPoll => exact hother .fillEventArray (by decide)
  | fillEventArray =>
    simp only
    rw [unlessRekeying, wp_bind, wp_read, wp_ite, wp_pure, wp_modify]
    refine ⟨fun hrekeying _ hno => ?_, fun hno => ?_⟩
    · cases hrekeying.symm.trans hno
    · refine wp_weaken (fillEventArray_noNew 0 s.channels.ids) fun _ s1 hs1 => ?_
      rw [wp_modify]
      exact fun _ _ => ⟨hs1, Bool.eq_false_iff.mpr hno, .inr ⟨hphase, rekeying, rfl⟩⟩
  | wait =>
    simp only
    rw [wp_modify]
    exact fun hwait => by cases hwait
  | exitMsg =>
    simp only
    rw [wp_read, wp_ite, wp_modify]
    exact ⟨fun _ => hother .post (by decide), fun _ hwait => by cases hwait⟩
  | post => exact hother .dispatch (by decide)

theorem step_waits (event : Event) :
    wp (step event) (fun _ s' => s'.phase = .wait → s'.rekeying = false → CameToWait event s s')
      any s := by
  -- no message is dispatched while the server waits
  have hdispatching : ∀ {m : ServerM Unit},
      Keeps (fun s => s.phase = .dispatch) m →
      wp (whenDispatching m)
        (fun _ s' => s'.phase = .wait → s'.rekeying = false → CameToWait event s s')
        any s := by
    intro m hm
    rw [whenDispatching, wp_read, wp_ite, wp_pure]
    refine ⟨fun hphase => ?_, fun _ hwait hno => ⟨.refl s, hno, .inl hwait⟩⟩
    refine wp_weaken (hm s hphase) fun _ s' hs' hwait => ?_
    cases hs'.symm.trans hwait
  cases event with
  | channelOpen ctype remoteId rwindow rmaxpack resolves bug =>
    exact hdispatching (serverInputChannelOpen_phase _ ctype remoteId rwindow rmaxpack resolves bug)
  | message id m => exact hdispatching (dispatch_phase _ id m)
  | round rekeying => exact nextPhase_waits rekeying
  | thread id t =>
    refine wp_weaken (onObject_noNew fun o => o.thread_noNew t) fun _ s' hs' hwait hno => ?_
    exact ⟨hs'.1, hs'.2.rekeying.symm.trans hno, .inl (hs'.2.phase.symm.trans hwait)⟩
  | signal id =>
    refine wp_weaken (signal_noNew id) fun _ s' hs' hwait hno => ?_
    exact ⟨hs'.1, hs'.2.2.symm.trans hno, .inl (hs'.2.1.symm.trans hwait)⟩

end Server

/-- `server_loop` with its array `chanNums` -/
structure Loop where
  server : Server := {}
  chanNums : List Nat := []

namespace Loop

/-- The array after a step. With keys being exchanged `nChannelEvents` is 0. -/
def nextNums (l : Loop) : Server.Event → List Nat
  | .round _ =>
    if l.server.phase = .fillEventArray then
      if l.server.rekeying then [] else l.server.chanNums 0 l.server.channels.ids
    else l.chanNums
  | _ => l.chanNums

def step (event : Server.Event) : EStateM Halt Loop Unit := do
  let l ← get
  zoom Loop.server (fun s l => { l with server := s }) (Server.step event)
  modify fun l' => { l' with chanNums := l.nextNums event }

/-- `wait_until_can_do_something` is about to block, and none of the events in the array is set. -/
structure Blocks (l : Loop) (waitFdWrite : Bool) (outputLen : Nat) : Prop where
  phase : l.server.phase = .wait
  waits : (waitUntilCanDoSomething (l.server.channels.toList.map Entry.object) 0 waitFdWrite
    outputLen).isSome = true
  subprocTerminated : l.server.subprocTerminated = false
  dataReady : ∀ id ∈ l.chanNums, ∀ e ∈ l.server.channels.getObjectById id,
    e.object.session.toChannel.dataReady = false

instance (l : Loop) (waitFdWrite : Bool) (outputLen : Nat) :
    Decidable (l.Blocks waitFdWrite outputLen) :=
  decidable_of_iff (l.server.phase = .wait ∧
    (waitUntilCanDoSomething (l.server.channels.toList.map Entry.object) 0 waitFdWrite
      outputLen).isSome = true ∧
    l.server.subprocTerminated = false ∧
    ∀ id ∈ l.chanNums, ∀ e ∈ l.server.channels.getObjectById id,
      e.object.session.toChannel.dataReady = false)
    ⟨fun h => ⟨h.1, h.2.1, h.2.2.1, h.2.2.2⟩, fun h => ⟨h.1, h.2, h.3, h.4⟩⟩

/-- What a step must find: a round leaves nothing pending behind that it will not come back to, and
the array can hold all channels that are to be waited for. -/
def Careful (event : Server.Event) (l : Loop) : Prop :=
  Server.Finds (fun event e => ChannelObject.tame event e.object = true) event l.server ∧
    (l.server.phase = .fillEventArray → l.server.rekeying = false → l.server.arrayFits = true)

instance (event : Server.Event) (l : Loop) : Decidable (Careful event l) :=
  inferInstanceAs (Decidable (_ ∧ _))

/-- Every channel that is to be waited for is in the array. -/
def Ready (l : Loop) : Prop :=
  l.server.phase = .wait → l.server.rekeying = false →
    ∀ id e, l.server.channels.getObjectById id = some e → e.object.session.base.Waits →
      id ∈ l.chanNums

theorem quiet_rules : Server.Rules (fun _ e => e.object.Quiet) (fun _ => True)
    (fun event e => tame event e.object = true) where
  step he htame hlive := step_quiet he htame hlive
  exitMsg he htame hlive := step_quiet he htame hlive
  raise he := he
  gone he _ := he
  signal he _ := he
  safe _ := trivial
  create ctype number _ remoteId rwindow rmaxpack :=
    create_quiet ctype (UInt32.ofNat number) remoteId rwindow rmaxpack

/-- The invariant of the loop -/
structure Vigilant (l : Loop) : Prop where
  channels : Server.AllKeep (fun _ e => e.object.Quiet) l.server
  ready : l.Ready

theorem step_vigilant (event : Server.Event) (l : Loop) (hl : l.Vigilant) (hC : Careful event l) :
    wp (step event) (fun _ => Vigilant) any l := by
  rw [step, wp_read, wp_bind, wp_zoom]
  refine wp_weaken (wp_and (Server.step_allKeep quiet_rules event hl.channels hC.1)
    (Server.step_waits event)) fun _ s' hs' => ?_
  rw [wp_modify]
  refine ⟨hs'.1, fun hwait hno id e' he' hwaits => ?_⟩
  obtain ⟨hnoNew, hno', hbefore⟩ := hs'.2 hwait hno
  obtain ⟨e, he, hnew⟩ := hnoNew id e' he'
  rcases hbefore with hphase | ⟨hphase, rekeying, rfl⟩
  · -- the array is as it was
    have hsame : l.nextNums event = l.chanNums := by
      cases event with
      | round rekeying => exact if_neg (by rw [hphase]; decide)
      | channelOpen | message | thread | signal => rfl
    rw [hsame]
    exact hl.ready hphase hno' id e he (hnew hwaits)
  · have hfilled : l.nextNums (.round rekeying) = l.server.chanNums 0 l.server.channels.ids := by
      rw [nextNums, if_pos hphase, hno', if_neg Bool.false_ne_true]
    rw [hfilled]
    exact Server.chanNums_complete (hC.2 hphase hno') he (hnew hwaits)

end Loop

namespace ChannelObject

/-- A message waits in `toChannel`, and there is room to send it. -/
structure Stuck (o : ChannelObject) : Prop where
  opened : o.session.base.isOpened = true
  input : o.session.base.currentInputState = .open ∨ o.session.base.currentInputState = .waitDrain
  message : o.session.toChannel.nMsgsInTheBuffer > 0
  room : o.session.base.ascending.len < o.session.base.remoteWindow.toNat

instance (o : ChannelObject) : Decidable o.Stuck :=
  decidable_of_iff (o.session.base.isOpened = true ∧
    (o.session.base.currentInputState = .open ∨ o.session.base.currentInputState = .waitDrain) ∧
    o.session.toChannel.nMsgsInTheBuffer > 0 ∧
    o.session.base.ascending.len < o.session.base.remoteWindow.toNat)
    ⟨fun h => ⟨h.1, h.2.1, h.2.2.1, h.2.2.2⟩, fun h => ⟨h.1, h.2, h.3, h.4⟩⟩

theorem Stuck.waits {o : ChannelObject} (h : o.Stuck)
    (hopen : o.session.base.currentInputState = .open) : o.session.base.Waits := by
  have hsize := o.session.base.remoteWindow.toNat_lt
  have hroom := h.room
  refine ⟨hopen, UInt32.lt_iff_toNat_lt.mpr ?_, UInt32.lt_iff_toNat_lt.mpr ?_⟩
  · exact Nat.lt_of_le_of_lt (Nat.zero_le _) hroom
  · rw [UInt32.toNat_ofNat_of_lt' (hroom.trans hsize)]
    exact hroom

end ChannelObject

namespace Loop

/-- A session whose shell says something; the message has been sent when the server waits again. -/
def talkingShell : List Server.Event :=
  [.channelOpen (some .session) 0 100 100 true false, .message 1 (.startSubsystem false false),
    .thread 1 (.put [1]), .round false, .round false, .round false, .round false, .round false,
    .round false, .round false, .round false, .round false]

/-- The peer ends its stream, and then the shell says something. The input half is "waitDrain": its
channel is not in the array, and nothing wakes the server up. -/
def forgottenShell : List Server.Event :=
  [.channelOpen (some .session) 0 100 100 true false, .message 1 (.startSubsystem false false),
    .message 1 (.eof []), .thread 1 (.put [1]), .round false, .round false, .round false]

end Loop

end Shiesh.Channels
