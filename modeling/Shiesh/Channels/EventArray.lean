import Mathlib.Data.List.Forall2
import Shiesh.Channels.LifeFunctions
import Shiesh.Channels.ServerRules

/-!
# Who Is Served by fill_event_array

`fill_event_array` does two things in one loop. It puts the `dataReady` events of channels into an
array of fixed size, and it does the work that a channel has waiting: the end of a drained stream,
and the collection of a dead channel. The loop is left when the array is full, and with it the work
of the channels behind.
-/

namespace Shiesh.Channels

open Shiesh.Lib List Life

/-! ## §1 One channel -/

namespace ChannelObject

/-- The work of `fill_event_array` for a channel has been done: this is what becomes of the
channel, which is nothing when it is deleted. -/
def Serviced (o : ChannelObject) (r : Option ChannelObject) : Prop :=
  let c := o.session.base
  if o.session.drains then
    ∃ o', r = some o' ∧ o'.session.base.currentOutputState = .closed ∧
      o'.session.base.currentInputState = .waitDrain ∧
      -- the EOF marker for the subsystem
      o'.session.fromChannel.nWriteBufMsgs = o.session.fromChannel.nWriteBufMsgs + 1
  else if o.session.isDead && c.closeRcvd then
    r = none
  else
    ∃ o', r = some o' ∧ o'.session.base.currentOutputState = c.currentOutputState ∧
      o'.session.base.currentInputState = c.currentInputState ∧
      o'.session.base.closeSent = (c.closeSent || (o.session.isDead && c.doClose))

/-- There is work for `fill_event_array`. -/
def due (o : ChannelObject) : Bool :=
  let c := o.session.base
  o.session.drains || (o.session.isDead && (c.closeRcvd || (c.doClose && !c.closeSent)))

/-- There is room for the EOF marker, if it has to be put: at the end of a drained stream, or for
the thread of a channel that is deleted. -/
def eofFits (o : ChannelObject) : Bool :=
  !(o.session.drains || o.session.terminates) || o.session.fromChannel.writeBuf.hasRoom 4

/-- A channel that is left alone has been served exactly if there was nothing to do. -/
theorem serviced_self (o : ChannelObject) : o.Serviced (some o) ↔ o.due = false := by
  rw [Serviced, due]
  cases hdrains : o.session.drains with
  | true =>
    have houtput : o.session.base.currentOutputState = .waitDrain := by
      simp only [SessionChannel.drains, Bool.and_eq_true, decide_eq_true_eq] at hdrains
      exact hdrains.1
    simp [houtput]
  | false =>
    cases hdead : o.session.isDead with
    | false => simp
    | true =>
      cases hrcvd : o.session.base.closeRcvd with
      | true => simp
      | false =>
        cases hdo : o.session.base.doClose <;> cases hsent : o.session.base.closeSent <;>
          simp [hsent]

/-- **One channel**: the code does its work, or fails for want of room for the EOF marker. -/
theorem fillEventArray_serviced (o : ChannelObject) (hlive : o.session.deleted = false) :
    wp (step (.session .fillEventArray))
      (fun _ o' => o.eofFits = true ∧ o.Serviced (if o'.session.deleted then none else some o'))
      (fun _ _ => o.eofFits = false) o := by
  rw [step_session hlive rfl, SessionChannel.stepEvent, wp_bind]
  refine wp_mono (fillEventArray_result false o.session) (fun _ s' h => ?_) fun _ _ h => ?_
  · obtain ⟨hlife, -, hmarked⟩ := h
    rw [wp_pure]
    refine ⟨?_, ?_⟩
    · rw [eofFits]
      cases hputs : o.session.drains || o.session.terminates with
      | false => rfl
      | true =>
        rw [hputs] at hmarked
        rw [hmarked.1]
        rfl
    rw [Serviced]
    cases hdrains : o.session.drains with
    | true =>
      rw [hdrains, if_pos rfl, collect_alive fun hdead => by cases hdead.1] at hlife
      rw [hdrains, Bool.true_or] at hmarked
      have hkept : s'.deleted = false := (congrArg deleted hlife).trans hlive
      rw [if_pos rfl, hkept, if_neg Bool.false_ne_true]
      exact ⟨_, rfl, congrArg output hlife, congrArg input hlife, hmarked.2.2⟩
    | false =>
      rw [hdrains, if_neg Bool.false_ne_true] at hlife
      rw [if_neg Bool.false_ne_true]
      have hiff := isDead_iff false o.session
      cases hdead : o.session.isDead with
      | false =>
        rw [collect_alive fun h => by cases hdead.symm.trans (hiff.mpr h)] at hlife
        have hkept : s'.deleted = false := (congrArg deleted hlife).trans hlive
        rw [hkept, Bool.false_and, Bool.false_and, Bool.or_false]
        exact ⟨_, rfl, congrArg output hlife, congrArg input hlife,
          congrArg closeSent hlife⟩
      | true =>
        cases hrcvd : o.session.base.closeRcvd with
        | true =>
          rw [collect_deletes (hiff.mp hdead) hrcvd] at hlife
          have hgone : s'.deleted = true := congrArg deleted hlife
          rw [hgone]
          rfl
        | false =>
          rw [collect_waits (hiff.mp hdead) hrcvd] at hlife
          obtain ⟨hinput, houtput, -, hdeleted⟩ := sayClose_same _ _
          rw [← hlife] at hinput houtput hdeleted
          have hkept : s'.deleted = false := hdeleted.trans hlive
          rw [hkept, Bool.true_and]
          exact ⟨_, rfl, houtput, hinput, (congrArg closeSent hlife).trans
            (sayClose_closeSent _ _)⟩
  · rw [eofFits, h.1, h.2.1]
    rfl

end ChannelObject

namespace Server

variable {s : Server}

/-! ## §2 The loop -/

/-- `events[]` and `chanNums[]`. A channel has a `dataReady` event of its own, which is named here
by the number of channels that were created before it. -/
structure EventArray where
  events : List Nat := []
  chanNums : List Nat := []

def EventArray.push (a : EventArray) (event id : Nat) : EventArray :=
  { events := a.events ++ [event], chanNums := a.chanNums ++ [id] }

/-- `fill_event_array`, with what it writes. -/
def fillArrays (a : EventArray) : List Nat → ServerM EventArray
  | [] => pure a
  | id :: ids => do
    match (← get).channels.getObjectById id with
    | none => fillArrays a ids
    | some e =>
      if a.chanNums.length ≥ eventsMaxSize then pure a
      else do
        onObject id (ChannelObject.step (.session .fillEventArray))
        fillArrays (if waits e.object then a.push e.birth id else a) ids

/-- Without the arrays it is the loop of `server_loop`. -/
theorem fillArrays_forget (a : EventArray) (ids : List Nat) :
    (fillArrays a ids >>= fun _ => pure ()) = fillEventArray a.chanNums.length ids := by
  induction ids generalizing a with
  | nil => rfl
  | cons id ids ih =>
    rw [fillArrays, fillEventArray, bind_assoc]
    congr 1
    funext s
    cases s.channels.getObjectById id with
    | none => exact ih a
    | some e =>
      simp only
      split
      case isTrue => rfl
      case isFalse =>
        rw [bind_assoc]
        congr 1
        funext _
        rw [ih]
        cases waits e.object with
        | true => simp [EventArray.push]
        | false => rfl

/-- The channels below `i` whose event is to be put into the array -/
def eligible (s : Server) (i : Nat) : List Nat :=
  (List.range i).filter fun id => (s.channels.getObjectById id).any fun e => waits e.object

/-- The event of a channel -/
def eventOf (s : Server) (id : Nat) : Nat :=
  match s.channels.getObjectById id with
  | some e => e.birth
  | none => 0

/-- The arrays when the loop has come to `i` -/
def arraysAt (s : Server) (i : Nat) : EventArray :=
  let chanNums := (s.eligible i).take eventsMaxSize
  { events := chanNums.map s.eventOf, chanNums := chanNums }

theorem eligible_succ (s : Server) (i : Nat) :
    s.eligible (i + 1) = s.eligible i ++
      if (s.channels.getObjectById i).any fun e => waits e.object then [i] else [] := by
  rw [eligible, range_succ, filter_append, filter_singleton, Bool.cond_eq_ite]
  rfl

variable {i j : Nat} {e : Entry} {s₀ : Server}

theorem eligible_mono (s : Server) (h : i ≤ j) : s.eligible i <+: s.eligible j := by
  induction h with
  | refl => exact prefix_rfl
  | step _ ih => exact ih.trans (by rw [eligible_succ]; exact prefix_append _ _)

/-- A full array stays as it is. -/
theorem arraysAt_full (hij : i ≤ j) (hfull : eventsMaxSize ≤ (s.eligible i).length) :
    s.arraysAt j = s.arraysAt i := by
  obtain ⟨rest, hrest⟩ := s.eligible_mono hij
  have htake : (s.eligible j).take eventsMaxSize = (s.eligible i).take eventsMaxSize := by
    rw [← hrest, take_append_of_le_length hfull]
  rw [arraysAt, arraysAt, htake]

theorem arraysAt_succ (hroom : (s.eligible i).length < eventsMaxSize)
    (he : s.channels.getObjectById i = some e) :
    s.arraysAt (i + 1) =
      if waits e.object then (s.arraysAt i).push e.birth i else s.arraysAt i := by
  have htake : (s.eligible i).take eventsMaxSize = s.eligible i :=
    take_of_length_le (le_of_lt hroom)
  have hnext : (s.eligible (i + 1)).take eventsMaxSize =
      if waits e.object then s.eligible i ++ [i] else s.eligible i := by
    rw [eligible_succ, he, Option.any_some]
    split
    · rw [take_of_length_le]
      rw [length_append, length_singleton]
      omega
    · rw [append_nil, htake]
  have hevent : s.eventOf i = e.birth := by rw [eventOf, he]
  rw [arraysAt, arraysAt, hnext, htake]
  split
  · simp [EventArray.push, hevent]
  · rfl

/-- The loop has come to `i`: the channels ahead are as they were in `s₀`, and those behind have
been served, if the array was not full when it was their turn. -/
structure Partway (s₀ : Server) (i : Nat) (s : Server) : Prop where
  ahead : ∀ id, i ≤ id → s.channels.getObjectById id = s₀.channels.getObjectById id
  behind : ∀ id e, id < i → s₀.channels.getObjectById id = some e →
    e.object.session.deleted = false →
    if (s₀.eligible id).length < eventsMaxSize then
      e.object.eofFits = true ∧
        e.object.Serviced ((s.channels.getObjectById id).map Entry.object)
    else s.channels.getObjectById id = some e

/-- Some channel has no room for its EOF marker when it is its turn. -/
def Stuck (s : Server) : Prop :=
  ∃ id e, s.channels.getObjectById id = some e ∧ e.object.session.deleted = false ∧
    (s.eligible id).length < eventsMaxSize ∧ e.object.eofFits = false

theorem Partway.start (s₀ : Server) : Partway s₀ 0 s₀ where
  ahead _ _ := rfl
  behind _ _ h := absurd h (Nat.not_lt_zero _)

theorem Partway.skip (h : Partway s₀ i s)
    (hnone : s₀.channels.getObjectById i = none) : Partway s₀ (i + 1) s where
  ahead id hid := h.ahead id (Nat.le_of_succ_le hid)
  behind id e hid he hlive := by
    rcases Nat.lt_succ_iff_lt_or_eq.mp hid with hlt | rfl
    · exact h.behind id e hlt he hlive
    · cases hnone.symm.trans he

theorem Partway.leave (h : Partway s₀ i s) (hij : i ≤ j)
    (hfull : eventsMaxSize ≤ (s₀.eligible i).length) : Partway s₀ j s where
  ahead id hid := h.ahead id (Nat.le_trans hij hid)
  behind id e hid he hlive := by
    by_cases hlt : id < i
    · exact h.behind id e hlt he hlive
    · have hle : i ≤ id := Nat.le_of_not_lt hlt
      have hlen := (s₀.eligible_mono hle).length_le
      rw [if_neg (by omega), h.ahead id hle]
      exact he

theorem Partway.serve (h : Partway s₀ i s) (he : s₀.channels.getObjectById i = some e)
    (hroom : (s₀.eligible i).length < eventsMaxSize) :
    wp (onObject i (ChannelObject.step (.session .fillEventArray)))
      (fun _ s' => Partway s₀ (i + 1) s') (fun _ _ => s₀.Stuck) s := by
  have hnow : s.channels.getObjectById i = some e := (h.ahead i (Nat.le_refl i)).trans he
  -- what the function does to the other places
  have hothers : ∀ o id, id ≠ i →
      (s.update i e o).channels.getObjectById id = s.channels.getObjectById id := by
    intro o id hne
    rw [getObjectById_update hnow, if_neg hne]
  have hdone : ∀ o, (e.object.session.deleted = false → e.object.eofFits = true ∧
      e.object.Serviced (if o.session.deleted then none else some o)) →
      Partway s₀ (i + 1) (s.update i e o) := by
    intro o ho
    refine ⟨fun id hid => ?_, fun id e' hid he' hlive => ?_⟩
    · rw [hothers o id (by omega)]
      exact h.ahead id (Nat.le_of_succ_le hid)
    · rcases Nat.lt_succ_iff_lt_or_eq.mp hid with hlt | rfl
      · rw [hothers o id (ne_of_lt hlt)]
        exact h.behind id e' hlt he' hlive
      · cases he.symm.trans he'
        obtain ⟨hfits, hserviced⟩ := ho hlive
        have hplace : (if o.session.deleted then none else some (e.after o)).map Entry.object =
            if o.session.deleted then none else some o := by
          split <;> rfl
        rw [if_pos hroom, getObjectById_update hnow, if_pos rfl, hplace]
        exact ⟨hfits, hserviced⟩
  refine wp_onObject_some hnow ?_
  cases hdeleted : e.object.session.deleted with
  | true =>
    rw [ChannelObject.step_deleted hdeleted]
    exact hdone _ fun hlive => by cases hdeleted.symm.trans hlive
  | false =>
    refine wp_mono (ChannelObject.fillEventArray_serviced e.object hdeleted) ?_ ?_
    · exact fun _ o ho => hdone o fun _ => ho
    · exact fun _ _ hno => ⟨i, e, he, hdeleted, hroom, hno⟩

theorem fillArrays_partway (s₀ : Server) (i k : Nat) (s : Server) (h : Partway s₀ i s) :
    wp (fillArrays (s₀.arraysAt i) (List.range' i k))
      (fun a s' => Partway s₀ (i + k) s' ∧ a = s₀.arraysAt (i + k)) (fun _ _ => s₀.Stuck) s := by
  induction k generalizing i s with
  | zero =>
    rw [range'_zero, fillArrays, wp_pure]
    exact ⟨h, rfl⟩
  | succ k ih =>
    have hnext : i + (k + 1) = i + 1 + k := by omega
    rw [range'_succ, fillArrays, wp_read, h.ahead i (Nat.le_refl i), hnext]
    cases hget : s₀.channels.getObjectById i with
    | none =>
      have hsame : s₀.arraysAt i = s₀.arraysAt (i + 1) := by
        rw [arraysAt, arraysAt, eligible_succ, hget, Option.any_none, if_neg Bool.false_ne_true,
          append_nil]
      rw [hsame]
      exact ih (i + 1) s (h.skip hget)
    | some e =>
      rw [wp_ite, wp_pure, wp_bind]
      have hlength : (s₀.arraysAt i).chanNums.length = min eventsMaxSize (s₀.eligible i).length :=
        length_take
      refine ⟨fun hfull => ?_, fun hroom => ?_⟩
      · have hfull' : eventsMaxSize ≤ (s₀.eligible i).length := by omega
        exact ⟨h.leave (by omega) hfull', (arraysAt_full (by omega) hfull').symm⟩
      · have hroom' : (s₀.eligible i).length < eventsMaxSize := by omega
        refine wp_imp (h.serve hget hroom') fun _ s1 h1 => ?_
        rw [← arraysAt_succ hroom' hget]
        exact ih (i + 1) s1 h1

/-! ## §3 Every channel -/

/-- What `fill_event_array` is for: the work of every channel is done, and the arrays hold as many
of the events of the channels that were eligible as there are places, an event in one array and its
channel in the other. -/
structure Filled (s : Server) (a : EventArray) (s' : Server) : Prop where
  serviced : ∀ id e, s.channels.getObjectById id = some e → e.object.session.deleted = false →
    e.object.Serviced ((s'.channels.getObjectById id).map Entry.object)
  chanNums : a.chanNums = (s.channels.ids.filter fun id =>
    (s.channels.getObjectById id).any fun e => waits e.object).take eventsMaxSize
  aligned : List.Forall₂ (fun event id => ∃ e, s.channels.getObjectById id = some e ∧
    event = e.birth) a.events a.chanNums
  bounded : a.events.length ≤ eventsMaxSize

/-- The channels whose turn comes while the array has a place have room for the EOF marker that
they may have to put, and there is no work for the channels behind them. -/
def AllReached (s : Server) : Prop :=
  ∀ id e, s.channels.getObjectById id = some e → e.object.session.deleted = false →
    if (s.eligible id).length < eventsMaxSize then e.object.eofFits = true
    else e.object.due = false

theorem arraysAt_aligned (s : Server) (i : Nat) :
    List.Forall₂ (fun event id => ∃ e, s.channels.getObjectById id = some e ∧ event = e.birth)
      (s.arraysAt i).events (s.arraysAt i).chanNums := by
  rw [arraysAt]
  refine forall₂_map_left_iff.mpr (forall₂_same.mpr fun id hid => ?_)
  have hany := (mem_filter.mp (mem_of_mem_take hid)).2
  cases he : s.channels.getObjectById id with
  | none =>
    rw [he] at hany
    cases hany
  | some e => exact ⟨e, rfl, by rw [eventOf, he]⟩

/-- 62 sessions are opened and nothing is asked for on them. The last one is closed by the peer, and
the round comes to `fill_event_array`. -/
def crowded : Server :=
  endState (runAll step (List.replicate 62 (.channelOpen (some .session) 0 100 100 true false) ++
    [.message 62 (.close []), .round false, .round false])) {}

end Server

end Shiesh.Channels
