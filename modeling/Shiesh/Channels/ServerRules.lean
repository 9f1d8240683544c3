import Shiesh.Channels.Server

/-!
# Rules for the Channels of a Connection

How to prove something about all channels of a connection along its runs, from what one channel
does. There are two rules: one for what every step keeps, and one for what the channels keep as
long as each function that is called on a channel finds it in a condition that it may depend on.
-/

namespace Shiesh.Channels

open Shiesh.Lib List Repository

namespace Server

variable {s : Server}

/-! ## §1 Functions called on a channel -/

variable {id : Nat} {e : Entry} {o : ChannelObject} {s' : Server} {Q : Unit → Server → Prop}

variable {E : Halt → Server → Prop}

theorem mem_everyone (h : e ∈ s.everyone) :
    (∃ id, s.channels.getObjectById id = some e) ∨ e ∈ s.removed :=
  (mem_append.mp h).imp_left mem_toList.mp

theorem wp_onObject_some {m : ObjectM Unit} (he : s.channels.getObjectById id = some e)
    (h : wp m (fun _ o => Q () (s.update id e o)) (fun x o => E x (s.update id e o)) e.object) :
    wp (onObject id m) Q E s := by
  rw [onObject, wp_read, he]
  exact wp_zoom.mpr h

theorem wp_onObject {m : ObjectM Unit} (hnone : s.channels.getObjectById id = none → Q () s)
    (hsome : ∀ e, s.channels.getObjectById id = some e →
      wp m (fun _ o => Q () (s.update id e o)) (fun x o => E x (s.update id e o)) e.object) :
    wp (onObject id m) Q E s := by
  cases hget : s.channels.getObjectById id with
  | none =>
    rw [onObject, wp_read, hget, wp_pure]
    exact hnone hget
  | some e => exact wp_onObject_some hget (hsome e hget)

theorem getObjectById_update (h : s.channels.getObjectById id = some e)
    (o : ChannelObject) (id' : Nat) :
    (s.update id e o).channels.getObjectById id' =
      if id' = id then (if o.session.deleted then none else some (e.after o))
      else s.channels.getObjectById id' := by
  rw [update]
  split <;> rw [getObjectById_assign_of_some h]

/-- Which channels there are then -/
theorem getObjectById_update_cases (h : s.channels.getObjectById id = some e) {id' : Nat}
    {e' : Entry}
    (h' : (s.update id e o).channels.getObjectById id' = some e') :
    id' = id ∧ o.session.deleted = false ∧ e.after o = e' ∨
      id' ≠ id ∧ s.channels.getObjectById id' = some e' := by
  rw [getObjectById_update h] at h'
  split at h'
  case isTrue heq =>
    split at h'
    case isTrue => cases h'
    case isFalse hlive => exact .inl ⟨heq, Bool.eq_false_iff.mpr hlive, Option.some.inj h'⟩
  case isFalse hne => exact .inr ⟨hne, h'⟩

theorem removed_update :
    (s.update id e o).removed =
      if o.session.deleted then s.removed ++ [e.after o] else s.removed := by
  rw [update]
  split <;> rfl

theorem mem_removed_update {e' : Entry} (h' : e' ∈ (s.update id e o).removed) :
    e' ∈ s.removed ∨ e.after o = e' ∧ o.session.deleted = true := by
  rw [removed_update] at h'
  split at h'
  case isTrue hdeleted =>
    exact (mem_append.mp h').imp_right fun hlast => ⟨(mem_singleton.mp hlast).symm, hdeleted⟩
  case isFalse => exact .inl h'

theorem created_update : (s.update id e o).created = s.created := by
  rw [update]
  split <;> rfl

/-- Nothing else of the loop's state changes, and the event is not reset. -/
structure SameLoop (s s' : Server) : Prop where
  phase : s'.phase = s.phase
  signalled : s'.signalled = s.signalled
  rekeying : s'.rekeying = s.rekeying
  event : s.subprocTerminated = true → s'.subprocTerminated = true

theorem SameLoop.refl (s : Server) : SameLoop s s := ⟨rfl, rfl, rfl, id⟩

theorem SameLoop.trans {s s'' : Server} (h : SameLoop s s') (h' : SameLoop s' s'') :
    SameLoop s s'' :=
  ⟨h'.phase.trans h.phase, h'.signalled.trans h.signalled, h'.rekeying.trans h.rekeying,
    fun hevent => h'.event (h.event hevent)⟩

theorem sameLoop_update (s : Server) (id : Nat) (e : Entry) (o : ChannelObject) :
    SameLoop s (s.update id e o) := by
  rw [update]
  split
  all_goals
    refine ⟨rfl, rfl, rfl, fun hevent => ?_⟩
    simp only [hevent, Bool.true_or]

/-- The end of the channel's thread is signalled, or nothing happens. -/
theorem wp_signal {E : Halt → Server → Prop} (hsame : Q () s)
    (hsignal : ∀ e channels, s.channels.getObjectById id = some e →
      SessionChannel.terminated e.object.session.subsystem = true →
      (∀ id', channels.getObjectById id' =
        if id' = id then some { e with signalled := true } else s.channels.getObjectById id') →
      Q () { s with channels := channels, subprocTerminated := true }) :
    wp (signal id) Q E s := by
  rw [signal, wp_modify]
  cases hget : s.channels.getObjectById id with
  | none => exact hsame
  | some e =>
    simp only
    split
    case isTrue hnew =>
      exact hsignal e _ hget (Bool.and_eq_true _ _ ▸ hnew).1
        (getObjectById_assign_of_some hget _)
    case isFalse => exact hsame

/-! ## §2 What every step keeps -/

section Keeps

variable {I E : Server → Prop} {m : List Nat → ServerM Unit}

/-- It does not matter for `I` where the round is. -/
def LoopFree (I : Server → Prop) : Prop :=
  ∀ s subprocTerminated signalled rekeying phase, I s →
    I { s with
      subprocTerminated := subprocTerminated
      signalled := signalled
      rekeying := rekeying
      phase := phase }

theorem forEach_keeps {event : ChannelObject.Event}
    (h : ∀ id, Keeps I (onObject id (ChannelObject.step event)) E) (ids : List Nat) :
    Keeps I (forEach event ids) E := by
  induction ids with
  | nil => exact .pure ()
  | cons id ids ih => exact (h id).bind fun _ => ih

theorem fillEventArray_keeps
    (h : ∀ id, Keeps I (onObject id (ChannelObject.step (.session .fillEventArray))) E)
    (mapSize : Nat) (ids : List Nat) : Keeps I (fillEventArray mapSize ids) E := by
  induction ids generalizing mapSize with
  | nil => exact .pure ()
  | cons id ids ih =>
    refine Keeps.get.bind fun s => ?_
    cases s.channels.getObjectById id with
    | none => exact ih mapSize
    | some e => exact .ite (.pure ()) ((h id).bind fun _ => ih _)

theorem unlessRekeying_keeps (h : ∀ ids, Keeps I (m ids) E) :
    Keeps I (unlessRekeying m) E :=
  Keeps.get.bind fun s => .ite (.pure ()) (h s.channels.ids)

theorem nextPhase_keeps (hloop : LoopFree I)
    (h : ∀ id event, Keeps I (onObject id (ChannelObject.step event)) E) (rekeying : Bool) :
    Keeps I (nextPhase rekeying) E := by
  have hphase : ∀ phase, Keeps I
      (modify fun s : Server => { s with phase := phase } : ServerM Unit) E :=
    fun phase => .modify fun s hs => hloop s _ _ _ phase hs
  refine Keeps.get.bind fun s => ?_
  cases s.phase with
  | dispatch => exact .modify fun s hs => hloop s _ _ _ _ hs
  | outputPoll =>
    exact (unlessRekeying_keeps (forEach_keeps fun id => h id _)).bind fun _ => hphase _
  | fillEventArray =>
    exact (unlessRekeying_keeps (fillEventArray_keeps (fun id => h id _) 0)).bind fun _ => hphase _
  | wait => exact .modify fun s hs => hloop s _ _ _ _ hs
  | exitMsg =>
    refine Keeps.get.bind fun s' => .ite ?_ (hphase _)
    exact (forEach_keeps (fun id => h id _) _).bind fun _ => hphase _
  | post =>
    exact (unlessRekeying_keeps (forEach_keeps fun id => h id _)).bind fun _ => hphase _

/-- **Rule for invariants.** It is enough to look at a call on one channel, at the creation of a
channel, and at the signal of a thread. -/
theorem step_keeps (hloop : LoopFree I)
    (hobject : ∀ id event, Keeps I (onObject id (ChannelObject.step event)) E)
    (hunknown : ∀ s, I s → E s) (hsignal : ∀ id, Keeps I (signal id) E) (event : Event)
    (hopen : ∀ ctype remoteId rwindow rmaxpack resolves bug,
      event = .channelOpen ctype remoteId rwindow rmaxpack resolves bug →
      Keeps I (serverInputChannelOpen ctype remoteId rwindow rmaxpack resolves bug) E) :
    Keeps I (step event) E := by
  cases event with
  | channelOpen ctype remoteId rwindow rmaxpack resolves bug =>
    exact Keeps.get.bind fun _ => .ite (hopen _ _ _ _ _ _ rfl) (.pure ())
  | message id m =>
    have hthrow : ∀ x : Halt, Keeps I (throw x : ServerM Unit) E := by
      intro x s hs
      rw [wp_throw]
      exact hunknown s hs
    have hno : Keeps I (m.unknown id) E := by
      cases m with
      | windowAdjust body => exact .pure ()
      | startSubsystem | otherRequest | data | eof | close => exact hthrow _
    refine Keeps.get.bind fun _ => .ite ?_ (.pure ())
    exact Keeps.get.bind fun _ => .ite hno (hobject _ _)
  | round rekeying => exact nextPhase_keeps hloop hobject rekeying
  | thread id t => exact hobject id _
  | signal id => exact hsignal id

end Keeps

/-! ## §3 What the channels keep under a condition -/

/-- The end of some thread is still to be looked at. -/
def pending (s : Server) : Bool :=
  s.subprocTerminated || (s.phase = .exitMsg && s.signalled)

/-- The condition, for every call that the step makes. -/
def Finds (C : ChannelObject.Event → Entry → Prop) : Event → Server → Prop
  | .channelOpen .., _ => True
  | .message id m, s => ∀ e ∈ s.channels.getObjectById id.toNat, C m.event e
  | .round _, s =>
    match s.phase with
    | .outputPoll => s.rekeying = false → ∀ e ∈ s.channels.toList, C (.session .outputPoll) e
    | .fillEventArray =>
      s.rekeying = false → ∀ e ∈ s.channels.toList, C (.session .fillEventArray) e
    | .exitMsg => s.signalled = true → ∀ e ∈ s.channels.toList, C (.session .exitMsg) e
    | .post => s.rekeying = false → ∀ e ∈ s.channels.toList, C (.session .post) e
    | .dispatch | .wait => True
  | .thread id t, s => ∀ e ∈ s.channels.getObjectById id, C t.event e
  | .signal _, _ => True

instance Finds.decidable (C : ChannelObject.Event → Entry → Prop) [∀ event e, Decidable (C event e)]
    (event : Event) (s : Server) : Decidable (Finds C event s) :=
  match event with
  | .channelOpen .. => isTrue trivial
  | .message id m => inferInstanceAs
      (Decidable (∀ e ∈ s.channels.getObjectById id.toNat, C m.event e))
  | .round _ =>
    match hphase : s.phase with
    | .dispatch => isTrue (by simp only [Finds, hphase])
    | .outputPoll => decidable_of_iff (s.rekeying = false →
        ∀ e ∈ s.channels.toList, C (.session .outputPoll) e) (by simp only [Finds, hphase])
    | .fillEventArray => decidable_of_iff (s.rekeying = false →
        ∀ e ∈ s.channels.toList, C (.session .fillEventArray) e) (by simp only [Finds, hphase])
    | .wait => isTrue (by simp only [Finds, hphase])
    | .exitMsg => decidable_of_iff (s.signalled = true →
        ∀ e ∈ s.channels.toList, C (.session .exitMsg) e) (by simp only [Finds, hphase])
    | .post => decidable_of_iff (s.rekeying = false →
        ∀ e ∈ s.channels.toList, C (.session .post) e) (by simp only [Finds, hphase])
  | .thread id t => inferInstanceAs (Decidable (∀ e ∈ s.channels.getObjectById id, C t.event e))
  | .signal _ => isTrue trivial

theorem Finds.imp {C D : ChannelObject.Event → Entry → Prop} {event : Event}
    (h : ∀ id e, s.channels.getObjectById id = some e → ∀ event, C event e → D event e)
    (hC : Finds C event s) : Finds D event s := by
  have hall : ∀ event : ChannelObject.Event, (∀ e ∈ s.channels.toList, C event e) →
      ∀ e ∈ s.channels.toList, D event e := by
    intro event hC e he
    obtain ⟨id, hget⟩ := mem_toList.mp he
    exact h id e hget event (hC e he)
  cases event with
  | channelOpen | signal => exact trivial
  | message id m => exact fun e he => h _ e he _ (hC e he)
  | thread id t => exact fun e he => h _ e he _ (hC e he)
  | round rekeying =>
    cases hphase : s.phase with
    | dispatch | wait => simp only [Finds, hphase]
    | outputPoll | fillEventArray | exitMsg | post =>
      simp only [Finds, hphase] at hC ⊢
      exact fun hno => hall _ (hC hno)

/-- What one channel has to keep: `J`, which may depend on whether the end of some thread is
still to be looked at, and `K` where the connection ends. -/
structure Rules (J : Bool → Entry → Prop) (K : Entry → Prop)
    (C : ChannelObject.Event → Entry → Prop) : Prop where
  step {pending : Bool} {event : ChannelObject.Event} {e : Entry} :
    J pending e → C event e → e.object.session.deleted = false →
    wp (ChannelObject.step event) (fun _ o => J pending (e.after o)) (fun _ o => K (e.after o))
      e.object
  -- after this all is looked at
  exitMsg {pending : Bool} {e : Entry} :
    J pending e → C (.session .exitMsg) e → e.object.session.deleted = false →
    wp (ChannelObject.step (.session .exitMsg)) (fun _ o => J false (e.after o))
      (fun _ o => K (e.after o)) e.object
  raise {pending : Bool} {e : Entry} : J pending e → J true e
  gone {pending : Bool} {e : Entry} : J pending e → e.object.session.deleted = true → J false e
  signal {pending : Bool} {e : Entry} : J pending e →
    SessionChannel.terminated e.object.session.subsystem = true →
    J true { e with signalled := true }
  safe {pending : Bool} {e : Entry} : J pending e → K e
  create (ctype : ChannelType) (number birth : Nat) (remoteId rwindow rmaxpack : UInt32) :
    let o := ChannelObject.createDerivation ctype (UInt32.ofNat number) remoteId rwindow rmaxpack
    let e : Entry :=
      { object := o, number := number, birth := birth, hadThread := o.session.subsystem.isSome }
    wp ChannelObject.confirmOpen
      (fun _ o' => J false (e.after o') ∧ o'.session.deleted = false) (fun _ _ => False) o

/-- All channels, those that were removed included -/
structure AllKeep (J : Bool → Entry → Prop) (s : Server) : Prop where
  live : ∀ id e, s.channels.getObjectById id = some e →
    J s.pending e ∧ e.object.session.deleted = false
  gone : ∀ e ∈ s.removed, J false e ∧ e.object.session.deleted = true

/-- The same where the connection ends -/
def AllSafe (K : Entry → Prop) (s : Server) : Prop :=
  (∀ id e, s.channels.getObjectById id = some e → K e) ∧
    ∀ e ∈ s.removed, K e ∧ e.object.session.deleted = true

variable {J : Bool → Entry → Prop} {K : Entry → Prop} {C : ChannelObject.Event → Entry → Prop}

variable (hR : Rules J K C)
include hR

theorem AllKeep.safe (hs : AllKeep J s) : AllSafe K s :=
  ⟨fun id e h => hR.safe (hs.live id e h).1, fun e h => ⟨hR.safe (hs.gone e h).1, (hs.gone e h).2⟩⟩

omit hR in
theorem SameLoop.pending {s : Server} (h : SameLoop s s') (hpending : s.pending = true) :
    s'.pending = true := by
  simp only [Server.pending, Bool.or_eq_true, Bool.and_eq_true, decide_eq_true_eq] at hpending ⊢
  rw [h.phase, h.signalled]
  exact hpending.imp_left h.event

theorem Rules.later {s : Server}
    (h : s.pending = true → s'.pending = true) (he : J s.pending e) : J s'.pending e := by
  cases hs' : s'.pending with
  | true => exact hR.raise he
  | false =>
    have hs : s.pending = false := Bool.eq_false_iff.mpr fun htrue => by
      cases hs'.symm.trans (h htrue)
    rwa [hs] at he

/-- In the middle of a loop: `I` for the channels to come, `J` for those that were visited. -/
structure Midway (I : Entry → Prop) (J : Entry → Prop) (gone : Entry → Prop) (ids : List Nat)
    (s : Server) : Prop where
  live : ∀ id e, s.channels.getObjectById id = some e →
    e.object.session.deleted = false ∧ (if id ∈ ids then I e else J e)
  gone : ∀ e ∈ s.removed, gone e ∧ e.object.session.deleted = true

section Loops

variable {I J' G : Entry → Prop} {event : ChannelObject.Event} {ids : List Nat}

omit hR

/-- What a visit makes of a channel; `G` is for those that are removed. -/
structure Visit (event : ChannelObject.Event) (I J' G K : Entry → Prop) : Prop where
  step : ∀ e, I e → e.object.session.deleted = false →
    wp (ChannelObject.step event) (fun _ o => J' (e.after o)) (fun _ o => K (e.after o)) e.object
  before : ∀ e, I e → K e
  after : ∀ e, J' e → K e
  removed : ∀ e, G e → K e
  gone : ∀ e, J' e → e.object.session.deleted = true → G e

theorem Midway.other (hs : Midway I J' G (id :: ids) s) {id' : Nat} (hne : id' ≠ id)
    (h : s.channels.getObjectById id' = some e) :
    e.object.session.deleted = false ∧ (if id' ∈ ids then I e else J' e) := by
  have he := hs.live id' e h
  simp only [mem_cons, hne, false_or] at he
  exact he

theorem Midway.pass (hs : Midway I J' G (id :: ids) s)
    (hnone : s.channels.getObjectById id = none) :
    Midway I J' G ids s := by
  refine ⟨fun id' e h => hs.other (fun heq => ?_) h, hs.gone⟩
  rw [heq, hnone] at h
  cases h

variable (hV : Visit event I J' G K)
include hV

/-- The channel at the head of the list is visited. -/
theorem onObject_midway (hid : id ∉ ids) (hs : Midway I J' G (id :: ids) s) :
    wp (onObject id (ChannelObject.step event))
      (fun _ s' => Midway I J' G ids s' ∧ SameLoop s s') (fun _ => AllSafe K) s := by
  refine wp_onObject (fun hnone => ⟨hs.pass hnone, .refl s⟩) fun e he => ?_
  obtain ⟨hlive, hIe⟩ := hs.live id e he
  rw [if_pos mem_cons_self] at hIe
  refine wp_mono (hV.step e hIe hlive)
    (fun _ o ho => ⟨⟨fun id' e' h' => ?_, fun e' h' => ?_⟩, sameLoop_update s id e o⟩)
    fun _ o ho => ⟨fun id' e' h' => ?_, fun e' h' => ?_⟩
  · rcases getObjectById_update_cases he h' with ⟨rfl, hlive', rfl⟩ | ⟨hne, h'⟩
    · rw [if_neg hid]
      exact ⟨hlive', ho⟩
    · exact hs.other hne h'
  · rcases mem_removed_update h' with h' | ⟨rfl, hdeleted⟩
    · exact hs.gone e' h'
    · exact ⟨hV.gone _ ho hdeleted, hdeleted⟩
  · rcases getObjectById_update_cases he h' with ⟨-, -, rfl⟩ | ⟨hne, h'⟩
    · exact ho
    · have hbefore := (hs.other hne h').2
      split at hbefore
      case isTrue => exact hV.before e' hbefore
      case isFalse => exact hV.after e' hbefore
  · rcases mem_removed_update h' with h' | ⟨rfl, hdeleted⟩
    · exact ⟨hV.removed e' (hs.gone e' h').1, (hs.gone e' h').2⟩
    · exact ⟨ho, hdeleted⟩

theorem forEach_midway (hids : ids.Nodup) (hs : Midway I J' G ids s) :
    wp (forEach event ids) (fun _ s' => Midway I J' G [] s' ∧ SameLoop s s')
      (fun _ => AllSafe K) s := by
  induction ids generalizing s with
  | nil =>
    rw [forEach, wp_pure]
    exact ⟨hs, .refl s⟩
  | cons id ids ih =>
    obtain ⟨hid, hrest⟩ := nodup_cons.mp hids
    rw [forEach]
    refine wp_seq (onObject_midway hV hid hs) ?_
    intro _ s1 h1
    refine wp_imp (ih hrest h1.1) fun _ s2 h2 => ⟨h2.1, h1.2.trans h2.2⟩

omit hV in
/-- The loop of `fill_event_array` may leave channels out. -/
theorem fillEventArray_midway (hV : Visit (.session .fillEventArray) I J' G K)
    (hIJ : ∀ e, I e → J' e) (hids : ids.Nodup) (mapSize : Nat) (hs : Midway I J' G ids s) :
    wp (fillEventArray mapSize ids) (fun _ s' => Midway I J' G [] s' ∧ SameLoop s s')
      (fun _ => AllSafe K) s := by
  induction ids generalizing s mapSize with
  | nil =>
    rw [fillEventArray, wp_pure]
    exact ⟨hs, .refl s⟩
  | cons id ids ih =>
    obtain ⟨hid, hrest⟩ := nodup_cons.mp hids
    rw [fillEventArray, wp_read]
    cases hget : s.channels.getObjectById id with
    | none => exact ih hrest mapSize (hs.pass hget)
    | some e =>
      rw [wp_ite, wp_pure, wp_bind]
      refine ⟨fun _ => ⟨⟨fun id' e' h' => ?_, hs.gone⟩, .refl s⟩, fun _ => ?_⟩
      · obtain ⟨hlive, he'⟩ := hs.live id' e' h'
        refine ⟨hlive, ?_⟩
        rw [if_neg not_mem_nil]
        split at he'
        case isTrue => exact hIJ e' he'
        case isFalse => exact he'
      · refine wp_imp (onObject_midway hV hid hs) ?_
        intro _ s1 h1
        exact wp_imp (ih hrest _ h1.1) fun _ s2 h2 => ⟨h2.1, h1.2.trans h2.2⟩

end Loops

omit hR in
/-- At the beginning of a loop over all channels -/
theorem AllKeep.midway (hs : AllKeep J s) {C' J' : Entry → Prop}
    (hC : ∀ e ∈ s.channels.toList, C' e) :
    Midway (fun e => J s.pending e ∧ C' e) J' (J false) s.channels.ids s where
  live id e h := by
    refine ⟨(hs.live id e h).2, ?_⟩
    rw [if_pos (mem_ids h)]
    exact ⟨(hs.live id e h).1, hC e (mem_toList.mpr ⟨id, h⟩)⟩
  gone := hs.gone

omit hR in
/-- At the end of such a loop, when the end of threads is as before or has been looked at -/
theorem Midway.allKeep {I : Entry → Prop} {q : Bool} (h : Midway I (J q) (J false) [] s)
    (hq : ∀ e, J q e → J s.pending e) : AllKeep J s where
  live id e he := by
    have hlive := h.live id e he
    rw [if_neg not_mem_nil] at hlive
    exact ⟨hq e hlive.2, hlive.1⟩
  gone := h.gone

theorem Rules.visit {p q : Bool} {event : ChannelObject.Event}
    (hstep : ∀ {e}, J p e → C event e → e.object.session.deleted = false →
      wp (ChannelObject.step event) (fun _ o => J q (e.after o)) (fun _ o => K (e.after o))
        e.object) : Visit event (fun e => J p e ∧ C event e) (J q) (J false) K :=
  ⟨fun _ he => hstep he.1 he.2, fun _ he => hR.safe he.1, fun _ => hR.safe, fun _ => hR.safe,
    fun _ => hR.gone⟩

theorem forEach_allKeep (hs : AllKeep J s) (event : ChannelObject.Event)
    (hC : ∀ e ∈ s.channels.toList, C event e) :
    wp (forEach event s.channels.ids) (fun _ s' => AllKeep J s' ∧ SameLoop s s')
      (fun _ => AllSafe K) s := by
  have hloop := forEach_midway (hR.visit hR.step) nodup_range (hs.midway hC)
  refine wp_imp hloop fun _ s' h' => ⟨h'.1.allKeep fun e => ?_, h'.2⟩
  exact hR.later h'.2.pending

theorem fillEventArray_allKeep (hs : AllKeep J s)
    (hC : ∀ e ∈ s.channels.toList, C (.session .fillEventArray) e) :
    wp (fillEventArray 0 s.channels.ids) (fun _ s' => AllKeep J s' ∧ SameLoop s s')
      (fun _ => AllSafe K) s := by
  have hloop := fillEventArray_midway (hR.visit hR.step) (fun _ he => he.1) nodup_range 0
    (hs.midway hC)
  refine wp_imp hloop fun _ s' h' => ⟨h'.1.allKeep fun e => ?_, h'.2⟩
  exact hR.later h'.2.pending

/-- The ends of all threads have been looked at. -/
theorem exitMsg_allKeep (hs : AllKeep J s)
    (hC : ∀ e ∈ s.channels.toList, C (.session .exitMsg) e) :
    wp (forEach (.session .exitMsg) s.channels.ids)
      (fun _ s' => (∀ id e, s'.channels.getObjectById id = some e →
        J false e ∧ e.object.session.deleted = false) ∧
        ∀ e ∈ s'.removed, J false e ∧ e.object.session.deleted = true)
      (fun _ => AllSafe K) s := by
  have hloop := forEach_midway (hR.visit hR.exitMsg) nodup_range (hs.midway hC)
  refine wp_imp hloop fun _ s' h' => ⟨fun id e he => ?_, h'.1.gone⟩
  have hlive := h'.1.live id e he
  rw [if_neg not_mem_nil] at hlive
  exact ⟨hlive.2, hlive.1⟩

theorem onObject_allKeep (hs : AllKeep J s) (id : Nat)
    (event : ChannelObject.Event) (hC : ∀ e ∈ s.channels.getObjectById id, C event e) :
    wp (onObject id (ChannelObject.step event)) (fun _ => AllKeep J) (fun _ => AllSafe K) s := by
  have hmid : Midway (fun e => J s.pending e ∧ C event e) (J s.pending) (J false) [id] s := by
    refine ⟨fun id' e' h' => ⟨(hs.live id' e' h').2, ?_⟩, hs.gone⟩
    split
    case isTrue heq =>
      rw [mem_singleton] at heq
      exact ⟨(hs.live id' e' h').1, hC e' (heq ▸ h')⟩
    case isFalse => exact (hs.live id' e' h').1
  have hone := onObject_midway (hR.visit hR.step) not_mem_nil hmid
  refine wp_imp hone fun _ s' h' => h'.1.allKeep fun e => ?_
  exact hR.later h'.2.pending

theorem AllKeep.goOn {s : Server} (hs : AllKeep J s)
    (hchannels : s'.channels = s.channels) (hremoved : s'.removed = s.removed)
    (hpending : s.pending = true → s'.pending = true) : AllKeep J s' where
  live id e h := by
    rw [hchannels] at h
    exact ⟨hR.later hpending (hs.live id e h).1, (hs.live id e h).2⟩
  gone e h := hs.gone e (hremoved ▸ h)

/-- From one phase, not that of `SendExitMsg`, to the next -/
theorem AllKeep.setPhase (hs : AllKeep J s) {before : Phase}
    (hbefore : s.phase = before) (hnot : before ≠ .exitMsg) (phase : Phase) :
    AllKeep J { s with phase := phase } := by
  refine hs.goOn hR rfl rfl fun hpending => ?_
  have hphase : decide (s.phase = .exitMsg) = false := decide_eq_false (hbefore ▸ hnot)
  rw [pending, hphase, Bool.false_and, Bool.or_false] at hpending
  rw [pending, hpending, Bool.true_or]

theorem nextPhase_allKeep (hs : AllKeep J s) (rekeying : Bool)
    (hC : Finds C (.round rekeying) s) :
    wp (nextPhase rekeying) (fun _ => AllKeep J) (fun _ => AllSafe K) s := by
  rw [nextPhase, wp_read]
  -- a loop over all channels, and the next phase
  have hloop : ∀ {m : List Nat → ServerM Unit} (phase : Phase), s.phase ≠ .exitMsg →
      (s.rekeying = false → wp (m s.channels.ids) (fun _ s' => AllKeep J s' ∧ SameLoop s s')
        (fun _ => AllSafe K) s) →
      wp (do
        unlessRekeying m
        modify fun s => { s with phase := phase }) (fun _ => AllKeep J) (fun _ => AllSafe K) s := by
    intro m phase hnot hm
    have hkeeps : wp (unlessRekeying m) (fun _ s' => AllKeep J s' ∧ SameLoop s s')
        (fun _ => AllSafe K) s := by
      rw [unlessRekeying, wp_read, wp_ite, wp_pure]
      exact ⟨fun _ => ⟨hs, .refl s⟩, fun hnot => hm (Bool.eq_false_iff.mpr hnot)⟩
    refine wp_seq hkeeps fun _ s1 h1 => ?_
    rw [wp_modify]
    exact h1.1.setPhase hR h1.2.phase hnot phase
  cases hphase : s.phase with
  | dispatch =>
    rw [wp_modify]
    have hnext := hs.setPhase hR hphase (by decide) .outputPoll
    exact hnext.goOn hR rfl rfl id
  | outputPoll =>
    simp only [Finds, hphase] at hC
    exact hloop _ (by rw [hphase]; decide) fun hno => forEach_allKeep hR hs _ (hC hno)
  | fillEventArray =>
    simp only [Finds, hphase] at hC
    exact hloop _ (by rw [hphase]; decide) fun hno => fillEventArray_allKeep hR hs (hC hno)
  | wait =>
    rw [wp_modify]
    refine hs.goOn hR rfl rfl fun hpending => ?_
    rw [pending, hphase] at hpending
    simpa [pending] using hpending
  | exitMsg =>
    simp only [Finds, hphase] at hC
    rw [wp_read, wp_ite, wp_bind, wp_modify]
    refine ⟨fun hsignalled => ?_, fun hnot => ?_⟩
    · refine wp_imp (exitMsg_allKeep hR hs (hC hsignalled)) fun _ s1 h1 => ?_
      rw [wp_modify]
      have hany : ∀ q e, J false e → J q e := by
        intro q e he
        cases q with
        | false => exact he
        | true => exact hR.raise he
      exact ⟨fun id e he => ⟨hany _ e (h1.1 id e he).1, (h1.1 id e he).2⟩, h1.2⟩
    · refine hs.goOn hR rfl rfl fun hpending => ?_
      have hno : s.signalled = false := Bool.eq_false_iff.mpr hnot
      rw [pending, hno, Bool.and_false, Bool.or_false] at hpending
      rw [pending, hpending, Bool.true_or]
  | post =>
    simp only [Finds, hphase] at hC
    exact hloop _ (by rw [hphase]; decide) fun hno => forEach_allKeep hR hs _ (hC hno)

theorem signal_allKeep (hs : AllKeep J s) (id : Nat) :
    wp (signal id) (fun _ => AllKeep J) (fun _ => AllSafe K) s := by
  refine wp_signal hs fun e channels hget hended hassign => ⟨fun id' e' h' => ?_, hs.gone⟩
  rw [hassign] at h'
  simp only [pending, Bool.true_or]
  split at h'
  case isTrue =>
    cases h'
    exact ⟨hR.signal (hs.live id e hget).1 hended, (hs.live id e hget).2⟩
  case isFalse => exact ⟨hR.raise (hs.live id' e' h').1, (hs.live id' e' h').2⟩

theorem serverInputChannelOpen_allKeep (hs : AllKeep J s)
    (ctype : Option ChannelType) (remoteId rwindow rmaxpack : UInt32) (resolves bug : Bool) :
    wp (serverInputChannelOpen ctype remoteId rwindow rmaxpack resolves bug)
      (fun _ => AllKeep J) (fun _ => AllSafe K) s := by
  cases ctype with
  | none =>
    rw [serverInputChannelOpen, openFailure, wp_zoom]
    have hcon : ∀ c, AllKeep J { s with con := c } := fun c => hs.goOn hR rfl rfl id
    exact wp_intro (fun _ c _ => hcon c) fun _ c _ => (hcon c).safe hR
  | some ctype =>
    rw [serverInputChannelOpen, wp_ite, wp_throw, wp_read, wp_write]
    refine ⟨fun _ => hs.safe hR, fun _ => ?_⟩
    have hget := fun e => s.channels.getObjectById_createObject e
    have hcreated := fun e => (hget e _).trans (if_pos rfl)
    refine wp_onObject_some (hcreated _) ?_
    refine wp_mono_total (hR.create ctype s.channels.firstUnusedObjectId s.created remoteId rwindow
      rmaxpack) fun _ o ho => ?_
    refine ⟨fun id' e' h' => ?_, fun e' h' => ?_⟩
    · rcases getObjectById_update_cases (hcreated _) h' with ⟨-, -, rfl⟩ | ⟨hne, h'⟩
      · refine ⟨?_, ho.2⟩
        cases Server.pending _ with
        | false => exact ho.1
        | true => exact hR.raise ho.1
      · rw [hget, if_neg hne] at h'
        refine ⟨hR.later (s := s) (fun hpending => ?_) (hs.live id' e' h').1, (hs.live id' e' h').2⟩
        exact (sameLoop_update _ _ _ o).pending hpending
    · rcases mem_removed_update h' with h' | ⟨-, hdeleted⟩
      · exact hs.gone e' h'
      · cases ho.2.symm.trans hdeleted

/-- **Rule for channels.** What one channel keeps, all channels of the connection keep, those that
were removed included. -/
theorem step_allKeep (event : Event) (hs : AllKeep J s) (hC : Finds C event s) :
    wp (step event) (fun _ => AllKeep J) (fun _ => AllSafe K) s := by
  have hdispatching : ∀ {m : ServerM Unit}, wp m (fun _ => AllKeep J) (fun _ => AllSafe K) s →
      wp (whenDispatching m) (fun _ => AllKeep J) (fun _ => AllSafe K) s := by
    intro m hm
    rw [whenDispatching, wp_read, wp_ite, wp_pure]
    exact ⟨fun _ => hm, fun _ => hs⟩
  cases event with
  | channelOpen ctype remoteId rwindow rmaxpack resolves bug =>
    exact hdispatching (serverInputChannelOpen_allKeep hR hs ..)
  | message id m =>
    refine hdispatching ?_
    have hsafe := hs.safe hR
    have hunknown : wp (m.unknown id) (fun _ => AllKeep J) (fun _ => AllSafe K) s := by
      cases m with
      | windowAdjust body =>
        rw [Message.unknown, wp_pure]
        exact hs
      | startSubsystem | otherRequest | data | eof | close =>
        rw [Message.unknown, wp_throw]
        exact hsafe
    rw [dispatch, wp_read, wp_ite]
    exact ⟨fun _ => hunknown, fun _ => onObject_allKeep hR hs _ _ hC⟩
  | round rekeying => exact nextPhase_allKeep hR hs rekeying hC
  | thread id t => exact onObject_allKeep hR hs _ _ hC
  | signal id => exact signal_allKeep hR hs id

omit hR

theorem init_allKeep : AllKeep J {} where
  live id e h := by cases (getObjectById_empty id).symm.trans h
  gone e h := by cases h

end Server

end Shiesh.Channels
