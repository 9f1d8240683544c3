import Shiesh.Channels.LifeObjects

/-!
# The Declared State Machine

`Channel.cpp` lists the transitions of the two halves of a channel, but the states are assigned
without looking at the lists. Two of the assignments can take the input half from "closed" back to
"waitDrain": the one at the end of the stream to the subsystem in `fill_event_array`, and the one in
`subproc_terminated_notify`.

Each function assigns the state of a half at most once, the output half in `rcvd_ieof` apart, which
goes from "open" by "waitDrain" to "closed". So the states before and after a step tell the
transitions.
-/

namespace Shiesh.Channels

open Shiesh.Lib Life

/-- `Channel::allInputTrans` -/
def allInputTrans : List (ChanState × ChanState) :=
  [(.open, .closed), (.open, .waitDrain), (.waitDrain, .closed)]

/-- `Channel::allOutputTrans` -/
def allOutputTrans : List (ChanState × ChanState) :=
  [(.open, .closed), (.open, .waitDrain), (.waitDrain, .closed)]

/-- No change, or a transition in the list -/
def Listed (trans : List (ChanState × ChanState)) (a b : ChanState) : Prop :=
  a = b ∨ (a, b) ∈ trans

instance (trans : List (ChanState × ChanState)) (a b : ChanState) : Decidable (Listed trans a b) :=
  inferInstanceAs (Decidable (_ ∨ _))

/-- Every state may become "closed". -/
theorem listed_closed (a : ChanState) :
    Listed allInputTrans a .closed ∧ Listed allOutputTrans a .closed := by
  cases a <;> decide

/-- Every state but "closed" may become "waitDrain". -/
theorem listed_drains (a : ChanState) :
    (Listed allInputTrans a .waitDrain ↔ a ≠ .closed) ∧
      (Listed allOutputTrans a .waitDrain ↔ a ≠ .closed) := by
  cases a <;> decide

theorem listed_refl (trans : List (ChanState × ChanState)) (a : ChanState) : Listed trans a a :=
  .inl rfl

/-! ## The table of the life of a channel -/

namespace Life

variable {l l' : Life} {event : ChannelObject.Event}

/-- Both halves make listed transitions. -/
structure Obeys (l l' : Life) : Prop where
  input : Listed allInputTrans l.input l'.input
  output : Listed allOutputTrans l.output l'.output

/-- The input half is open as long as the output half is. -/
def Paired (l : Life) : Prop := l.output = .open → l.input = .open

theorem obeys_same (hinput : l'.input = l.input) (houtput : l'.output = l.output) : Obeys l l' :=
  ⟨.inl hinput.symm, .inl houtput.symm⟩

theorem Paired.same (h : l.Paired) (hinput : l'.input = l.input) (houtput : l'.output = l.output) :
    l'.Paired := by
  intro hopen
  rw [hinput]
  exact h (houtput.symm.trans hopen)

theorem paired_of_refused (h : l.output ≠ .open) : l.Paired := fun hopen => absurd hopen h

theorem collect_input (l : Life) : l.collect.input = l.input := by
  rw [collect]
  split <;> (try split) <;> (try split) <;> rfl

theorem confirm_input (l : Life) (p : Packet) : (l.confirm p).input = l.input := by
  rw [confirm]
  split <;> rfl

theorem shut_input (l : Life) : l.shut.input = .closed := by
  rw [shut]

theorem peerEof_obeys (h : l.PeerEof l') (hpaired : l.Paired) : l'.Paired ∧ Obeys l l' := by
  rw [PeerEof] at h
  split at h
  case isTrue hopen =>
    have hinput : l.input ≠ .closed := by
      rw [hpaired hopen]
      decide
    have houtput : l.output ≠ .closed := by
      rw [hopen]
      decide
    rcases h with rfl | rfl
    · exact ⟨paired_of_refused (fun h => by cases h), listed_refl _ _,
        (listed_drains l.output).2.mpr houtput⟩
    · exact ⟨paired_of_refused (fun h => by cases h), (listed_drains l.input).1.mpr hinput,
        (listed_closed l.output).2⟩
  case isFalse =>
    rw [h]
    exact ⟨hpaired, obeys_same rfl rfl⟩

theorem peerClose_obeys (l : Life) : Obeys l l.peerClose := by
  have hshut : ∀ l : Life, l.shut.output = l.output := by
    intro l
    rw [shut]
    split <;> rfl
  rw [peerClose]
  split
  case isTrue => exact ⟨(listed_closed l.input).1, (listed_closed l.output).2⟩
  case isFalse =>
    refine ⟨?_, ?_⟩
    · rw [shut_input]
      exact (listed_closed l.input).1
    · rw [hshut, refuse]
      split
      case isTrue hopen =>
        refine (listed_drains l.output).2.mpr fun hclosed => ?_
        cases hopen.symm.trans hclosed
      case isFalse => exact listed_refl _ _

theorem poll_obeys (h : l.Poll l') (hpaired : l.Paired) : l'.Paired ∧ Obeys l l' := by
  rw [Poll] at h
  split at h
  case isTrue =>
    rw [h]
    exact ⟨hpaired, obeys_same rfl rfl⟩
  case isFalse =>
    obtain ⟨l₁, hsend, rfl⟩ := h
    have hsent : l₁.input = l.input ∧ l₁.output = l.output := by
      rcases hsend with rfl | ⟨-, -, p, held, -, rfl⟩ <;> exact ⟨rfl, rfl⟩
    split
    case isTrue hdrained =>
      have hfinish : l₁.finish.input = .closed ∧ l₁.finish.output = l.output := by
        rw [finish]
        split <;> exact ⟨rfl, hsent.2⟩
      -- the input half is draining, so the output half is not open
      have hrefused : l.output ≠ .open := by
        intro hopen
        have hinput := hsent.1.trans (hpaired hopen)
        rw [hdrained.1] at hinput
        cases hinput
      refine ⟨paired_of_refused (by rw [hfinish.2]; exact hrefused), ?_, .inl hfinish.2.symm⟩
      rw [hfinish.1]
      exact (listed_closed l.input).1
    case isFalse => exact ⟨hpaired.same hsent.1 hsent.2, obeys_same hsent.1 hsent.2⟩

/-- **Steps and the lists.** `fill_event_array` and `subproc_terminated_notify` apart, the lists are
obeyed. -/
theorem Step.obeys (h : Step event l l') (hpaired : l.Paired) :
    l'.Paired ∧
      (event ≠ .session .fillEventArray → event ≠ .session .exitMsg → Obeys l l') := by
  have hsame : l'.input = l.input → l'.output = l.output → l'.Paired ∧
      (event ≠ .session .fillEventArray → event ≠ .session .exitMsg → Obeys l l') :=
    fun hinput houtput => ⟨hpaired.same hinput houtput, fun _ _ => obeys_same hinput houtput⟩
  have hrequest : l.Request l' → l'.input = l.input ∧ l'.output = l.output := by
    rintro ⟨ps, -, rfl | ⟨-, -, opened, rfl⟩⟩ <;> exact ⟨rfl, rfl⟩
  have hwork : l.Work l' → l'.input = l.input ∧ l'.output = l.output := by
    rintro (rfl | ⟨-, rfl | rfl⟩) <;> exact ⟨rfl, rfl⟩
  cases event with
  | startSubsystem sftp reply => exact hsame (hrequest h).1 (hrequest h).2
  | otherRequest created reply =>
    obtain ⟨ps, -, rfl⟩ := h
    exact hsame rfl rfl
  | connected =>
    rcases h with rfl | ⟨-, rfl⟩
    · exact hsame rfl rfl
    · exact hsame rfl rfl
  | session event =>
    cases event with
    | request reply => exact hsame (hrequest h).1 (hrequest h).2
    | data body => exact hsame (congrArg input h) (congrArg output h)
    | eof body =>
      obtain ⟨hnext, hobeys⟩ := peerEof_obeys h hpaired
      exact ⟨hnext, fun _ _ => hobeys⟩
    | close body =>
      rw [h]
      exact ⟨paired_of_refused l.peerClose_output, fun _ _ => l.peerClose_obeys⟩
    | windowAdjust body => exact hsame (congrArg input h) (congrArg output h)
    | outputPoll =>
      obtain ⟨hnext, hobeys⟩ := poll_obeys h hpaired
      exact ⟨hnext, fun _ _ => hobeys⟩
    | fillEventArray =>
      obtain ⟨l₁, hl₁, rfl⟩ := h
      refine ⟨?_, fun hnot => absurd rfl hnot⟩
      have hpaired₁ : l₁.Paired := by
        rcases hl₁ with rfl | ⟨-, rfl⟩
        · exact hpaired
        · exact paired_of_refused (fun h => by cases h)
      exact hpaired₁.same l₁.collect_input l₁.collect_halves.1
    | post =>
      obtain ⟨held, ps, p, -, -, -, rfl⟩ := h
      exact hsame ((confirm_input _ p).trans (collect_input _))
        ((confirm_halves _ p).1.trans (collect_halves _).1)
    | exitMsg =>
      refine ⟨?_, fun _ hnot => absurd rfl hnot⟩
      have hexit : l' = if l.thread = .terminated then l.notify else l := h
      split at hexit
      case isTrue =>
        rw [hexit]
        exact paired_of_refused (fun h => by cases h)
      case isFalse =>
        rw [hexit]
        exact hpaired
    | callGet | getStep | otherEvent | workerPut | workerExit =>
      exact hsame (hwork h).1 (hwork h).2

/-- Only the end of a stream, and of the subsystem, can make the input half drain. -/
theorem Step.input (h : Step event l l') (heof : ∀ body, event ≠ .session (.eof body))
    (hfill : event ≠ .session .fillEventArray) (hexit : event ≠ .session .exitMsg) :
    l'.input = l.input ∨ l'.input = .closed := by
  have hrequest : l.Request l' → l'.input = l.input := by
    rintro ⟨ps, -, rfl | ⟨-, -, opened, rfl⟩⟩ <;> rfl
  have hwork : l.Work l' → l'.input = l.input := by
    rintro (rfl | ⟨-, rfl | rfl⟩) <;> rfl
  cases event with
  | startSubsystem sftp reply => exact .inl (hrequest h)
  | otherRequest created reply =>
    obtain ⟨ps, -, rfl⟩ := h
    exact .inl rfl
  | connected => rcases h with rfl | ⟨-, rfl⟩ <;> exact .inl rfl
  | session event =>
    cases event with
    | request reply => exact .inl (hrequest h)
    | data body => exact .inl (congrArg input h)
    | eof body => exact absurd rfl (heof body)
    | close body =>
      rw [h, peerClose]
      split
      case isTrue => exact .inr rfl
      case isFalse => exact .inr (shut_input _)
    | windowAdjust body => exact .inl (congrArg input h)
    | outputPoll =>
      have hpoll : l.Poll l' := h
      rw [Poll] at hpoll
      split at hpoll
      case isTrue => exact .inl (congrArg input hpoll)
      case isFalse =>
        obtain ⟨l₁, hsend, rfl⟩ := hpoll
        have hsent : l₁.input = l.input := by
          rcases hsend with rfl | ⟨-, -, p, held, -, rfl⟩ <;> rfl
        split
        case isTrue => exact .inr rfl
        case isFalse => exact .inl hsent
    | fillEventArray => exact absurd rfl hfill
    | post =>
      obtain ⟨held, ps, p, -, -, -, rfl⟩ := h
      exact .inl ((confirm_input _ p).trans (collect_input _))
    | exitMsg => exact absurd rfl hexit
    | callGet | getStep | otherEvent | workerPut | workerExit => exact .inl (hwork h)

/-- When a stream is ended, the lists are obeyed unless the input half was closed. -/
theorem drain_obeys_iff (hinput : l'.input = .waitDrain) (houtput : l'.output = .closed) :
    Obeys l l' ↔ l.input ≠ .closed := by
  rw [← (listed_drains l.input).1, ← hinput]
  constructor
  · exact Obeys.input
  · intro h
    refine ⟨h, ?_⟩
    rw [houtput]
    exact (listed_closed l.output).2

end Life

/-! ## Runs -/

namespace ChannelObject

/-- The halves of the channel make listed transitions. -/
structure Obeys (o o' : ChannelObject) : Prop where
  input : Listed allInputTrans o.session.base.currentInputState o'.session.base.currentInputState
  output : Listed allOutputTrans o.session.base.currentOutputState
    o'.session.base.currentOutputState

variable {o o' : ChannelObject}

theorem obeys_life : Obeys o o' ↔ Life.Obeys o.life o'.life :=
  ⟨fun h => ⟨h.input, h.output⟩, fun h => ⟨h.input, h.output⟩⟩

/-- What `fill_event_array` and `subproc_terminated_notify` do not check. -/
def halfGuard (event : Event) (o : ChannelObject) : Bool :=
  let c := o.session.base
  match event with
  | .session .fillEventArray => o.session.deleted || c.currentOutputState ≠ .waitDrain ||
      c.descending.len ≠ 0 || c.currentInputState ≠ .closed
  | .session .exitMsg => o.session.deleted || !SessionChannel.terminated o.session.subsystem ||
      c.currentInputState ≠ .closed
  | _ => true

structure Orderly (o : ChannelObject) : Prop where
  sound : o.Sound
  paired : o.life.Paired

theorem step_orderly (event : Event) : Keeps Orderly (step event) (fun _ => True) := by
  intro o ho
  refine wp_weaken (step_lives ho.sound event) fun _ o' ho' => ?_
  split at ho'
  case isTrue =>
    rw [ho']
    exact ho
  case isFalse => exact ⟨ho'.1, (ho'.2.obeys ho.paired).1⟩

theorem step_fill_life (ho : o.Sound) (hlive : o.session.deleted = false) :
    wp (step (.session .fillEventArray))
      (fun _ o' => o'.life = (if o.life.output = .waitDrain ∧ o.session.base.descending.len = 0 then
        { o.life with output := .closed, input := .waitDrain } else o.life).collect)
      any o := by
  rw [step_session hlive rfl, SessionChannel.stepEvent]
  refine wp_seq_any (fillEventArray_drains ho.at) fun _ s' hs' => ?_
  rw [wp_pure]
  exact hs'.life

theorem step_eof_life (ho : o.Sound) (hlive : o.session.deleted = false) (body : Bytes) :
    wp (step (.session (.eof body)))
      (fun _ o' => o'.life = if o.life.output = .open then
        (if o.session.base.descending.len = 0 then
            { o.life with output := .closed, input := .waitDrain }
          else { o.life with output := .waitDrain })
        else o.life)
      any o := by
  rw [step_session hlive rfl, SessionChannel.stepEvent, wp_bind, wp_received]
  refine wp_weaken (channelInputEof_drains (l := o.life) ⟨ho.counted, rfl⟩) fun _ s' hs' => ?_
  exact hs'.life

theorem fill_obeys (ho : o.Orderly) (hlive : o.session.deleted = false)
    (h : step (.session .fillEventArray) o = .ok () o') :
    Obeys o o' ↔ halfGuard (.session .fillEventArray) o = true := by
  have hfill := step_fill_life ho.sound hlive
  rw [wp_of_ok h] at hfill
  rw [obeys_life, hfill]
  by_cases hdrain : o.life.output = .waitDrain ∧ o.session.base.descending.len = 0
  · rw [if_pos hdrain, drain_obeys_iff (collect_input _) (collect_halves _).1]
    obtain ⟨houtput, hempty⟩ := hdrain
    have houtput' : o.session.base.currentOutputState = .waitDrain := houtput
    simp [halfGuard, hlive, houtput', hempty, life, lifeOf]
  · rw [if_neg hdrain]
    refine iff_of_true (obeys_same (collect_input _) (collect_halves _).1) ?_
    rcases not_and_or.mp hdrain with houtput | hmore
    · have houtput' : o.session.base.currentOutputState ≠ .waitDrain := houtput
      simp [halfGuard, houtput']
    · simp [halfGuard, hmore]

theorem exit_obeys (ho : o.Orderly) (hlive : o.session.deleted = false)
    (h : step (.session .exitMsg) o = .ok () o') :
    Obeys o o' ↔ halfGuard (.session .exitMsg) o = true := by
  have hexit := (wp_of_ok h).mp (step_lives ho.sound (.session .exitMsg))
  rw [hlive, if_neg (by decide)] at hexit
  rw [obeys_life, hexit.2]
  by_cases hthread : o.life.thread = .terminated
  · rw [if_pos hthread, drain_obeys_iff rfl rfl]
    have hterminated := o.thread_terminated.mp hthread
    simp [halfGuard, hlive, hterminated, life, lifeOf]
  · rw [if_neg hthread]
    refine iff_of_true (obeys_same rfl rfl) ?_
    have hruns : SessionChannel.terminated o.session.subsystem = false := by
      rw [← Bool.not_eq_true, ← o.thread_terminated]
      exact hthread
    simp [halfGuard, hruns]

/-- **The lists are obeyed** by a step from any state that a channel reaches if and only if the step
does not end the input half a second time: neither `fill_event_array`, when it ends the stream to
the subsystem, nor `subproc_terminated_notify` finds the input half closed. -/
theorem transitions_listed (ctype : ChannelType) (self remoteId rwindow rmaxpack : UInt32)
    (events : List Event) (event : Event) (o o' : ChannelObject)
    (h : runAll step events (createDerivation ctype self remoteId rwindow rmaxpack) = .ok () o)
    (hstep : step event o = .ok () o') : Obeys o o' ↔ halfGuard event o = true := by
  have hstart : (createDerivation ctype self remoteId rwindow rmaxpack).Orderly := by
    refine ⟨createDerivation_sound .., fun _ => ?_⟩
    cases ctype <;> rfl
  have ho : o.Orderly := (wp_of_ok h).mp (Keeps.runAll step_orderly events _ hstart)
  have hlives := (wp_of_ok hstep).mp (step_lives ho.sound event)
  cases hdeleted : o.session.deleted with
  | true =>
    rw [hdeleted, if_pos rfl] at hlives
    rw [hlives]
    refine iff_of_true ⟨listed_refl _ _, listed_refl _ _⟩ ?_
    unfold halfGuard
    split <;> simp [hdeleted]
  | false =>
    rw [hdeleted, if_neg (by decide)] at hlives
    by_cases hfill : event = .session .fillEventArray
    · subst hfill
      exact fill_obeys ho hdeleted hstep
    · by_cases hexit : event = .session .exitMsg
      · subst hexit
        exact exit_obeys ho hdeleted hstep
      · refine iff_of_true (obeys_life.mpr ((hlives.2.obeys ho.paired).2 hfill hexit)) ?_
        unfold halfGuard
        split
        case h_1 => exact absurd rfl hfill
        case h_2 => exact absurd rfl hexit
        case h_3 => rfl

-- the shell's end is reported to a client that has sent EOF: the input half is draining already
theorem transitions_listed_exit :
    let events : List Event :=
      [.startSubsystem false true, .session (.eof []), .session .workerExit]
    let o := endState (runAll step events) (createDerivation .session 1 7 100 100)
    let o' := endState (step (.session .exitMsg)) o
    o.session.base.currentInputState = .waitDrain ∧ Obeys o o' := by
  intro events o o'
  refine ⟨by decide +kernel, ?_⟩
  exact (transitions_listed .session 1 7 100 100 events (.session .exitMsg) o o'
    (ok_endState (by decide +kernel)) (ok_endState (by decide +kernel))).mpr (by decide +kernel)

/-- The client closes a session with a running shell: the input half is closed at once, and drains
again in the next round. -/
theorem closed_left :
    let events : List Event := [.startSubsystem false true, .session (.close [])]
    let o := endState (runAll step events) (createDerivation .session 1 7 100 100)
    let o' := endState (step (.session .fillEventArray)) o
    runAll step events (createDerivation .session 1 7 100 100) = .ok () o ∧
      step (.session .fillEventArray) o = .ok () o' ∧
      o.session.base.currentInputState = .closed ∧
      o'.session.base.currentInputState = .waitDrain ∧ ¬ Obeys o o' := by
  intro events o o'
  have hclosed : o.session.base.currentInputState = .closed := by decide +kernel
  have hdrains : o'.session.base.currentInputState = .waitDrain := by decide +kernel
  refine ⟨ok_endState (by decide +kernel), ok_endState (by decide +kernel), hclosed, hdrains, ?_⟩
  intro h
  have hlisted := h.input
  rw [hclosed, hdrains] at hlisted
  exact absurd hlisted (by decide)

end ChannelObject

end Shiesh.Channels
