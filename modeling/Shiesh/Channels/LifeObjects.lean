import Shiesh.Channels.LifeFunctions

/-!
# Channel Objects Live by the Table

Every step of a channel object, of whatever class, is a step of the table `Life.Step`. A step
that throws ends the connection; it has sent nothing before but credit and the CLOSE of a channel
that could not be collected.
-/

namespace Shiesh.Channels

open Shiesh.Lib SessionChannel Ssh2Msg

namespace ChannelObject

def life (o : ChannelObject) : Life := lifeOf o.isConnecting o.session

/-- Only a `TCPClientChannel` delays its reply. -/
structure Sound (o : ChannelObject) : Prop where
  counted : Counted o.session.toChannel
  delayed : o.cls ≠ .tcpClient → o.isConnecting = false

/-- The object is sound, and `P` is true of its life. -/
def Lives (P : Life → Prop) (o : ChannelObject) : Prop := o.Sound ∧ P o.life

def Stops (o o' : ChannelObject) : Prop := Channels.Stops o.life o'.session

theorem thread_terminated (o : ChannelObject) :
    o.life.thread = .terminated ↔ terminated o.session.subsystem = true := by
  cases hsub : o.session.subsystem with
  | none => simp [life, lifeOf, hsub, threadOf, terminated]
  | some w =>
    by_cases hpc : w.pc = .terminated <;>
      simp [life, lifeOf, hsub, threadOf, terminated, hpc]

variable {o : ChannelObject} {P : Life → Prop}

variable (ho : o.Sound)
include ho

theorem Sound.at : At o.isConnecting o.life o.session := ⟨ho.counted, rfl⟩

variable {α : Type} {E : Halt → ChannelObject → Prop} {k : Bool} {l l' : Life} {s : SessionChannel}
  (event : Event) {m : SessionM α}

theorem onSession_stops
    (h : wp m (fun _ s' => ∃ l', P l' ∧ At o.isConnecting l' s') (fun _ => Channels.Stops o.life)
      o.session) : wp (onSession m) (fun _ => Lives P) (fun _ => o.Stops) o := by
  rw [onSession, wp_zoom]
  refine wp_imp h fun _ s' hs' => ?_
  obtain ⟨l', hl', hcount, hlife⟩ := hs'
  refine ⟨⟨hcount, ho.delayed⟩, ?_⟩
  have hnext : ({ o with session := s' } : ChannelObject).life = l' := hlife
  rw [hnext]
  exact hl'

theorem onSession_lives
    (h : wp m (fun _ s' => ∃ l', P l' ∧ At o.isConnecting l' s') (fun _ => Silent o.life)
      o.session) : wp (onSession m) (fun _ => Lives P) (fun _ => o.Stops) o :=
  onSession_stops ho (wp_mono h (fun _ _ h => h) fun _ _ h => h.stops)

/-- A function that leaves the life as it is -/
theorem onSession_still
    (h : ∀ l, Keeps (At o.isConnecting l) m (Silent l)) :
    wp (onSession m) (fun _ => Lives (· = o.life)) (fun _ => o.Stops) o := by
  refine onSession_lives ho ?_
  exact wp_imp (h _ _ ho.at) fun _ _ hs' => ⟨_, rfl, hs'⟩

/-- OPEN_CONFIRMATION is sent, and nothing else happens. -/
theorem openConfirmation_lives {Q : Unit → ChannelObject → Prop}
    (hQ : ∀ p o', p.type = channelOpenConfirmation → o'.cls = o.cls → o'.Sound →
      o'.life = o.life.say [p] → Q () o') : wp openConfirmation Q E o := by
  have hbody := (Fits.putInt o.self).bind ((Fits.putInt o.session.base.localWindow).bind
    (Fits.putInt o.session.base.localMaxpacket))
  rw [openConfirmation, wp_read, onSession, wp_zoom]
  refine message_at _ hbody (by simp [putU32_length, bufferMaxChunk]) ho.at fun s' hs' => ?_
  exact hQ _ _ rfl rfl ⟨hs'.counted, ho.delayed⟩ hs'.life

/-- Only a `TCPClientChannel` gets its reply later. -/
theorem confirmOpen_lives :
    wp confirmOpen (fun _ o' => if o.cls = .tcpClient then o' = o else
      o'.cls = o.cls ∧ o'.Sound ∧
        ∃ p, p.type = channelOpenConfirmation ∧ o'.life = o.life.say [p]) E o := by
  rw [confirmOpen, wp_read, wp_ite, wp_pure]
  refine ⟨fun hcls => openConfirmation_lives ho fun p o' hp hsame ho' hlife => ?_, fun hcls => ?_⟩
  · rw [if_neg hcls]
    exact ⟨hsame, ho', p, hp, hlife⟩
  · rw [if_pos (not_not.mp hcls)]

theorem confirmOpen_sound (hlive : o.session.deleted = false) :
    wp confirmOpen (fun _ o' => o'.Sound ∧ o'.session.deleted = false) E o := by
  refine wp_imp (confirmOpen_lives ho) fun _ o' h => ?_
  split at h
  case isTrue => exact h ▸ ⟨ho, hlive⟩
  case isFalse =>
    obtain ⟨-, ho', p, -, hlife⟩ := h
    have hsame : o'.life.deleted = (o.life.say [p]).deleted := congrArg Life.deleted hlife
    exact ⟨ho', hsame.trans hlive⟩

theorem inputChannelReq_lives (sftp reply : Bool) (start : Start) :
    wp (inputChannelReq sftp reply start) (fun _ => Lives o.life.Request) (fun _ => o.Stops) o := by
  have hstops : o.Stops o := Silent.stops ⟨rfl, rfl⟩
  refine wp_inputChannelReq (fun _ => hstops) (fun _ => hstops) fun hsession cls _ => ?_
  have hnew : ({ o with cls := cls } : ChannelObject).Sound :=
    ⟨ho.counted, fun _ => ho.delayed hsession⟩
  refine onSession_lives hnew ?_
  exact inputChannelReq_at reply start hnew.at fun l' s' hl' hs' => ⟨l', hl', hs'⟩

theorem otherChannelReq_lives (created reply : Bool) :
    wp (otherChannelReq created reply)
      (fun _ => Lives fun l' => ∃ ps, Life.Plain ps ∧ l' = o.life.say ps)
      (fun _ => o.Stops) o := by
  refine wp_otherChannelReq (fun _ => Silent.stops ⟨rfl, rfl⟩) (fun _ => ?_) fun _ _ =>
    onSession_lives ho ?_
  · exact ⟨ho, [], fun _ hp => absurd hp List.not_mem_nil, o.life.say_nil.symm⟩
  · exact reply_at _ ho.at fun ps s' hps hs' => ⟨_, ⟨ps, hps, rfl⟩, hs'⟩

/-- What `channel_post` of the base class comes to -/
def Posted (l l' : Life) : Prop :=
  ∃ held ps, (held = true → l.held = true) ∧ Life.Plain ps ∧
    l' = ({ l.say ps with held := held } : Life).collect

omit ho in
theorem broken_said {held : Bool} {ps : List Packet} (hps : Life.Plain ps)
    (h : Broken (({ l with held := held } : Life).say ps) s) : Broken l s := by
  obtain ⟨hlive, hdead, qs, hqs, hsent⟩ := h
  have hsay : (({ l with held := held } : Life).say ps).say qs =
      { l.say (ps ++ qs) with held := held } := by simp [Life.say]
  have hcollect : ∀ l : Life, ({ l with held := held } : Life).collect.sent = l.collect.sent := by
    intro l
    simp only [Life.collect, Life.IsDead]
    split
    case isTrue => split <;> split <;> rfl
    case isFalse => rfl
  rw [hsay, hcollect] at hsent
  exact ⟨hlive, hdead, ps ++ qs, hps.append hqs, hsent⟩

omit ho in
theorem post_at (sftp : Bool) (hs : At k l s) :
    wp (postAs sftp)
      (fun _ s' => ∃ l', Posted l l' ∧ At k l' s') (fun _ => Channels.Stops l) s := by
  rw [wp_postAs]
  refine ⟨fun _ => ?_, fun _ => ?_⟩
  · refine wp_mono (getAs_at sftp hs) ?_ fun _ _ h => h.stops
    intro _ s1 h1
    obtain ⟨held, hheld, hs1⟩ := h1
    refine wp_mono (putAs_at sftp s1 hs1) ?_ fun _ _ h => Silent.stops (l := l) h
    intro _ s2 hs2
    refine channelCheckWindow_at hs2 fun ps s3 hps hs3 => ?_
    exact wp_mono (garbageCollect_at hs3) (fun _ _ hs4 => ⟨_, ⟨held, ps, hheld, hps, rfl⟩, hs4⟩)
      fun _ _ h => .inr (broken_said hps h)
  · refine wp_mono (garbageCollect_at hs) (fun _ s1 hs1 => ⟨_, ⟨l.held, [], id, ?_, ?_⟩, hs1⟩)
      fun _ _ h => .inr h
    · exact fun _ hp => absurd hp List.not_mem_nil
    · rw [Life.say_nil]

omit ho in
theorem Posted.connecting (h : Posted l l') : l'.connecting = l.connecting := by
  obtain ⟨held, ps, -, -, rfl⟩ := h
  rw [Life.collect]
  split <;> (try split) <;> (try split) <;> rfl

omit ho in
theorem Posted.confirm {p : Packet} (h : Posted l l')
    (hp : p.type = channelOpenConfirmation) : l.Post (l'.confirm p) := by
  obtain ⟨held, ps, hheld, hps, rfl⟩ := h
  exact ⟨held, ps, p, hheld, hps, hp, rfl⟩

omit ho in
theorem Posted.answered (h : Posted l l') (hanswered : l.connecting = false) : l.Post l' := by
  have hnext := h.confirm (p := ⟨channelOpenConfirmation, []⟩) rfl
  rwa [Life.confirm, if_neg (by rw [h.connecting, hanswered]; decide)] at hnext

theorem channelPost_lives :
    wp channelPost (fun _ => Lives o.life.Post) (fun _ => o.Stops) o := by
  apply wp_channelPost
  · intro hcls
    refine onSession_stops ho (wp_imp (post_at o.sftp ho.at) ?_)
    intro _ s' h
    obtain ⟨l', hl', hs'⟩ := h
    exact ⟨l', hl'.answered (ho.delayed hcls), hs'⟩
  · intro _
    refine wp_imp (onSession_stops ho (post_at false ho.at)) ?_
    intro _ o1 h1
    obtain ⟨ho1, hposted⟩ := h1
    refine ⟨fun hwaits => ?_, fun hno => ⟨ho1, hposted.answered (hposted.connecting ▸ hno)⟩⟩
    refine openConfirmation_lives ho1 fun p o2 hp _ ho2 hlife => ⟨⟨ho2.counted, fun _ => rfl⟩, ?_⟩
    have hnext := hposted.confirm hp
    have hwaits' : o1.life.connecting = true := hwaits
    rw [Life.confirm, if_pos hwaits', ← hlife] at hnext
    exact hnext

theorem connected_lives :
    wp connected (fun _ => Lives fun l' => l' = o.life ∨ o.life.thread = .running ∧
      l' = { o.life with isOpened := true }) E o := by
  refine wp_connected ⟨ho, .inl rfl⟩ fun hsome hrun => ?_
  obtain ⟨w, hw⟩ := Option.isSome_iff_exists.mp hsome
  refine ⟨⟨ho.counted, ho.delayed⟩, .inr ⟨?_, rfl⟩⟩
  simp only [hw, terminated, decide_eq_false_iff_not] at hrun
  simp only [life, lifeOf, hw, threadOf_running hrun]

theorem afterConnect_lives {m : SessionM Unit}
    (h : wp m (fun _ s' => ∃ l', o.life.Work l' ∧ At o.isConnecting l' s')
      (fun _ => Silent o.life) o.session) :
    wp (afterConnect m) (fun _ => Lives o.life.Work) (fun _ => o.Stops) o := by
  exact wp_afterConnect ⟨ho, .inl rfl⟩ fun _ => onSession_lives ho h

omit ho in
theorem received_at (body : Bytes) : Keeps (At k l) (SessionChannel.received body) (Silent l) := by
  intro s hs
  obtain ⟨hcount, rfl⟩ := hs
  rw [wp_received]
  exact ⟨hcount, rfl⟩

theorem stepEvent_lives :
    wp (stepEvent event) (fun _ => Lives (Life.Step event o.life)) (fun _ => o.Stops)
      o := by
  have hs := ho.at
  cases event with
  | startSubsystem sftp reply start => exact inputChannelReq_lives ho sftp reply start
  | otherRequest created reply => exact otherChannelReq_lives ho created reply
  | connected => exact connected_lives ho
  | session event =>
    cases event with
    | request reply start => exact inputChannelReq_lives ho false reply start
    | data body =>
      exact onSession_still ho fun _ => (received_at body).bind fun _ => channelInputData_at
    | eof body =>
      refine onSession_lives ho ?_
      rw [SessionChannel.stepEvent]
      exact wp_seq (received_at body _ hs) fun _ _ hs1 => channelInputEof_at hs1
    | close body =>
      refine onSession_lives ho ?_
      rw [SessionChannel.stepEvent]
      refine wp_seq (received_at body _ hs) ?_
      intro _ s1 hs1
      exact wp_imp (channelInputOclose_of (reading_at _ s1 hs1)) fun _ _ hs2 => ⟨_, rfl, hs2⟩
    | windowAdjust body =>
      exact onSession_still ho fun _ =>
        (received_at body).bind fun _ => channelInputWindowAdjust_at
    | outputPoll => exact onSession_lives ho (channelOutputPoll_at hs)
    | fillEventArray =>
      refine onSession_stops ho ?_
      rw [SessionChannel.stepEvent]
      exact wp_seq (fillEventArray_at hs) fun _ _ h => (wp_pure _).mpr h
    | post => exact channelPost_lives ho
    | exitMsg => exact onSession_lives ho (exitMsg_at hs)
    | callGet => exact afterConnect_lives ho (goto_at (by decide) _ hs)
    | getStep => exact onSession_lives ho (getStep_at hs)
    | otherEvent => exact onSession_lives ho (goto_at (by decide) _ hs)
    | workerPut data => exact afterConnect_lives ho (workerPut_at data hs)
    | workerExit => exact onSession_lives ho (goto_at (by decide) _ hs)

/-- **The table is kept.** -/
theorem step_lives :
    wp (step event)
      (fun _ o' => if o.session.deleted then o' = o else Lives (Life.Step event o.life) o')
      (fun _ => o.Stops) o := by
  rw [step, wp_read]
  cases hdeleted : o.session.deleted with
  | true =>
    simp only [if_true]
    rw [wp_pure]
  | false =>
    simp only [Bool.false_eq_true, if_false]
    exact stepEvent_lives ho event

omit ho

theorem createDerivation_sound (ctype : ChannelType) (self remoteId rwindow rmaxpack : UInt32) :
    (createDerivation ctype self remoteId rwindow rmaxpack).Sound := by
  cases ctype with
  | session => exact ⟨⟨Int.le_refl 0, Int.le_refl 0⟩, fun _ => rfl⟩
  | directTcpip => exact ⟨⟨Int.le_refl 0, Int.le_refl 0⟩, fun h => absurd rfl h⟩

/-! ## The class of an object -/

section Class

variable {K : ChannelClass → Prop}

theorem onSession_cls {α : Type} (m : SessionM α) : Keeps (fun o => K o.cls) (onSession m) := by
  intro o ho
  rw [onSession, wp_zoom]
  exact wp_intro (fun _ _ _ => ho) fun _ _ _ => ho

theorem openConfirmation_cls : Keeps (fun o => K o.cls) openConfirmation :=
  Keeps.get.bind fun _ => onSession_cls _

theorem channelPost_cls : Keeps (fun o => K o.cls) channelPost := by
  intro o ho
  refine wp_channelPost (fun _ => onSession_cls _ o ho) fun _ => ?_
  refine wp_imp (onSession_cls _ o ho) fun _ o₁ ho₁ => ⟨fun _ => ?_, fun _ => ho₁⟩
  exact openConfirmation_cls o₁ ho₁

/-- Only a request that may start a subsystem makes another class of an object. -/
theorem step_cls (hno : starts event = false) :
    Keeps (fun o => K o.cls) (step event) := by
  refine Keeps.get.bind fun _ => .ite (.pure ()) fun o ho => ?_
  apply wp_stepEvent event ho
  · exact fun hstarts => by cases hno.symm.trans hstarts
  · exact fun _ _ => wp_otherChannelReq (fun _ => ho) (fun _ => ho) fun _ _ => onSession_cls _ o ho
  · exact wp_connected ho fun _ _ => ho
  · exact fun _ => channelPost_cls o ho
  · exact fun _ _ _ => onSession_cls _ o ho

/-- What is kept by requests that may start a subsystem, and by all other steps -/
theorem step_of_requests {I : ChannelObject → Prop} {E : Halt → ChannelObject → Prop}
    (ho : I o)
    (hrequest : ∀ sftp reply start, wp (inputChannelReq sftp reply start) (fun _ => I) E o)
    (hother : starts event = false → wp (step event) (fun _ => I) E o) :
    wp (step event) (fun _ => I) E o := by
  cases hstarts : starts event with
  | false => exact hother hstarts
  | true =>
    rw [step, wp_read, wp_ite, wp_pure]
    refine ⟨fun _ => ho, fun _ => ?_⟩
    unfold starts at hstarts
    split at hstarts
    case h_1 sftp reply start => exact hrequest sftp reply start
    case h_2 reply start => exact hrequest false reply start
    case h_3 => cases hstarts

end Class

end ChannelObject

end Shiesh.Channels
