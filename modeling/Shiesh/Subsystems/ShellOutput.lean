import Shiesh.Subsystems.Shell

/-!
# Output of the Child

When the child has exited, `Shell::run` looks at it before it completes the read, and from then on
completes no read any more: "give read full output" is what the flag `processExits` is for, but the
only thing that is done with it is to return. What the child has written and the thread has not yet
put to the channel is lost.

So the output is complete if and only if nothing of it is left when the thread sees that the child
has exited.
-/

namespace Shiesh.Subsystems

open Shiesh.Lib Shiesh.Channels List Shell

variable {ω : Type} {s s' : Shell ω}

/-! ## §1 What is left -/

/-- The bytes that a read has taken -/
def Read.data : Read → Bytes
  | .completed data => data
  | .idle | .pending => []

/-- What the child has written and the thread has not put to the channel -/
def Shell.outstanding (s : Shell ω) : Bytes := s.stdoutPipe.data ++ s.pipe

/-- The way of the output from the child to the channel -/
structure Flow where
  written : Bytes
  outstanding : Bytes
  forwarded : Bytes
  exited : Bool
  processExits : Bool

def Shell.flow (s : Shell ω) : Flow :=
  ⟨s.written, s.outstanding, s.forwarded, s.exited, s.processExits⟩

/-! ## §2 What a step can do -/

/-- The places at which the thread has decided something about the output -/
def Place.decided : Place → Bool
  | .reading | .returned .exit => true
  | _ => false

/-- All that a step can do to the output -/
inductive Effect (s s' : Shell ω) : Event → Prop
  -- the step is about something else
  | elsewhere {event : Event} (flow : s'.flow = s.flow)
      (place : s'.place = s.place ∨ s'.place.decided = false)
      (other : event = .run → s.place ≠ .null) : Effect s s' event
  | childWrites (data : Bytes) (running : s.exited = false)
      (flow : s'.flow = { s.flow with
        written := s.written ++ data, outstanding := s.outstanding ++ data })
      (place : s'.place = s.place) : Effect s s' (.childWrites data)
  | childExits (flow : s'.flow = { s.flow with exited := true }) (place : s'.place = s.place) :
      Effect s s' .childExits
  -- the thread looks at the child, which is running
  | looks (place : s.place = .null) (first : s.processExits = false) (running : s.exited = false)
      (flow : s'.flow = s.flow) (place' : s'.place = .reading) : Effect s s' .run
  -- it has exited
  | notices (place : s.place = .null) (first : s.processExits = false) (exited : s.exited = true)
      (flow : s'.flow = { s.flow with processExits := true }) (place' : s'.place = .top) :
      Effect s s' .run
  | returns (place : s.place = .null) (again : s.processExits = true) (flow : s'.flow = s.flow)
      (place' : s'.place = .returned .exit) : Effect s s' .run
  | forwards (data : Bytes) (place : s.place = .reading)
      (outstanding : s.outstanding = data ++ s'.outstanding)
      (flow : s'.flow = { s.flow with
        outstanding := s'.outstanding, forwarded := s.forwarded ++ data })
      (place' : s'.place = .top) : Effect s s' .run

section Steps

variable (os : Child ω) (s : Shell ω)

/-- Neither the output nor the place has changed. -/
def Aside (s s' : Shell ω) : Prop := s'.flow = s.flow ∧ s'.place = s.place

theorem call_aside {α : Type} (f : ω → α × ω) : Keeps (Aside s) (call f) := fun s1 h => by
  rw [call, wp_bind, wp_get, wp_bind, wp_set, wp_pure]
  exact h

theorem onToChannel_aside {α : Type} (m : EStateM Halt BusyThreadReadBuffer α) :
    Keeps (Aside s) (onToChannel m) := fun s1 h => by
  rw [onToChannel, wp_zoomWith]
  exact wp_intro (fun _ _ _ => h) fun _ _ _ => h

theorem writeBuf_aside (buf : Bytes) : Keeps (Aside s) (writeBuf os buf) := by
  refine (call_aside s (os.writeFile buf)).bind fun r => ?_
  cases r with
  | none => exact .throw _
  | some n => exact .ite (.throw _) (.pure _)

theorem flush_aside : Keeps (Aside s) (flush os) :=
  (call_aside s os.flushFileBuffers).bind fun _ => .ite (.throw _) (.pure _)

theorem store_aside (c : UInt8) (buf : Bytes) : Keeps (Aside s) (store c buf) :=
  .ite (.pure _) (.throw _)

theorem makeRoom_aside (buf : Bytes) : Keeps (Aside s) (makeRoom os buf) :=
  .ite ((writeBuf_aside os s buf).bind fun _ => .pure _) (.pure _)

theorem addChar_aside (c : UInt8) (buf : Bytes) : Keeps (Aside s) (addChar os c buf) := by
  refine .ite (store_aside s c buf) ?_
  refine (store_aside s 13 buf).bind fun buf => (store_aside s 10 buf).bind fun buf => ?_
  exact (writeBuf_aside os s buf).bind fun _ => (flush_aside os s).bind fun _ => .pure _

theorem translate_aside (msg buf : Bytes) : Keeps (Aside s) (translate os msg buf) := by
  induction msg generalizing buf with
  | nil => exact .pure _
  | cons c cs ih =>
    refine (makeRoom_aside os s buf).bind fun buf => (addChar_aside os s c buf).bind fun buf => ?_
    exact (onToChannel_aside s _).bind fun _ => ih buf

theorem input_aside (msg : Bytes) : Keeps (Aside s) (input os msg) :=
  (translate_aside os s msg []).bind fun buf => writeBuf_aside os s buf

/-! ### The steps of the thread -/

variable {os s}

theorem startRead_aside : wp (startRead os) (fun _ => Aside s) (fun _ _ => True) s := by
  rw [startRead, wp_bind, wp_get, wp_ite]
  refine ⟨fun hidle => ?_, fun _ => (wp_pure ()).mpr ⟨rfl, rfl⟩⟩
  have hstart : Aside s { s with stdoutPipe := .pending } := by
    simp [Aside, flow, outstanding, hidle, Read.data]
  rw [wp_bind, wp_set]
  have hcall : Keeps (Aside s) (do
      if !(← call os.readFile) then throw ShellError.winCheck else pure ()) :=
    (call_aside s os.readFile).bind fun _ => .ite (.throw _) (.pure _)
  exact wp_weaken (hcall _ hstart) fun _ _ h => h

theorem withoutMessage_effect (hplace : s.place = .null) :
    wp withoutMessage (fun _ s' => Effect s s' .run) (fun _ _ => True) s := by
  rw [withoutMessage, wp_bind, wp_get, wp_ite]
  refine ⟨fun hagain => ?_, fun hfirst => ?_⟩
  · rw [goto, wp_modify]
    exact .returns hplace hagain rfl rfl
  · have hfalse : s.processExits = false := Bool.eq_false_iff.mpr hfirst
    rw [wp_ite]
    refine ⟨fun hexited => ?_, fun hrunning => ?_⟩
    · rw [wp_set]
      exact .notices hplace hfalse hexited rfl rfl
    · rw [goto, wp_modify]
      exact .looks hplace hfalse (Bool.eq_false_iff.mpr hrunning) rfl rfl

theorem putRead_effect (hplace : s.place = .reading) :
    wp putRead (fun _ s' => Effect s s' .run) (fun _ _ => True) s := by
  rw [putRead, wp_bind, completeRead, wp_bind, wp_get]
  cases hread : s.stdoutPipe with
  | idle =>
    rw [wp_throw]
    trivial
  | pending =>
    rw [wp_throw]
    trivial
  | completed data =>
    have hleft : s.outstanding = data ++ s.pipe := by rw [outstanding, hread, Read.data]
    rw [wp_bind, wp_modify, wp_pure, wp_ite]
    refine ⟨fun _ => ?_, fun hempty => ?_⟩
    · rw [wp_bind]
      have hput := onToChannel_aside { s with stdoutPipe := .idle } (BusyThreadReadBuffer.put data)
      refine wp_weaken (hput _ ⟨rfl, rfl⟩) fun _ s1 h1 => ?_
      obtain ⟨hflow, -⟩ := h1
      rw [flow, flow, Flow.mk.injEq] at hflow
      obtain ⟨hwritten, houtstanding, hforwarded, hexited, hexits⟩ := hflow
      rw [wp_modify]
      refine .forwards data hplace ?_ ?_ rfl
      · exact hleft.trans (congrArg (data ++ ·) houtstanding.symm)
      · rw [flow, flow, Flow.mk.injEq]
        exact ⟨hwritten, rfl, congrArg (· ++ data) hforwarded, hexited, hexits⟩
    · have hnone : data = [] := length_eq_zero_iff.mp (Nat.le_zero.mp (not_lt.mp hempty))
      rw [goto, wp_modify]
      refine .elsewhere ?_ (.inr rfl) fun _ => by rw [hplace]; decide
      rw [flow, flow, hleft, hnone]
      rfl

theorem runStep_effect (ndebug : Bool) (s : Shell ω) :
    wp (runStep os ndebug) (fun _ s' => Effect s s' .run) (fun _ _ => True) s := by
  rw [runStep, wp_bind, wp_get]
  cases hplace : s.place with
  | top =>
    have hother : Event.run = .run → s.place ≠ .null := fun _ => by rw [hplace]; decide
    refine wp_seq_any startRead_aside fun _ s1 h1 => ?_
    rw [wp_modify]
    exact .elsewhere h1.1 (.inr rfl) hother
  | inGet =>
    have hother : Event.run = .run → s.place ≠ .null := fun _ => by rw [hplace]; decide
    rw [getMessage, wp_modify]
    simp only
    split
    · exact .elsewhere rfl (.inr rfl) hother
    · exact .elsewhere rfl (.inl rfl) hother
  | message data =>
    have hother : Event.run = .run → s.place ≠ .null := fun _ h => by
      rw [hplace] at h
      cases h
    simp only
    rw [wp_ite]
    refine ⟨fun _ => ?_, fun _ => ?_⟩
    · rw [inputEof, wp_bind, wp_get, wp_ite]
      refine ⟨fun _ => (wp_throw _).mpr trivial, fun _ => ?_⟩
      rw [wp_ite]
      refine ⟨fun _ => ?_, fun _ => ?_⟩
      · rw [goto, wp_modify]
        exact .elsewhere rfl (.inr rfl) hother
      · rw [goto, wp_modify]
        exact .elsewhere rfl (.inr rfl) hother
    · refine wp_seq_any (input_aside os s data s ⟨rfl, rfl⟩) fun _ s1 h1 => ?_
      rw [goto, wp_modify]
      exact .elsewhere h1.1 (.inr rfl) hother
  | null => exact withoutMessage_effect hplace
  | reading => exact putRead_effect hplace
  | returned ending =>
    have hother : Event.run = .run → s.place ≠ .null := fun _ h => by
      rw [hplace] at h
      cases h
    simp only
    rw [wp_pure]
    exact .elsewhere rfl (.inl rfl) hother

theorem readCompletes_flow (n : Nat) (s : Shell ω) : (s.readCompletes n).flow = s.flow := by
  unfold readCompletes
  split
  · rename_i hpending
    simp [flow, outstanding, hpending.1, Read.data]
  · rfl

theorem readCompletes_place (n : Nat) (s : Shell ω) : (s.readCompletes n).place = s.place := by
  unfold readCompletes
  split <;> rfl

/-- What a step can do -/
theorem step_effect (os : Child ω) (ndebug : Bool) (event : Event) (s : Shell ω) :
    wp (step os ndebug event) (fun _ s' => Effect s s' event) (fun _ _ => True) s := by
  cases event with
  | run => exact runStep_effect ndebug s
  | otherEvent =>
    rw [step, wp_modify]
    split
    · exact .elsewhere rfl (.inr rfl) fun h => by cases h
    · exact .elsewhere rfl (.inl rfl) fun h => by cases h
  | put data =>
    rw [step, wp_zoomWith]
    exact wp_intro (fun _ _ _ => .elsewhere rfl (.inl rfl) fun h => by cases h) fun _ _ _ => trivial
  | putEof =>
    rw [step, wp_zoomWith]
    exact wp_intro (fun _ _ _ => .elsewhere rfl (.inl rfl) fun h => by cases h) fun _ _ _ => trivial
  | childWrites data =>
    rw [step, wp_modify]
    by_cases hexited : s.exited = true
    · rw [if_pos hexited]
      exact .elsewhere rfl (.inl rfl) fun h => by cases h
    · rw [if_neg hexited]
      refine .childWrites data (Bool.eq_false_iff.mpr hexited) ?_ rfl
      rw [flow, outstanding, flow, outstanding, append_assoc]
  | childExits =>
    rw [step, wp_modify]
    exact .childExits rfl rfl
  | readCompletes n =>
    rw [step, wp_modify]
    exact .elsewhere (readCompletes_flow n s) (.inl (readCompletes_place n s)) fun h => by cases h

end Steps

variable {event : Event}

/-! ## §3 Runs -/

/-- Nothing of the output is left when the thread sees for the first time that the child has
exited. -/
def NothingLeft : Event → Shell ω → Prop
  | .run, s => s.place = .null → s.processExits = false → s.exited = true → s.outstanding = []
  | _, _ => True

instance (event : Event) (s : Shell ω) : Decidable (NothingLeft event s) :=
  match event with
  | .run => inferInstanceAs (Decidable (_ → _))
  | .otherEvent => isTrue trivial
  | .put _ => isTrue trivial
  | .putEof => isTrue trivial
  | .childWrites _ => isTrue trivial
  | .childExits => isTrue trivial
  | .readCompletes _ => isTrue trivial

/-- What is not yet forwarded is left, and the flag stands for the end of the child. -/
structure Accounted (s : Shell ω) : Prop where
  bytes : s.flow.forwarded ++ s.flow.outstanding = s.flow.written
  exited : s.flow.processExits = true → s.flow.exited = true
  reading : s.place = .reading → s.flow.processExits = false
  returned : s.place = .returned .exit → s.flow.processExits = true

/-- A place without a decision asks for nothing. -/
theorem Accounted.undecided (hbytes : s.flow.forwarded ++ s.flow.outstanding = s.flow.written)
    (hexited : s.flow.processExits = true → s.flow.exited = true)
    (hplace : s.place.decided = false) : Accounted s where
  bytes := hbytes
  exited := hexited
  reading h := by
    rw [h] at hplace
    cases hplace
  returned h := by
    rw [h] at hplace
    cases hplace

theorem Accounted.step (hs : Accounted s) (h : Effect s s' event) :
    Accounted s' := by
  cases h with
  | elsewhere flow place =>
    rcases place with hsame | hfree
    · refine ⟨?_, ?_, ?_, ?_⟩ <;> rw [flow]
      · exact hs.bytes
      · exact hs.exited
      · rw [hsame]
        exact hs.reading
      · rw [hsame]
        exact hs.returned
    · refine .undecided ?_ ?_ hfree <;> rw [flow]
      · exact hs.bytes
      · exact hs.exited
  | childWrites data running flow place =>
    refine ⟨?_, ?_, ?_, ?_⟩ <;> rw [flow]
    · exact (append_assoc ..).symm.trans (congrArg (· ++ data) hs.bytes)
    · exact hs.exited
    · rw [place]
      exact hs.reading
    · rw [place]
      exact hs.returned
  | childExits flow place =>
    refine ⟨?_, ?_, ?_, ?_⟩ <;> rw [flow]
    · exact hs.bytes
    · exact fun _ => rfl
    · rw [place]
      exact hs.reading
    · rw [place]
      exact hs.returned
  | looks place first running flow place' =>
    refine ⟨?_, ?_, fun _ => ?_, fun hreturned => ?_⟩
    · rw [flow]
      exact hs.bytes
    · rw [flow]
      exact hs.exited
    · rw [flow]
      exact first
    · rw [place'] at hreturned
      cases hreturned
  | notices place first exited flow place' =>
    refine .undecided ?_ ?_ (by rw [place']; rfl) <;> rw [flow]
    · exact hs.bytes
    · exact fun _ => exited
  | returns place again flow place' =>
    refine ⟨?_, ?_, fun hreading => ?_, fun _ => ?_⟩
    · rw [flow]
      exact hs.bytes
    · rw [flow]
      exact hs.exited
    · rw [place'] at hreading
      cases hreading
    · rw [flow]
      exact again
  | forwards data place outstanding flow place' =>
    refine .undecided ?_ ?_ (by rw [place']; rfl) <;> rw [flow]
    · have hbytes : s.forwarded ++ s.outstanding = s.written := hs.bytes
      rw [outstanding, ← append_assoc] at hbytes
      exact hbytes
    · exact hs.exited

/-- Everything was forwarded before the thread has taken notice. -/
def Clean (s : Shell ω) : Prop := s.flow.processExits = true → s.flow.outstanding = []

/-- The thread has taken notice, and something is left. -/
def Lost (s : Shell ω) : Prop := s.flow.processExits = true ∧ s.flow.outstanding ≠ []

theorem Clean.step (hs : Accounted s) (hclean : Clean s)
    (hleft : NothingLeft event s) (h : Effect s s' event) : Clean s' := by
  unfold Clean
  cases h with
  | elsewhere flow | looks _ _ _ flow | returns _ _ flow | childExits flow =>
    rw [flow]
    exact hclean
  | childWrites data running flow =>
    rw [flow]
    intro hexits
    -- the child writes only as long as it runs
    have hexited := hs.exited hexits
    exact absurd (hexited.symm.trans running) (by decide)
  | notices place first exited flow =>
    rw [flow]
    exact fun _ => hleft place first exited
  | forwards data place outstanding flow =>
    rw [flow]
    intro hexits
    exact absurd (hexits.symm.trans (hs.reading place)) (by decide)

theorem Lost.step (hs : Accounted s) (hlost : Lost s) (h : Effect s s' event) :
    Lost s' := by
  unfold Lost
  cases h with
  | elsewhere flow | looks _ _ _ flow | returns _ _ flow | childExits flow =>
    rw [flow]
    exact hlost
  | childWrites data running flow =>
    exact absurd ((hs.exited hlost.1).symm.trans running) (by decide)
  | notices place first => exact absurd (hlost.1.symm.trans first) (by decide)
  | forwards data place =>
    exact absurd (hlost.1.symm.trans (hs.reading place)) (by decide)

theorem lost_of_left (hleft : ¬NothingLeft event s) (h : Effect s s' event) :
    Lost s' := by
  cases event with
  | run =>
    simp only [NothingLeft, Classical.not_imp] at hleft
    obtain ⟨hnull, hfirst, hexited, hsome⟩ := hleft
    cases h with
    | elsewhere _ _ other => exact absurd hnull (other rfl)
    | looks _ _ running => exact absurd (hexited.symm.trans running) (by decide)
    | notices _ _ _ flow =>
      rw [Lost, flow]
      exact ⟨rfl, hsome⟩
    | returns _ again => exact absurd (hfirst.symm.trans again) (by decide)
    | forwards _ place =>
      rw [hnull] at place
      cases place
  | otherEvent => exact absurd trivial hleft
  | put => exact absurd trivial hleft
  | putEof => exact absurd trivial hleft
  | childWrites => exact absurd trivial hleft
  | childExits => exact absurd trivial hleft
  | readCompletes => exact absurd trivial hleft

/-- The thread begins. -/
def start (w : ω) (fromChannel : BusyThreadWriteBuffer) (toChannel : BusyThreadReadBuffer) :
    Shell ω := { world := w, fromChannel := fromChannel, toChannel := toChannel }

/-- When `run` has returned because the child has exited, all of its output has been put to the
channel exactly if nothing was left when this was seen. -/
theorem output_complete_iff (os : Child ω) (ndebug : Bool) (w : ω)
    (fromChannel : BusyThreadWriteBuffer) (toChannel : BusyThreadReadBuffer) (events : List Event) :
    wp (runAll (step os ndebug) events)
      (fun _ s' => s'.place = .returned .exit → (s'.forwarded = s'.written ↔
        Meets (step os ndebug) NothingLeft events (start w fromChannel toChannel)))
      (fun _ _ => True) (start w fromChannel toChannel) := by
  have hstart : Accounted (start w fromChannel toChannel) :=
    .undecided rfl (fun h => by cases h) rfl
  have hclean : Clean (start w fromChannel toChannel) := fun h => by cases h
  by_cases hmeets : Meets (step os ndebug) NothingLeft events (start w fromChannel toChannel)
  · have hrun : wp (runAll (step os ndebug) events) (fun _ s' => Accounted s' ∧ Clean s')
        (fun _ _ => True) (start w fromChannel toChannel) := by
      refine hmeets.runAll (fun event s hs hleft => ?_) ⟨hstart, hclean⟩
      refine wp_weaken (step_effect os ndebug event s) fun _ s' h => ?_
      exact ⟨hs.1.step h, .step hs.1 hs.2 hleft h⟩
    refine wp_weaken hrun fun _ s' hs' hreturned => iff_of_true ?_ hmeets
    have hbytes := hs'.1.bytes
    rw [hs'.2 (hs'.1.returned hreturned), append_nil] at hbytes
    exact hbytes
  · have hrun : wp (runAll (step os ndebug) events) (fun _ s' => Accounted s' ∧ Lost s')
        (fun _ _ => True) (start w fromChannel toChannel) := by
      refine wp_runAll_not_meets ?_ ?_ ?_ hmeets hstart
      · intro event s hs _
        exact wp_weaken (step_effect os ndebug event s) fun _ _ h => hs.step h
      · intro event s hs hleft
        exact wp_weaken (step_effect os ndebug event s)
          fun _ _ h => ⟨hs.step h, lost_of_left hleft h⟩
      · intro event s hs
        exact wp_weaken (step_effect os ndebug event s) fun _ _ h => ⟨hs.1.step h, hs.2.step hs.1 h⟩
    refine wp_weaken hrun fun _ s' hs' _ => iff_of_false (fun hall => ?_) hmeets
    have hbytes : s'.forwarded ++ s'.outstanding = s'.written := hs'.1.bytes
    rw [hall] at hbytes
    exact hs'.2.2 (append_right_eq_self.mp hbytes)

/-- A child that writes one byte and exits, and a thread that is in its first wait when the byte has
been read and the child has exited -/
def lateReader : List Event :=
  [.run, .run, .run, .run, .run, .childWrites [120], .readCompletes 80, .childExits, .otherEvent,
    -- it takes notice, and waits again
    .run, .run, .run, .run, .run, .run, .otherEvent, .run]

/-- A system in which every call succeeds -/
def smooth : Child Unit where
  writeFile data := fun w => (some (UInt32.ofNat data.length), w)
  flushFileBuffers := fun w => (true, w)
  readFile := fun w => (true, w)

/-- The byte is in `ascendingBuf`, but `run` returns without having put it to the channel. -/
theorem output_lost :
    let s := endState (runAll (step smooth true) lateReader) (start () {} {})
    s.place = .returned .exit ∧ s.written = [120] ∧ s.stdoutPipe = .completed [120] ∧
      s.forwarded = [] ∧ s.toChannel.writeBuf.contents = [] := by
  decide +kernel

end Shiesh.Subsystems
