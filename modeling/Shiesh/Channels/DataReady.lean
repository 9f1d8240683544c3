import Shiesh.Channels.Queue

/-!
# Does `dataReady` Tell the Truth?

`server_loop` waits for the event `dataReady` of a `BusyThreadReadBuffer`. The event is reset by
`get` when the half that is read has become empty. The worker may have put messages into the other
half by then, and these wait without the event being set.

Only the counters and the event matter here, not the bytes in the buffers. An operation that
throws has done what it did, and others may follow it.
-/

namespace Shiesh.Channels

open Shiesh.Lib

namespace BusyThreadReadBuffer

/-- The event is set whenever a message is pending in either half. -/
def Truthful (q : BusyThreadReadBuffer) : Prop :=
  q.nReadBufMsgs ≠ 0 ∨ q.nWriteBufMsgs ≠ 0 → q.dataReady = true

/-- `get` does not take the last message of its half while there are messages in the other. -/
def NoneBehind (q : BusyThreadReadBuffer) : Prop :=
  q.nReadBufMsgs = 1 → q.nWriteBufMsgs = 0

instance (q : BusyThreadReadBuffer) : Decidable q.Truthful := inferInstanceAs (Decidable (_ → _))

instance (q : BusyThreadReadBuffer) : Decidable q.NoneBehind := inferInstanceAs (Decidable (_ → _))

variable {q : BusyThreadReadBuffer}

theorem put_truthful (h : q.Truthful) (data : Bytes) :
    wp (put data) (fun _ => Truthful) (fun _ => Truthful) q := by
  rw [put, wp_bind, wp_zoom]
  apply wp_intro
  · intro _ b _
    rw [wp_modify]
    exact fun _ => rfl
  · intro _ b _
    exact h

/-- The counters and the event after a message has been taken. A buffer that is at fault leaves
the event as it was. -/
theorem take_counters (asString : Bool) (out : Buffer) :
    wp (take asString)
      (fun _ t => t.1.nReadBufMsgs = q.nReadBufMsgs - 1 ∧ t.1.nWriteBufMsgs = q.nWriteBufMsgs ∧
        t.1.dataReady = (q.dataReady && q.nReadBufMsgs - 1 != 0))
      (fun _ t => t.1.nReadBufMsgs = q.nReadBufMsgs - 1 ∧ t.1.nWriteBufMsgs = q.nWriteBufMsgs ∧
        t.1.dataReady = q.dataReady) (q, out) := by
  rw [take, wp_update, wp_bind, wp_zoom]
  apply wp_intro
  · intro data b _
    rw [wp_bind, wp_zoom]
    apply wp_intro
    · intro _ out' _
      rw [wp_modify]
      exact ⟨rfl, rfl, rfl⟩
    · intro _ out' _
      exact ⟨rfl, rfl, rfl⟩
  · intro _ b _
    exact ⟨rfl, rfl, rfl⟩

/-- **Taking.** The event stays truthful if no message is left behind in the other half. -/
theorem take_truthful (h : q.Truthful) (hread : q.nReadBufMsgs ≠ 0) (hlast : q.NoneBehind)
    (asString : Bool) (out : Buffer) :
    wp (take asString) (fun _ t => t.1.Truthful) (fun _ t => t.1.Truthful) (q, out) := by
  have hset : q.dataReady = true := h (.inl hread)
  apply wp_mono (take_counters asString out)
  · intro _ t ht hpending
    obtain ⟨hr, hw, hready⟩ := ht
    rw [hready, hset]
    -- what is left is in the half that is read, or it would have been the last one
    have hleft : q.nReadBufMsgs - 1 ≠ 0 := by
      intro hzero
      have hone : q.nReadBufMsgs = 1 := by omega
      rcases hpending with hpending | hpending
      · exact hpending (hr.trans hzero)
      · exact hpending (hw.trans (hlast hone))
    simpa using hleft
  · intro _ t ht _
    rw [ht.2.2]
    exact hset

/-- After an exchange the other half is empty, so that the second branch of `get` is always
truthful. -/
theorem get_truthful (h : q.Truthful) (hlast : q.NoneBehind) (asString : Bool) (out : Buffer) :
    wp (get asString) (fun _ t => t.1.Truthful) (fun _ t => t.1.Truthful) (q, out) := by
  rw [get, wp_read]
  rw [wp_ite]
  constructor
  · intro hread
    rw [wp_bind]
    apply wp_mono (take_truthful h hread hlast asString out)
    · intro _ t ht
      rw [wp_pure]
      exact ht
    · intro _ t ht
      exact ht
  · intro hread
    have hzero : q.nReadBufMsgs = 0 := by omega
    rw [wp_ite]
    constructor
    · intro hwrite
      rw [wp_update, wp_bind]
      have hswap : q.swap.Truthful := fun _ => h (.inr hwrite)
      apply wp_mono (take_truthful hswap hwrite (fun _ => hzero) asString out)
      · intro _ t ht
        rw [wp_pure]
        exact ht
      · intro _ t ht
        exact ht
    · intro hwrite
      rw [wp_update, wp_pure]
      intro hpending
      exact absurd hpending (not_or.mpr ⟨hread, hwrite⟩)

/-- A `get` that takes the last message of its half resets the event. -/
theorem get_last_resets (hone : q.nReadBufMsgs = 1) (asString : Bool) (out : Buffer) :
    wp (get asString)
      (fun _ t => t.1.dataReady = false ∧ t.1.nWriteBufMsgs = q.nWriteBufMsgs) any
      (q, out) := by
  have hread : q.nReadBufMsgs ≠ 0 := by omega
  rw [get, wp_read]
  simp only
  rw [if_pos hread, wp_bind]
  apply wp_mono (take_counters asString out)
  · intro _ t ht
    rw [wp_pure]
    obtain ⟨-, hw, hready⟩ := ht
    refine ⟨?_, hw⟩
    rw [hready, hone]
    simp
  · exact fun _ _ _ => trivial

/-! ## Runs -/

/-- An operation of one of the two threads. -/
inductive Op where
  | put (data : Bytes)
  | get (asString : Bool) (out : Buffer)

/-- The operation, whether it returns or throws. -/
def Op.run : Op → EStateM Halt BusyThreadReadBuffer Unit
  | .put data => BusyThreadReadBuffer.put data
  | .get asString out => do
    let _ ← zoom (fun q => (q, out)) (fun t _ => t.1) (BusyThreadReadBuffer.get asString)

def step (op : Op) : EStateM Halt BusyThreadReadBuffer Unit := tryCatch op.run fun _ => pure ()

def Op.Harmless : Op → BusyThreadReadBuffer → Prop
  | .put _, _ => True
  | .get _ _, q => q.NoneBehind

instance (op : Op) (q : BusyThreadReadBuffer) : Decidable (op.Harmless q) :=
  match op with
  | .put _ => isTrue trivial
  | .get _ _ => inferInstanceAs (Decidable q.NoneBehind)

theorem Op.run_truthful (op : Op) (h : q.Truthful) (hop : op.Harmless q) :
    wp op.run (fun _ => Truthful) (fun _ => Truthful) q := by
  cases op with
  | put data => exact put_truthful h data
  | get asString out =>
    rw [Op.run, wp_bind, wp_zoom]
    apply wp_mono (get_truthful h hop asString out)
    · intro _ t ht
      rw [wp_pure]
      exact ht
    · intro _ t ht
      exact ht

theorem step_truthful (op : Op) (q : BusyThreadReadBuffer) (h : q.Truthful)
    (hop : op.Harmless q) : wp (step op) (fun _ => Truthful) (fun _ => Truthful) q := by
  rw [step, wp_tryCatch]
  apply wp_mono (op.run_truthful h hop)
  · exact fun _ _ hq => hq
  · intro _ q' hq
    rw [wp_pure]
    exact hq

/-- **The event tells the truth** after every operation of a run in which no `get` takes the last
message of its half while there are messages in the other. A `get` that does so and returns
makes the event lie. -/
theorem dataReady_truthful (ops : List Op) (h : Meets step Op.Harmless ops {}) :
    let q := endState (runAll step ops) {}
    q.Truthful ∧ ∀ op : Op, returns op.run q = true →
      ((endState op.run q).Truthful ↔ op.Harmless q) := by
  intro q
  have hstart : Truthful {} := by decide
  have hq : q.Truthful := wp_endState_both (h.runAll step_truthful hstart)
  refine ⟨hq, fun op hreturns => ⟨fun htrue => ?_, fun hop => ?_⟩⟩
  · cases op with
    | put data => trivial
    | get asString out =>
      intro hone
      by_contra hwrite
      have hresets : wp (Op.get asString out).run
          (fun _ q' => q'.dataReady = false ∧ q'.nWriteBufMsgs = q.nWriteBufMsgs)
          any q := by
        rw [Op.run, wp_bind, wp_zoom]
        apply wp_mono (get_last_resets hone asString out)
        · intro _ t ht
          rw [wp_pure]
          exact ht
        · exact fun _ _ _ => trivial
      obtain ⟨_, hreset, hleft⟩ := wp_endState hresets hreturns
      have hset := htrue (.inr (by rw [hleft]; exact hwrite))
      rw [hreset] at hset
      cases hset
  · exact wp_endState_both (op.run_truthful hq hop)

-- two messages one after the other; the second is taken after an exchange
theorem dataReady_truthful_two :
    let ops : List Op := [.put [1], .put [2], .get false .init, .get false .init]
    let q := endState (runAll step ops) {}
    q.Truthful ∧ q.nMsgsInTheBuffer = 0 := by
  intro ops q
  exact ⟨(dataReady_truthful ops (by decide +kernel)).1, by decide +kernel⟩

/-- The reader has one of two messages when a third one is put. It takes the second one and
resets the event, with the third message in the other half. -/
theorem dataReady_lies :
    let ops : List Op := [.put [1], .put [2], .get false .init, .put [3], .get false .init]
    let q := endState (runAll step ops) {}
    q.nWriteBufMsgs = 1 ∧ q.dataReady = false ∧ ¬ q.Truthful := by
  decide +kernel

end BusyThreadReadBuffer

end Shiesh.Channels
