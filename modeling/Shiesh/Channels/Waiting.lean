import Shiesh.Channels.Server

/-!
# Waiting

`wait_until_can_do_something`: what is looked at before the server blocks, and the timeout of the
blocking wait.
-/

namespace Shiesh.Channels

open Shiesh.Lib

namespace ChannelObject

/-- `is_complete_packet_in_descending`, which only `SFTPChannel` overrides -/
def isCompletePacketInDescending (o : ChannelObject) : Bool :=
  match o.cls with
  | .sftp => SFTPChannel.isCompletePacketInDescending o.session.base.descending
  | .session | .tcpClient => true

/-- There is something to give to the subsystem. -/
def hasDescending (o : ChannelObject) : Bool :=
  o.session.base.descending.len > 0 && o.isCompletePacketInDescending

/-- The peer's credit is short of a packet. -/
def Starved (o : ChannelObject) : Prop :=
  o.session.base.localWindow < o.session.base.localMaxpacket

instance (o : ChannelObject) : Decidable o.Starved := inferInstanceAs (Decidable (_ < _))

end ChannelObject

structure DescendingProbe where
  signalled : Bool := false
  needCheckConsumed : Bool := false
  deriving DecidableEq, Repr

namespace DescendingProbe

/-- `operator ()` -/
def call (p : DescendingProbe) (c : ChannelObject) : DescendingProbe :=
  { signalled := p.signalled || c.hasDescending
    -- "we must periodically check "consumed" quantity"
    needCheckConsumed := p.needCheckConsumed || decide c.Starved }

/-- `for_each (probe)` -/
def forEach (channels : List ChannelObject) : DescendingProbe := channels.foldl call {}

end DescendingProbe

def wsaInfinite : UInt32 := 0xffffffff

/-- The value of `timeout` when the channels have been looked at -/
def waitTimeout (probe : DescendingProbe) (maxTimeMilliseconds : UInt32) : UInt32 :=
  let timeout := if maxTimeMilliseconds ≠ 0 then maxTimeMilliseconds else wsaInfinite
  -- `MAX (timeout, 5000)`
  if probe.needCheckConsumed then (if timeout > 5000 then timeout else 5000) else timeout

variable (channels : List ChannelObject)

/-- The timeout of the blocking wait in `wait_until_can_do_something`; `none` if it does not wait.
`waitFdWrite` is `socket->wait_fd_write ()`, `outputLen` the length of what is to be written. -/
def waitUntilCanDoSomething (maxTimeMilliseconds : UInt32)
    (waitFdWrite : Bool) (outputLen : Nat) : Option UInt32 :=
  let probe := DescendingProbe.forEach channels
  -- `signalled[SocketEvt]`
  let canWrite := !waitFdWrite && outputLen > 0
  if probe.signalled || canWrite then none else some (waitTimeout probe maxTimeMilliseconds)

/-! ## The timeout -/

theorem foldl_call (p : DescendingProbe) :
    channels.foldl DescendingProbe.call p =
      { signalled := p.signalled || channels.any ChannelObject.hasDescending
        needCheckConsumed := p.needCheckConsumed ||
          channels.any fun c => decide c.Starved } := by
  induction channels generalizing p with
  | nil => simp
  | cons c channels ih =>
    rw [List.foldl_cons, ih]
    simp [DescendingProbe.call, Bool.or_assoc]

theorem forEach_eq :
    DescendingProbe.forEach channels =
      { signalled := channels.any ChannelObject.hasDescending
        needCheckConsumed := channels.any fun c => decide c.Starved } := by
  rw [DescendingProbe.forEach, foldl_call]
  simp

/-- Taking the maximum keeps a short timeout and does not shorten a long one. -/
theorem max_le_5000 (timeout : UInt32) :
    (if timeout > 5000 then timeout else 5000) ≤ 5000 ↔ timeout ≤ 5000 := by
  split
  case isTrue => exact .rfl
  case isFalse hle => exact iff_of_true (by decide) (UInt32.not_lt.mp hle)

theorem waitTimeout_starved {probe : DescendingProbe} (h : probe.needCheckConsumed = true)
    (maxTimeMilliseconds : UInt32) :
    waitTimeout probe maxTimeMilliseconds ≤ 5000 ↔
      maxTimeMilliseconds ≠ 0 ∧ maxTimeMilliseconds ≤ 5000 := by
  unfold waitTimeout
  simp only [h, if_true]
  rw [max_le_5000]
  by_cases hzero : maxTimeMilliseconds = 0
  · simp only [hzero, ne_eq, not_true_eq_false, if_false, false_and, iff_false]
    decide
  · simp only [hzero, ne_eq, not_false_eq_true, if_true, true_and]

/-- **Polling.** When a channel is starved, the wait ends within five seconds if and only if it is
not made at all, or the caller itself asked for no more than that. -/
theorem starved_polled (maxTimeMilliseconds : UInt32)
    (waitFdWrite : Bool) (outputLen : Nat) (h : ∃ c ∈ channels, c.Starved) :
    (∀ timeout, waitUntilCanDoSomething channels maxTimeMilliseconds waitFdWrite outputLen =
        some timeout → timeout ≤ 5000) ↔
      (∃ c ∈ channels, c.hasDescending = true) ∨ (waitFdWrite = false ∧ 0 < outputLen) ∨
        (maxTimeMilliseconds ≠ 0 ∧ maxTimeMilliseconds ≤ 5000) := by
  have hneed : (DescendingProbe.forEach channels).needCheckConsumed = true := by
    rw [forEach_eq]
    simpa using h
  have hsignalled : (DescendingProbe.forEach channels).signalled = true ↔
      ∃ c ∈ channels, c.hasDescending = true := by
    rw [forEach_eq]
    simp
  unfold waitUntilCanDoSomething
  by_cases hskip : ((DescendingProbe.forEach channels).signalled ||
      (!waitFdWrite && decide (outputLen > 0))) = true
  · rw [if_pos hskip]
    constructor
    · intro _
      rcases Bool.or_eq_true_iff.mp hskip with hprobe | hwrite
      · exact .inl (hsignalled.mp hprobe)
      · exact .inr (.inl (by simpa using hwrite))
    · intro _ timeout hnone
      cases hnone
  · rw [if_neg hskip]
    have hno : ¬ (∃ c ∈ channels, c.hasDescending = true) ∧
        ¬ (waitFdWrite = false ∧ 0 < outputLen) := by
      rw [← hsignalled]
      constructor
      · intro hprobe
        exact hskip (by simp [hprobe])
      · intro hwrite
        exact hskip (by simp [hwrite.1, hwrite.2])
    rw [or_iff_right hno.1, or_iff_right hno.2, ← waitTimeout_starved hneed]
    constructor
    · intro hall
      exact hall _ rfl
    · intro hle timeout htimeout
      cases htimeout
      exact hle

/-- A session whose peer has used up its credit; the subsystem has got all of it. -/
def starvedSession : ChannelObject :=
  let o := ChannelObject.createDerivation .session 0 0 0 0
  { o with
    session :=
      { o.session with
        base :=
          { o.session.base with
            isOpened := true
            localWindowMax := SessionChannel.windowDefaultSize } } }

-- a caller that asks for three seconds
theorem starved_polled_three_seconds :
    waitUntilCanDoSomething [starvedSession] 3000 false 0 = some 5000 ∧
      ∀ timeout, waitUntilCanDoSomething [starvedSession] 3000 false 0 = some timeout →
        timeout ≤ 5000 := by
  constructor
  · decide +kernel
  · exact (starved_polled [starvedSession] 3000 false 0 ⟨starvedSession, by simp, by decide⟩).mpr
      (.inr (.inr (by decide)))

/-- `server_loop` passes 0: the wait has no timeout at all. -/
theorem starved_not_polled :
    starvedSession.Starved ∧
      waitUntilCanDoSomething [starvedSession] 0 false 0 = some wsaInfinite ∧
      ¬ wsaInfinite ≤ 5000 := by
  decide +kernel

end Shiesh.Channels
