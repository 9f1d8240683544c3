import Shiesh.Kex.Exchange
import Shiesh.Transport.ReadSpec
import Shiesh.Transport.Rekey

/-!
# The Packet Layer Follows the Protocol

What sending and reading packets does to the history of a connection, in terms of the
phases of a key exchange.

- `Tracks p s`: the history of `s` is allowed and has led to phase `p`, and the pending
  keys are those of `p`
- `packetSend_other`, `packetSend_kexinit`, `packetSend_newkeys`: the three kinds of
  messages sent
- `packetReadPoll2_tracks`: NEWKEYS is the only message that changes the phase when it is
  read
-/

namespace Shiesh.Transport

open Shiesh.Lib Shiesh.Kex List
open Ssh2Msg (kexinit newkeys)

variable {Ctx Z : Type} {X : Extern Ctx Z}

/-! ## §1 Phases and states -/

/-- `newkeys[mode] != NULL` -/
def State.keyed (s : State Ctx Z) : Mode → Bool
  | .modeIn => s.recv.newkeys.isSome
  | .modeOut => s.send.newkeys.isSome

/-- `current_keys[mode]` -/
def State.currentKeys (s : State Ctx Z) : Mode → Option Newkeys
  | .modeIn => s.recv.currentKeys
  | .modeOut => s.send.currentKeys

/-- What is left alone by code that neither sends, receives nor installs keys. -/
structure SameKeys (s s' : State Ctx Z) : Prop where
  history : s'.history = s.history
  outgoing : s'.outgoing = s.outgoing
  currentKeys : s'.currentKeys = s.currentKeys
  keyed : s'.keyed = s.keyed

structure Tracks (p : Phase) (s : State Ctx Z) : Prop where
  allowed : Allowed s.history p
  currentKeys : s.currentKeys = p.pending
  queued : ∀ q ∈ s.outgoing, Queued q

/-- From `s` the packet layer has gone to phase `p'`. -/
structure Moved (p' : Phase) (s s' : State Ctx Z) : Prop extends Tracks p' s' where
  hashes : hashes s'.history = hashes s.history
  keyed : ∀ mode, s.keyed mode = true → s'.keyed mode = true

/-- From `s` the packet layer has gone to an end that the protocol allows. -/
def Ended (s s' : State Ctx Z) : Prop :=
  ∃ p', p' ≠ .broken ∧ Allowed s'.history p' ∧ hashes s'.history = hashes s.history

theorem SameKeys.refl (s : State Ctx Z) : SameKeys s s := ⟨rfl, rfl, rfl, rfl⟩

variable {s s' s'' : State Ctx Z} {p p' : Phase} {a : Action} {Q : Unit → State Ctx Z → Prop}
  {E : Halt → State Ctx Z → Prop} {modeIn modeOut : Newkeys} {type : UInt8} {payload : Bytes}

theorem SameKeys.trans (h : SameKeys s s') (h' : SameKeys s' s'') : SameKeys s s'' :=
  ⟨h'.history.trans h.history, h'.outgoing.trans h.outgoing,
    h'.currentKeys.trans h.currentKeys, h'.keyed.trans h.keyed⟩

theorem SameKeys.unsent (s : State Ctx Z) : Unsent (SameKeys s) :=
  fun _ _ _ _ _ _ _ _ h => { h with }

theorem SameKeys.unread (s : State Ctx Z) : Unread (SameKeys s) :=
  fun _ _ _ _ _ _ _ h => { h with }

theorem Tracks.congr (h : Tracks p s) (hs : SameKeys s s') :
    Tracks p s' where
  allowed := hs.history ▸ h.allowed
  currentKeys := hs.currentKeys.trans h.currentKeys
  queued := hs.outgoing ▸ h.queued

theorem Tracks.moved (h : Tracks p s) (hs : SameKeys s s') : Moved p s s' :=
  { h.congr hs with
    hashes := by rw [hs.history]
    keyed := fun mode hk => by rw [hs.keyed, hk] }

theorem Moved.trans (h : Moved p s s') (h' : Moved p' s' s'') : Moved p' s s'' :=
  { h'.toTracks with
    hashes := h'.hashes.trans h.hashes
    keyed := fun mode hk => h'.keyed mode (h.keyed mode hk) }

theorem Moved.ended (h : Moved p s s') (hp : p ≠ .broken) : Ended s s' :=
  ⟨p, hp, h.allowed, h.hashes⟩

theorem Ended.of_hashes (h : Ended s' s'')
    (hs : Kex.hashes s'.history = Kex.hashes s.history) : Ended s s'' := by
  obtain ⟨p', hp', hallowed, hhashes⟩ := h
  exact ⟨p', hp', hallowed, hhashes.trans hs⟩

/-- A step that adds one action other than a hash. -/
theorem hashes_snoc {history : List Action} (h : Kex.hashes [a] = []) :
    Kex.hashes (history ++ [a]) = Kex.hashes history := by
  rw [Kex.hashes, filterMap_append]
  exact (congrArg (_ ++ ·) h).trans (append_nil _)

theorem Tracks.record (h : Tracks p s)
    (hstep : Step p a p') (hpending : p'.pending = p.pending) (ha : Kex.hashes [a] = []) :
    Moved p' s (s.record a) where
  allowed := h.allowed.snoc hstep
  currentKeys := h.currentKeys.trans hpending.symm
  queued := h.queued
  hashes := hashes_snoc ha
  keyed := fun _ hk => hk

/-! ## §2 Sending -/

/-- `packet_send2_wrapped` up to the switch of keys: the packet is in the history, or the
code has failed before or behind that. -/
theorem packetSend2Wrapped_write (s : State Ctx Z) (hbefore : ∀ e s', SameKeys s s' → E e s')
    (hbehind : ∀ e s', SameKeys (s.record (.sent s.entry)) s' → E e s')
    (hwritten : ∀ s', SameKeys (s.record (.sent s.entry)) s' →
      (s.entry.type = newkeys → wp (setNewkeysOut X) Q E s') ∧
      (s.entry.type ≠ newkeys → Q () s')) : wp (packetSend2Wrapped X) Q E s := by
  simp only [packetSend2Wrapped, wp_bind, wp_get]
  have hun := SameKeys.unsent s
  refine wp_mono (compressOutgoing_keeps hun s (.refl s)) ?_ hbefore
  intro _ s1 h1
  refine wp_mono (padOutgoing_keeps hun s1 h1) ?_ hbefore
  intro _ s2 h2
  refine wp_mono (sealOutgoing_keeps hun s2 h2) ?_ hbefore
  intro _ s3 h03
  rw [wp_modify]
  have hrecord : SameKeys (s.record (.sent s.entry))
      { s3.record (.sent s.entry) with emitted := s3.emitted ++ [s.entry] } :=
    { h03 with history := congrArg (· ++ [Action.sent s.entry]) h03.history }
  refine wp_mono (countOutgoing_keeps (SameKeys.unsent _) _ hrecord) ?_ hbehind
  intro _ s4 h4
  obtain ⟨hnewkeys, hother⟩ := hwritten s4 h4
  rw [wp_ite]
  refine ⟨hnewkeys, fun htype => ?_⟩
  rw [wp_ite, wp_pure]
  -- `server_side` is 0: delayed compression is never started here
  exact ⟨fun hserver => absurd hserver.2 (by decide), fun _ => hother htype⟩

/-- A packet that is a step of the protocol and does not switch keys. -/
theorem packetSend2Wrapped_step (h : Tracks p s)
    (hp : p ≠ .broken) (hp' : p' ≠ .broken) (hstep : Step p (.sent s.entry) p')
    (hpending : p'.pending = p.pending) (htype : s.entry.type ≠ newkeys) :
    wp (packetSend2Wrapped X) (fun _ s' => Moved p' s s' ∧ s'.outgoing = s.outgoing)
      (fun _ => Ended s) s := by
  have hmoved := h.record hstep hpending rfl
  refine packetSend2Wrapped_write s ?_ ?_ ?_
  · intro e s' hs
    exact (h.moved hs).ended hp
  · intro e s' hs
    exact (hmoved.trans (hmoved.toTracks.moved hs)).ended hp'
  · intro s' hs
    exact ⟨fun hnewkeys => absurd hnewkeys htype,
      fun _ => ⟨hmoved.trans (hmoved.toTracks.moved hs), hs.outgoing⟩⟩

theorem forall_mode {P : Mode → Prop} (hin : P .modeIn) (hout : P .modeOut) (mode : Mode) :
    P mode := by
  cases mode with
  | modeIn => exact hin
  | modeOut => exact hout

/-- Keys are put to use in one direction. -/
theorem Tracks.install (h : Tracks p s) (hstep : Step p a p') (ha : Kex.hashes [a] = [])
    (hhistory : s'.history = s.history ++ [a]) (hqueued : s'.outgoing = s.outgoing)
    (hpending : ∀ mode, s'.currentKeys mode = p'.pending mode)
    (hkeyed : ∀ mode, s.keyed mode = true → s'.keyed mode = true) : Moved p' s s' where
  allowed := hhistory ▸ h.allowed.snoc hstep
  currentKeys := funext hpending
  queued := hqueued ▸ h.queued
  hashes := hhistory ▸ hashes_snoc ha
  keyed := hkeyed

theorem setNewkeysOut_tracks (h : Tracks (.newkeysSent modeIn modeOut) s) :
    wp (setNewkeysOut X)
      (fun _ s' => Moved (.outKeyed modeIn) s s' ∧ s'.outgoing = s.outgoing ∧
        s'.keyed .modeOut = true)
      (fun _ => Ended s) s := by
  have hkeys : s.send.currentKeys = some modeOut := congrFun h.currentKeys .modeOut
  have hin : s.recv.currentKeys = some modeIn := congrFun h.currentKeys .modeIn
  simp only [setNewkeysOut, wp_bind, wp_modify, wp_get, Direction.release, hkeys]
  apply wp_liftE
  · intro d hd
    obtain ⟨cc, -, hd⟩ := except_bind_eq_ok hd
    cases hd
    rw [wp_ite, wp_modify, wp_modify]
    -- compression may start, too
    constructor
    all_goals
      intro _
      refine ⟨h.install (.installOut ..) rfl rfl rfl ?_ ?_, rfl, rfl⟩
      · exact forall_mode hin rfl
      · exact forall_mode id fun _ => rfl
  · intro e _
    exact ⟨_, by simp, h.allowed.snoc (.installOut ..), hashes_snoc rfl⟩

/-- NEWKEYS is written and the pending keys are put to use. -/
theorem packetSend2Wrapped_newkeys
    (h : Tracks (.derived modeIn modeOut) s) (htype : s.entry.type = newkeys) :
    wp (packetSend2Wrapped X)
      (fun _ s' => Moved (.outKeyed modeIn) s s' ∧ s'.outgoing = s.outgoing ∧
        s'.keyed .modeOut = true)
      (fun _ => Ended s) s := by
  have hpending : (Phase.newkeysSent modeIn modeOut).pending =
      (Phase.derived modeIn modeOut).pending := by
    funext mode
    cases mode <;> rfl
  have hmoved := h.record (.sendNewkeys modeIn modeOut _ htype) hpending rfl
  refine packetSend2Wrapped_write s ?_ ?_ ?_
  · intro e s' hs
    exact (h.moved hs).ended (by simp)
  · intro e s' hs
    exact (hmoved.trans (hmoved.toTracks.moved hs)).ended (by simp)
  · intro s' hs
    refine ⟨fun _ => ?_, fun hne => absurd htype hne⟩
    have hmoved' := hmoved.trans (hmoved.toTracks.moved hs)
    refine wp_mono (setNewkeysOut_tracks hmoved'.toTracks) ?_ ?_
    · intro _ s'' hend
      obtain ⟨hend, hout, hkeyed⟩ := hend
      exact ⟨hmoved'.trans hend, hout.trans hs.outgoing, hkeyed⟩
    · intro e s'' hend
      exact hend.of_hashes hmoved'.hashes

theorem ne_kexinit_of_not_isTransport (h : isTransport type = false) : type ≠ kexinit := by
  rintro rfl
  revert h
  decide

/-- The packets of the queue are no part of an exchange. -/
theorem flushOutgoing_tracks (hp : p ≠ .broken) (queue : List (UInt8 × Bytes))
    (s : State Ctx Z) (h : Tracks p s) (hqueue : ∀ q ∈ queue, Queued q) :
    wp (flushOutgoing X queue) (fun _ => Moved p s) (fun _ => Ended s) s := by
  induction queue generalizing s with
  | nil =>
    rw [flushOutgoing, wp_pure]
    exact h.moved (.refl s)
  | cons q rest ih =>
    have hq : Queued q := hqueue q (mem_cons_self ..)
    have hrest : ∀ r ∈ rest, Queued r := fun r hr => hqueue r (mem_cons_of_mem _ hr)
    have hentry : (s.dequeue q rest).entry.type = q.1 := congrArg Prod.fst (hq.entry rfl)
    have hdequeue : Tracks p (s.dequeue q rest) := { h with queued := hrest }
    have hnewkeys : (s.dequeue q rest).entry.type ≠ newkeys := by
      rw [hentry]
      exact ne_newkeys_of_not_isTransport hq.1
    have hkexinit : (s.dequeue q rest).entry.type ≠ kexinit := by
      rw [hentry]
      exact ne_kexinit_of_not_isTransport hq.1
    simp only [flushOutgoing, wp_bind, wp_modify]
    refine wp_mono (packetSend2Wrapped_step hdequeue hp hp
      (.sendOther p hp _ hkexinit hnewkeys) rfl hnewkeys) ?_ fun _ _ hend => hend
    intro _ s1 hs1
    have h1 : Moved p s s1 := ⟨hs1.1.toTracks, hs1.1.hashes, hs1.1.keyed⟩
    refine wp_mono (ih s1 h1.toTracks hrest) ?_ ?_
    · intro _ s2 h2
      exact h1.trans h2
    · intro _ s2 hend
      exact hend.of_hashes h1.hashes

/-- A packet that is written at once. -/
theorem wp_packetSend_now (hnow : ¬ (s.send2Rekeying = true ∧ isTransport type = false))
    (h : ∀ s', SameKeys s s' → s'.entry.call = (type, payload) →
      wp (sendAndFlush X type) Q E s') : wp (packetSend X type payload) Q E s := by
  have htype : (packetStart type ++ payload).getD 5 0 = type := rfl
  simp only [packetSend, packetSend2, wp_bind, wp_modify, wp_get, htype]
  rw [if_neg hnow]
  simp only [wp_bind, wp_set]
  exact h _ ⟨rfl, rfl, rfl, rfl⟩ (entry_of_packetStart rfl)

/-- Messages that are not part of an exchange, sent at once or kept in the queue. -/
theorem packetSend_other (payload : Bytes)
    (h : Tracks p s) (hp : p ≠ .broken) (hkexinit : type ≠ kexinit) (hnewkeys : type ≠ newkeys) :
    wp (packetSend X type payload) (fun _ => Moved p s) (fun _ => Ended s) s := by
  by_cases hqueue : s.send2Rekeying = true ∧ isTransport type = false
  · have htype : (packetStart type ++ payload).getD 5 0 = type := rfl
    simp only [packetSend, packetSend2, wp_bind, wp_modify, wp_get, htype]
    rw [if_pos hqueue, wp_set]
    refine ⟨{ h with queued := ?_ }, rfl, fun _ hk => hk⟩
    intro q hq
    rcases mem_append.mp hq with hq | hq
    · exact h.queued q hq
    · cases mem_singleton.mp hq
      exact ⟨hqueue.2, payload, rfl⟩
  · refine wp_packetSend_now hqueue fun s1 hs1 hcall => ?_
    have htype : s1.entry.type = type := congrArg Prod.fst hcall
    simp only [sendAndFlush, wp_bind]
    rw [if_neg hnewkeys]
    refine wp_mono (packetSend2Wrapped_step (h.congr hs1) hp hp
      (.sendOther p hp _ (htype ▸ hkexinit) (htype ▸ hnewkeys)) rfl (htype ▸ hnewkeys)) ?_ ?_
    · intro _ s2 h2
      rw [wp_pure]
      exact (h.moved hs1).trans h2.1
    · intro _ s2 hend
      exact hend.of_hashes (h.moved hs1).hashes

/-- KEXINIT is written at once. -/
theorem packetSend_kexinit (h : Tracks p s) (hp : p ≠ .broken) (hp' : p' ≠ .broken)
    (hstep : ∀ e : Emitted, e.call = (kexinit, payload) → Step p (.sent e) p')
    (hpending : p'.pending = p.pending) :
    wp (packetSend X kexinit payload) (fun _ => Moved p' s) (fun _ => Ended s) s := by
  refine wp_packetSend_now (fun hqueue => absurd hqueue.2 (by decide)) fun s1 hs1 hcall => ?_
  have htype : s1.entry.type = kexinit := congrArg Prod.fst hcall
  have hne : s1.entry.type ≠ newkeys := by
    rw [htype]
    decide
  simp only [sendAndFlush, wp_bind]
  rw [if_neg (by decide)]
  refine wp_mono (packetSend2Wrapped_step (h.congr hs1) hp hp' (hstep _ hcall) hpending hne) ?_ ?_
  · intro _ s2 h2
    rw [wp_pure]
    exact (h.moved hs1).trans h2.1
  · intro _ s2 hend
    exact hend.of_hashes (h.moved hs1).hashes

/-- NEWKEYS is written at once, the pending keys are put to use, and the queue follows. -/
theorem packetSend_newkeys (payload : Bytes) (h : Tracks (.derived modeIn modeOut) s) :
    wp (packetSend X newkeys payload)
      (fun _ s' => Moved (.outKeyed modeIn) s s' ∧ s'.keyed .modeOut = true)
      (fun _ => Ended s) s := by
  refine wp_packetSend_now (fun hqueue => absurd hqueue.2 (by decide)) fun s1 hs1 hcall => ?_
  have htype : s1.entry.type = newkeys := congrArg Prod.fst hcall
  have hmoved1 := h.moved hs1
  simp only [sendAndFlush, wp_bind, if_true]
  refine wp_mono (packetSend2Wrapped_newkeys hmoved1.toTracks htype) ?_ ?_
  · intro _ s2 h2
    obtain ⟨h2, -, hkeyed⟩ := h2
    simp only [wp_modify, wp_get]
    have hqueue := h2.queued
    have htracks : Tracks (.outKeyed modeIn) { s2 with send2Rekeying := false } :=
      { h2 with }
    refine wp_mono (flushOutgoing_tracks (by simp) _ _ htracks hqueue) ?_ ?_
    · intro _ s3 h3
      have h3' : Moved (.outKeyed modeIn) s2 s3 := { h3 with }
      exact ⟨(hmoved1.trans h2).trans h3', h3'.keyed .modeOut hkeyed⟩
    · intro _ s3 hend
      exact hend.of_hashes (hmoved1.trans h2).hashes
  · intro _ s2 hend
    exact hend.of_hashes hmoved1.hashes

/-! ## §3 Reading -/

/-- Delayed compression changes key sets, but not whether there are any. -/
theorem startDelayed_sameKeys (s : State Ctx Z) :
    SameKeys s (({ s with afterAuthentication := true }.startDelayedIn X).startDelayedOut X) := by
  have hdelayed : ∀ t : State Ctx Z, SameKeys t (t.startDelayedIn X) ∧
      SameKeys t (t.startDelayedOut X) := by
    intro t
    unfold State.startDelayedIn State.startDelayedOut
    constructor
    all_goals
      split
      case h_1 k h =>
        obtain ⟨k', hk', -⟩ := Option.bind_eq_some_iff.mp h
        refine ⟨rfl, rfl, rfl, ?_⟩
        funext mode
        cases mode <;> simp [State.keyed, hk']
      case h_2 => exact .refl t
  have hauth : SameKeys s { s with afterAuthentication := true } := ⟨rfl, rfl, rfl, rfl⟩
  exact (hauth.trans (hdelayed _).1).trans (hdelayed _).2

theorem setNewkeysIn_tracks (h : Tracks (.newkeysRcvd modeIn) s) :
    wp (setNewkeysIn X) (fun _ s' => Moved .keyed s s' ∧ s'.keyed .modeIn = true)
      (fun _ => Ended s) s := by
  have hkeys : s.recv.currentKeys = some modeIn := congrFun h.currentKeys .modeIn
  have hout : s.send.currentKeys = none := congrFun h.currentKeys .modeOut
  simp only [setNewkeysIn, wp_bind, wp_modify, wp_get, Direction.release, hkeys]
  apply wp_liftE
  · intro d hd
    obtain ⟨cc, -, hd⟩ := except_bind_eq_ok hd
    cases hd
    rw [wp_ite, wp_modify, wp_modify]
    constructor
    all_goals
      intro _
      refine ⟨h.install (.installIn _) rfl rfl rfl ?_ ?_, rfl⟩
      · exact forall_mode rfl hout
      · exact forall_mode (fun _ => rfl) id
  · intro e _
    exact ⟨_, by simp, h.allowed.snoc (.installIn _), hashes_snoc rfl⟩

/-- How the thread ends at a NEWKEYS without pending keys. -/
def noKeys : Halt := .fatal "newkeys: no keys for mode %d" [.num 0]

theorem setNewkeysIn_noKeys (h : s.recv.currentKeys = none) :
    wp (setNewkeysIn X) never (fun e s' => e = noKeys ∧ s'.history = s.history) s := by
  simp only [setNewkeysIn, wp_bind, wp_modify, wp_get, Direction.release, h, wp_throw]
  exact ⟨rfl, trivial⟩

/-- The phases in which the server reads packets. -/
def Listening : Phase → Prop
  | .idle | .initSent _ | .bothInits _ _ | .outKeyed _ => True
  | _ => False

theorem Listening.ne_broken (h : Listening p) : p ≠ .broken := by
  rintro rfl
  exact h

/-- How a packet of this type leaves a connection that was in phase `p`. -/
def Received (p : Phase) (type : UInt8) (s s' : State Ctx Z) : Prop :=
  (type ≠ newkeys ∧ Moved p s s') ∨
  (type = newkeys ∧ (∃ modeIn, p = .outKeyed modeIn) ∧ Moved .keyed s s' ∧
    s'.keyed .modeIn = true)

theorem Received.of_moved
    (h : Moved p s s') (h' : Received p type s' s'') : Received p type s s'' := by
  rcases h' with ⟨htype, h'⟩ | ⟨htype, hout, h', hkeyed⟩
  · exact .inl ⟨htype, h.trans h'⟩
  · exact .inr ⟨htype, hout, h.trans h', hkeyed⟩

/-- How the thread may end while it reads a packet. -/
def ReadEnded (e : Halt) (s s' : State Ctx Z) : Prop :=
  Ended s s' ∨ (Allowed s'.history .broken ∧ Kex.hashes s'.history = Kex.hashes s.history ∧
    e = noKeys)

theorem ReadEnded.of_hashes {e : Halt} (h : ReadEnded e s' s'')
    (hs : Kex.hashes s'.history = Kex.hashes s.history) : ReadEnded e s s'' := by
  rcases h with h | ⟨hallowed, hhashes, he⟩
  · exact .inl (h.of_hashes hs)
  · exact .inr ⟨hallowed, hhashes.trans hs, he⟩

theorem Tracks.readEnded (h : Tracks p s) (hp : Listening p) (e : Halt) (s' : State Ctx Z)
    (hs : SameKeys s s') : ReadEnded e s s' :=
  .inl ((h.moved hs).ended hp.ne_broken)

/-- NEWKEYS is the only type that has an effect on the exchange. -/
theorem onType_tracks (hp : Listening p) (h : Tracks p s) (type : UInt8) :
    wp (onType X type) (fun _ => Received p type s) (fun e => ReadEnded e s)
      (s.record (.received type)) := by
  unfold onType
  rw [wp_ite]
  constructor
  · rintro rfl
    by_cases hout : ∃ modeIn, p = .outKeyed modeIn
    · obtain ⟨modeIn, rfl⟩ := hout
      have hpending : (Phase.newkeysRcvd modeIn).pending = (Phase.outKeyed modeIn).pending := by
        funext mode
        cases mode <;> rfl
      have hmoved := h.record (.rcvdNewkeys modeIn) hpending rfl
      refine wp_mono (setNewkeysIn_tracks hmoved.toTracks) ?_ ?_
      · intro _ s' hs'
        exact .inr ⟨rfl, ⟨modeIn, rfl⟩, hmoved.trans hs'.1, hs'.2⟩
      · intro e s' hend
        exact .inl (hend.of_hashes hmoved.hashes)
    · -- in the other phases nothing is pending
      have hnone : p.pending .modeIn = none := by
        cases p <;> first | rfl | exact hp.elim | exact absurd ⟨_, rfl⟩ hout
      have hkeys : s.recv.currentKeys = none := (congrFun h.currentKeys .modeIn).trans hnone
      refine wp_mono (setNewkeysIn_noKeys (s := s.record _) hkeys) ?_ ?_
      · intro _ _ hfalse
        exact hfalse.elim
      · intro e s' hs'
        obtain ⟨he, hhistory⟩ := hs'
        refine .inr ⟨?_, ?_, he⟩
        · rw [hhistory]
          exact h.allowed.snoc (.strayNewkeys p hp.ne_broken hnone)
        · rw [hhistory]
          exact hashes_snoc rfl
  · intro htype
    have hmoved := h.record (.rcvdOther p hp.ne_broken type htype) rfl rfl
    rw [wp_ite, wp_pure]
    constructor
    · intro _
      rw [packetEnableDelayedCompress, wp_modify]
      exact .inl ⟨htype, hmoved.trans (hmoved.toTracks.moved (startDelayed_sameKeys _))⟩
    · intro _
      exact .inl ⟨htype, hmoved⟩

theorem acceptPacket_tracks (hp : Listening p) (h : Tracks p s) :
    wp (acceptPacket X) (fun type => Received p type s) (fun e => ReadEnded e s) s := by
  have hend := h.readEnded hp
  simp only [acceptPacket, wp_bind, wp_get]
  cases s.incomingPacket with
  | nil =>
    rw [wp_throw]
    exact hend _ _ (.refl s)
  | cons type payload =>
    have hset : SameKeys s { s with incomingPacket := payload } := ⟨rfl, rfl, rfl, rfl⟩
    simp only [wp_bind, wp_set]
    rw [wp_ite, wp_throw]
    refine ⟨fun _ => hend _ _ hset, fun _ => ?_⟩
    simp only [wp_bind, wp_modify, wp_pure]
    refine wp_mono (onType_tracks hp (h.congr hset) type) ?_ fun _ _ he => he
    intro _ s' hs'
    have hreset : SameKeys s' { s' with poll2PacketLength := 0 } := ⟨rfl, rfl, rfl, rfl⟩
    refine .of_moved (h.moved hset) ?_
    rcases hs' with ⟨htype, hmoved⟩ | ⟨htype, hout, hmoved, hkeyed⟩
    · exact .inl ⟨htype, hmoved.trans (hmoved.toTracks.moved hreset)⟩
    · exact .inr ⟨htype, hout, hmoved.trans (hmoved.toTracks.moved hreset), hkeyed⟩

theorem finishPacket_tracks (hp : Listening p) (h : Tracks p s) :
    wp (finishPacket X) (fun r => Received p r.1 s) (fun e => ReadEnded e s) s := by
  have hend := h.readEnded hp
  simp only [finishPacket, afterMac, wp_bind, wp_get]
  have hun := SameKeys.unread s
  refine wp_mono (checkMac_keeps hun s (.refl s)) ?_ hend
  intro _ s1 h1
  refine wp_mono (countIncoming_keeps hun s1 h1) ?_ hend
  intro _ s2 h2
  refine wp_mono (stripPadding_keeps hun s2 h2) ?_ hend
  intro _ s3 h3
  refine wp_mono (uncompressIncoming_keeps hun s3 h3) ?_ hend
  intro _ s4 h4
  have hmoved := h.moved h4
  refine wp_mono (acceptPacket_tracks hp hmoved.toTracks) ?_ ?_
  · intro type s' hs'
    rw [wp_pure]
    exact .of_moved hmoved hs'
  · intro e s' he
    exact he.of_hashes hmoved.hashes

/-- **Reading.** A packet other than NEWKEYS leaves the phase as it is. NEWKEYS completes
the exchange when the server has sent its own, and ends the thread in every other phase. -/
theorem packetReadPoll2_tracks (hp : Listening p) (h : Tracks p s) :
    wp (packetReadPoll2 X)
      (fun r s' =>
        match r with
        | none => Moved p s s'
        | some (type, _) => Received p type s s')
      (fun e => ReadEnded e s) s := by
  have hend := h.readEnded hp
  simp only [packetReadPoll2, readBody, wp_bind]
  have hun := SameKeys.unread s
  refine wp_mono (readLength_keeps hun s (.refl s)) ?_ hend
  intro got s1 h1
  rw [wp_ite, wp_pure]
  refine ⟨fun _ => ?_, fun _ => h.moved h1⟩
  simp only [wp_bind]
  refine wp_mono (readRest_keeps hun s1 h1) ?_ hend
  intro got' s2 h2
  have hmoved := h.moved h2
  rw [wp_ite, wp_pure]
  refine ⟨fun _ => ?_, fun _ => hmoved⟩
  simp only [wp_bind]
  refine wp_mono (finishPacket_tracks hp hmoved.toTracks) ?_ ?_
  · intro r s' hs'
    rw [wp_pure]
    exact .of_moved hmoved hs'
  · intro e s' he
    exact he.of_hashes hmoved.hashes

end Shiesh.Transport
