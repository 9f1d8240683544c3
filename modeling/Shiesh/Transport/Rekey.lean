import Shiesh.Lib.Result
import Shiesh.Transport.Send

/-!
# Rekey Quarantine

While a key exchange is going on, `packet_send2` keeps every packet that is not a
transport message in the queue `outgoing`, and sends the queue right behind NEWKEYS.
-/

namespace Shiesh.Transport

open Shiesh.Lib List Emitted Ssh2Msg

variable {Ctx Z : Type} {X : Extern Ctx Z}

/-! ## §1 One packet -/

/-- `s` and `s'` agree on the logs, the queue, the outgoing keys and all of the incoming
direction. -/
structure SameQueue (s s' : State Ctx Z) : Prop where
  emitted : s'.emitted = s.emitted
  history : s'.history = s.history
  recv : s'.recv = s.recv
  outgoing : s'.outgoing = s.outgoing
  rekeying : s'.send2Rekeying = s.send2Rekeying
  newkeys : s'.send.newkeys = s.send.newkeys
  currentKeys : s'.send.currentKeys = s.send.currentKeys
  afterAuth : s'.afterAuthentication = s.afterAuthentication

theorem SameQueue.refl (s : State Ctx Z) : SameQueue s s :=
  ⟨rfl, rfl, rfl, rfl, rfl, rfl, rfl, rfl⟩

/-- `I` does not look at what is written while a packet is sealed and counted. -/
def Unsent (I : State Ctx Z → Prop) : Prop :=
  ∀ s packet stream output context counters pad calls, I s → I { s with
    outgoingPacket := packet, outgoingStream := stream, output := output
    send := { s.send with context := context, p := counters }
    extraPad := pad, randomCalls := calls }

theorem SameQueue.unsent (s : State Ctx Z) : Unsent (SameQueue s) :=
  fun _ _ _ _ _ _ _ _ h => { h with }

section Unsent

variable {I : State Ctx Z → Prop} (h : Unsent I)
include h

theorem compressOutgoing_keeps : Keeps I (compressOutgoing X) := by
  intro s hs
  simp only [compressOutgoing, wp_bind, wp_get, wp_ite, wp_pure]
  refine ⟨fun _ => ?_, fun _ => hs⟩
  apply wp_liftE
  · intro a _
    rw [wp_set]
    exact h s _ _ _ _ _ _ _ hs
  · exact fun _ _ => hs

theorem padOutgoing_keeps : Keeps I (padOutgoing X) := by
  intro s hs
  simp only [padOutgoing, wp_bind, wp_get, wp_set]
  exact h s _ _ _ _ _ _ _ hs

theorem sealOutgoing_keeps : Keeps I (sealOutgoing X) := by
  intro s hs
  simp only [sealOutgoing, wp_bind, wp_get]
  refine wp_liftE (fun macbuf _ => ?_) fun _ _ => hs
  refine wp_liftE (fun a _ => ?_) fun _ _ => hs
  rw [wp_set]
  exact h s _ _ _ _ _ _ _ hs

theorem countOutgoing_keeps : Keeps I (countOutgoing : PacketM Ctx Z Unit) := by
  intro s hs
  simp only [countOutgoing, wp_bind, wp_get, wp_ite, wp_throw, wp_set]
  exact ⟨fun _ => hs, fun _ => h s _ _ _ _ _ _ _ hs⟩

end Unsent

/-- The pending outgoing keys of `s` are the keys in use in `s'`. -/
def Installed (s s' : State Ctx Z) : Prop :=
  ∃ k, s.send.currentKeys = some k ∧ s'.send.newkeys = some (k.inUse s.afterAuthentication)

theorem setNewkeysOut_spec (s : State Ctx Z) :
    wp (setNewkeysOut X)
      (fun _ s' => s'.emitted = s.emitted ∧ s'.outgoing = s.outgoing ∧
        s'.send2Rekeying = s.send2Rekeying ∧ s'.outgoingPacket = s.outgoingPacket ∧
        Installed s s')
      (fun _ s' => s'.emitted = s.emitted) s := by
  simp only [setNewkeysOut, wp_bind, wp_modify, wp_get, Direction.release]
  cases hk : s.send.currentKeys with
  | none => simp only [wp_throw]
  | some k =>
    simp only [wp_bind, wp_modify]
    apply wp_liftE
    · intro d hd
      obtain ⟨cc, _, hd⟩ := except_bind_eq_ok hd
      have hinst : d.newkeys = some (k.inUse s.afterAuthentication) := by
        cases hd
        rfl
      rw [wp_ite, wp_modify, wp_modify]
      exact ⟨fun _ => ⟨rfl, rfl, rfl, rfl, k, hk, hinst⟩,
        fun _ => ⟨rfl, rfl, rfl, rfl, k, hk, hinst⟩⟩
    · intro e _
      exact rfl

/-- **One packet**: `packet_send2_wrapped` adds the packet it is given to the log, under
the keys in use before it; NEWKEYS puts the pending keys to use, and nothing else changes
them. If it fails, the packet was written or not. -/
theorem packetSend2Wrapped_spec (s : State Ctx Z) :
    wp (packetSend2Wrapped X)
      (fun _ s' => s'.emitted = s.emitted ++ [s.entry] ∧ s'.outgoing = s.outgoing ∧
        s'.send2Rekeying = s.send2Rekeying ∧
        (s.entry.type = newkeys → Installed s s') ∧
        (s.entry.type ≠ newkeys → s'.send.newkeys = s.send.newkeys))
      (fun _ s' => s'.emitted = s.emitted ∨ s'.emitted = s.emitted ++ [s.entry]) s := by
  simp only [packetSend2Wrapped, wp_bind, wp_get]
  have hun := SameQueue.unsent s
  refine wp_mono (compressOutgoing_keeps hun s (.refl s)) ?_ fun _ _ h => .inl h.emitted
  intro _ s1 h1
  refine wp_mono (padOutgoing_keeps hun s1 h1) ?_ fun _ _ h => .inl h.emitted
  intro _ s2 h2
  refine wp_mono (sealOutgoing_keeps hun s2 h2) ?_ fun _ _ h => .inl h.emitted
  intro _ s3 h03
  rw [wp_modify]
  refine wp_mono (countOutgoing_keeps (SameQueue.unsent _) _ (.refl _)) ?_ ?_
  · intro _ s4 h4
    have hemitted : s4.emitted = s.emitted ++ [s.entry] := by
      rw [h4.emitted, h03.emitted]
    have houtgoing : s4.outgoing = s.outgoing := h4.outgoing.trans h03.outgoing
    have hrekeying : s4.send2Rekeying = s.send2Rekeying := h4.rekeying.trans h03.rekeying
    rw [wp_ite]
    constructor
    · -- the keys are switched behind NEWKEYS
      intro htype
      refine wp_mono (setNewkeysOut_spec s4) ?_ fun _ _ h => .inr (h.trans hemitted)
      rintro _ s5 ⟨hem, hout, hrek, -, k, hk, hnew⟩
      have hpending : s.send.currentKeys = some k := by
        rw [← h03.currentKeys, ← hk]
        exact h4.currentKeys.symm
      have hafter : s4.afterAuthentication = s.afterAuthentication :=
        h4.afterAuth.trans h03.afterAuth
      rw [hafter] at hnew
      exact ⟨hem.trans hemitted, hout.trans houtgoing, hrek.trans hrekeying,
        fun _ => ⟨k, hpending, hnew⟩, fun hne => absurd htype hne⟩
    · intro htype
      rw [wp_ite]
      -- `server_side` is 0: delayed compression is never started here
      refine ⟨fun h => absurd h.2 (by decide), fun _ => ?_⟩
      rw [wp_pure]
      exact ⟨hemitted, houtgoing, hrekeying, fun h => absurd h htype,
        fun _ => h4.newkeys.trans h03.newkeys⟩
  · intro _ s4 h4
    right
    rw [h4.emitted, h03.emitted]

/-! ## §2 The queue -/

/-- A packet in the queue: its buffer is what `packet_start` and the `packet_put_*` calls
made of it, and its type is not a transport type. -/
def Queued (p : UInt8 × Bytes) : Prop :=
  isTransport p.1 = false ∧ ∃ payload, p.2 = packetStart p.1 ++ payload

/-- Type and payload of a packet in the queue. -/
def queuedCall (p : UInt8 × Bytes) : UInt8 × Bytes := (p.1, p.2.drop 6)

/-- Type and payload of a packet in the log. -/
def Emitted.call (e : Emitted) : UInt8 × Bytes := (e.type, e.payload)

theorem entry_of_packetStart {s : State Ctx Z} {type : UInt8} {payload : Bytes}
    (h : s.outgoingPacket = packetStart type ++ payload) : s.entry.call = (type, payload) := by
  simp [State.entry, call, h, packetStart]

theorem Queued.entry {s : State Ctx Z} {p : UInt8 × Bytes} (hp : Queued p)
    (h : s.outgoingPacket = p.2) : s.entry.call = queuedCall p := by
  obtain ⟨-, payload, hpayload⟩ := hp
  rw [entry_of_packetStart (h.trans hpayload), queuedCall, hpayload]
  rfl

theorem ne_newkeys_of_not_isTransport {type : UInt8} (h : isTransport type = false) :
    type ≠ newkeys := by
  rintro rfl
  revert h
  decide

/-- **The flush**: the queue is written in order, every packet under the keys in use. -/
theorem flushOutgoing_spec (queue : List (UInt8 × Bytes)) (s : State Ctx Z)
    (hqueue : ∀ p ∈ queue, Queued p) (hs : s.outgoing = queue) :
    wp (flushOutgoing X queue)
      (fun _ s' => s'.outgoing = [] ∧ s'.send2Rekeying = s.send2Rekeying ∧
        s'.send.newkeys = s.send.newkeys ∧
        ∃ flushed, s'.emitted = s.emitted ++ flushed ∧
          flushed.map call = queue.map queuedCall ∧
          ∀ e ∈ flushed, e.keys = s.send.newkeys)
      (fun _ s' => ∃ flushed, s'.emitted = s.emitted ++ flushed ∧
        flushed.map call <+: queue.map queuedCall) s := by
  induction queue generalizing s with
  | nil =>
    simp only [flushOutgoing, wp_pure]
    exact ⟨hs, trivial, trivial, [], by simp, rfl, by simp⟩
  | cons p rest ih =>
    have hp : Queued p := hqueue p (mem_cons_self ..)
    simp only [flushOutgoing, wp_bind, wp_modify]
    have hentry : (s.dequeue p rest).entry.call = queuedCall p := hp.entry rfl
    have htype : (s.dequeue p rest).entry.type = p.1 := congrArg Prod.fst hentry
    refine wp_mono (packetSend2Wrapped_spec _) ?_ ?_
    · rintro _ s1 ⟨hem, hout, hrek, -, hkeys⟩
      have hkeys' : s1.send.newkeys = s.send.newkeys := by
        apply hkeys
        rw [htype]
        exact ne_newkeys_of_not_isTransport hp.1
      refine wp_mono (ih s1 (fun q hq => hqueue q (mem_cons_of_mem _ hq)) hout) ?_ ?_
      · rintro _ s2 ⟨hout2, hrek2, hkeys2, flushed, hem2, hmap, hall⟩
        refine ⟨hout2, hrek2.trans hrek, hkeys2.trans hkeys',
          (s.dequeue p rest).entry :: flushed, ?_, ?_, ?_⟩
        · rw [hem2, hem, append_assoc]
          rfl
        · rw [map_cons, map_cons, hentry, hmap]
        · intro e he
          rcases mem_cons.mp he with rfl | he
          · rfl
          · rw [hall e he, hkeys']
      · rintro _ s2 ⟨flushed, hem2, hpre⟩
        refine ⟨(s.dequeue p rest).entry :: flushed, ?_, ?_⟩
        · rw [hem2, hem, append_assoc]
          rfl
        · rw [map_cons, map_cons, hentry]
          exact (prefix_cons_inj _).mpr hpre
    · rintro _ s1 (hem | hem)
      · exact ⟨[], hem.trans (append_nil _).symm, nil_prefix⟩
      · refine ⟨[(s.dequeue p rest).entry], hem, ?_⟩
        rw [map_singleton, hentry, map_cons]
        exact ⟨_, rfl⟩

/-! ## §3 The invariant -/

/-- A call of `packet_send2`, or `kex_derive_keys` putting key sets into `current_keys[]`. -/
inductive SendEvent where
  | call (type : UInt8) (payload : Bytes)
  | derive (keysIn keysOut : Newkeys)

def sendStep (X : Extern Ctx Z) : SendEvent → PacketM Ctx Z Unit
  | .call type payload => packetSend X type payload
  | .derive keysIn keysOut => modify fun s => { s with
      recv := { s.recv with currentKeys := some keysIn }
      send := { s.send with currentKeys := some keysOut } }

variable (events : List SendEvent)

/-- The packets that the calls among `events` were made for. -/
def sendCalls : List (UInt8 × Bytes) :=
  events.filterMap fun
    | .call type payload => some (type, payload)
    | .derive _ _ => none

/-- The packets of other than transport types. -/
def bulk (packets : List (UInt8 × Bytes)) : List (UInt8 × Bytes) :=
  packets.filter fun p => !isTransport p.1

/-- The log has no packet of another than a transport type between a KEXINIT and the next
NEWKEYS. -/
def Quarantined (log : List Emitted) : Prop :=
  ∀ before kexinit between e after,
    log = before ++ kexinit :: (between ++ e :: after) → kexinit.type = Ssh2Msg.kexinit →
    (∀ x ∈ between, x.type ≠ Ssh2Msg.newkeys) → isTransport e.type = true

/-- Whether a key exchange is going on after the packets of the log. -/
def rekeyingAfter (log : List Emitted) : Bool :=
  log.foldl (fun rekeying e =>
    if e.type = Ssh2Msg.kexinit then true
    else if e.type = Ssh2Msg.newkeys then false
    else rekeying) false

theorem rekeyingAfter_append_singleton (log : List Emitted) (e : Emitted) :
    rekeyingAfter (log ++ [e]) =
      if e.type = kexinit then true
      else if e.type = newkeys then false
      else rekeyingAfter log := by
  simp [rekeyingAfter, foldl_append]

variable {e : Emitted} {flushed log : List Emitted}

theorem rekeyingAfter_kexinit {before between : List Emitted}
    (he : e.type = kexinit) (hbetween : ∀ x ∈ between, x.type ≠ newkeys) :
    rekeyingAfter (before ++ e :: between) = true := by
  induction between using reverseRecOn with
  | nil =>
    rw [rekeyingAfter_append_singleton, if_pos he]
  | append_singleton between x ih =>
    have hsplit : before ++ e :: (between ++ [x]) = (before ++ e :: between) ++ [x] := by simp
    have hx : x.type ≠ newkeys := hbetween x (by simp)
    rw [hsplit, rekeyingAfter_append_singleton, if_neg hx,
      ih fun y hy => hbetween y (mem_append_left _ hy)]
    split <;> rfl

theorem Quarantined.append (h : Quarantined log)
    (he : isTransport e.type = true ∨ rekeyingAfter log = false) : Quarantined (log ++ [e]) := by
  intro before kexinit between x after hsplit hkexinit hbetween
  rcases eq_nil_or_concat after with rfl | ⟨after', y, rfl⟩
  · -- `x` is the new packet
    have hsplit' : log ++ [e] = (before ++ kexinit :: between) ++ [x] := by simp [hsplit]
    obtain ⟨hlog, hx⟩ := append_inj' hsplit' rfl
    obtain rfl : e = x := by simpa using hx
    rcases he with he | he
    · exact he
    · rw [hlog, rekeyingAfter_kexinit hkexinit hbetween] at he
      cases he
  · have hsplit' : log ++ [e] = (before ++ kexinit :: (between ++ x :: after')) ++ [y] := by
      simp [hsplit]
    obtain ⟨hlog, -⟩ := append_inj' hsplit' rfl
    exact h before kexinit between x after' hlog hkexinit hbetween

/-- Appending packets of bulk types outside a key exchange. -/
theorem Quarantined.append_bulk (h : Quarantined log) (hlog : rekeyingAfter log = false)
    (hflushed : ∀ e ∈ flushed, isTransport e.type = false) :
    Quarantined (log ++ flushed) ∧ rekeyingAfter (log ++ flushed) = false := by
  induction flushed using reverseRecOn with
  | nil => simpa using ⟨h, hlog⟩
  | append_singleton flushed e ih =>
    obtain ⟨hq, hr⟩ := ih fun x hx => hflushed x (mem_append_left _ hx)
    have he : isTransport e.type = false := hflushed e (by simp)
    have hkexinit : e.type ≠ kexinit := by
      intro heq
      rw [heq] at he
      revert he
      decide
    rw [← append_assoc]
    refine ⟨hq.append (.inr hr), ?_⟩
    rw [rekeyingAfter_append_singleton, if_neg hkexinit,
      if_neg (ne_newkeys_of_not_isTransport he), hr]

/-- What holds after the events so far. -/
structure SendInv (events : List SendEvent) (s : State Ctx Z) : Prop where
  quarantined : Quarantined s.emitted
  flag : s.send2Rekeying = rekeyingAfter s.emitted
  queued : ∀ p ∈ s.outgoing, Queued p
  waiting : s.outgoing ≠ [] → s.send2Rekeying = true
  order : bulk (s.emitted.map Emitted.call) ++ s.outgoing.map queuedCall =
    bulk (sendCalls events)

/-- What is left of it when a call does not return. -/
def SendHalted (s : State Ctx Z) : Prop :=
  Quarantined s.emitted ∧ bulk (s.emitted.map Emitted.call) <+: bulk (sendCalls events)

theorem sendCalls_append_call (type : UInt8) (payload : Bytes) :
    sendCalls (events ++ [.call type payload]) = sendCalls events ++ [(type, payload)] := by
  simp [sendCalls]

theorem bulk_append (a b : List (UInt8 × Bytes)) : bulk (a ++ b) = bulk a ++ bulk b := by
  simp [bulk]

theorem bulk_singleton_transport {type : UInt8} (payload : Bytes)
    (h : isTransport type = true) : bulk [(type, payload)] = [] := by
  simp [bulk, h]

theorem bulk_singleton {type : UInt8} (payload : Bytes) (h : isTransport type = false) :
    bulk [(type, payload)] = [(type, payload)] := by
  simp [bulk, h]

/-! ## §4 One call, and the run -/

section Step

variable {events : List SendEvent} {s s' : State Ctx Z} {type : UInt8} {payload : Bytes}

variable (h : SendInv events s)
include h

theorem SendInv.enqueue (hrekeying : s.send2Rekeying = true)
    (htype : isTransport type = false) (hemitted : s'.emitted = s.emitted)
    (hoverride : s'.send2Rekeying = s.send2Rekeying)
    (houtgoing : s'.outgoing = s.outgoing ++ [(type, packetStart type ++ payload)]) :
    SendInv (events ++ [.call type payload]) s' := by
  refine ⟨?_, ?_, ?_, ?_, ?_⟩
  · rw [hemitted]
    exact h.quarantined
  · rw [hoverride, hemitted]
    exact h.flag
  · intro p hp
    rw [houtgoing] at hp
    rcases mem_append.mp hp with hp | hp
    · exact h.queued p hp
    · rw [mem_singleton.mp hp]
      exact ⟨htype, payload, rfl⟩
  · intro _
    rw [hoverride, hrekeying]
  · rw [hemitted, houtgoing, map_append, ← append_assoc, h.order,
      sendCalls_append_call, bulk_append, bulk_singleton payload htype]
    rfl

variable {e : Emitted}

/-- The log with one more packet that `packet_send2` did not have to hold back. -/
theorem SendInv.bulk_emit
    (hallowed : isTransport type = true ∨ s.send2Rekeying = false)
    (hcall : e.call = (type, payload)) :
    Quarantined (s.emitted ++ [e]) ∧
    bulk ((s.emitted ++ [e]).map call) ++ s.outgoing.map queuedCall =
      bulk (sendCalls (events ++ [.call type payload])) := by
  have htype : e.type = type := congrArg Prod.fst hcall
  constructor
  · apply h.quarantined.append
    rw [htype, ← h.flag]
    exact hallowed
  · rw [map_append, map_singleton, hcall, bulk_append, sendCalls_append_call,
      bulk_append, ← h.order]
    cases ht : isTransport type with
    | true => simp [bulk_singleton_transport payload ht]
    | false =>
      -- outside a key exchange the queue is empty
      have hempty : s.outgoing = [] := by
        by_contra hne
        have hrek := h.waiting hne
        rcases hallowed with hallowed | hallowed
        · rw [ht] at hallowed
          cases hallowed
        · rw [hrek] at hallowed
          cases hallowed
      simp [bulk_singleton payload ht, hempty]

theorem SendInv.emit
    (hallowed : isTransport type = true ∨ s.send2Rekeying = false)
    (hnewkeys : type ≠ newkeys) (hcall : e.call = (type, payload))
    (hemitted : s'.emitted = s.emitted ++ [e]) (houtgoing : s'.outgoing = s.outgoing)
    (hflag : s'.send2Rekeying = if type = kexinit then true else s.send2Rekeying) :
    SendInv (events ++ [.call type payload]) s' := by
  obtain ⟨hquarantined, horder⟩ := h.bulk_emit hallowed hcall
  have htype : e.type = type := congrArg Prod.fst hcall
  refine ⟨?_, ?_, ?_, ?_, ?_⟩
  · rw [hemitted]
    exact hquarantined
  · rw [hflag, hemitted, rekeyingAfter_append_singleton, htype, if_neg hnewkeys, h.flag]
  · rw [houtgoing]
    exact h.queued
  · rw [houtgoing, hflag]
    intro hne
    rw [h.waiting hne, ite_self]
  · rw [hemitted, houtgoing]
    exact horder

/-- When a call fails, its packet is in the log or not. -/
theorem SendInv.halted
    (hallowed : isTransport type = true ∨ s.send2Rekeying = false)
    (hcall : e.call = (type, payload))
    (hemitted : s'.emitted = s.emitted ∨ s'.emitted = s.emitted ++ [e]) :
    SendHalted (events ++ [.call type payload]) s' := by
  obtain ⟨hquarantined, horder⟩ := h.bulk_emit hallowed hcall
  rcases hemitted with hemitted | hemitted
  · refine ⟨hemitted ▸ h.quarantined, ?_⟩
    rw [hemitted, sendCalls_append_call, bulk_append, ← h.order, append_assoc]
    exact prefix_append _ _
  · refine ⟨hemitted ▸ hquarantined, ?_⟩
    rw [hemitted, ← horder]
    exact prefix_append _ _

/-- What a NEWKEYS call does to the queue: the packets in it follow right behind, under
the keys that were pending. -/
def Flushed (s s' : State Ctx Z) : Prop :=
  Installed s s' ∧ s'.outgoing = [] ∧
    ∃ newkeys flushed, s'.emitted = s.emitted ++ newkeys :: flushed ∧
      newkeys.type = Ssh2Msg.newkeys ∧
      flushed.map Emitted.call = s.outgoing.map queuedCall ∧
      ∀ e ∈ flushed, e.keys = s'.send.newkeys

end Step

/-- The flush keeps the invariant: `s1` is the state behind NEWKEYS. -/
theorem SendInv.flush {events : List SendEvent} {s s1 s2 : State Ctx Z} {payload : Bytes}
    (h : SendInv events s)
    (hcall : e.call = (newkeys, payload)) (hem1 : s1.emitted = s.emitted ++ [e])
    (hem2 : s2.emitted = s1.emitted ++ flushed)
    (hmap : flushed.map call <+: s.outgoing.map queuedCall) :
    Quarantined s2.emitted ∧ rekeyingAfter s2.emitted = false ∧
    bulk (s2.emitted.map call) = bulk (s.emitted.map call) ++
      flushed.map call := by
  have htype : e.type = newkeys := congrArg Prod.fst hcall
  have hq1 : Quarantined s1.emitted := by
    rw [hem1]
    exact h.quarantined.append (.inl (by rw [htype]; rfl))
  have hr1 : rekeyingAfter s1.emitted = false := by
    rw [hem1, rekeyingAfter_append_singleton, htype]
    rfl
  have hbulk : ∀ c ∈ flushed.map call, isTransport c.1 = false := by
    intro c hc
    obtain ⟨p, hp, rfl⟩ := mem_map.mp (hmap.subset hc)
    exact (h.queued p hp).1
  have hflushed : ∀ x ∈ flushed, isTransport x.type = false :=
    fun x hx => hbulk _ (mem_map_of_mem hx)
  obtain ⟨hq2, hr2⟩ := hq1.append_bulk hr1 hflushed
  refine ⟨hem2 ▸ hq2, hem2 ▸ hr2, ?_⟩
  have hfilter : bulk (flushed.map call) = flushed.map call := by
    rw [bulk, filter_eq_self]
    intro c hc
    simpa using hbulk c hc
  have htransport : bulk [e.call] = [] := by
    rw [hcall]
    exact bulk_singleton_transport payload rfl
  rw [hem2, hem1]
  simp only [map_append, map_singleton, bulk_append, htransport, hfilter,
    append_nil]

/-- A packet that is not held back: `s0` is the state in which it is sent. -/
theorem sendAndFlush_inv (type : UInt8) (payload : Bytes)
    (s s0 : State Ctx Z) (h : SendInv events s)
    (hallowed : isTransport type = true ∨ s.send2Rekeying = false)
    (hs0 : s0 = { s with
      outgoingPacket := packetStart type ++ payload
      send2Rekeying := if type = kexinit then true else s.send2Rekeying }) :
    wp (sendAndFlush X type)
      (fun _ s' => SendInv (events ++ [.call type payload]) s' ∧
        (type = newkeys → Flushed s s'))
      (fun _ => SendHalted (events ++ [.call type payload])) s0 := by
  have hcall : s0.entry.call = (type, payload) := entry_of_packetStart (by rw [hs0])
  have htype : s0.entry.type = type := congrArg Prod.fst hcall
  have hem0 : s0.emitted = s.emitted := by rw [hs0]
  have hout0 : s0.outgoing = s.outgoing := by rw [hs0]
  simp only [sendAndFlush, wp_bind]
  refine wp_mono (packetSend2Wrapped_spec s0) ?_ ?_
  · rintro _ s1 ⟨hem1, hout1, hrek1, hinst1, -⟩
    rw [hem0] at hem1
    rw [hout0] at hout1
    rw [wp_ite]
    constructor
    · -- NEWKEYS: the queue follows
      rintro rfl
      simp only [wp_bind, wp_modify, wp_get]
      have hinst : Installed s s1 := by
        obtain ⟨k, hk, hnew⟩ := hinst1 htype
        rw [hs0] at hk hnew
        exact ⟨k, hk, hnew⟩
      refine wp_mono (flushOutgoing_spec s1.outgoing _ (hout1 ▸ h.queued) rfl) ?_ ?_
      · rintro _ s2 ⟨hout2, hrek2, hkeys2, flushed, hem2, hmap, hall⟩
        rw [hout1] at hmap
        obtain ⟨hq, hr, hbulk⟩ := h.flush hcall hem1 hem2 (hmap ▸ prefix_rfl)
        refine ⟨⟨hq, hrek2.trans hr.symm, by simp [hout2], by simp [hout2], ?_⟩, fun _ => ?_⟩
        · rw [hbulk, hmap, hout2, sendCalls_append_call, bulk_append, h.order,
            bulk_singleton_transport payload rfl]
          rfl
        · obtain ⟨k, hk, hnew⟩ := hinst
          refine ⟨⟨k, hk, hkeys2.trans hnew⟩, hout2, s0.entry, flushed, ?_, htype, hmap, ?_⟩
          · rw [hem2, hem1, append_assoc]
            rfl
          · intro e he
            rw [hall e he, hkeys2]
      · rintro _ s2 ⟨flushed, hem2, hpre⟩
        rw [hout1] at hpre
        obtain ⟨hq, -, hbulk⟩ := h.flush hcall hem1 hem2 hpre
        refine ⟨hq, ?_⟩
        rw [hbulk, sendCalls_append_call, bulk_append, ← h.order,
          bulk_singleton_transport payload rfl, append_nil]
        exact (prefix_append_right_inj _).mpr hpre
    · intro hne
      rw [wp_pure]
      refine ⟨h.emit hallowed hne hcall hem1 hout1 ?_, fun heq => absurd heq hne⟩
      rw [hrek1, hs0]
  · intro _ s1 hem1
    rw [hem0] at hem1
    exact h.halted hallowed hcall hem1

/-- **One call of `packet_send2`** keeps the invariant, and NEWKEYS flushes the queue. -/
theorem packetSend_inv (type : UInt8) (payload : Bytes)
    (s : State Ctx Z) (h : SendInv events s) :
    wp (packetSend X type payload)
      (fun _ s' => SendInv (events ++ [.call type payload]) s' ∧
        (type = newkeys → Flushed s s'))
      (fun _ => SendHalted (events ++ [.call type payload])) s := by
  have hfifth : (packetStart type ++ payload).getD 5 0 = type := by simp [packetStart]
  simp only [packetSend, packetSend2, wp_bind, wp_modify, wp_get, hfifth]
  rw [wp_ite]
  constructor
  · rintro ⟨hrekeying, htype⟩
    rw [wp_set]
    refine ⟨h.enqueue hrekeying htype rfl rfl rfl, ?_⟩
    intro hnewkeys
    exact absurd hnewkeys (ne_newkeys_of_not_isTransport htype)
  · intro hpass
    have hallowed : isTransport type = true ∨ s.send2Rekeying = false := by
      cases ht : isTransport type with
      | true => exact .inl rfl
      | false =>
        right
        by_contra hrek
        exact hpass ⟨by simpa using hrek, ht⟩
    rw [wp_write]
    exact sendAndFlush_inv events type payload s _ h hallowed rfl

theorem sendStep_inv (e : SendEvent) (s : State Ctx Z)
    (h : SendInv events s) :
    wp (sendStep X e) (fun _ => SendInv (events ++ [e])) (fun _ => SendHalted (events ++ [e]))
      s := by
  cases e with
  | call type payload =>
    exact wp_imp (packetSend_inv events type payload s h) fun _ _ hs => hs.1
  | derive keysIn keysOut =>
    have hcalls : sendCalls (events ++ [.derive keysIn keysOut]) = sendCalls events := by
      simp [sendCalls]
    simp only [sendStep, wp_modify]
    refine { h with order := ?_ }
    rw [hcalls]
    exact h.order

/-- **Rekey quarantine and no loss.** From a state with an empty log and queue and no key
exchange, after any sequence of calls:
the log is quarantined; the bulk packets written, followed by those in the queue, are the
bulk packets of the calls in their order, and the queue is empty unless a key exchange is
going on; and a further NEWKEYS call flushes the queue right behind itself, under the keys
it installs. When a call does not return, the log is still quarantined and in order. -/
theorem packetSend2_quarantine (X : Extern Ctx Z) (s0 : State Ctx Z) (hlog : s0.emitted = [])
    (hqueue : s0.outgoing = []) (hflag : s0.send2Rekeying = false) (events : List SendEvent) :
    wp (runAll (sendStep X) events)
      (fun _ s => Quarantined s.emitted ∧
        bulk (s.emitted.map call) ++ s.outgoing.map queuedCall =
          bulk (sendCalls events) ∧
        (s.outgoing ≠ [] → s.send2Rekeying = true) ∧
        ∀ payload, wp (packetSend X newkeys payload) (fun _ => Flushed s)
          (fun _ _ => True) s)
      (fun _ s => Quarantined s.emitted ∧
        bulk (s.emitted.map call) <+: bulk (sendCalls events)) s0 := by
  have hinit : SendInv [] s0 := by
    refine ⟨?_, ?_, by simp [hqueue], by simp [hqueue], by simp [hlog, hqueue, bulk, sendCalls]⟩
    · rw [hlog]
      intro before kexinit between e after hsplit
      simp at hsplit
    · rw [hlog, hflag]
      rfl
  have hrun := wp_runAll SendInv (fun es _ s => SendHalted es s) (sendStep_inv (X := X))
    events [] s0 hinit
  refine wp_mono hrun ?_ ?_
  · intro _ s hs
    refine ⟨hs.quarantined, hs.order, hs.waiting, fun payload => ?_⟩
    exact wp_weaken (packetSend_inv _ _ payload s hs) fun _ _ h => h.2 rfl
  · rintro _ s ⟨more, rest, rfl, hq, hpre⟩
    refine ⟨hq, hpre.trans ?_⟩
    have hsplit : sendCalls (more ++ rest) = sendCalls more ++ sendCalls rest := by
      simp [sendCalls]
    rw [hsplit, bulk_append]
    exact prefix_append _ _

-- a KEXINIT and then two data packets: both wait
theorem packetSend2_quarantine_waiting :
    ∃ s : State Unit Unit,
      s = endState (runAll (sendStep Extern.null)
        [.call kexinit [], .call 94 [1], .call 94 [2]]) (State.start () () () ()) ∧
      s.outgoing.map queuedCall = [(94, [1]), (94, [2])] ∧
      Quarantined s.emitted ∧ s.send2Rekeying = true := by
  have h := packetSend2_quarantine Extern.null (.start () () () ()) rfl rfl rfl
    [.call kexinit [], .call 94 [1], .call 94 [2]]
  have hout : (endState (runAll (sendStep Extern.null)
      [.call kexinit [], .call 94 [1], .call 94 [2]])
      (.start () () () ())).outgoing.map queuedCall = [(94, [1]), (94, [2])] := by
    decide +kernel
  have hend := wp_endState h (by decide +kernel)
  generalize endState (runAll (sendStep Extern.null) _) _ = s at hout hend ⊢
  obtain ⟨-, hq, -, hwait, -⟩ := hend
  refine ⟨s, rfl, hout, hq, hwait ?_⟩
  intro hnil
  simp [hnil] at hout

end Shiesh.Transport
