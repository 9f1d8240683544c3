import Shiesh.Transport.Link

/-!
# Packet Layer Round Trip

One end writes packets with `packet_send2_wrapped`, the other end reads the bytes with
`packet_read_poll2`, in pieces of any size and across changes of keys. It gets the packets
that were written, with their sequence numbers.

The induction over the packets (`InStep.run`) keeps the two ends in step: the directions
are linked, nothing is on the way, and the same key set is pending at both ends.
-/

namespace Shiesh.Transport

open Shiesh.Lib Peer Emitted
open Ssh2Msg (newkeys)

variable {Ctx Z : Type} {X : Extern Ctx Z}

/-! ## §1 Sequences of packets -/

/-- One packet is put together and written, with the keys `k` pending. -/
def sendItem (X : Extern Ctx Z) (k : Option Newkeys) (type : UInt8) (payload : Bytes) :
    PacketM Ctx Z Unit := do
  modify fun s => { s with
    send := { s.send with currentKeys := k }
    outgoingPacket := packetStart type ++ payload }
  packetSend2Wrapped X

/-- The key sets that are left after a packet of this type. -/
def keysAfter (type : UInt8) (keys : List MatchingKeys) : List MatchingKeys :=
  if type = newkeys then keys.tail else keys

/-- Packets are written one after the other; each NEWKEYS takes the next key set. -/
def sendItems (X : Extern Ctx Z) : List MatchingKeys → List (UInt8 × Bytes) → PacketM Ctx Z Unit
  | _, [] => pure ()
  | keys, (type, payload) :: rest => do
    sendItem X (keys.head?.map (·.toNewkeys)) type payload
    sendItems X (keysAfter type keys) rest

/-- `packet_length` of a payload in blocks of this size. -/
def packetLength (blockSize : Nat) (payload : Bytes) : Nat :=
  2 + payload.length + (padlenFor blockSize (6 + payload.length)).toNat

/-- The packets can be sent when `count` packets were sent before in blocks of this size:
the types and the lengths are in range, there are keys for each NEWKEYS, and fewer than
2^32 packets use one key set. -/
def Sendable : List MatchingKeys → Nat → Nat → List (UInt8 × Bytes) → Prop
  | _, _, _, [] => True
  | keys, blockSize, count, (type, payload) :: rest =>
    (1 ≤ type.toNat ∧ type.toNat < 192) ∧ packetLength blockSize payload ≤ 256 * 1024 ∧
      count + 1 < 2 ^ 32 ∧
      if type = newkeys then
        ∃ k ks, keys = k :: ks ∧ Sendable ks k.enc.blockSize 0 rest
      else Sendable keys blockSize (count + 1) rest

/-- How many changes of keys the caller has seen. -/
def newkeysCount (got : List Delivery) : Nat := got.countP (·.type = newkeys)

/-- The key exchange of the receiving end: the key set number `n` is pending after `n`
NEWKEYS. -/
def supply (keys : List MatchingKeys) (got : List Delivery) : Option WireKeys :=
  keys[newkeysCount got]?.map (·.toWireKeys)

/-- The packet of a log entry as the other end should see it. -/
def Emitted.delivery (e : Emitted) : Delivery := ⟨e.type, e.seqnr, e.payload⟩

/-! ## §2 The two ends in step -/

/-- The two ends between two packets: nothing is on the way. -/
structure InStep (L : CipherLaws X) (all keys : List MatchingKeys) (blockSize count : Nat)
    (s : State Ctx Z) (q : Peer Ctx Z) : Prop where
  link : Linked L s.send q.conn.recv
  block_eq : s.send.blockSize = blockSize
  count_eq : s.send.p.packets.toNat = count
  extraPad : s.extraPad = 0
  between : q.conn.poll2PacketLength = 0
  empty : q.conn.input = []
  pending : q.conn.recv.currentKeys = keys.head?.map (·.toNewkeys)
  left : keys = all.drop (newkeysCount q.got)

namespace InStep

variable {L : CipherLaws X} {all keys : List MatchingKeys} {blockSize count : Nat}
  {s : State Ctx Z} {q : Peer Ctx Z}

variable (h : InStep L all keys blockSize count s q)
include h

theorem readable : q.conn.Readable := by
  constructor
  · rw [h.link.blockSize]
    exact h.link.block
  · intro k hk
    rw [h.pending, Option.map_eq_some_iff] at hk
    obtain ⟨k', -, rfl⟩ := hk
    exact k'.wireBlock
  · exact fun hne => absurd h.between hne

theorem canSend (type : UInt8) (payload : Bytes)
    (hcount : count + 1 < 2 ^ 32) (hkeys : type = newkeys → ∃ k ks, keys = k :: ks) :
    CanSend type { s with
      send := { s.send with currentKeys := keys.head?.map (·.toNewkeys) }
      outgoingPacket := packetStart type ++ payload } := by
  constructor
  · exact h.link.block
  · exact h.link.sendContext
  · exact h.link.maclen
  · exact h.link.compEnabled
  · exact h.extraPad
  · intro hzero
    have hnat := congrArg UInt32.toNat hzero
    rw [UInt32.toNat_add, h.count_eq] at hnat
    simp only [UInt32.toNat_one, UInt32.toNat_zero] at hnat
    omega
  · intro htype
    obtain ⟨k, ks, rfl⟩ := hkeys htype
    exact ⟨k.toNewkeys, rfl, k.fits⟩

/-- Linked directions stay so when other keys are pending. -/
theorem link_pending (k : Option Newkeys) :
    Linked L { s.send with currentKeys := k } q.conn.recv :=
  ⟨h.link.newkeys, h.link.seqnr, h.link.packets, h.link.block, h.link.sendContext,
    h.link.recvContext, h.link.maclen, h.link.noComp, h.link.sync⟩

/-- The caller's side after a packet: what is pending, and what is left. -/
theorem take_pending {d : Delivery}
    {t : State Ctx Z} (hpending : t.recv.currentKeys =
      if d.type = newkeys then none else q.conn.recv.currentKeys) :
    keysAfter d.type keys = all.drop (newkeysCount (q.got ++ [d])) ∧
      (take (supply all) d { q with conn := t }).conn.recv.currentKeys =
        (keysAfter d.type keys).head?.map (·.toNewkeys) := by
  have hleft : keysAfter d.type keys = all.drop (newkeysCount (q.got ++ [d])) := by
    rw [newkeysCount, List.countP_append, List.countP_singleton, ← newkeysCount, keysAfter, h.left]
    by_cases htype : d.type = newkeys
    · simp only [htype, if_true, decide_true, List.tail_drop]
    · simp only [htype, if_false, decide_false, Bool.false_eq_true, add_zero]
  refine ⟨hleft, ?_⟩
  simp only [take, supply]
  rw [← List.head?_drop, ← hleft]
  cases hhead : (keysAfter d.type keys).head? with
  | some k => rfl
  | none =>
    simp only [Option.map_none, hpending]
    by_cases htype : d.type = newkeys
    · rw [if_pos htype]
    · rw [keysAfter, if_neg htype] at hhead
      rw [if_neg htype, h.pending, hhead]
      rfl

/-- The ends are in step again when the directions are linked. -/
theorem next {d : Delivery} {t s' : State Ctx Z}
    (count' : Nat) (hlink : Linked L s'.send t.recv) (hcount : s'.send.p.packets.toNat = count')
    (hextra : s'.extraPad = 0) (hbetween : t.poll2PacketLength = 0) (hempty : t.input = [])
    (hpending : t.recv.currentKeys =
      if d.type = newkeys then none else q.conn.recv.currentKeys) :
    InStep L all (keysAfter d.type keys) s'.send.blockSize count' s'
      (take (supply all) d { q with conn := t }) := by
  obtain ⟨hleft, hhead⟩ := h.take_pending hpending
  refine ⟨?_, rfl, hcount, hextra, ?_, ?_, hhead, hleft⟩
  · -- the caller only changes which keys are pending
    have hrecv : ∃ k, (take (supply all) d { q with conn := t }).conn.recv =
        { t.recv with currentKeys := k } := by
      simp only [take]
      cases supply all (q.got ++ [d]) with
      | none => exact ⟨t.recv.currentKeys, rfl⟩
      | some k => exact ⟨some k.toNewkeys, rfl⟩
    obtain ⟨k, hrecv⟩ := hrecv
    rw [hrecv]
    exact { hlink with }
  · rw [take_poll2PacketLength]
    exact hbetween
  · rw [take_input]
    exact hempty

/-- **One packet**: it is sent, the other end reads it, and the ends are in step again. -/
theorem step {type : UInt8} {payload : Bytes}
    (htype : 1 ≤ type.toNat ∧ type.toNat < 192)
    (hsize : packetLength blockSize payload ≤ 256 * 1024) (hcount : count + 1 < 2 ^ 32)
    (hkeys : type = newkeys → ∃ k ks, keys = k :: ks) :
    ∃ s' w e q', sendItem X (keys.head?.map (·.toNewkeys)) type payload s = .ok () s' ∧
      s'.output = s.output ++ w ∧ s'.emitted = s.emitted ++ [e] ∧
      e.type = type ∧ e.payload = payload ∧
      (incoming X (supply all)).poll (q.feed w) = .ok (some e.delivery) q' ∧
      (∀ k ks, type = newkeys → keys = k :: ks →
        InStep L all ks k.enc.blockSize 0 s' q') ∧
      (type ≠ newkeys → InStep L all keys blockSize (count + 1) s' q') := by
  have hcan := h.canSend type payload hcount hkeys
  obtain ⟨_, s', hsend, pad, hpad, hwritten⟩ :=
    ok_of_wp_total (packetSend2Wrapped_sends (X := X) rfl hcan)
  generalize hd : ({ s.send with currentKeys := keys.head?.map (·.toNewkeys) } :
    Direction Ctx) = d at hpad hwritten
  have hlink : Linked L d q.conn.recv := hd ▸ h.link_pending _
  have hpackets : d.p = s.send.p := by rw [← hd]
  have hdblock : d.blockSize = blockSize := by
    rw [← hd]
    exact h.block_eq
  let c := (X.evpCipher d.context.evp (plainPacket type payload pad)).1
  let w := c ++ d.tag X (plainPacket type payload pad)
  have harrived : Arrived L d (q.feed w).conn type payload pad := by
    refine ⟨hlink, h.between, hpad, ?_, ?_, htype, ?_, ?_⟩
    · rw [hpad, hdblock]
      exact hsize
    · rw [hpackets]
      exact hcan.count
    · intro hnew
      obtain ⟨k, ks, rfl⟩ := hkeys hnew
      exact ⟨k.toNewkeys, h.pending, k.fits⟩
    · show q.conn.input ++ w = w
      rw [h.empty, List.nil_append]
  obtain ⟨_, t', hread, rfl, htaken⟩ := ok_of_wp_total (packetReadPoll2_reads harrived)
  have hpoll := poll_of_some (supply all) hread
  rw [htaken.payload] at hpoll
  have hlinked : Linked L (d.sent X (plainPacket type payload pad)) (q.conn.recv.read X c) :=
    hlink.step harrived.aligned harrived.oneBlock
  refine ⟨s', w, _, _, hsend, hwritten.output, hwritten.emitted, rfl, rfl, hpoll, ?_, ?_⟩
  · -- both ends install the next key set
    rintro k ks rfl rfl
    obtain ⟨-, k1, hk1, hsend'⟩ := hwritten.send.resolve_right fun hne => hne.1 rfl
    obtain ⟨-, k2, hk2, hrecv'⟩ := htaken.recv.resolve_right fun hne => hne.1 rfl
    obtain rfl : k.toNewkeys = k1 := by
      rw [← hd] at hk1
      exact Option.some.inj hk1
    obtain rfl : k.toNewkeys = k2 := Option.some.inj (h.pending.symm.trans hk2)
    have hnew : Linked L s'.send t'.recv := by
      rw [hsend', hrecv']
      exact Linked.installed L _ _ k _ _ _ _ hlinked.seqnr
    have hnext := h.next (d := ⟨newkeys, d.p.seqnr, payload⟩) 0 hnew
      (by rw [hsend']; rfl) hwritten.extraPad htaken.between htaken.input
      (by rw [hrecv']; rfl)
    have hblock : s'.send.blockSize = k.enc.blockSize := by
      rw [hsend']
      rfl
    rw [hblock] at hnext
    exact hnext
  · intro hne
    obtain ⟨-, hsend'⟩ := hwritten.send.resolve_left fun hnew => hne hnew.1
    obtain ⟨-, hrecv'⟩ := htaken.recv.resolve_left fun hnew => hne hnew.1
    have hold : Linked L s'.send t'.recv := by
      rw [hsend', hrecv']
      exact hlinked
    have hcount' : s'.send.p.packets.toNat = count + 1 := by
      rw [hsend']
      show (d.p.packets + 1).toNat = count + 1
      rw [hpackets, UInt32.toNat_add, h.count_eq]
      exact Nat.mod_eq_of_lt hcount
    have hnext := h.next (d := ⟨type, d.p.seqnr, payload⟩) _ hold hcount' hwritten.extraPad
      htaken.between htaken.input (by rw [hrecv', if_neg hne]; rfl)
    have hblock : s'.send.blockSize = blockSize := by
      rw [hsend']
      exact hdblock
    have hleft : keysAfter type keys = keys := if_neg hne
    rw [hblock] at hnext
    simp only [hleft] at hnext
    exact hnext

/-- A sequence of packets, by induction on it. -/
theorem run {items : List (UInt8 × Bytes)}
    (hitems : Sendable keys blockSize count items) :
    ∃ s' w es q', sendItems X keys items s = .ok () s' ∧ s'.output = s.output ++ w ∧
      s'.emitted = s.emitted ++ es ∧ es.map (fun e => (e.type, e.payload)) = items ∧
      (incoming X (supply all)).Polls (q.feed w) (es.map delivery) q' ∧
      (incoming X (supply all)).poll q' = .ok none q' := by
  induction items generalizing keys blockSize count s q with
  | nil =>
    refine ⟨s, [], [], q, rfl, by simp, by simp, rfl, ?_, ?_⟩
    · have hfeed : q.feed [] = q := (incoming X (supply all)).feed_nil q
      rw [hfeed]
      exact .nil q
    · -- there is not even a block in the input
      have hshort : q.conn.input.length < q.conn.recv.blockSize := by
        rw [h.empty, h.link.blockSize]
        rcases h.link.block with hb | hb <;> rw [hb] <;> decide
      exact poll_of_none (bind_of_ok (readLength_short h.between hshort))
  | cons item rest ih =>
    obtain ⟨type, payload⟩ := item
    obtain ⟨htype, hsize, hcount, hrest⟩ := hitems
    have hkeys : type = newkeys → ∃ k ks, keys = k :: ks := by
      intro hnew
      rw [if_pos hnew] at hrest
      obtain ⟨k, ks, hks, -⟩ := hrest
      exact ⟨k, ks, hks⟩
    obtain ⟨s1, w1, e1, q1, hsend, hout, hem, rfl, rfl, hpoll, hnew, hold⟩ :=
      h.step htype hsize hcount hkeys
    -- the rest starts from the ends in step
    have hnext : ∃ s' w es q', sendItems X (keysAfter e1.type keys) rest s1 = .ok () s' ∧
        s'.output = s1.output ++ w ∧ s'.emitted = s1.emitted ++ es ∧
        es.map (fun e => (e.type, e.payload)) = rest ∧
        (incoming X (supply all)).Polls (q1.feed w) (es.map delivery) q' ∧
        (incoming X (supply all)).poll q' = .ok none q' := by
      by_cases hn : e1.type = newkeys
      · rw [if_pos hn] at hrest
        obtain ⟨k, ks, rfl, hrest⟩ := hrest
        rw [keysAfter, if_pos hn]
        exact ih (hnew k ks hn rfl) hrest
      · rw [if_neg hn] at hrest
        rw [keysAfter, if_neg hn]
        exact ih (hold hn) hrest
    obtain ⟨s', w2, es, q', hsends, hout', hem', hcalls, hpolls, hnone⟩ := hnext
    refine ⟨s', w1 ++ w2, e1 :: es, q', ?_, ?_, ?_, ?_, ?_, hnone⟩
    · rw [sendItems, bind_of_ok hsend]
      exact hsends
    · rw [hout', hout, List.append_assoc]
    · rw [hem', hem, List.append_assoc]
      rfl
    · rw [List.map_cons, hcalls]
    · have hvalid : (q.feed w1).conn.Readable :=
        (incoming X (supply all)).feed_valid w1 h.readable
      have hfeed : q.feed (w1 ++ w2) = (q.feed w1).feed w2 :=
        ((incoming X (supply all)).feed_feed w1 w2 q).symm
      rw [hfeed]
      exact .cons ((incoming X (supply all)).poll_some w2 hvalid hpoll) hpolls

end InStep

/-! ## §3 The round trip -/

/-- The receiving end of a new connection, with the first of the key sets pending. -/
def Peer.start (keys : List MatchingKeys) (receive send : Ctx) (inflate deflate : Z) :
    Peer Ctx Z where
  conn :=
    { State.start receive send inflate deflate with
      recv := { (State.start receive send inflate deflate).recv with
        currentKeys := keys.head?.map (·.toNewkeys) } }

/-- **Packet layer round trip.** Packets that can be sent are sent, in their order. However
the bytes are cut into pieces and whenever the other end polls, it gets a prefix of them,
and all of them with enough polls at the end: the same types and payloads, each with the
sequence number it was sent with. -/
theorem packet_roundTrip (L : CipherLaws X) (keys : List MatchingKeys)
    (items : List (UInt8 × Bytes)) (encrypt decrypt other other' : Ctx) (z z' : Z)
    (hsync : L.Sync 8 encrypt decrypt) (hitems : Sendable keys 8 0 items) :
    ∃ s', sendItems X keys items (State.start other encrypt z z') = .ok () s' ∧
      s'.emitted.map (fun e => (e.type, e.payload)) = items ∧
      ∀ es, Event.stream es = s'.output →
        ((incoming X (supply keys)).run es (start keys decrypt other' z z')).1 <+:
          s'.emitted.map delivery ∧
        ∀ n, items.length ≤ n →
          ((incoming X (supply keys)).run (es ++ List.replicate n .poll)
            (start keys decrypt other' z z')).1 = s'.emitted.map delivery := by
  have hstart : InStep L keys keys 8 0 (State.start other encrypt z z')
      (.start keys decrypt other' z z') := by
    refine ⟨⟨rfl, rfl, rfl, .inl rfl, rfl, rfl, Nat.zero_le _, ?_, hsync⟩, rfl, rfl, rfl, rfl,
      rfl, rfl, rfl⟩
    intro k hk
    cases hk
  obtain ⟨s', w, es', q', hsends, hout, hem, hcalls, hpolls, hnone⟩ := hstart.run hitems
  refine ⟨s', hsends, ?_, ?_⟩
  · rw [hem]
    exact hcalls
  · intro es hes
    rw [hem]
    obtain ⟨hpfx, hall⟩ := Reader.run_complete (R := incoming X (supply keys)) hstart.readable
      hpolls hnone es (hes.trans hout)
    refine ⟨hpfx, ?_⟩
    intro n hn
    have hlength : (es'.map delivery).length = items.length := by
      rw [← hcalls, List.length_map, List.length_map]
    exact hall n (hlength.trans_le hn)

/-- The keys of the witness -/
def sampleKeys : MatchingKeys where
  toNewkeys := sampleNewkeys
  wireBlock := Or.inl rfl
  cipherBlock := rfl
  keyLen_le := Nat.le_refl _
  macLen_le := Nat.le_of_ble_eq_true rfl
  noComp := ⟨rfl, rfl⟩

-- a packet in the clear, a change of keys and a packet under the new keys
theorem packet_roundTrip_newkeys :
    ∃ s', sendItems Extern.null [sampleKeys] [(2, [1, 2, 3]), (newkeys, []), (94, [5])]
        (State.start () () () ()) = .ok () s' ∧
      ∀ es, Event.stream es = s'.output →
        ((incoming Extern.null (supply [sampleKeys])).run (es ++ List.replicate 3 .poll)
          (start [sampleKeys] () () () ())).1 = s'.emitted.map delivery := by
  have hitems : Sendable [sampleKeys] 8 0 [(2, [1, 2, 3]), (newkeys, []), (94, [5])] := by
    refine ⟨by decide, by decide, by decide, ⟨by decide, by decide, by decide, sampleKeys, [], rfl,
      by decide, by decide, by decide, trivial⟩⟩
  obtain ⟨s', hs', -, hrun⟩ := packet_roundTrip CipherLaws.null [sampleKeys]
    [(2, [1, 2, 3]), (newkeys, []), (94, [5])] () () () () () () trivial hitems
  exact ⟨s', hs', fun es hes => (hrun es hes).2 3 (Nat.le_refl 3)⟩

end Shiesh.Transport
