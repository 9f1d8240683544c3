import Shiesh.Lib.Reader
import Shiesh.Transport.Feed

/-!
# Authenticated Delivery

A connection that is polled for packets while its input arrives in pieces is an
incremental reader (`Shiesh.Lib.Reader`). Each packet it delivers was at the front of the
input, complete, with a valid MAC, and the packets are determined by the byte stream.
-/

namespace Shiesh.Transport

open Shiesh.Lib List State

variable {Ctx Z : Type} {X : Extern Ctx Z}

/-! ## §1 The packet behind its first block -/

/-- The state after the packet was decrypted and its MAC taken off the input. -/
def State.unsealed (X : Extern Ctx Z) (s : State Ctx Z) : State Ctx Z :=
  { s.restBlocks X with input := (s.restBlocks X).input.drop s.recv.maclen.toNat }

theorem finishPacket_spec (s : State Ctx Z) :
    wp (finishPacket X)
      (fun r s' => Authentic X (s.restBlocks X) ∧ r.2 = s.recv.p.seqnr ∧
        Deliverable X (s.unsealed X) r.1 s'.incomingPacket ∧ Delivered X r.1 (s.unsealed X) s')
      (fun _ _ => ¬ Authentic X (s.restBlocks X) ∨
        ∀ type payload, ¬ Deliverable X (s.unsealed X) type payload) (s.restBlocks X) := by
  simp only [finishPacket, wp_bind]
  apply wp_mono (checkMac_spec _)
  · rintro _ s1 ⟨hauth, rfl⟩
    apply wp_mono (afterMac_spec _)
    · rintro r s' ⟨hdel, hseqnr, hend⟩
      exact ⟨hauth, hseqnr, hdel, hend⟩
    · intro _ _ h
      exact .inr h
  · intro _ _ h
    exact .inl h

variable {s s' : State Ctx Z} {r : UInt8 × UInt32} {type : UInt8}

theorem readBody_spec (hneed : s.need.toNat % s.recv.blockSize = 0)
    (hall : (s.need + s.recv.maclen).toNat ≤ s.input.length) (h : s.need.toNat ≤ s.input.length) :
    wp (readBody X)
      (fun r s' => ∃ type, r = some (type, s.recv.p.seqnr) ∧ Authentic X (s.restBlocks X) ∧
        Deliverable X (s.unsealed X) type s'.incomingPacket ∧ Delivered X type (s.unsealed X) s')
      (fun _ _ => s.need.toNat % s.recv.context.blockSize ≠ 0 ∨
        ¬ Authentic X (s.restBlocks X) ∨
        ∀ type payload, ¬ Deliverable X (s.unsealed X) type payload) s := by
  simp only [readBody, wp_bind]
  apply wp_mono (readRest_spec hneed hall h)
  · rintro full s1 ⟨rfl, rfl⟩
    rw [if_pos rfl, wp_bind]
    apply wp_mono (finishPacket_spec s)
    · rintro ⟨type, seqnr⟩ s' ⟨hauth, hseqnr, hdel, hend⟩
      rw [wp_pure]
      simp only at hseqnr
      exact ⟨type, by rw [hseqnr], hauth, hdel, hend⟩
    · intro _ _ h
      exact .inr h
  · intro _ _ h
    exact .inl h

/-- A body is delivered only when the packet was there with its MAC. -/
theorem readBody_some (h : readBody X s = .ok (some r) s') :
    s.need.toNat % s.recv.blockSize = 0 ∧ (s.need + s.recv.maclen).toNat ≤ s.input.length ∧
      s.need.toNat ≤ s.input.length := by
  by_cases hneed : s.need.toNat % s.recv.blockSize = 0
  · by_cases hall : (s.need + s.recv.maclen).toNat ≤ s.input.length
    · by_cases hrest : s.need.toNat ≤ s.input.length
      · exact ⟨hneed, hall, hrest⟩
      · rw [readBody_error (readRest_wrapped hneed hall (by omega))] at h
        cases h
    · have hnone : readBody X s = .ok none s := bind_of_ok (readRest_short hneed (by omega))
      rw [hnone] at h
      cases h
  · rw [readBody_error (readRest_misaligned hneed)] at h
    cases h

/-! ## §2 Accepted packets -/

/-- A packet as its caller sees it. -/
structure Delivery where
  type : UInt8
  seqnr : UInt32
  payload : Bytes
  deriving DecidableEq, Repr

/-- The parts of a packet on the wire: the encrypted bytes, the MAC, and what the
encrypted bytes decrypt to. -/
structure Frame where
  raw : Bytes
  tag : Bytes
  plain : Bytes

namespace Frame

/-- `packet_length` -/
def length (f : Frame) : Nat := (getU32 (f.plain.take 4)).toNat

def padlen (f : Frame) : Nat := (f.plain.getD 4 0).toNat

/-- What is between the header and the padding. -/
def body (f : Frame) : Bytes := (f.plain.drop 5).take (f.length - 1 - f.padlen)

end Frame

/-- The frame `f` was at the front of the input of `s`, complete and with a valid MAC;
`d` is what it carries, and `s'` has the input behind it. -/
structure Accepted (X : Extern Ctx Z) (s : State Ctx Z) (f : Frame) (d : Delivery)
    (s' : State Ctx Z) : Prop where
  input : s.input = f.raw ++ f.tag ++ s'.input
  raw_length : f.raw.length = 4 + f.length
  tag_length : f.tag.length = s.recv.maclen.toNat
  length_bounds : 5 ≤ f.length ∧ f.length ≤ 256 * 1024
  -- the first block is decrypted before the others
  decrypted : f.plain =
    (X.evpCipher s.recv.context.evp (f.raw.take s.recv.blockSize)).1 ++
      (X.evpCipher (X.evpCipher s.recv.context.evp (f.raw.take s.recv.blockSize)).2
        (f.raw.drop s.recv.blockSize)).1
  authentic : ∀ mac, s.recv.mac = some mac →
    f.tag = (X.macCompute mac s.recv.p.seqnr f.plain).take mac.macLen.toNat
  seqnr : d.seqnr = s.recv.p.seqnr
  padlen_low : 4 ≤ f.padlen
  body_length : f.body.length + f.padlen + 1 = f.length
  content : if s.recv.compEnabled then
      ∃ stream, X.bufferUncompress s.incomingStream f.body = .ok (d.type :: d.payload, stream)
    else f.body = d.type :: d.payload

theorem maclen_le_of_authentic {t : State Ctx Z} (h : Authentic X t)
    (hrecv : t.recv.mac = s.recv.mac) : s.recv.maclen.toNat ≤ evpMaxMdSize := by
  cases hmac : s.recv.mac with
  | none =>
    rw [maclen_eq_zero hmac]
    exact Nat.zero_le _
  | some mac =>
    have hmaclen : s.recv.maclen = mac.macLen := by simp only [Direction.maclen, hmac]
    rw [hmaclen]
    exact (h mac (hrecv.trans hmac)).1

/-- The frame that `packet_read_poll2` takes off the input of `s`. -/
def State.frame (X : Extern Ctx Z) (s : State Ctx Z) : Frame where
  raw := s.input.take (s.recv.blockSize + (s.firstBlock X).need.toNat)
  tag := (s.input.drop (s.recv.blockSize + (s.firstBlock X).need.toNat)).take s.recv.maclen.toNat
  plain := ((s.firstBlock X).restBlocks X).incomingPacket

theorem firstBlock_length (hblock : s.recv.blockSize ≤ s.input.length) :
    (s.firstBlock X).incomingPacket.length = s.recv.blockSize := by
  simp only [firstBlock, X.evpCipher_length, length_take_of_le hblock]

theorem frame_length (hs : s.Readable) (hblock : s.recv.blockSize ≤ s.input.length) :
    (s.frame X).length = (s.firstBlock X).poll2PacketLength.toNat := by
  have h4 : 4 ≤ (s.firstBlock X).incomingPacket.length := by
    rw [firstBlock_length hblock]
    rcases hs.block with h | h <;> omega
  have hplain : (s.frame X).plain.take 4 = (s.firstBlock X).incomingPacket.take 4 :=
    take_append_of_le_length h4
  rw [Frame.length, hplain]
  rfl

theorem accepted_frame (hs : s.Readable) (hblock : s.recv.blockSize ≤ s.input.length)
    (hlen : LengthOk (s.firstBlock X).poll2PacketLength)
    (hneed : (s.firstBlock X).need.toNat % s.recv.blockSize = 0)
    (hall : ((s.firstBlock X).need + s.recv.maclen).toNat ≤ (s.firstBlock X).input.length)
    (hauth : Authentic X ((s.firstBlock X).restBlocks X))
    (hdel : Deliverable X ((s.firstBlock X).unsealed X) type s'.incomingPacket)
    (hend : Delivered X type ((s.firstBlock X).unsealed X) s') :
    Accepted X s (s.frame X) ⟨type, s.recv.p.seqnr, s'.incomingPacket⟩ s' := by
  have hfirst : (s.firstBlock X).Readable := firstBlock_readable hs hlen
  have hmaclen : s.recv.maclen.toNat ≤ evpMaxMdSize := maclen_le_of_authentic hauth rfl
  have hadd : (s.firstBlock X).need.toNat + s.recv.blockSize = 4 + (s.frame X).length := by
    rw [frame_length hs hblock]
    exact hfirst.need_add hlen.ne_zero hneed
  have hinput : (s.firstBlock X).input = s.input.drop s.recv.blockSize := rfl
  have hroom : (s.firstBlock X).need.toNat + s.recv.maclen.toNat ≤
      s.input.length - s.recv.blockSize := by
    have hnowrap := need_add_maclen hfirst hlen.ne_zero hneed hmaclen
    have hsame : (s.firstBlock X).recv.maclen = s.recv.maclen := rfl
    rw [hsame] at hnowrap
    rw [hnowrap, hinput, length_drop] at hall
    exact hall
  have hplain : (s.frame X).plain.length = 4 + (s.frame X).length := by
    rw [← hadd]
    simp only [frame, restBlocks, length_append, X.evpCipher_length,
      length_take, hinput, length_drop, firstBlock_length hblock]
    omega
  have hlength : (((s.firstBlock X).unsealed X).incomingPacket.drop 5).length =
      (s.frame X).plain.length - 5 := length_drop
  have hpad : (s.frame X).padlen ≤ (s.frame X).length - 1 := by
    have h := hdel.padHigh
    rw [hlength, hplain] at h
    have hsame : ((s.firstBlock X).unsealed X).padlen = (s.frame X).padlen := rfl
    omega
  have hbounds : 5 ≤ (s.frame X).length ∧ (s.frame X).length ≤ 256 * 1024 := by
    rw [frame_length hs hblock]
    exact hlen
  -- the body that `stripPadding` leaves is the body of the frame
  have hbody : ((s.firstBlock X).unsealed X).body = (s.frame X).body := by
    have hless : (s.frame X).plain.length - 5 = (s.frame X).length - 1 := by omega
    rw [body, hlength, hless]
    rfl
  constructor
  · show s.input = s.input.take _ ++ (s.input.drop _).take _ ++ s'.input
    have hrest : s'.input =
        (s.input.drop (s.recv.blockSize + (s.firstBlock X).need.toNat)).drop
          s.recv.maclen.toNat :=
      hend.input.trans (congrArg (drop s.recv.maclen.toNat) drop_drop)
    rw [hrest, append_assoc, take_append_drop, take_append_drop]
  · show (s.input.take _).length = _
    rw [length_take, ← hadd]
    omega
  · show ((s.input.drop _).take _).length = _
    rw [length_take, length_drop]
    omega
  · exact hbounds
  · have htake : (s.frame X).raw.take s.recv.blockSize = s.input.take s.recv.blockSize := by
      simp only [frame, take_take]
      congr 1
      omega
    have hdrop : (s.frame X).raw.drop s.recv.blockSize =
        (s.firstBlock X).input.take (s.firstBlock X).need.toNat := by
      simp only [frame, drop_take, hinput]
      congr 1
      omega
    rw [htake, hdrop]
    rfl
  · intro mac hmac
    have h := (hauth mac hmac).2
    have hsame : s.recv.maclen = mac.macLen := by simp only [Direction.maclen, hmac]
    have htag : (s.frame X).tag =
        ((s.firstBlock X).restBlocks X).input.take mac.macLen.toNat := by
      simp only [frame, restBlocks, hinput, drop_drop, hsame]
    rw [htag]
    exact h.symm
  · rfl
  · exact hdel.padLow
  · have hlength : (s.frame X).body.length = (s.frame X).length - 1 - (s.frame X).padlen := by
      rw [Frame.body, length_take, length_drop, hplain]
      omega
    omega
  · have h := hdel.content
    rw [Content, hbody] at h
    have hcomp : ((s.firstBlock X).unsealed X).recv.compEnabled = s.recv.compEnabled := rfl
    rw [hcomp] at h
    by_cases hc : s.recv.compEnabled = true
    · rw [if_pos hc] at h ⊢
      exact h
    · rw [if_neg hc] at h ⊢
      exact h.symm

theorem startDelayed_enc {k k' : Newkeys} (h : startDelayed k = some k') : k'.enc = k.enc := by
  unfold startDelayed at h
  split at h
  · cases h
    rfl
  · cases h

/-- After a delivered packet the connection is readable, between two packets. -/
theorem Delivered.readable (h : Delivered X type s s') (hblock : WireBlock s.recv.blockSize)
    (hpending : ∀ k, s.recv.currentKeys = some k → WireBlock k.enc.blockSize) : s'.Readable := by
  have hlength : s'.poll2PacketLength ≠ 0 → LengthOk s'.poll2PacketLength :=
    fun hne => absurd h.length hne
  rcases h.recv with ⟨-, k, hk, hrecv⟩ | ⟨-, hrecv | ⟨k, k', hk, hk', hrecv⟩⟩
  · -- new keys: nothing is pending any more
    refine ⟨?_, ?_, hlength⟩
    · rw [hrecv]
      exact hpending k hk
    · intro k' hk'
      rw [hrecv] at hk'
      cases hk'
  · refine ⟨?_, ?_, hlength⟩
    · rw [hrecv]
      exact hblock
    · rw [hrecv]
      exact hpending
  · refine ⟨?_, ?_, hlength⟩
    · rw [hrecv]
      show WireBlock k'.enc.blockSize
      rw [startDelayed_enc hk']
      have hnow : s.recv.blockSize = k.enc.blockSize := by
        have hkeys : s.recv.newkeys = some k := hk
        simp only [Direction.blockSize, hkeys]
      rw [← hnow]
      exact hblock
    · rw [hrecv]
      exact hpending

theorem readBody_readable (hs : s.Readable) (h : readBody X s = .ok (some r) s') : s'.Readable := by
  obtain ⟨hneed, hall, hrest⟩ := readBody_some h
  have hspec := readBody_spec (X := X) hneed hall hrest
  rw [wp_of_ok h] at hspec
  obtain ⟨type, -, -, -, hend⟩ := hspec
  exact hend.readable hs.block hs.pending

/-- A poll between two packets: the first block is missing, or refused, or the body
follows. -/
theorem packetReadPoll2_between (hzero : s.poll2PacketLength = 0) :
    (s.input.length < s.recv.blockSize ∧ packetReadPoll2 X s = .ok none s) ∨
    (∃ e s', packetReadPoll2 X s = .error e s') ∨
    (s.recv.blockSize ≤ s.input.length ∧ LengthOk (s.firstBlock X).poll2PacketLength ∧
      packetReadPoll2 X s = readBody X (s.firstBlock X)) := by
  by_cases hblock : s.recv.blockSize ≤ s.input.length
  · right
    cases hread : readLength X s with
    | error e t => exact .inl ⟨e, t, bind_of_error hread⟩
    | ok full t =>
      have hspec := readLength_spec (X := X) hzero hblock
      rw [wp_of_ok hread] at hspec
      obtain ⟨rfl, rfl, hlen⟩ := hspec
      exact .inr ⟨hblock, hlen, packetReadPoll2_true hread⟩
  · left
    exact ⟨by omega, bind_of_ok (readLength_short hzero (by omega))⟩

theorem packetReadPoll2_readable {o : Option (UInt8 × UInt32)}
    (hs : s.Readable) (h : packetReadPoll2 X s = .ok o s') : s'.Readable := by
  have hbody : ∀ {t : State Ctx Z}, t.Readable → t.poll2PacketLength ≠ 0 →
      readBody X t = .ok o s' → s'.Readable := by
    intro t ht hlen h
    cases o with
    | some r => exact readBody_readable ht h
    | none =>
      -- nothing was read
      rcases readBody_feed (X := X) ht hlen with h' | h'
      · rw [h'] at h
        cases h
        exact ht
      · cases h' with
        | some now later =>
          rw [now] at h
          cases h
        | error now later =>
          rw [now] at h
          cases h
  by_cases hzero : s.poll2PacketLength = 0
  · rcases packetReadPoll2_between (X := X) hzero with ⟨-, h'⟩ | ⟨e, t, h'⟩ | ⟨-, hlen, h'⟩
    · rw [h'] at h
      cases h
      exact hs
    · rw [h'] at h
      cases h
    · rw [h'] at h
      exact hbody (firstBlock_readable hs hlen) hlen.ne_zero h
  · rw [packetReadPoll2_true (readLength_inside hzero)] at h
    exact hbody hs hzero h

theorem packetReadPoll2_accepted (hs : s.Readable)
    (hzero : s.poll2PacketLength = 0) (h : packetReadPoll2 X s = .ok (some r) s') :
    (∃ f, Accepted X s f ⟨r.1, r.2, s'.incomingPacket⟩ s') ∧ s'.poll2PacketLength = 0 := by
  rcases packetReadPoll2_between (X := X) hzero with ⟨-, h'⟩ | ⟨e, t, h'⟩ | ⟨hblock, hlen, h'⟩
  · rw [h'] at h
    cases h
  · rw [h'] at h
    cases h
  · rw [h'] at h
    obtain ⟨hneed, hall, hrest⟩ := readBody_some h
    have hbody := readBody_spec (X := X) hneed hall hrest
    rw [wp_of_ok h] at hbody
    obtain ⟨type, hr, hauth, hdel, hend⟩ := hbody
    cases hr
    exact ⟨⟨s.frame X, accepted_frame hs hblock hlen hneed hall hauth hdel hend⟩, hend.length⟩

/-- A poll finds no packet only when the packet is not there with its MAC. -/
theorem packetReadPoll2_none (hs : s.Readable)
    (hzero : s.poll2PacketLength = 0) (h : packetReadPoll2 X s = .ok none s') :
    s.input.length < s.recv.blockSize ∨
      s.input.length < 4 + (s.frame X).length + s.recv.maclen.toNat := by
  rcases packetReadPoll2_between (X := X) hzero with ⟨hshort, -⟩ | ⟨e, t, h'⟩ | ⟨hblock, hlen, h'⟩
  · exact .inl hshort
  · rw [h'] at h
    cases h
  · rw [h'] at h
    right
    by_contra hthere
    -- then the body would be read
    have hfirst := firstBlock_readable hs hlen
    by_cases hneed : (s.firstBlock X).need.toNat % (s.firstBlock X).recv.blockSize = 0
    · have hadd : (s.firstBlock X).need.toNat + s.recv.blockSize = 4 + (s.frame X).length := by
        rw [frame_length hs hblock]
        exact hfirst.need_add hlen.ne_zero hneed
      have hinput : (s.firstBlock X).input.length = s.input.length - s.recv.blockSize :=
        length_drop
      have hle : ((s.firstBlock X).need + (s.firstBlock X).recv.maclen).toNat ≤
          (s.firstBlock X).need.toNat + s.recv.maclen.toNat := by
        rw [UInt32.toNat_add]
        exact Nat.mod_le _ _
      have hbody := readBody_spec (X := X) hneed (by omega) (by omega)
      rw [wp_of_ok h] at hbody
      obtain ⟨type, hr, -⟩ := hbody
      cases hr
    · rw [readBody_error (readRest_misaligned hneed)] at h
      cases h

/-! ## §3 The connection and its caller -/

/-- A key set whose cipher has one of the two block sizes. -/
structure WireKeys extends Newkeys where
  wireBlock : WireBlock enc.blockSize

/-- A connection, and the packets that its caller has got from it. -/
structure Peer (Ctx Z : Type) where
  conn : State Ctx Z
  got : List Delivery := []

namespace Peer

/-- The caller gets a packet. The key exchange decides which keys are pending for
`MODE_IN` from then on: `derive` of all packets so far, where `none` changes nothing. -/
def take (derive : List Delivery → Option WireKeys) (d : Delivery) (p : Peer Ctx Z) :
    Peer Ctx Z where
  conn :=
    match derive (p.got ++ [d]) with
    | some k => { p.conn with recv := { p.conn.recv with currentKeys := some k.toNewkeys } }
    | none => p.conn
  got := p.got ++ [d]

def poll (X : Extern Ctx Z) (derive : List Delivery → Option WireKeys) :
    EStateM Halt (Peer Ctx Z) (Option Delivery) := fun p =>
  match packetReadPoll2 X p.conn with
  | .ok none s => .ok none { p with conn := s }
  | .ok (some r) s =>
    .ok (some ⟨r.1, r.2, s.incomingPacket⟩)
      (take derive ⟨r.1, r.2, s.incomingPacket⟩ { p with conn := s })
  | .error e s => .error e { p with conn := s }

def feed (x : Bytes) (p : Peer Ctx Z) : Peer Ctx Z := { p with conn := p.conn.feed x }

variable (derive : List Delivery → Option WireKeys)

theorem take_feed (d : Delivery) (x : Bytes) (p : Peer Ctx Z) :
    take derive d (p.feed x) = (take derive d p).feed x := by
  simp only [take, feed]
  cases derive (p.got ++ [d]) <;> rfl

variable {p : Peer Ctx Z} {s : State Ctx Z}

theorem take_readable (d : Delivery) (h : p.conn.Readable) :
    (take derive d p).conn.Readable := by
  simp only [take]
  cases derive (p.got ++ [d]) with
  | none => exact h
  | some k =>
    refine ⟨h.block, ?_, h.length⟩
    intro k' hk'
    cases hk'
    exact k.wireBlock

theorem take_poll2PacketLength (d : Delivery) (p : Peer Ctx Z) :
    (take derive d p).conn.poll2PacketLength = p.conn.poll2PacketLength := by
  simp only [take]
  cases derive (p.got ++ [d]) <;> rfl

theorem take_input (d : Delivery) (p : Peer Ctx Z) :
    (take derive d p).conn.input = p.conn.input := by
  simp only [take]
  cases derive (p.got ++ [d]) <;> rfl

theorem poll_of_some {r : UInt8 × UInt32} (h : packetReadPoll2 X p.conn = .ok (some r) s) :
    poll X derive p = .ok (some ⟨r.1, r.2, s.incomingPacket⟩)
      (take derive ⟨r.1, r.2, s.incomingPacket⟩ { p with conn := s }) := by
  simp only [poll, h]

variable {derive}

theorem poll_of_none (h : packetReadPoll2 X p.conn = .ok none s) :
    poll X derive p = .ok none { p with conn := s } := by
  simp only [poll, h]

theorem poll_of_error {e : Halt} (h : packetReadPoll2 X p.conn = .error e s) :
    poll X derive p = .error e { p with conn := s } := by
  simp only [poll, h]

/-- What a poll of the peer says about the poll of its connection. -/
theorem poll_some {p' : Peer Ctx Z} {d : Delivery} (h : poll X derive p = .ok (some d) p') :
    ∃ s, packetReadPoll2 X p.conn = .ok (some (d.type, d.seqnr)) s ∧
      d.payload = s.incomingPacket ∧ p' = take derive d { p with conn := s } := by
  cases hpoll : packetReadPoll2 X p.conn with
  | error e s =>
    rw [poll_of_error hpoll] at h
    cases h
  | ok o s =>
    cases o with
    | none =>
      rw [poll_of_none hpoll] at h
      cases h
    | some r =>
      rw [poll_of_some _ hpoll] at h
      cases h
      exact ⟨s, rfl, rfl, rfl⟩

end Peer

/-- **The reader** of a connection. -/
def incoming (X : Extern Ctx Z) (derive : List Delivery → Option WireKeys) :
    Reader Halt (Peer Ctx Z) UInt8 Delivery where
  feed := Peer.feed
  poll := Peer.poll X derive
  Valid p := p.conn.Readable
  feed_valid _ h := { h with }
  poll_valid := by
    intro p o p' hp h
    cases hpoll : packetReadPoll2 X p.conn with
    | error e s =>
      rw [Peer.poll_of_error hpoll] at h
      cases h
    | ok o s =>
      have hs := packetReadPoll2_readable hp hpoll
      cases o with
      | none =>
        rw [Peer.poll_of_none hpoll] at h
        cases h
        exact hs
      | some r =>
        rw [Peer.poll_of_some _ hpoll] at h
        cases h
        exact Peer.take_readable derive _ hs
  feed_nil p := by simp [Peer.feed, State.feed]
  feed_feed x y p := by simp [Peer.feed, State.feed]
  poll_some := by
    intro p d p' x hp h
    obtain ⟨s, hpoll, hpayload, rfl⟩ := Peer.poll_some h
    rcases packetReadPoll2_feed (X := X) hp with ⟨s', hnow, -⟩ | hsettled
    · rw [hpoll] at hnow
      cases hnow
    · cases hsettled with
      | error now later =>
        rw [hpoll] at now
        cases now
      | some now later =>
        rw [hpoll] at now
        cases now
        have hx := Peer.poll_of_some derive (p := p.feed x) (later x)
        have htake := Peer.take_feed derive d x { p with conn := s }
        rw [hx, ← htake]
        cases d
        cases hpayload
        rfl
  poll_error := by
    intro p e p' x hp h
    rcases packetReadPoll2_feed (X := X) hp with ⟨s', hnow, -⟩ | hsettled
    · rw [Peer.poll_of_none hnow] at h
      cases h
    · cases hsettled with
      | some now later =>
        rw [Peer.poll_of_some _ now] at h
        cases h
      | error now later =>
        obtain ⟨e', s'', hlater⟩ := later x
        exact ⟨e', _, Peer.poll_of_error (p := p.feed x) hlater⟩
  poll_none := by
    intro p p' x hp h
    rcases packetReadPoll2_feed (X := X) hp with ⟨s', hnow, hlater⟩ | hsettled
    · rw [Peer.poll_of_none hnow] at h
      cases h
      show Peer.poll X derive _ = Peer.poll X derive _
      have hx : packetReadPoll2 X (Peer.feed x { p with conn := s' }).conn =
          packetReadPoll2 X (Peer.feed x p).conn := hlater x
      simp only [Peer.poll, hx]
      rfl
    · cases hsettled with
      | some now later =>
        rw [Peer.poll_of_some _ now] at h
        cases h
      | error now later =>
        rw [Peer.poll_of_error now] at h
        cases h

/-! ## §4 The stream decides -/

/-- `d` was delivered from an accepted frame. -/
def AcceptedStep (X : Extern Ctx Z) (p : Peer Ctx Z) (d : Delivery) (p' : Peer Ctx Z) : Prop :=
  ∃ f, Accepted X p.conn f d p'.conn

theorem poll_accepted {derive : List Delivery → Option WireKeys} {p p' : Peer Ctx Z}
    {d : Delivery} (hp : p.conn.Readable) (hzero : p.conn.poll2PacketLength = 0)
    (h : (incoming X derive).poll p = .ok (some d) p') :
    AcceptedStep X p d p' ∧ p'.conn.Readable ∧ p'.conn.poll2PacketLength = 0 := by
  have hread : p'.conn.Readable := (incoming X derive).poll_valid hp h
  obtain ⟨s, hpoll, hpayload, rfl⟩ := Peer.poll_some h
  obtain ⟨⟨f, hf⟩, hlen⟩ := packetReadPoll2_accepted hp hzero hpoll
  refine ⟨⟨f, ?_⟩, hread, ?_⟩
  · cases d
    cases hpayload
    -- the caller does not touch the input
    exact { hf with input := by rw [Peer.take_input]; exact hf.input }
  · rw [Peer.take_poll2PacketLength]
    exact hlen

/-- **Authenticated delivery and length safety.** Whatever arrives, in whatever pieces,
and whenever the connection is polled:

- the packets delivered are accepted one after the other from the front of the stream;
- another cutting of the same stream delivers the same packets, as far as it got;
- a value of `need` that passes the test of its divisibility has not wrapped;
- a poll delivers nothing only when the packet is not complete: it does not skip one. -/
theorem packetReadPoll2_authenticated (X : Extern Ctx Z)
    (derive : List Delivery → Option WireKeys) (p : Peer Ctx Z) (hread : p.conn.Readable)
    (hbetween : p.conn.poll2PacketLength = 0) (es : List (Event UInt8)) :
    (∃ p', Trace (AcceptedStep X) (p.feed (Event.stream es))
      ((incoming X derive).run es p).1 p') ∧
    (∀ fs, Event.stream fs = Event.stream es →
      (((incoming X derive).run es p).1 <+: ((incoming X derive).run fs p).1 ∨
        ((incoming X derive).run fs p).1 <+: ((incoming X derive).run es p).1) ∧
      ((incoming X derive).Drained es p → (incoming X derive).Drained fs p →
        ((incoming X derive).run es p).1 = ((incoming X derive).run fs p).1)) ∧
    (∀ s : State Ctx Z, s.Readable → s.poll2PacketLength ≠ 0 →
      s.need.toNat % s.recv.blockSize = 0 →
      s.need.toNat + s.recv.blockSize = 4 + s.poll2PacketLength.toNat) ∧
    (∀ s s' : State Ctx Z, s.Readable → s.poll2PacketLength = 0 →
      packetReadPoll2 X s = .ok none s' →
      s.input.length < s.recv.blockSize ∨
        s.input.length < 4 + (s.frame X).length + s.recv.maclen.toNat) := by
  refine ⟨?_, ?_, fun s hs => hs.need_add, fun s s' hs => packetReadPoll2_none hs⟩
  · obtain ⟨p', hpolls, -⟩ := Reader.run_polls (R := incoming X derive) es p hread
    have htrace := @Trace.imp _ _ _ (AcceptedStep X) _
      (fun q => q.conn.Readable ∧ q.conn.poll2PacketLength = 0)
      (fun q d q' hq hpoll => poll_accepted hq.1 hq.2 hpoll) _ _
      ⟨(incoming X derive).feed_valid (Event.stream es) hread, hbetween⟩ hpolls
    exact ⟨p', htrace.1⟩
  · intro fs hfs
    refine ⟨Reader.run_comparable es fs p hread hfs.symm, ?_⟩
    intro hes hfs'
    exact Reader.run_eq_of_drained es fs p hread hfs.symm hes hfs'

/-- A key set for witnesses: blocks of 8 bytes and a MAC of 4 bytes -/
def sampleNewkeys : Newkeys where
  enc :=
    { name := ascii "none", keyLen := 0, blockSize := 8, key := [], iv := []
      cipher := { name := ascii "none", plaintext := false, blockSize := 8, keyLen := 0
                  discardLen := 0 } }
  mac :=
    { name := ascii "none", enabled := false, macLen := 4, keyLen := 0, key := [], type := .umac }
  comp := { type := .none, enabled := false, name := ascii "none" }

/-- A connection that has got five packets and uses these keys -/
def keyedPeer : Peer Unit Unit where
  conn :=
    let s := State.start () () () ()
    let keys := { sampleNewkeys with mac := { sampleNewkeys.mac with enabled := true } }
    { s with recv := { s.recv with newkeys := some keys, p := { seqnr := 5 } } }

-- an IGNORE packet, cut behind its third byte and before its MAC
theorem packetReadPoll2_authenticated_ignore :
    let es := [.chunk [0, 0, 0], .poll, .chunk [12, 6, 2, 0, 0, 0, 0, 1, 2, 3, 4, 5, 6], .poll,
      .chunk [5, 5, 5, 5], .poll]
    ((incoming Extern.null fun _ => none).run es keyedPeer).1 = [⟨2, 5, [0, 0, 0, 0]⟩] ∧
    ∃ p', Trace (AcceptedStep Extern.null) (keyedPeer.feed (Event.stream es))
      [⟨2, 5, [0, 0, 0, 0]⟩] p' := by
  intro es
  have hread : keyedPeer.conn.Readable := by
    refine ⟨.inl rfl, ?_, fun h => absurd rfl h⟩
    intro k hk
    cases hk
  have h := (packetReadPoll2_authenticated Extern.null (fun _ => none) keyedPeer hread rfl es).1
  have hrun : ((incoming Extern.null fun _ => none).run es keyedPeer).1 =
      [⟨2, 5, [0, 0, 0, 0]⟩] := by decide +kernel
  rw [hrun] at h
  exact ⟨hrun, h⟩

end Shiesh.Transport
