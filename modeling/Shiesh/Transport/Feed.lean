import Shiesh.Transport.ReadSpec

/-!
# Reading Packets: Input in Pieces

`State.feed` appends to the input at any time, also while a packet is half read. No stage
of `packet_read_poll2` looks beyond its packet: `packetReadPoll2_feed` says that a poll
which finds no packet can be forgotten, and that every other result stays what it is when
more input arrives.
-/

namespace Shiesh.Transport

open Shiesh.Lib Direction List
open State (feed record)

variable {Ctx Z : Type} {X : Extern Ctx Z}

/-! ## §1 Stages that do not look at the input -/

variable (x : Bytes)

theorem countIncoming_feed :
    Commutes (feed x) (countIncoming : PacketM Ctx Z Unit) := by
  intro s
  simp only [countIncoming, get_bind_apply, feed]
  split
  · rfl
  · rfl

theorem stripPadding_feed : Commutes (feed x) (stripPadding : PacketM Ctx Z Unit) := by
  intro s
  simp only [stripPadding, get_bind_apply, feed]
  split
  · rfl
  · split
    · rfl
    · rfl

theorem uncompressIncoming_feed : Commutes (feed x) (uncompressIncoming X) := by
  intro s
  simp only [uncompressIncoming, get_bind_apply, feed]
  split
  · cases X.bufferUncompress s.incomingStream s.incomingPacket with
    | ok r => rfl
    | error e => rfl
  · rfl

theorem setNewkeysIn_feed : Commutes (feed x) (setNewkeysIn X) := by
  intro s
  rw [setNewkeysIn, modify_bind_apply, modify_bind_apply]
  simp only [get_bind_apply, feed]
  cases s.recv.release.currentKeys with
  | none => rfl
  | some k =>
    simp only [modify_bind_apply, record]
    cases s.recv.release.install X k false s.afterAuthentication s.rekeyLimit with
    | error e => rfl
    | ok d =>
      cases hc : startsCompression k.comp s.afterAuthentication with
      | true => rfl
      | false => rfl

theorem packetEnableDelayedCompress_feed :
    Commutes (feed x) (packetEnableDelayedCompress X) := by
  apply Commutes.modify
  intro s
  simp only [State.startDelayedIn, State.startDelayedOut, feed]
  cases s.recv.newkeys.bind startDelayed <;> cases s.send.newkeys.bind startDelayed <;> rfl

theorem onType_feed (type : UInt8) : Commutes (feed x) (onType X type) := by
  unfold onType
  apply Commutes.ite
  · exact setNewkeysIn_feed x
  · apply Commutes.ite
    · exact packetEnableDelayedCompress_feed x
    · exact .pure ()

theorem acceptPacket_feed : Commutes (feed x) (acceptPacket X) := by
  intro s
  have htail : ∀ type, Commutes (feed x) (do
      modify (record (.received type))
      onType X type
      modify fun s => { s with poll2PacketLength := 0 }
      pure type : PacketM Ctx Z UInt8) := by
    intro type
    have hrecord : Commutes (feed x)
        (modify (record (.received type)) : PacketM Ctx Z Unit) :=
      Commutes.modify fun _ => rfl
    apply hrecord.bind
    intro _
    apply (onType_feed x type).bind
    intro _
    apply Commutes.bind
    · apply Commutes.modify
      intro s
      rfl
    · intro _
      exact .pure type
  have hpacket : (feed x s).incomingPacket = s.incomingPacket := rfl
  simp only [acceptPacket, get_bind_apply, hpacket]
  cases s.incomingPacket with
  | nil => rfl
  | cons type payload =>
    simp only
    rw [set_bind_apply, set_bind_apply]
    split
    · rfl
    · exact htail type { s with incomingPacket := payload }

theorem afterMac_feed : Commutes (feed x) (afterMac X) := by
  intro s
  have htail : ∀ seqnr : UInt32, Commutes (feed x) (do
      countIncoming
      stripPadding
      uncompressIncoming X
      let type ← acceptPacket X
      pure (type, seqnr) : PacketM Ctx Z (UInt8 × UInt32)) := by
    intro seqnr
    apply (countIncoming_feed x).bind
    intro _
    apply (stripPadding_feed x).bind
    intro _
    apply (uncompressIncoming_feed x).bind
    intro _
    apply (acceptPacket_feed x).bind
    intro type
    exact .pure _
  exact htail s.recv.p.seqnr s

/-! ## §2 Stages that read the input -/

variable {s s' : State Ctx Z}

theorem readLength_short (hzero : s.poll2PacketLength = 0)
    (h : s.input.length < s.recv.blockSize) : readLength X s = .ok false s := by
  simp only [readLength, get_bind_apply, hzero, ne_eq, not_true, if_false, h, if_true]
  rfl

theorem readLength_inside (h : s.poll2PacketLength ≠ 0) : readLength X s = .ok true s := by
  simp only [readLength, get_bind_apply, h, ne_eq, not_false_iff, if_true]
  rfl

/-- Once the first block is there, what follows it does not matter. -/
theorem readLength_feed
    (h : s.poll2PacketLength ≠ 0 ∨ s.recv.blockSize ≤ s.input.length) :
    readLength X (s.feed x) = mapEnd (feed x) (readLength X s) := by
  by_cases hzero : s.poll2PacketLength ≠ 0
  · rw [readLength_inside hzero, readLength_inside (s := s.feed x) hzero]
    rfl
  · have hblock : s.recv.blockSize ≤ s.input.length := h.resolve_left hzero
    have hfull : ¬ s.input.length < s.recv.blockSize := not_lt.mpr hblock
    have hfull' : ¬ (s.input ++ x).length < s.recv.blockSize := by
      rw [length_append]
      omega
    simp only [readLength, get_bind_apply, feed, hzero, hfull, hfull', if_false,
      take_append_of_le_length hblock, drop_append_of_le_length hblock]
    cases cipherCrypt X s.recv.context (s.input.take s.recv.blockSize) with
    | error e => rfl
    | ok r =>
      simp only [liftE, pure_bind]
      split
      · rfl
      · rfl

variable (hneed : s.need.toNat % s.recv.blockSize = 0)
include hneed

theorem readRest_short
    (h : s.input.length < (s.need + s.recv.maclen).toNat) : readRest X s = .ok false s := by
  simp only [readRest, get_bind_apply, hneed, ne_eq, not_true, if_false, h, if_true]
  rfl

omit hneed in
theorem readRest_misaligned (h : s.need.toNat % s.recv.blockSize ≠ 0) :
    readRest X s = .error (.disconnect "Bad packet length %-10u"
      [.num s.poll2PacketLength.toNat]) s := by
  simp only [readRest, get_bind_apply]
  rw [if_pos h]
  rfl

theorem readRest_wrapped
    (hall : (s.need + s.recv.maclen).toNat ≤ s.input.length) (h : s.input.length < s.need.toNat) :
    readRest X s = .error (.fatal "buffer_consume: buffer error" []) s := by
  simp only [readRest, get_bind_apply]
  rw [if_neg (not_not_intro hneed), if_neg (not_lt.mpr hall), if_pos h]
  rfl

theorem readRest_full
    (hall : (s.need + s.recv.maclen).toNat ≤ s.input.length) (h : s.need.toNat ≤ s.input.length) :
    readRest X s =
      match cipherCrypt X s.recv.context (s.input.take s.need.toNat) with
      | .ok (plain, context) => .ok true { s with
          incomingPacket := s.incomingPacket ++ plain
          recv := { s.recv with context := context }
          input := s.input.drop s.need.toNat }
      | .error e => .error e s := by
  simp only [readRest, get_bind_apply]
  rw [if_neg (not_not_intro hneed), if_neg (not_lt.mpr hall), if_neg (not_lt.mpr h)]
  cases cipherCrypt X s.recv.context (s.input.take s.need.toNat) with
  | error e => rfl
  | ok r => rfl

/-- Once the packet and its MAC are there, what follows them does not matter. -/
theorem readRest_feed
    (hall : (s.need + s.recv.maclen).toNat ≤ s.input.length) (h : s.need.toNat ≤ s.input.length) :
    readRest X (s.feed x) = mapEnd (feed x) (readRest X s) := by
  have hmore : s.input.length ≤ (s.feed x).input.length := by simp [feed]
  rw [readRest_full hneed hall h,
    readRest_full (s := s.feed x) hneed (hall.trans hmore) (h.trans hmore)]
  have hsame : (s.feed x).need = s.need := rfl
  rw [hsame]
  simp only [feed, take_append_of_le_length h, drop_append_of_le_length h]
  cases cipherCrypt X s.recv.context (s.input.take s.need.toNat) with
  | error e => rfl
  | ok r => rfl

omit hneed

theorem checkMac_eq (s : State Ctx Z) :
    checkMac X s =
      match s.recv.mac with
      | none => .ok () s
      | some mac =>
        if mac.macLen.toNat > evpMaxMdSize then
          .error (.fatal "mac_compute: mac too long %u %lu"
            [.num mac.macLen.toNat, .num evpMaxMdSize]) s
        else if (X.macCompute mac s.recv.p.seqnr s.incomingPacket).take mac.macLen.toNat ≠
            s.input.take mac.macLen.toNat then
          .error (.disconnect "Corrupted MAC on input." []) s
        else .ok () { s with input := s.input.drop mac.macLen.toNat } := by
  simp only [checkMac, get_bind_apply]
  cases hmac : s.recv.mac with
  | none => rfl
  | some mac =>
    simp only [macBytes, hmac, macCompute]
    by_cases hlong : mac.macLen.toNat > evpMaxMdSize
    · rw [if_pos hlong, if_pos hlong]
      rfl
    · rw [if_neg hlong, if_neg hlong]
      show (if _ then throw _ else set _ : PacketM Ctx Z Unit) s = _
      split
      · rfl
      · rfl

/-- The MAC that is compared is in the input, unless it is too long anyway. -/
theorem checkMac_feed
    (h : s.recv.maclen.toNat ≤ evpMaxMdSize → s.recv.maclen.toNat ≤ s.input.length) :
    checkMac X (s.feed x) = mapEnd (feed x) (checkMac X s) := by
  rw [checkMac_eq, checkMac_eq]
  have hsame : (s.feed x).recv = s.recv := rfl
  rw [hsame]
  cases hmac : s.recv.mac with
  | none => rfl
  | some mac =>
    have hmaclen : s.recv.maclen = mac.macLen := by
      simp only [maclen, hmac]
    rw [hmaclen] at h
    by_cases hlong : mac.macLen.toNat > evpMaxMdSize
    · simp only [if_pos hlong]
      rfl
    · have hlen := h (not_lt.mp hlong)
      simp only [if_neg hlong, feed, take_append_of_le_length hlen,
        drop_append_of_le_length hlen]
      split
      · rfl
      · rfl

theorem maclen_eq_zero (h : s.recv.mac = none) : s.recv.maclen = 0 := by
  simp only [maclen, h]

theorem checkMac_long (h : evpMaxMdSize < s.recv.maclen.toNat) :
    ∃ e s', checkMac X s = .error e s' := by
  rw [checkMac_eq]
  cases hmac : s.recv.mac with
  | none =>
    rw [maclen_eq_zero hmac] at h
    exact absurd h (Nat.not_lt_zero _)
  | some mac =>
    have hmaclen : s.recv.maclen = mac.macLen := by simp only [maclen, hmac]
    rw [hmaclen] at h
    exact ⟨_, _, if_pos h⟩

/-- With a MAC of admissible length, `need + maclen` does not wrap. -/
theorem need_add_maclen (hs : s.Readable) (hlen : s.poll2PacketLength ≠ 0)
    (hneed : s.need.toNat % s.recv.blockSize = 0) (hmac : s.recv.maclen.toNat ≤ evpMaxMdSize) :
    (s.need + s.recv.maclen).toNat = s.need.toNat + s.recv.maclen.toNat := by
  have hadd := hs.need_add hlen hneed
  have hmax : s.poll2PacketLength.toNat ≤ 256 * 1024 := (hs.length hlen).2
  rw [UInt32.toNat_add, Nat.mod_eq_of_lt]
  simp only [evpMaxMdSize] at hmac
  omega

/-! ## §3 Polls -/

/-- A poll that delivers or fails, whatever input is still to come. -/
inductive Settled {α : Type} (m : PacketM Ctx Z (Option α)) (s : State Ctx Z) : Prop
  | some {a : α} {s' : State Ctx Z} (now : m s = .ok (some a) s')
      (later : ∀ x, m (s.feed x) = .ok (some a) (s'.feed x))
  | error {e : Halt} {s' : State Ctx Z} (now : m s = .error e s')
      (later : ∀ x, ∃ e' s'', m (s.feed x) = .error e' s'')

theorem Settled.congr {α : Type} {m n : PacketM Ctx Z (Option α)} {t : State Ctx Z}
    (h : Settled n t) (hnow : m s = n t) (hlater : ∀ x, m (s.feed x) = n (t.feed x)) :
    Settled m s := by
  cases h with
  | some now later => exact .some (hnow.trans now) fun x => (hlater x).trans (later x)
  | error now later =>
    apply Settled.error (hnow.trans now)
    intro x
    obtain ⟨e', s'', h⟩ := later x
    exact ⟨e', s'', (hlater x).trans h⟩

theorem readBody_error {e : Halt} (h : readRest X s = .error e s') :
    readBody X s = .error e s' := bind_of_error h

theorem readBody_true (h : readRest X s = .ok true s') :
    readBody X s = (finishPacket X >>= fun r => pure (some r)) s' := bind_of_ok h

theorem readBody_feed (hs : s.Readable) (hlen : s.poll2PacketLength ≠ 0) :
    readBody X s = .ok none s ∨ Settled (readBody X) s := by
  by_cases hneed : s.need.toNat % s.recv.blockSize = 0
  · by_cases hall : (s.need + s.recv.maclen).toNat ≤ s.input.length
    · by_cases hrest : s.need.toNat ≤ s.input.length
      · right
        -- the packet is there
        cases hread : readRest X s with
        | error e s' =>
          apply Settled.error (readBody_error hread)
          intro x
          have hx := readRest_feed (X := X) x hneed hall hrest
          rw [hread] at hx
          exact ⟨e, _, readBody_error hx⟩
        | ok full s1 =>
          have hspec := readRest_spec (X := X) hneed hall hrest
          rw [wp_of_ok hread] at hspec
          obtain ⟨rfl, rfl⟩ := hspec
          have hmac : s.recv.maclen.toNat ≤ evpMaxMdSize →
              s.recv.maclen.toNat ≤ (s.restBlocks X).input.length := by
            intro h
            rw [need_add_maclen hs hlen hneed h] at hall
            simp only [State.restBlocks, length_drop]
            omega
          have hfinish : ∀ x, finishPacket X ((s.restBlocks X).feed x) =
              mapEnd (feed x) (finishPacket X (s.restBlocks X)) := by
            intro x
            have hcheck := checkMac_feed (X := X) (s := s.restBlocks X) x hmac
            cases hc : checkMac X (s.restBlocks X) with
            | error e s2 =>
              rw [hc] at hcheck
              rw [finishPacket, bind_of_error hc, bind_of_error hcheck]
              rfl
            | ok u s2 =>
              rw [hc] at hcheck
              rw [finishPacket, bind_of_ok hc, bind_of_ok hcheck]
              exact afterMac_feed x s2
          have hlater : ∀ x, readBody X (s.feed x) =
              (finishPacket X >>= fun r => pure (some r)) ((s.restBlocks X).feed x) := by
            intro x
            have hx := readRest_feed (X := X) x hneed hall hrest
            rw [hread] at hx
            exact readBody_true hx
          cases hf : finishPacket X (s.restBlocks X) with
          | error e s2 =>
            apply Settled.error ((readBody_true hread).trans (bind_of_error hf))
            intro x
            have hx := hfinish x
            rw [hf] at hx
            exact ⟨e, _, (hlater x).trans (bind_of_error hx)⟩
          | ok r s2 =>
            apply Settled.some ((readBody_true hread).trans (bind_of_ok hf))
            intro x
            have hx := hfinish x
            rw [hf] at hx
            exact (hlater x).trans (bind_of_ok hx)
      · right
        -- `need + maclen` has wrapped: the MAC is too long, whatever is to come
        have hlong : evpMaxMdSize < s.recv.maclen.toNat := by
          by_contra h
          rw [need_add_maclen hs hlen hneed (not_lt.mp h)] at hall
          omega
        apply Settled.error (readBody_error (readRest_wrapped hneed hall (by omega)))
        intro x
        have hmore : s.input.length ≤ (s.feed x).input.length := by simp [feed]
        have hall' : ((s.feed x).need + (s.feed x).recv.maclen).toNat ≤ (s.feed x).input.length :=
          hall.trans hmore
        by_cases hrest' : (s.feed x).need.toNat ≤ (s.feed x).input.length
        · cases hread : readRest X (s.feed x) with
          | error e s' => exact ⟨e, s', readBody_error hread⟩
          | ok full s1 =>
            have hspec := readRest_spec (X := X) (s := s.feed x) hneed hall' hrest'
            rw [wp_of_ok hread] at hspec
            obtain ⟨rfl, rfl⟩ := hspec
            obtain ⟨e, s', he⟩ := checkMac_long (X := X) (s := (s.feed x).restBlocks X) hlong
            exact ⟨e, s', (readBody_true hread).trans (bind_of_error (bind_of_error he))⟩
        · exact ⟨_, _, readBody_error (readRest_wrapped hneed hall' (by omega))⟩
    · left
      exact bind_of_ok (readRest_short hneed (by omega))
  · right
    apply Settled.error (readBody_error (readRest_misaligned hneed))
    intro x
    exact ⟨_, _, readBody_error (readRest_misaligned (s := s.feed x) hneed)⟩

theorem firstBlock_readable (hs : s.Readable)
    (h : LengthOk (s.firstBlock X).poll2PacketLength) : (s.firstBlock X).Readable :=
  ⟨hs.block, hs.pending, fun _ => h⟩

theorem LengthOk.ne_zero {length : UInt32} (h : LengthOk length) : length ≠ 0 := by
  rintro rfl
  exact absurd h.1 (by decide)

theorem packetReadPoll2_true (h : readLength X s = .ok true s') :
    packetReadPoll2 X s = readBody X s' := bind_of_ok h

/-- **A poll and the input to come**: either the poll was in vain and can be forgotten, or
its result is settled. -/
theorem packetReadPoll2_feed (hs : s.Readable) :
    (∃ s', packetReadPoll2 X s = .ok none s' ∧
      ∀ x, packetReadPoll2 X (s'.feed x) = packetReadPoll2 X (s.feed x)) ∨
    Settled (packetReadPoll2 X) s := by
  by_cases hzero : s.poll2PacketLength = 0
  · by_cases hblock : s.recv.blockSize ≤ s.input.length
    · have hfeed := fun x => readLength_feed (X := X) x (.inr hblock)
      cases hread : readLength X s with
      | error e s' =>
        right
        apply Settled.error (bind_of_error hread)
        intro x
        have hx := hfeed x
        rw [hread] at hx
        exact ⟨e, _, bind_of_error hx⟩
      | ok full s1 =>
        have hspec := readLength_spec (X := X) hzero hblock
        rw [wp_of_ok hread] at hspec
        obtain ⟨rfl, rfl, hok⟩ := hspec
        have hlater : ∀ x, packetReadPoll2 X (s.feed x) = readBody X ((s.firstBlock X).feed x) := by
          intro x
          have hx := hfeed x
          rw [hread] at hx
          exact packetReadPoll2_true hx
        rcases readBody_feed (X := X) (firstBlock_readable hs hok) hok.ne_zero with h | h
        · -- the length was read, the rest is missing
          left
          refine ⟨s.firstBlock X, (packetReadPoll2_true hread).trans h, ?_⟩
          intro x
          rw [hlater x]
          exact packetReadPoll2_true (readLength_inside (s := (s.firstBlock X).feed x) hok.ne_zero)
        · exact .inr (h.congr (packetReadPoll2_true hread) hlater)
    · exact .inl ⟨s, bind_of_ok (readLength_short hzero (by omega)), fun _ => rfl⟩
  · have hnow : packetReadPoll2 X s = readBody X s :=
      packetReadPoll2_true (readLength_inside hzero)
    rcases readBody_feed (X := X) hs hzero with h | h
    · exact .inl ⟨s, hnow.trans h, fun _ => rfl⟩
    · right
      apply h.congr hnow
      intro x
      exact packetReadPoll2_true (readLength_inside (s := s.feed x) hzero)

end Shiesh.Transport
