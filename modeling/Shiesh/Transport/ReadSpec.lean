import Shiesh.Transport.Read
import Shiesh.Lib.Result

/-!
# Reading Packets: The Stages

For each stage of `packet_read_poll2`, what it does when it returns and exactly when it
does. The stages are put together in `afterMac_spec`: once the MAC is checked, a packet is
delivered if and only if it is `Deliverable`.
-/

namespace Shiesh.Transport

open Shiesh.Lib Direction State

variable {Ctx Z : Type} {X : Extern Ctx Z}

/-! ## §1 Readable connections -/

/-- The block sizes of the ciphers, and of packets before the first key exchange. -/
def WireBlock (n : Nat) : Prop := n = 8 ∨ n = 16

/-- A packet length that is not refused. -/
def LengthOk (length : UInt32) : Prop := 5 ≤ length.toNat ∧ length.toNat ≤ 256 * 1024

/-- A connection that can be read from: block sizes are 8 or 16, also of the key set that
is pending, and a length that was read is within its bounds. -/
structure State.Readable (s : State Ctx Z) : Prop where
  block : WireBlock s.recv.blockSize
  pending : ∀ k, s.recv.currentKeys = some k → WireBlock k.enc.blockSize
  length : s.poll2PacketLength ≠ 0 → LengthOk s.poll2PacketLength

variable {s : State Ctx Z} {d : Direction Ctx} {k : Newkeys} {afterAuthentication encrypt : Bool}
  {rekeyLimit : UInt32}

/-- **`need` does not wrap to an accepted value**: a multiple of the block size is the
number of bytes of the packet behind the first block. -/
theorem State.Readable.need_add (h : s.Readable)
    (hlen : s.poll2PacketLength ≠ 0) (hneed : s.need.toNat % s.recv.blockSize = 0) :
    s.need.toNat + s.recv.blockSize = 4 + s.poll2PacketLength.toNat := by
  obtain ⟨hlow, hhigh⟩ := h.length hlen
  have hsize := s.poll2PacketLength.toNat_lt
  rcases h.block with hb | hb
  all_goals
    rw [hb] at hneed ⊢
    simp only [need, hb, UInt32.toNat_sub, UInt32.toNat_add, UInt32.toNat_ofNat,
      UInt32.toNat_ofNat'] at hneed ⊢
    omega

/-! ## §2 Specifications of the stages -/

/-- The state after the first block was decrypted. -/
def State.firstBlock (X : Extern Ctx Z) (s : State Ctx Z) : State Ctx Z :=
  let r := X.evpCipher s.recv.context.evp (s.input.take s.recv.blockSize)
  { s with
    incomingPacket := r.1
    poll2PacketLength := getU32 (r.1.take 4)
    recv := { s.recv with context := { s.recv.context with evp := r.2 } }
    input := s.input.drop s.recv.blockSize }

/-- The state after the other blocks were decrypted. -/
def State.restBlocks (X : Extern Ctx Z) (s : State Ctx Z) : State Ctx Z :=
  let r := X.evpCipher s.recv.context.evp (s.input.take s.need.toNat)
  { s with
    incomingPacket := s.incomingPacket ++ r.1
    recv := { s.recv with context := { s.recv.context with evp := r.2 } }
    input := s.input.drop s.need.toNat }

theorem lengthOk_iff (length : UInt32) :
    LengthOk length ↔ ¬ (length < 1 + 4 ∨ length > 256 * 1024) := by
  have h5 : ((1 + 4 : UInt32)).toNat = 5 := by decide
  have h256k : ((256 * 1024 : UInt32)).toNat = 256 * 1024 := by decide
  rw [LengthOk, not_or, UInt32.lt_iff_toNat_lt, gt_iff_lt, UInt32.lt_iff_toNat_lt, h5, h256k]
  omega

theorem readLength_spec (hzero : s.poll2PacketLength = 0)
    (hblock : s.recv.blockSize ≤ s.input.length) :
    wp (readLength X)
      (fun full s' => full = true ∧ s' = s.firstBlock X ∧ LengthOk s'.poll2PacketLength)
      (fun _ _ => s.recv.blockSize % s.recv.context.blockSize ≠ 0 ∨
        ¬ LengthOk (s.firstBlock X).poll2PacketLength) s := by
  have hlen : (s.input.take s.recv.blockSize).length = s.recv.blockSize :=
    List.length_take_of_le hblock
  simp only [readLength, wp_bind, wp_get, hzero, ne_eq, not_true, if_false]
  rw [if_neg (not_lt.mpr hblock), wp_bind]
  apply wp_liftE
  · rintro ⟨plain, context⟩ h
    simp only [cipherCrypt, hlen] at h
    split at h
    · cases h
    · cases h
      rw [wp_ite]
      constructor
      · intro hbad
        rw [wp_throw]
        right
        rw [lengthOk_iff]
        exact not_not_intro hbad
      · intro hgood
        rw [wp_write, wp_pure]
        exact ⟨rfl, rfl, (lengthOk_iff _).mpr hgood⟩
  · intro e h
    simp only [cipherCrypt, hlen] at h
    split at h
    · exact .inl ‹_›
    · cases h

theorem readRest_spec (hneed : s.need.toNat % s.recv.blockSize = 0)
    (hall : (s.need + s.recv.maclen).toNat ≤ s.input.length) (h : s.need.toNat ≤ s.input.length) :
    wp (readRest X) (fun full s' => full = true ∧ s' = s.restBlocks X)
      (fun _ _ => s.need.toNat % s.recv.context.blockSize ≠ 0) s := by
  have hlen : (s.input.take s.need.toNat).length = s.need.toNat := List.length_take_of_le h
  simp only [readRest, wp_bind, wp_get]
  rw [if_neg (not_not_intro hneed), if_neg (not_lt.mpr hall), if_neg (not_lt.mpr h),
    wp_bind]
  apply wp_liftE
  · rintro ⟨plain, context⟩ hcrypt
    simp only [cipherCrypt, hlen] at hcrypt
    split at hcrypt
    · cases hcrypt
    · cases hcrypt
      rw [wp_write, wp_pure]
      exact ⟨rfl, rfl⟩
  · intro e hcrypt
    simp only [cipherCrypt, hlen] at hcrypt
    split at hcrypt
    · assumption
    · cases hcrypt

/-- The MAC of the packet in `incoming_packet` is at the front of the input. -/
def Authentic (X : Extern Ctx Z) (s : State Ctx Z) : Prop :=
  ∀ mac, s.recv.mac = some mac → mac.macLen.toNat ≤ evpMaxMdSize ∧
    (X.macCompute mac s.recv.p.seqnr s.incomingPacket).take mac.macLen.toNat =
      s.input.take mac.macLen.toNat

variable (s : State Ctx Z)

theorem checkMac_spec :
    wp (checkMac X)
      (fun _ s' => Authentic X s ∧ s' = { s with input := s.input.drop s.recv.maclen.toNat })
      (fun _ _ => ¬ Authentic X s) s := by
  simp only [checkMac, wp_bind, wp_get]
  cases hmac : s.recv.mac with
  | none =>
    simp only [wp_pure]
    refine ⟨?_, ?_⟩
    · intro mac h
      rw [hmac] at h
      cases h
    · simp [maclen, hmac]
  | some mac =>
    have hmaclen : s.recv.maclen = mac.macLen := by simp only [maclen, hmac]
    have hiff : Authentic X s ↔ mac.macLen.toNat ≤ evpMaxMdSize ∧
        (X.macCompute mac s.recv.p.seqnr s.incomingPacket).take mac.macLen.toNat =
          s.input.take mac.macLen.toNat := by
      constructor
      · intro h
        exact h mac hmac
      · intro h mac' hmac'
        rw [hmac] at hmac'
        cases hmac'
        exact h
    simp only [wp_bind, macBytes, hmac, macCompute, hiff, hmaclen]
    by_cases hlong : mac.macLen.toNat > evpMaxMdSize
    · rw [if_pos hlong]
      apply wp_liftE
      · intro a h
        cases h
      · intro e _ h
        omega
    · rw [if_neg hlong]
      apply wp_liftE
      · intro macbuf h
        cases h
        rw [wp_ite, wp_throw, wp_set]
        constructor
        · intro hne h
          exact hne h.2
        · intro heq
          exact ⟨⟨not_lt.mp hlong, not_not.mp heq⟩, rfl⟩
      · intro e h
        cases h

/-- `cipher_init` accepts the key and IV lengths. -/
def Newkeys.Fits (k : Newkeys) : Prop :=
  k.enc.cipher.keyLen ≤ k.enc.keyLen ∧ k.enc.cipher.blockSize ≤ k.enc.blockSize

/-- A direction with the keys `k` in use. -/
def Direction.installed (X : Extern Ctx Z) (d : Direction Ctx) (k : Newkeys)
    (encrypt afterAuthentication : Bool) (rekeyLimit : UInt32) : Direction Ctx :=
  { newkeys := some (k.inUse afterAuthentication)
    currentKeys := none
    context :=
      { plaintext := k.enc.cipher.plaintext
        blockSize := k.enc.cipher.blockSize
        evp := X.evpInit k.enc.cipher (k.enc.key.take k.enc.keyLen)
          (k.enc.iv.take k.enc.blockSize) encrypt }
    p := { d.p with packets := 0, blocks := 0 }
    maxBlocks := maxBlocksOf k.enc.blockSize rekeyLimit }

theorem Direction.install_ok {d' : Direction Ctx}
    (h : d.release.install X k encrypt afterAuthentication rekeyLimit = .ok d') :
    k.Fits ∧ d' = d.installed X k encrypt afterAuthentication rekeyLimit := by
  obtain ⟨cc, hcc, h⟩ := except_bind_eq_ok h
  cases h
  unfold cipherInit at hcc
  split at hcc
  · cases hcc
  · split at hcc
    · cases hcc
    · cases hcc
      exact ⟨⟨by omega, by omega⟩, rfl⟩

theorem Direction.install_error {e : Halt}
    (h : d.install X k encrypt afterAuthentication rekeyLimit = .error e) : ¬ k.Fits := by
  rintro ⟨hkey, hiv⟩
  have hcc : ∃ cc, cipherInit X k.enc.cipher k.enc.key k.enc.keyLen k.enc.iv k.enc.blockSize
      encrypt = .ok cc := by
    unfold cipherInit
    rw [if_neg (by omega), if_neg (by omega)]
    exact ⟨_, rfl⟩
  obtain ⟨cc, hcc⟩ := hcc
  simp only [install, hcc] at h
  cases h

/-- The receiving direction after a packet of this type: NEWKEYS puts the pending keys to
use, USERAUTH_SUCCESS may start delayed compression. -/
def RecvAfter (X : Extern Ctx Z) (type : UInt8) (s s' : State Ctx Z) : Prop :=
  (type = Ssh2Msg.newkeys ∧ ∃ k, s.recv.currentKeys = some k ∧
    s'.recv = s.recv.installed X k false s.afterAuthentication s.rekeyLimit) ∨
  (type ≠ Ssh2Msg.newkeys ∧ (s'.recv = s.recv ∨ ∃ k k', s.recv.newkeys = some k ∧
    startDelayed k = some k' ∧ s'.recv = { s.recv with newkeys := some k' }))

/-- What `set_newkeys` and delayed compression leave alone. -/
structure SameInput (s s' : State Ctx Z) : Prop where
  input : s'.input = s.input
  packet : s'.incomingPacket = s.incomingPacket

theorem setNewkeysIn_spec :
    wp (setNewkeysIn X)
      (fun _ s' => SameInput s s' ∧ ∃ k, s.recv.currentKeys = some k ∧ k.Fits ∧
        s'.recv = s.recv.installed X k false s.afterAuthentication s.rekeyLimit)
      (fun _ _ => ¬ ∃ k, s.recv.currentKeys = some k ∧ k.Fits) s := by
  have hkeys : s.recv.release.currentKeys = s.recv.currentKeys := rfl
  simp only [setNewkeysIn, wp_bind, wp_modify, wp_get, hkeys]
  cases hk : s.recv.currentKeys with
  | none =>
    simp only [wp_throw]
    rintro ⟨k, h, -⟩
    cases h
  | some k =>
    simp only [wp_bind, wp_modify]
    apply wp_liftE
    · intro d hd
      obtain ⟨hfits, rfl⟩ := install_ok hd
      rw [wp_ite, wp_modify, wp_modify]
      exact ⟨fun _ => ⟨⟨rfl, rfl⟩, k, rfl, hfits, rfl⟩, fun _ => ⟨⟨rfl, rfl⟩, k, rfl, hfits, rfl⟩⟩
    · rintro e he ⟨k', h, hfits⟩
      cases h
      exact install_error he hfits

theorem onType_spec (type : UInt8) (s : State Ctx Z) :
    wp (onType X type)
      (fun _ s' => SameInput s s' ∧ RecvAfter X type s s' ∧
        (type = Ssh2Msg.newkeys → ∃ k, s.recv.currentKeys = some k ∧ k.Fits))
      (fun _ _ => ¬ (type = Ssh2Msg.newkeys → ∃ k, s.recv.currentKeys = some k ∧ k.Fits)) s := by
  unfold onType
  rw [wp_ite]
  constructor
  · intro htype
    apply wp_mono (setNewkeysIn_spec s)
    · rintro _ s' ⟨hsame, k, hk, hfits, hrecv⟩
      exact ⟨hsame, .inl ⟨htype, k, hk, hrecv⟩, fun _ => ⟨k, hk, hfits⟩⟩
    · intro _ _ hnot h
      exact hnot (h htype)
  · intro htype
    rw [wp_ite, wp_pure]
    constructor
    · intro _
      rw [packetEnableDelayedCompress, wp_modify]
      refine ⟨?_, .inr ⟨htype, ?_⟩, fun h => absurd h htype⟩
      · simp only [startDelayedIn, startDelayedOut]
        cases s.recv.newkeys.bind startDelayed <;> cases s.send.newkeys.bind startDelayed <;>
          exact ⟨rfl, rfl⟩
      · have hout : ∀ t : State Ctx Z, (t.startDelayedOut X).recv = t.recv := by
          intro t
          simp only [startDelayedOut]
          cases t.send.newkeys.bind startDelayed <;> rfl
        rw [hout]
        simp only [startDelayedIn]
        cases hbind : s.recv.newkeys.bind startDelayed with
        | none => exact .inl rfl
        | some k' =>
          obtain ⟨k, hk, hk'⟩ := Option.bind_eq_some_iff.mp hbind
          exact .inr ⟨k, k', hk, hk', rfl⟩
    · intro _
      exact ⟨⟨rfl, rfl⟩, .inr ⟨htype, .inl rfl⟩, fun h => absurd h htype⟩

/-- The padding length of the packet in `incoming_packet`. -/
def State.padlen : Nat := (s.incomingPacket.getD 4 0).toNat

/-- What is between the header and the padding. -/
def State.body : Bytes :=
  (s.incomingPacket.drop 5).take ((s.incomingPacket.drop 5).length - s.padlen)

/-- The receiving direction with the packet counted. -/
def State.counted : Direction Ctx :=
  { s.recv with p := s.recv.p.next s.poll2PacketLength.toNat s.recv.blockSize }

/-- Type and payload, as they are in the packet or as they come out of it. -/
def Content (X : Extern Ctx Z) (s : State Ctx Z) (content : Bytes) : Prop :=
  if s.recv.compEnabled then
    ∃ stream, X.bufferUncompress s.incomingStream s.body = .ok (content, stream)
  else content = s.body

/-- The decrypted packet with valid MAC that `s` holds is delivered as `type` and
`payload`. -/
structure Deliverable (X : Extern Ctx Z) (s : State Ctx Z) (type : UInt8) (payload : Bytes) :
    Prop where
  count : s.recv.p.packets + 1 ≠ 0 ∨ s.bugNoRekey = true
  padLow : 4 ≤ s.padlen
  padHigh : s.padlen ≤ (s.incomingPacket.drop 5).length
  content : Content X s (type :: payload)
  typeOk : 1 ≤ type.toNat ∧ type.toNat < 192
  keys : type = Ssh2Msg.newkeys → ∃ k, s.recv.currentKeys = some k ∧ k.Fits

/-- The state when a packet is delivered. -/
structure Delivered (X : Extern Ctx Z) (type : UInt8) (s s' : State Ctx Z) : Prop where
  input : s'.input = s.input
  length : s'.poll2PacketLength = 0
  recv : RecvAfter X type { s with recv := s.counted } s'

theorem countIncoming_spec :
    wp countIncoming (fun _ s' => (s.recv.p.packets + 1 ≠ 0 ∨ s.bugNoRekey = true) ∧
        s' = { s with recv := s.counted })
      (fun _ _ => ¬ (s.recv.p.packets + 1 ≠ 0 ∨ s.bugNoRekey = true)) s := by
  simp only [countIncoming, wp_bind, wp_get]
  rw [wp_ite, wp_throw, wp_set]
  constructor
  · rintro ⟨hzero, hbug⟩ h
    rcases h with h | h
    · exact h hzero
    · rw [hbug] at h
      cases h
  · intro h
    refine ⟨?_, rfl⟩
    by_cases hzero : s.recv.p.packets + 1 = 0
    · right
      by_contra hbug
      exact h ⟨hzero, by simpa using hbug⟩
    · exact .inl hzero

theorem stripPadding_spec :
    wp stripPadding
      (fun _ s' => (4 ≤ s.padlen ∧ s.padlen ≤ (s.incomingPacket.drop 5).length) ∧
        s' = { s with incomingPacket := s.body })
      (fun _ _ => ¬ (4 ≤ s.padlen ∧ s.padlen ≤ (s.incomingPacket.drop 5).length)) s := by
  have h4 : s.incomingPacket.getD 4 0 < 4 ↔ s.padlen < 4 := UInt8.lt_iff_toNat_lt
  simp only [stripPadding, wp_bind, wp_get]
  rw [wp_ite, wp_throw, wp_ite, wp_throw, wp_set, h4]
  refine ⟨fun h => by omega, fun h => ⟨fun h' => ?_, fun h' => ⟨?_, rfl⟩⟩⟩
  · simp only [padlen] at h' ⊢
    omega
  · simp only [padlen] at h h' ⊢
    omega

theorem uncompressIncoming_spec :
    wp (uncompressIncoming X)
      (fun _ s' => ((s.recv.compEnabled = true ∧
          ∃ stream, X.bufferUncompress s.incomingStream s.incomingPacket =
            .ok (s'.incomingPacket, stream)) ∨
          (s.recv.compEnabled = false ∧ s'.incomingPacket = s.incomingPacket)) ∧
        s'.input = s.input ∧ s'.recv = s.recv ∧ s'.poll2PacketLength = s.poll2PacketLength ∧
        s'.afterAuthentication = s.afterAuthentication ∧ s'.rekeyLimit = s.rekeyLimit)
      (fun e _ => s.recv.compEnabled = true ∧
        X.bufferUncompress s.incomingStream s.incomingPacket = .error e) s := by
  simp only [uncompressIncoming, wp_bind, wp_get]
  rw [wp_ite, wp_pure]
  constructor
  · intro hcomp
    rw [wp_bind]
    apply wp_liftE
    · rintro ⟨payload, stream⟩ h
      rw [wp_set]
      exact ⟨.inl ⟨hcomp, stream, h⟩, rfl, rfl, rfl, rfl, rfl⟩
    · intro e h
      exact ⟨hcomp, h⟩
  · intro hcomp
    exact ⟨.inr ⟨by simpa using hcomp, rfl⟩, rfl, rfl, rfl, rfl, rfl⟩

theorem typeOk_iff (type : UInt8) :
    (1 ≤ type.toNat ∧ type.toNat < 192) ↔ ¬ (type < 1 ∨ type ≥ Ssh2Msg.localMin) := by
  have h1 : (1 : UInt8).toNat = 1 := rfl
  have h192 : Ssh2Msg.localMin.toNat = 192 := rfl
  rw [not_or, ge_iff_le, UInt8.lt_iff_toNat_lt, UInt8.le_iff_toNat_le, h1, h192]
  omega

theorem acceptPacket_spec :
    wp (acceptPacket X)
      (fun type s' => s.incomingPacket = type :: s'.incomingPacket ∧
        (1 ≤ type.toNat ∧ type.toNat < 192) ∧
        (type = Ssh2Msg.newkeys → ∃ k, s.recv.currentKeys = some k ∧ k.Fits) ∧
        s'.input = s.input ∧ s'.poll2PacketLength = 0 ∧ RecvAfter X type s s')
      (fun _ _ => ∀ type payload, s.incomingPacket = type :: payload →
        (1 ≤ type.toNat ∧ type.toNat < 192) →
        ¬ (type = Ssh2Msg.newkeys → ∃ k, s.recv.currentKeys = some k ∧ k.Fits)) s := by
  simp only [acceptPacket, wp_bind, wp_get]
  cases hpacket : s.incomingPacket with
  | nil =>
    simp only [wp_throw]
    intro type payload h
    cases h
  | cons type payload =>
    simp only [wp_bind, wp_set]
    rw [wp_ite, wp_throw]
    constructor
    · intro hbad type' payload' h hok
      cases h
      exact absurd hbad ((typeOk_iff type).mp hok)
    · intro hok
      simp only [wp_bind, wp_modify]
      apply wp_mono (onType_spec type _)
      · rintro _ s' ⟨hsame, hrecv, hkeys⟩
        rw [wp_pure]
        refine ⟨?_, (typeOk_iff type).mpr hok, hkeys, hsame.input, rfl, hrecv⟩
        exact congrArg (type :: ·) hsame.packet.symm
      · intro _ _ hnot type' payload' h _
        cases h
        exact hnot

/-- **Delivery of a packet with valid MAC**: exactly the deliverable ones are delivered,
with the sequence number that the MAC was computed for. -/
theorem afterMac_spec :
    wp (afterMac X)
      (fun r s' => Deliverable X s r.1 s'.incomingPacket ∧ r.2 = s.recv.p.seqnr ∧
        Delivered X r.1 s s')
      (fun _ _ => ∀ type payload, ¬ Deliverable X s type payload) s := by
  simp only [afterMac, wp_bind, wp_get]
  apply wp_mono (countIncoming_spec s)
  · rintro _ s1 ⟨hcount, rfl⟩
    apply wp_mono (stripPadding_spec _)
    · rintro _ s2 ⟨hpad, rfl⟩
      apply wp_mono (uncompressIncoming_spec _)
      · rintro _ s3 ⟨hcontent, hinput, hrecv, -, hafter, hlimit⟩
        -- decompression is the only stage that knows whether there is a content
        have hiff : ∀ content, Content X s content ↔ content = s3.incomingPacket := by
          intro content
          unfold Content
          rcases hcontent with ⟨hcomp, stream, h⟩ | ⟨hcomp, h⟩
          · have hcomp' : s.recv.compEnabled = true := hcomp
            have h' : X.bufferUncompress s.incomingStream s.body =
                .ok (s3.incomingPacket, stream) := h
            simp only [hcomp', if_true, h']
            constructor
            · rintro ⟨stream', heq⟩
              cases heq
              rfl
            · rintro rfl
              exact ⟨stream, rfl⟩
          · have hcomp' : s.recv.compEnabled = false := hcomp
            have h' : s3.incomingPacket = s.body := h
            simp [hcomp', h']
        have hkeys3 : s3.recv.currentKeys = s.recv.currentKeys := by rw [hrecv]; rfl
        apply wp_mono (acceptPacket_spec s3)
        · rintro type s' ⟨hpacket, htype, hkeys, hinput', hlen', hafter'⟩
          rw [wp_pure]
          rw [hkeys3] at hkeys
          refine ⟨⟨hcount, hpad.1, hpad.2, (hiff _).mpr hpacket.symm, htype, hkeys⟩, rfl,
            hinput'.trans hinput, hlen', ?_⟩
          simpa only [RecvAfter, hrecv, hafter, hlimit] using hafter'
        · intro _ _ hnot type payload h
          rw [hkeys3] at hnot
          exact hnot type payload ((hiff _).mp h.content).symm h.typeOk h.keys
      · rintro e _ ⟨hcomp, h⟩ type payload hdel
        have hcontent := hdel.content
        have hcomp' : s.recv.compEnabled = true := hcomp
        have h' : X.bufferUncompress s.incomingStream s.body = .error e := h
        simp only [Content, hcomp', if_true, h'] at hcontent
        obtain ⟨stream, hcontent⟩ := hcontent
        cases hcontent
    · intro _ _ hnot type payload h
      exact hnot ⟨h.padLow, h.padHigh⟩
  · intro _ _ hnot type payload h
    exact hnot h.count

/-! ## §3 What the stages leave alone -/

/-- `I` does not look at what is written before a packet is accepted. -/
def Unread (I : State Ctx Z → Prop) : Prop :=
  ∀ s input packet length stream context counters, I s → I { s with
    input := input, incomingPacket := packet, poll2PacketLength := length
    incomingStream := stream
    recv := { s.recv with context := context, p := counters } }

section Unread

variable {I : State Ctx Z → Prop} (h : Unread I)
include h

theorem readLength_keeps : Keeps I (readLength X) := by
  intro s hs
  simp only [readLength, wp_bind, wp_get]
  rw [wp_ite, wp_ite, wp_pure, wp_pure]
  refine ⟨fun _ => hs, fun _ => ⟨fun _ => hs, fun _ => ?_⟩⟩
  rw [wp_bind]
  refine wp_liftE (fun r _ => ?_) fun _ _ => hs
  simp only [wp_ite, wp_throw, wp_bind, wp_set, wp_pure]
  exact ⟨fun _ => hs, fun _ => h s _ _ _ _ _ _ hs⟩

theorem readRest_keeps : Keeps I (readRest X) := by
  intro s hs
  simp only [readRest, wp_bind, wp_get]
  rw [wp_ite, wp_ite, wp_ite, wp_throw, wp_throw, wp_pure]
  refine ⟨fun _ => hs, fun _ => ⟨fun _ => hs, fun _ => ⟨fun _ => hs, fun _ => ?_⟩⟩⟩
  rw [wp_bind]
  refine wp_liftE (fun r _ => ?_) fun _ _ => hs
  simp only [wp_bind, wp_set, wp_pure]
  exact h s _ _ _ _ _ _ hs

theorem checkMac_keeps : Keeps I (checkMac X) := by
  intro s hs
  simp only [checkMac, wp_bind, wp_get]
  cases s.recv.mac with
  | none =>
    rw [wp_pure]
    exact hs
  | some mac =>
    rw [wp_bind]
    refine wp_liftE (fun macbuf _ => ?_) fun _ _ => hs
    rw [wp_ite, wp_throw, wp_set]
    exact ⟨fun _ => hs, fun _ => h s _ _ _ _ _ _ hs⟩

theorem countIncoming_keeps : Keeps I (countIncoming : PacketM Ctx Z Unit) := by
  intro s hs
  simp only [countIncoming, wp_bind, wp_get]
  rw [wp_ite, wp_throw, wp_set]
  exact ⟨fun _ => hs, fun _ => h s _ _ _ _ _ _ hs⟩

theorem stripPadding_keeps : Keeps I (stripPadding : PacketM Ctx Z Unit) := by
  intro s hs
  simp only [stripPadding, wp_bind, wp_get]
  rw [wp_ite, wp_throw, wp_ite, wp_throw, wp_set]
  exact ⟨fun _ => hs, fun _ => ⟨fun _ => hs, fun _ => h s _ _ _ _ _ _ hs⟩⟩

theorem uncompressIncoming_keeps : Keeps I (uncompressIncoming X) := by
  intro s hs
  simp only [uncompressIncoming, wp_bind, wp_get]
  rw [wp_ite, wp_pure]
  refine ⟨fun _ => ?_, fun _ => hs⟩
  rw [wp_bind]
  refine wp_liftE (fun r _ => ?_) fun _ _ => hs
  rw [wp_set]
  exact h s _ _ _ _ _ _ hs

end Unread

end Shiesh.Transport
