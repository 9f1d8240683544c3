import Shiesh.Transport.Delivery
import Shiesh.Transport.SendSpec

/-!
# Linked Directions

The sending direction of one end and the receiving direction of the other end of a
connection, and one packet on its way between them.
-/

namespace Shiesh.Transport

open Shiesh.Lib List Direction State Nat

variable {Ctx Z : Type} {X : Extern Ctx Z}

/-! ## §1 The cipher -/

/-- The cipher as a stateful transform. `Sync n e d` says that the decrypting context `d`
has seen what the encrypting context `e`, with block size `n`, has made. -/
structure CipherLaws (X : Extern Ctx Z) where
  Sync : Nat → Ctx → Ctx → Prop
  sync_init : ∀ cipher key iv,
    Sync cipher.blockSize (X.evpInit cipher key iv true) (X.evpInit cipher key iv false)
  -- whole blocks are encrypted one after the other
  encrypt_append : ∀ {n e d p q}, Sync n e d → p.length % n = 0 → q.length % n = 0 →
    X.evpCipher e (p ++ q) =
      ((X.evpCipher e p).1 ++ (X.evpCipher (X.evpCipher e p).2 q).1,
        (X.evpCipher (X.evpCipher e p).2 q).2)
  -- decryption inverts encryption
  decrypt : ∀ {n e d p}, Sync n e d → p.length % n = 0 →
    (X.evpCipher d (X.evpCipher e p).1).1 = p ∧
      Sync n (X.evpCipher e p).2 (X.evpCipher d (X.evpCipher e p).1).2

/-- A packet decrypted in two steps, the first block and then the others. -/
theorem CipherLaws.decrypt_split (L : CipherLaws X) {n : Nat} {e d : Ctx} {p : Bytes}
    (h : L.Sync n e d) (hp : p.length % n = 0) (hn : n ≤ p.length) :
    (X.evpCipher d ((X.evpCipher e p).1.take n)).1 = p.take n ∧
      (X.evpCipher (X.evpCipher d ((X.evpCipher e p).1.take n)).2
        ((X.evpCipher e p).1.drop n)).1 = p.drop n ∧
      L.Sync n (X.evpCipher e p).2
        (X.evpCipher (X.evpCipher d ((X.evpCipher e p).1.take n)).2
          ((X.evpCipher e p).1.drop n)).2 := by
  have hfirst : (p.take n).length % n = 0 := by
    rw [length_take_of_le hn, mod_self]
  have hrest : (p.drop n).length % n = 0 := by
    rw [length_drop, ← mod_eq_sub_mod hn]
    exact hp
  have hsplit := L.encrypt_append h hfirst hrest
  rw [take_append_drop] at hsplit
  have hlen : (X.evpCipher e (p.take n)).1.length = n := by
    rw [X.evpCipher_length, length_take_of_le hn]
  rw [hsplit]
  simp only [take_left' hlen, drop_left' hlen]
  obtain ⟨hplain, hsync⟩ := L.decrypt h hfirst
  obtain ⟨hplain', hsync'⟩ := L.decrypt hsync hrest
  exact ⟨hplain, hplain', hsync'⟩

/-- The identity is a cipher. -/
def CipherLaws.null : CipherLaws Extern.null where
  Sync _ _ _ := True
  sync_init _ _ _ := trivial
  encrypt_append _ _ _ := rfl
  decrypt _ _ := ⟨rfl, trivial⟩

/-! ## §2 Linked directions -/

/-- A key set for both ends: its parts fit each other, and it has no compression. -/
structure MatchingKeys extends WireKeys where
  cipherBlock : enc.cipher.blockSize = enc.blockSize
  keyLen_le : enc.cipher.keyLen ≤ enc.keyLen
  macLen_le : mac.macLen.toNat ≤ evpMaxMdSize
  noComp : comp.type = .none ∧ comp.enabled = false

theorem MatchingKeys.fits (k : MatchingKeys) : k.toNewkeys.Fits :=
  ⟨k.keyLen_le, le_of_eq k.cipherBlock⟩

/-- The receiving direction `r` of one end matches the sending direction `d` of the
other. -/
structure Linked (L : CipherLaws X) (d r : Direction Ctx) : Prop where
  newkeys : r.newkeys = d.newkeys
  seqnr : r.p.seqnr = d.p.seqnr
  packets : r.p.packets = d.p.packets
  block : WireBlock d.blockSize
  sendContext : d.context.blockSize = d.blockSize
  recvContext : r.context.blockSize = d.blockSize
  maclen : d.maclen.toNat ≤ evpMaxMdSize
  noComp : ∀ k, d.newkeys = some k → k.comp.type = .none ∧ k.comp.enabled = false
  sync : L.Sync d.blockSize d.context.evp r.context.evp

namespace Linked

variable {L : CipherLaws X} {d r : Direction Ctx}

variable (h : Linked L d r)
include h

theorem blockSize : r.blockSize = d.blockSize := by
  simp only [Direction.blockSize, h.newkeys]

theorem mac : r.mac = d.mac := by
  simp only [Direction.mac, h.newkeys]

theorem recvMaclen : r.maclen = d.maclen := by
  simp only [Direction.maclen, h.mac]

theorem compEnabled : d.compEnabled = false := by
  cases hk : d.newkeys with
  | none => simp only [Direction.compEnabled, hk]
  | some k =>
    simp only [Direction.compEnabled, hk]
    exact (h.noComp k hk).2

theorem recvCompEnabled : r.compEnabled = false := by
  have hd := h.compEnabled
  simp only [Direction.compEnabled, h.newkeys] at hd ⊢
  exact hd

end Linked

/-- Compression is not switched on by installing the keys. -/
theorem MatchingKeys.inUse_comp (k : MatchingKeys) (afterAuthentication : Bool) :
    k.toNewkeys.inUse afterAuthentication = k.toNewkeys.inUse false := by
  have h : ∀ b, startsCompression k.comp b = false := by
    intro b
    simp only [startsCompression, k.noComp.1]
    cases b <;> rfl
  simp only [Newkeys.inUse, h]

theorem Newkeys.inUse_macLen (k : Newkeys) (afterAuthentication : Bool) :
    (k.inUse afterAuthentication).mac.macLen = k.mac.macLen := by
  simp only [Newkeys.inUse]
  split
  · rfl
  · rfl

theorem Direction.maclen_le {d : Direction Ctx} {k : Newkeys} (h : d.newkeys = some k) :
    d.maclen.toNat ≤ k.mac.macLen.toNat := by
  simp only [maclen, mac, h]
  cases k.mac.enabled with
  | true => exact le_rfl
  | false => exact zero_le _

/-- **Fresh keys**: installing one key set at both ends links the directions. -/
theorem Linked.installed (L : CipherLaws X) (d r : Direction Ctx) (k : MatchingKeys)
    (after after' : Bool) (limit limit' : UInt32) (hseqnr : r.p.seqnr = d.p.seqnr) :
    Linked L (d.installed X k.toNewkeys true after limit)
      (r.installed X k.toNewkeys false after' limit') := by
  have hcomp : (k.toNewkeys.inUse after).comp = k.comp := by
    rw [k.inUse_comp]
    simp only [Newkeys.inUse, startsCompression, k.noComp.1]
    rfl
  constructor
  · simp only [Direction.installed, k.inUse_comp after, k.inUse_comp after']
  · exact hseqnr
  · rfl
  · exact k.wireBlock
  · exact k.cipherBlock
  · exact k.cipherBlock
  · apply (Direction.maclen_le rfl).trans
    rw [Newkeys.inUse_macLen]
    exact k.macLen_le
  · intro k' hk'
    cases hk'
    rw [hcomp]
    exact k.noComp
  · have hsync := L.sync_init k.enc.cipher (k.enc.key.take k.enc.keyLen)
      (k.enc.iv.take k.enc.blockSize)
    rw [k.cipherBlock] at hsync
    exact hsync

/-- The receiving direction behind a packet, before any change of keys. -/
def Direction.read (X : Extern Ctx Z) (r : Direction Ctx) (c : Bytes) : Direction Ctx :=
  { r with
    context := { r.context with
      evp := (X.evpCipher (X.evpCipher r.context.evp (c.take r.blockSize)).2
        (c.drop r.blockSize)).2 }
    p := r.p.next (c.length - 4) r.blockSize }

theorem Linked.step {L : CipherLaws X} {d r : Direction Ctx} (h : Linked L d r) {plain : Bytes}
    (hlen : plain.length % d.blockSize = 0) (hle : d.blockSize ≤ plain.length) :
    Linked L (d.sent X plain) (r.read X (X.evpCipher d.context.evp plain).1) := by
  obtain ⟨-, -, hsync⟩ := L.decrypt_split h.sync hlen hle
  constructor
  · exact h.newkeys
  · simp only [Direction.sent, Direction.read, Counters.next, h.seqnr]
  · simp only [Direction.sent, Direction.read, Counters.next, h.packets]
  · exact h.block
  · exact h.sendContext
  · exact h.recvContext
  · exact h.maclen
  · exact h.noComp
  · simp only [Direction.read, h.blockSize]
    exact hsync

/-! ## §3 Reading what was written -/

section Plain

variable (type : UInt8) (payload pad : Bytes)

theorem plainPacket_take : (plainPacket type payload pad).take 4 =
    putU32 (UInt32.ofNat (2 + payload.length + pad.length)) :=
  take_left' (putU32_length _)

theorem plainPacket_behind : (plainPacket type payload pad).drop 4 =
    UInt8.ofNat pad.length :: type :: (payload ++ pad) :=
  drop_left' (putU32_length _)

theorem plainPacket_drop : (plainPacket type payload pad).drop 5 = type :: (payload ++ pad) := by
  rw [← drop_drop (i := 1) (j := 4), plainPacket_behind]
  rfl

theorem plainPacket_padlen : (plainPacket type payload pad).getD 4 0 = UInt8.ofNat pad.length := by
  rw [getD_eq_getElem?_getD, ← head?_drop, plainPacket_behind]
  rfl

end Plain

/-- The receiving end `t` has exactly the packet `plain` of the sending direction `d` in
its input, and can take it. -/
structure Arrived (L : CipherLaws X) (d : Direction Ctx) (t : State Ctx Z) (type : UInt8)
    (payload pad : Bytes) : Prop where
  link : Linked L d t.recv
  between : t.poll2PacketLength = 0
  padlen : pad.length = (padlenFor d.blockSize (6 + payload.length)).toNat
  size : 2 + payload.length + pad.length ≤ 256 * 1024
  count : d.p.packets + 1 ≠ 0
  typeOk : 1 ≤ type.toNat ∧ type.toNat < 192
  keys : type = Ssh2Msg.newkeys → ∃ k, t.recv.currentKeys = some k ∧ k.Fits
  input : t.input = (X.evpCipher d.context.evp (plainPacket type payload pad)).1 ++
    d.tag X (plainPacket type payload pad)

namespace Arrived

variable {L : CipherLaws X} {d : Direction Ctx} {t : State Ctx Z} {type : UInt8}
  {payload pad : Bytes} (h : Arrived L d t type payload pad)

include h

theorem aligned : (plainPacket type payload pad).length % d.blockSize = 0 := by
  rw [plainPacket_length, h.padlen]
  exact (padlenFor_spec h.link.block _).1

theorem oneBlock : d.blockSize ≤ (plainPacket type payload pad).length := by
  have haligned := h.aligned
  have hlen := plainPacket_length type payload pad
  rcases h.link.block with hb | hb <;> rw [hb] at haligned ⊢ <;> omega

theorem firstBlock_packet :
    (t.firstBlock X).incomingPacket = (plainPacket type payload pad).take d.blockSize := by
  obtain ⟨hfirst, -, -⟩ := L.decrypt_split h.link.sync h.aligned h.oneBlock
  simp only [firstBlock, h.link.blockSize, h.input]
  rw [take_append_of_le_length (by rw [X.evpCipher_length]; exact h.oneBlock)]
  exact hfirst

theorem firstBlock_input : (t.firstBlock X).input =
    (X.evpCipher d.context.evp (plainPacket type payload pad)).1.drop d.blockSize ++
      d.tag X (plainPacket type payload pad) := by
  simp only [firstBlock, h.link.blockSize, h.input]
  rw [drop_append_of_le_length (by rw [X.evpCipher_length]; exact h.oneBlock)]

theorem firstBlock_evp : (t.firstBlock X).recv.context.evp =
    (X.evpCipher t.recv.context.evp
      ((X.evpCipher d.context.evp (plainPacket type payload pad)).1.take d.blockSize)).2 := by
  simp only [firstBlock, h.link.blockSize, h.input]
  rw [take_append_of_le_length (by rw [X.evpCipher_length]; exact h.oneBlock)]

theorem length_eq :
    (t.firstBlock X).poll2PacketLength = UInt32.ofNat (2 + payload.length + pad.length) := by
  have hpacket : (t.firstBlock X).poll2PacketLength =
      getU32 ((t.firstBlock X).incomingPacket.take 4) := rfl
  have h4 : min 4 d.blockSize = 4 := by
    rcases h.link.block with hb | hb <;> omega
  rw [hpacket, h.firstBlock_packet, take_take, h4, plainPacket_take, getU32_putU32]

theorem length_toNat :
    (t.firstBlock X).poll2PacketLength.toNat = 2 + payload.length + pad.length := by
  have hsize := h.size
  rw [h.length_eq, UInt32.toNat_ofNat', mod_eq_of_lt (by omega)]

theorem lengthOk : LengthOk (t.firstBlock X).poll2PacketLength := by
  have hlow := (padlenFor_spec h.link.block (6 + payload.length)).2.1
  rw [← h.padlen] at hlow
  have hsize := h.size
  rw [LengthOk, h.length_toNat]
  omega

theorem need_eq : (t.firstBlock X).need.toNat =
    (plainPacket type payload pad).length - d.blockSize := by
  have hblock : (t.firstBlock X).recv.blockSize = d.blockSize := h.link.blockSize
  have hlen := plainPacket_length type payload pad
  have hone := h.oneBlock
  have hsize := h.size
  simp only [need, hblock, UInt32.toNat_sub, UInt32.toNat_add, h.length_toNat,
    UInt32.toNat_ofNat, UInt32.toNat_ofNat']
  rcases h.link.block with hb | hb <;> rw [hb] at hone ⊢ <;> omega

theorem rest_length :
    ((X.evpCipher d.context.evp (plainPacket type payload pad)).1.drop d.blockSize).length =
      (t.firstBlock X).need.toNat := by
  rw [h.need_eq, length_drop, X.evpCipher_length]

theorem restBlocks_packet :
    ((t.firstBlock X).restBlocks X).incomingPacket = plainPacket type payload pad := by
  obtain ⟨-, hrest, -⟩ := L.decrypt_split h.link.sync h.aligned h.oneBlock
  simp only [restBlocks, h.firstBlock_packet, h.firstBlock_evp, h.firstBlock_input]
  rw [take_left' h.rest_length, hrest, take_append_drop]

theorem restBlocks_input :
    ((t.firstBlock X).restBlocks X).input = d.tag X (plainPacket type payload pad) := by
  simp only [restBlocks, h.firstBlock_input]
  rw [drop_left' h.rest_length]

theorem restBlocks_recv : ((t.firstBlock X).unsealed X).counted =
    t.recv.read X (X.evpCipher d.context.evp (plainPacket type payload pad)).1 := by
  have hcount : (t.firstBlock X).poll2PacketLength.toNat =
      (X.evpCipher d.context.evp (plainPacket type payload pad)).1.length - 4 := by
    rw [h.length_toNat, X.evpCipher_length, plainPacket_length]
    omega
  have hsame : ∀ u : State Ctx Z, ((u.firstBlock X).unsealed X).counted =
      { u.recv with
        context := { u.recv.context with
          evp := (X.evpCipher (u.firstBlock X).recv.context.evp
            ((u.firstBlock X).input.take (u.firstBlock X).need.toNat)).2 }
        p := u.recv.p.next (u.firstBlock X).poll2PacketLength.toNat u.recv.blockSize } :=
    fun _ => rfl
  rw [hsame, h.firstBlock_evp, h.firstBlock_input, take_left' h.rest_length, hcount]
  simp only [Direction.read, h.link.blockSize]

theorem authentic : Authentic X ((t.firstBlock X).restBlocks X) := by
  intro mac hmac
  have hd : d.mac = some mac := by
    rw [← h.link.mac]
    exact hmac
  have hmaclen : d.maclen = mac.macLen := by simp only [maclen, hd]
  have hle := h.link.maclen
  rw [hmaclen] at hle
  refine ⟨hle, ?_⟩
  have hseqnr : ((t.firstBlock X).restBlocks X).recv.p.seqnr = d.p.seqnr := h.link.seqnr
  rw [h.restBlocks_packet, h.restBlocks_input, hseqnr]
  have hlen : (d.tag X (plainPacket type payload pad)).length = mac.macLen.toNat := by
    rw [tag_length h.link.maclen, hmaclen]
  rw [take_of_length_le (le_of_eq hlen)]
  simp only [tag, hd]

theorem unsealed_input : ((t.firstBlock X).unsealed X).input = [] := by
  have hmac : (t.firstBlock X).recv.maclen = d.maclen := h.link.recvMaclen
  simp only [unsealed, h.restBlocks_input, hmac]
  exact drop_eq_nil_of_le (le_of_eq (tag_length h.link.maclen _))

theorem unsealed_packet :
    ((t.firstBlock X).unsealed X).incomingPacket = plainPacket type payload pad :=
  h.restBlocks_packet

theorem unsealed_padlen : ((t.firstBlock X).unsealed X).padlen = pad.length := by
  have hhigh := (padlenFor_spec h.link.block (6 + payload.length)).2.2
  rw [← h.padlen] at hhigh
  rw [State.padlen, h.unsealed_packet, plainPacket_padlen, UInt8.toNat_ofNat',
    mod_eq_of_lt (by omega)]

theorem unsealed_body : ((t.firstBlock X).unsealed X).body = type :: payload := by
  rw [body, h.unsealed_padlen, h.unsealed_packet, plainPacket_drop]
  have hlen : (type :: (payload ++ pad)).length - pad.length = (type :: payload).length := by
    simp only [length_cons, length_append]
    omega
  rw [hlen, ← cons_append]
  exact take_left' rfl

theorem deliverable : Deliverable X ((t.firstBlock X).unsealed X) type payload := by
  have hpad := padlenFor_spec h.link.block (6 + payload.length)
  rw [← h.padlen] at hpad
  constructor
  · left
    have hpackets : ((t.firstBlock X).unsealed X).recv.p.packets = d.p.packets := h.link.packets
    rw [hpackets]
    exact h.count
  · rw [h.unsealed_padlen]
    exact hpad.2.1
  · rw [h.unsealed_padlen, h.unsealed_packet, plainPacket_drop]
    simp only [length_cons, length_append]
    omega
  · have hcomp : ((t.firstBlock X).unsealed X).recv.compEnabled = false := h.link.recvCompEnabled
    rw [Content, hcomp, if_neg (by simp), h.unsealed_body]
  · exact h.typeOk
  · exact h.keys

end Arrived

/-- What an end that takes the packet becomes. -/
structure Taken (X : Extern Ctx Z) (type : UInt8) (payload c : Bytes) (t t' : State Ctx Z) :
    Prop where
  payload : t'.incomingPacket = payload
  input : t'.input = []
  between : t'.poll2PacketLength = 0
  recv : (type = Ssh2Msg.newkeys ∧ ∃ k, t.recv.currentKeys = some k ∧
      t'.recv = (t.recv.read X c).installed X k false t.afterAuthentication t.rekeyLimit) ∨
    (type ≠ Ssh2Msg.newkeys ∧ t'.recv = t.recv.read X c)

theorem startDelayed_of_noComp {k : Newkeys} (h : k.comp.type = .none) : startDelayed k = none := by
  simp only [startDelayed, h]
  cases k.comp.enabled <;> rfl

theorem packetReadPoll2_reads {L : CipherLaws X} {d : Direction Ctx} {t : State Ctx Z}
    {type : UInt8} {payload pad : Bytes} (h : Arrived L d t type payload pad) :
    wp (packetReadPoll2 X)
      (fun r t' => r = some (type, d.p.seqnr) ∧
        Taken X type payload (X.evpCipher d.context.evp (plainPacket type payload pad)).1 t t')
      never t := by
  have hcipher : (X.evpCipher d.context.evp (plainPacket type payload pad)).1.length =
      (plainPacket type payload pad).length := X.evpCipher_length _ _
  have hone := h.oneBlock
  have hblock : t.recv.blockSize ≤ t.input.length := by
    rw [h.link.blockSize, h.input, length_append, hcipher]
    omega
  simp only [packetReadPoll2, wp_bind]
  apply wp_mono (readLength_spec h.between hblock)
  · rintro full t1 ⟨rfl, rfl, -⟩
    rw [if_pos rfl]
    have hsize : (t.firstBlock X).recv.blockSize = d.blockSize := h.link.blockSize
    have hneed : (t.firstBlock X).need.toNat % (t.firstBlock X).recv.blockSize = 0 := by
      rw [h.need_eq, hsize, ← mod_eq_sub_mod hone]
      exact h.aligned
    have hmac : (t.firstBlock X).recv.maclen = d.maclen := h.link.recvMaclen
    have hinput : (t.firstBlock X).input.length =
        (t.firstBlock X).need.toNat + d.maclen.toNat := by
      rw [h.firstBlock_input, length_append, h.rest_length, tag_length h.link.maclen]
    have hall : ((t.firstBlock X).need + (t.firstBlock X).recv.maclen).toNat ≤
        (t.firstBlock X).input.length := by
      rw [hinput, hmac, UInt32.toNat_add]
      exact mod_le _ _
    apply wp_mono (readBody_spec hneed hall (by omega))
    · rintro r t' ⟨type', rfl, -, hdel, hend⟩
      have hcontent := hdel.content
      have hcomp : ((t.firstBlock X).unsealed X).recv.compEnabled = false :=
        h.link.recvCompEnabled
      rw [Content, hcomp, if_neg (by simp), h.unsealed_body] at hcontent
      obtain ⟨rfl, hpayload⟩ := cons.inj hcontent
      have hseqnr : (t.firstBlock X).recv.p.seqnr = d.p.seqnr := h.link.seqnr
      refine ⟨by rw [hseqnr], hpayload, hend.input.trans h.unsealed_input, hend.length, ?_⟩
      have hrecv := hend.recv
      rw [RecvAfter, h.restBlocks_recv] at hrecv
      rcases hrecv with hnew | ⟨hne, hsame | ⟨k, k', hk, hk', -⟩⟩
      · exact .inl hnew
      · exact .inr ⟨hne, hsame⟩
      · -- there is no delayed compression to start
        have hkeys : d.newkeys = some k := by
          rw [← h.link.newkeys]
          exact hk
        rw [startDelayed_of_noComp (h.link.noComp k hkeys).1] at hk'
        cases hk'
    · rintro e t' (hbad | hbad | hbad)
      · have hcontext : (t.firstBlock X).recv.context.blockSize =
            (t.firstBlock X).recv.blockSize := by
          rw [hsize]
          exact h.link.recvContext
        rw [hcontext] at hbad
        exact hbad hneed
      · exact hbad h.authentic
      · exact hbad type payload h.deliverable
  · rintro e t' (hbad | hbad)
    · rw [h.link.recvContext, h.link.blockSize, mod_self] at hbad
      exact hbad rfl
    · exact hbad h.lengthOk

end Shiesh.Transport
