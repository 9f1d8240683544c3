import Shiesh.Transport.ReadSpec

/-!
# Sending Packets: What Is Written

The bytes that `packet_send2_wrapped` appends to the output for one packet, without
compression: the encrypted packet and its MAC. `packetSend2Wrapped_sends` also says that
the packet is sent at all, under the conditions collected in `CanSend`.
-/

namespace Shiesh.Transport

open Shiesh.Lib Direction List

variable {Ctx Z : Type} {X : Extern Ctx Z}

/-! ## §1 Padding -/

/-- The padding fills the last block and has 4 to 19 bytes. -/
theorem padlenFor_spec {blockSize : Nat} (h : WireBlock blockSize) (len : Nat) :
    (len + (padlenFor blockSize len).toNat) % blockSize = 0 ∧
      4 ≤ (padlenFor blockSize len).toNat ∧ (padlenFor blockSize len).toNat < 20 := by
  have hfour : (4 : UInt8).toNat = 4 := rfl
  have hsmall : (UInt8.ofNat (blockSize - len % blockSize)).toNat =
      blockSize - len % blockSize := by
    rw [UInt8.toNat_ofNat', Nat.mod_eq_of_lt]
    rcases h with h | h <;> omega
  simp only [padlenFor, UInt8.lt_iff_toNat_lt, hsmall, hfour]
  split
  · have hsum : (UInt8.ofNat (blockSize - len % blockSize) + UInt8.ofNat blockSize).toNat =
        blockSize - len % blockSize + blockSize := by
      rw [UInt8.toNat_add, hsmall, UInt8.toNat_ofNat']
      rcases h with h | h <;> omega
    rw [hsum]
    rcases h with h | h <;> subst h <;> omega
  · rw [hsmall]
    rcases h with h | h <;> subst h <;> omega

/-- A packet before encryption. -/
def plainPacket (type : UInt8) (payload pad : Bytes) : Bytes :=
  putU32 (UInt32.ofNat (2 + payload.length + pad.length)) ++
    UInt8.ofNat pad.length :: type :: (payload ++ pad)

theorem plainPacket_length (type : UInt8) (payload pad : Bytes) :
    (plainPacket type payload pad).length = 6 + payload.length + pad.length := by
  simp only [plainPacket, putU32, length_append, beBytes_length, length_cons]
  omega

theorem writeHeader_packetStart (type padlen : UInt8) (payload pad : Bytes)
    (h : pad.length = padlen.toNat) :
    writeHeader padlen (packetStart type ++ payload ++ pad) = plainPacket type payload pad := by
  have hlength : (packetStart type ++ payload ++ pad).length - 4 =
      2 + payload.length + pad.length := by
    simp only [packetStart, length_append, length_cons, length_nil]
    omega
  have hdrop : (packetStart type ++ payload ++ pad).drop 5 = type :: (payload ++ pad) := by
    simp [packetStart]
  have hpad : UInt8.ofNat pad.length = padlen := by
    rw [h]
    exact UInt8.ofNat_toNat
  rw [writeHeader, hlength, hdrop, plainPacket, hpad]

/-! ## §2 The stages -/

/-- What it takes to send a packet of `type`: keys whose parts fit each other, no
compression, a free number under these keys, and pending keys for NEWKEYS. -/
structure CanSend (type : UInt8) (s : State Ctx Z) : Prop where
  block : WireBlock s.send.blockSize
  context : s.send.context.blockSize = s.send.blockSize
  maclen : s.send.maclen.toNat ≤ evpMaxMdSize
  plain : s.send.compEnabled = false
  extraPad : s.extraPad = 0
  count : s.send.p.packets + 1 ≠ 0
  keys : type = Ssh2Msg.newkeys → ∃ k, s.send.currentKeys = some k ∧ k.Fits

/-- The MAC of a packet in this direction. -/
def Direction.tag (X : Extern Ctx Z) (d : Direction Ctx) (packet : Bytes) : Bytes :=
  match d.mac with
  | some mac => (X.macCompute mac d.p.seqnr packet).take mac.macLen.toNat
  | none => []

variable {d : Direction Ctx} {s : State Ctx Z} {type : UInt8} {payload : Bytes}

theorem macBytes_eq_tag (h : d.maclen.toNat ≤ evpMaxMdSize)
    (packet : Bytes) : d.macBytes X packet = .ok (d.tag X packet) := by
  cases hmac : d.mac with
  | none => simp only [macBytes, tag, hmac]
  | some mac =>
    have hle : ¬ mac.macLen.toNat > evpMaxMdSize := by
      simp only [maclen, hmac] at h
      omega
    simp only [macBytes, tag, hmac, macCompute]
    rw [if_neg hle]
    rfl

theorem tag_length (h : d.maclen.toNat ≤ evpMaxMdSize) (packet : Bytes) :
    (d.tag X packet).length = d.maclen.toNat := by
  cases hmac : d.mac with
  | none => simp only [tag, maclen, hmac, length_nil, UInt32.toNat_zero]
  | some mac =>
    simp only [tag, maclen, hmac] at h ⊢
    rw [length_take, X.macCompute_length]
    omega

/-- The sending direction behind a packet, before any change of keys. -/
def Direction.sent (X : Extern Ctx Z) (d : Direction Ctx) (packet : Bytes) : Direction Ctx :=
  { d with
    context := { d.context with evp := (X.evpCipher d.context.evp packet).2 }
    p := d.p.next (packet.length - 4) d.blockSize }

/-- The packet `plain` was written by `s`, which became `s'`. -/
structure Written (X : Extern Ctx Z) (type : UInt8) (payload plain : Bytes)
    (s s' : State Ctx Z) : Prop where
  output : s'.output =
    s.output ++ ((X.evpCipher s.send.context.evp plain).1 ++ s.send.tag X plain)
  emitted : s'.emitted = s.emitted ++ [⟨type, payload, s.send.p.seqnr, s.send.newkeys⟩]
  extraPad : s'.extraPad = 0
  send : (type = Ssh2Msg.newkeys ∧ ∃ k, s.send.currentKeys = some k ∧
      s'.send = (s.send.sent X plain).installed X k true s.afterAuthentication s.rekeyLimit) ∨
    (type ≠ Ssh2Msg.newkeys ∧ s'.send = s.send.sent X plain)

theorem compressOutgoing_plain (h : s.send.compEnabled = false) :
    compressOutgoing X s = .ok () s := by
  simp only [compressOutgoing, get_bind_apply, h]
  rfl

theorem padOutgoing_spec
    (hpacket : s.outgoingPacket = packetStart type ++ payload) (hextra : s.extraPad = 0) :
    wp (padOutgoing X)
      (fun _ s' => ∃ pad, pad.length = (padlenFor s.send.blockSize (6 + payload.length)).toNat ∧
        s' = { s with
          outgoingPacket := plainPacket type payload pad
          extraPad := 0
          randomCalls := s'.randomCalls })
      never s := by
  have hlen : s.outgoingPacket.length = 6 + payload.length := by
    rw [hpacket]
    simp [packetStart]
    omega
  simp only [padOutgoing, wp_bind, wp_get, wp_set, hlen, hextra, extraPadding, ne_eq, not_true,
    if_false]
  generalize hpad : (if (s.send.newkeys.isSome && !s.send.context.plaintext) = true then
    randomPad X _ _ else replicate _ _) = pad
  have hpadlen : pad.length = (padlenFor s.send.blockSize (6 + payload.length)).toNat := by
    rw [← hpad]
    split
    · simp [randomPad]
    · exact length_replicate
  refine ⟨pad, hpadlen, ?_⟩
  rw [hpacket, writeHeader_packetStart _ _ _ _ hpadlen]

theorem sealOutgoing_spec (hmac : s.send.maclen.toNat ≤ evpMaxMdSize)
    (hblock : s.outgoingPacket.length % s.send.context.blockSize = 0) :
    wp (sealOutgoing X)
      (fun _ s' => s' = { s with
        output := s.output ++ ((X.evpCipher s.send.context.evp s.outgoingPacket).1 ++
          s.send.tag X s.outgoingPacket)
        send := { s.send with
          context := { s.send.context with
            evp := (X.evpCipher s.send.context.evp s.outgoingPacket).2 } } })
      never s := by
  simp only [sealOutgoing, wp_bind, wp_get, macBytes_eq_tag hmac, cipherCrypt]
  rw [if_neg (not_not_intro hblock)]
  simp only [liftE, wp_pure, wp_set, append_assoc]

theorem countOutgoing_spec (s : State Ctx Z) (h : s.send.p.packets + 1 ≠ 0) :
    wp countOutgoing
      (fun _ s' => s' = { s with
        send := { s.send with p := s.send.p.next (s.outgoingPacket.length - 4) s.send.blockSize }
        outgoingPacket := [] })
      never s := by
  simp only [countOutgoing, wp_bind, wp_get]
  rw [if_neg (fun hzero => h hzero.1), wp_set]

theorem setNewkeysOut_installs {k : Newkeys} (hk : s.send.currentKeys = some k) (hfits : k.Fits) :
    wp (setNewkeysOut X)
      (fun _ s' => s'.output = s.output ∧ s'.emitted = s.emitted ∧ s'.extraPad = s.extraPad ∧
        s'.send = s.send.installed X k true s.afterAuthentication s.rekeyLimit)
      never s := by
  have hkeys : s.send.release.currentKeys = some k := hk
  simp only [setNewkeysOut, wp_bind, wp_modify, wp_get, hkeys]
  apply wp_liftE
  · intro d hd
    obtain ⟨-, rfl⟩ := install_ok hd
    rw [wp_ite, wp_modify, wp_modify]
    exact ⟨fun _ => ⟨rfl, rfl, rfl, rfl⟩, fun _ => ⟨rfl, rfl, rfl, rfl⟩⟩
  · intro e he
    exact install_error he hfits

theorem packetSend2Wrapped_sends
    (hpacket : s.outgoingPacket = packetStart type ++ payload) (h : CanSend type s) :
    wp (packetSend2Wrapped X)
      (fun _ s' => ∃ pad, pad.length = (padlenFor s.send.blockSize (6 + payload.length)).toNat ∧
        Written X type payload (plainPacket type payload pad) s s')
      never s := by
  have hentry : s.entry = ⟨type, payload, s.send.p.seqnr, s.send.newkeys⟩ := by
    simp [State.entry, hpacket, packetStart]
  simp only [packetSend2Wrapped, wp_bind, wp_get, hentry]
  rw [wp_of_ok (compressOutgoing_plain h.plain)]
  apply wp_mono_total (padOutgoing_spec hpacket h.extraPad)
  rintro _ s1 ⟨pad, hpad, hs1⟩
  -- the padded packet is a multiple of the block size
  have hblock : s1.outgoingPacket.length % s1.send.context.blockSize = 0 := by
    rw [hs1]
    rw [plainPacket_length, hpad, h.context]
    exact (padlenFor_spec h.block _).1
  have hmac : s1.send.maclen.toNat ≤ evpMaxMdSize := by
    rw [hs1]
    exact h.maclen
  apply wp_mono_total (sealOutgoing_spec hmac hblock)
  intro _ s2 hs2
  have hcount : s2.send.p.packets + 1 ≠ 0 := by
    rw [hs2, hs1]
    exact h.count
  rw [wp_modify]
  refine wp_mono_total (countOutgoing_spec _ hcount) ?_
  intro _ s3 hs3
  have hsend : s3.send = s.send.sent X (plainPacket type payload pad) := by
    rw [hs3, hs2, hs1]
    rfl
  have houtput : s3.output = s.output ++
      ((X.evpCipher s.send.context.evp (plainPacket type payload pad)).1 ++
        s.send.tag X (plainPacket type payload pad)) := by
    rw [hs3, hs2, hs1]
    rfl
  have hemitted : s3.emitted =
      s.emitted ++ [⟨type, payload, s.send.p.seqnr, s.send.newkeys⟩] := by
    rw [hs3, hs2, hs1]
  have hextra : s3.extraPad = 0 := by
    rw [hs3, hs2, hs1]
    rfl
  rw [wp_ite]
  constructor
  · intro htype
    obtain ⟨k, hk, hfits⟩ := h.keys htype
    have hk3 : s3.send.currentKeys = some k := by
      rw [hsend]
      exact hk
    apply wp_mono_total (setNewkeysOut_installs hk3 hfits)
    rintro _ s' ⟨hout, hem, hext, hsend'⟩
    refine ⟨pad, hpad, hout.trans houtput, hem.trans hemitted, hext.trans hextra,
      .inl ⟨htype, k, hk, ?_⟩⟩
    rw [hsend', hsend, hs3, hs2, hs1]
    rfl
  · intro htype
    rw [wp_ite, wp_pure]
    -- `server_side` is 0
    refine ⟨fun hserver => absurd hserver.2 (by decide), fun _ => ?_⟩
    exact ⟨pad, hpad, houtput, hemitted, hextra, .inr ⟨htype, hsend⟩⟩

end Shiesh.Transport
