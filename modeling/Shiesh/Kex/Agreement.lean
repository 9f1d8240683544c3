import Shiesh.Kex.Derive
import Shiesh.Lib.Result

/-!
# Both Sides Choose Alike

The server and the client run the same `kex_choose_conf` with the two KEXINIT payloads
exchanged, and index their key sets by mode, not by wire direction. `Outcome` is what the
pair of proposals determines, indexed by direction; `Outcome.view` is how one side stores
it.
-/

namespace Shiesh.Kex

open Shiesh.Transport Shiesh.Lib

variable (D : Digests) (bugs : Bugs)

/-! ## §1 Outcomes -/

/-- The result of a negotiation, by wire direction. -/
structure Outcome where
  ctos : Newkeys
  stoc : Newkeys
  name : Bytes
  kexType : KexType
  evpMd : EvpMd
  hostkeyType : KeyType

/-- The outcome that a client and a server proposal determine. -/
structure Outcome.Of (cprop sprop : Proposal) (o : Outcome) : Prop where
  ctos : chooseNewkeys D bugs cprop sprop true = .ok o.ctos
  stoc : chooseNewkeys D bugs cprop sprop false = .ok o.stoc
  kex : chooseKex cprop.kexAlgs sprop.kexAlgs = .ok (o.name, o.kexType, o.evpMd)
  hostkey : chooseHostkeyalg cprop.serverHostKeyAlgs sprop.serverHostKeyAlgs =
    .ok o.hostkeyType

def Outcome.weNeed (o : Outcome) : Nat := needFor (needFor 0 o.ctos) o.stoc

/-- An outcome as the server (or the client) keeps it in its `Kex`. -/
def Outcome.view (o : Outcome) (server skipNext : Bool) : Conf where
  modeIn := if server then o.ctos else o.stoc
  modeOut := if server then o.stoc else o.ctos
  name := o.name
  kexType := o.kexType
  evpMd := o.evpMd
  hostkeyType := o.hostkeyType
  weNeed := o.weNeed
  skipNext := skipNext

variable (o : Outcome)

theorem Outcome.weNeed_covers_ctos : NeedCovers o.weNeed o.ctos :=
  (needFor_covers 0 o.ctos).mono (le_needFor _ _)

theorem Outcome.weNeed_covers_stoc : NeedCovers o.weNeed o.stoc :=
  needFor_covers _ o.stoc

/-! ## §2 The choice returns views of outcomes -/

/-- The client's and the server's proposal, from one's own and the peer's. -/
def byRole {α : Type} (server : Bool) (my peer : α) : α × α :=
  if server then (peer, my) else (my, peer)

variable {server : Bool} {my peer : Bytes} {conf : Conf}

/-- The outcome is read back from a successful choice. -/
theorem outcome_of_kexChooseConf (h : kexChooseConf D bugs server my peer = .ok conf) :
    ∃ m p o, readCopy kexBuf2prop my = .ok m ∧ readCopy kexBuf2prop peer = .ok p ∧
      Outcome.Of D bugs (byRole server m.1 p.1).1 (byRole server m.1 p.1).2 o ∧
      conf = o.view server conf.skipNext := by
  obtain ⟨m, hm, h⟩ := except_bind_eq_ok h
  obtain ⟨p, hp, h⟩ := except_bind_eq_ok h
  obtain ⟨kin, hin, h⟩ := except_bind_eq_ok h
  obtain ⟨kout, hout, h⟩ := except_bind_eq_ok h
  obtain ⟨kex, hkex, h⟩ := except_bind_eq_ok h
  obtain ⟨type, htype, h⟩ := except_bind_eq_ok h
  cases h
  -- the loop starts with MODE_IN, which is the other direction on the other side
  cases server with
  | true =>
    exact ⟨m, p, ⟨kin, kout, kex.1, kex.2.1, kex.2.2, type⟩, hm, hp,
      ⟨hin, hout, hkex, htype⟩, rfl⟩
  | false =>
    refine ⟨m, p, ⟨kout, kin, kex.1, kex.2.1, kex.2.2, type⟩, hm, hp,
      ⟨hout, hin, hkex, htype⟩, ?_⟩
    have hneed := needFor_comm 0 kin kout
    simp [Outcome.view, Outcome.weNeed, hneed]

/-- The choice succeeds whenever the two proposals have an outcome. -/
theorem kexChooseConf_of_outcome {m p : Proposal × Bool}
    {o : Outcome} (hm : readCopy kexBuf2prop my = .ok m) (hp : readCopy kexBuf2prop peer = .ok p)
    (ho : Outcome.Of D bugs (byRole server m.1 p.1).1 (byRole server m.1 p.1).2 o) :
    ∃ skipNext, kexChooseConf D bugs server my peer = .ok (o.view server skipNext) := by
  refine ⟨p.2 && !proposalsMatch m.1 p.1 && !bugs.firstkex, ?_⟩
  obtain ⟨hctos, hstoc, hkex, hhost⟩ := ho
  cases server with
  | true =>
    simp only [byRole, if_true] at hctos hstoc hkex hhost
    simp [kexChooseConf, hm, hp, ctos, hctos, hstoc, hkex, hhost, Outcome.view,
      Outcome.weNeed, bind, Except.bind]
  | false =>
    simp only [byRole, Bool.false_eq_true, if_false] at hctos hstoc hkex hhost
    have hneed := needFor_comm 0 o.stoc o.ctos
    simp [kexChooseConf, hm, hp, ctos, hctos, hstoc, hkex, hhost, Outcome.view,
      Outcome.weNeed, hneed, bind, Except.bind]

/-- If one side finds an outcome, so does the other, and it is the same. -/
theorem kexChooseConf_other (h : kexChooseConf D bugs server my peer = .ok conf) :
    ∃ cprop sprop o skip skip', Outcome.Of D bugs cprop sprop o ∧
      conf = Outcome.view o server skip ∧
      kexChooseConf D bugs (!server) peer my = .ok (o.view (!server) skip') := by
  obtain ⟨m, p, o, hm, hp, ho, hconf⟩ := outcome_of_kexChooseConf D bugs h
  have hrole : byRole (!server) p.1 m.1 = byRole server m.1 p.1 := by
    cases server <;> rfl
  have ho' := ho
  rw [← hrole] at ho'
  obtain ⟨skip', h'⟩ := kexChooseConf_of_outcome D bugs hp hm ho'
  exact ⟨_, _, o, _, skip', ho, hconf, h'⟩

/-! ## §3 Keys from a view -/

/-- **The same keys on both sides.** The letter of a key belongs to its wire direction, so
the key sets depend on the side only in which of them is incoming. -/
theorem kexDeriveKeys_view (sessionId hash : Bytes) (sharedSecret : Nat) :
    ∃ ctosKeys stocKeys : Newkeys, Keyed ctosKeys ∧ Keyed stocKeys ∧
      (∃ iv key macKey, ctosKeys = withMaterial o.ctos iv key macKey) ∧
      (∃ iv key macKey, stocKeys = withMaterial o.stoc iv key macKey) ∧
      ∀ server skipNext, kexDeriveKeys D bugs server (o.view server skipNext) sessionId hash
        sharedSecret = .ok (if server then (ctosKeys, stocKeys) else (stocKeys, ctosKeys)) := by
  have hkey := fun id => deriveKey_ok D bugs o.evpMd sessionId id o.weNeed hash sharedSecret
  obtain ⟨a, ha, hal⟩ := hkey 0x41
  obtain ⟨b, hb, hbl⟩ := hkey 0x42
  obtain ⟨c, hc, hcl⟩ := hkey 0x43
  obtain ⟨d, hd, hdl⟩ := hkey 0x44
  obtain ⟨e, he, hel⟩ := hkey 0x45
  obtain ⟨f, hf, hfl⟩ := hkey 0x46
  refine ⟨withMaterial o.ctos a c e, withMaterial o.stoc b d f,
    o.weNeed_covers_ctos.keyed hal hcl hel, o.weNeed_covers_stoc.keyed hbl hdl hfl,
    ⟨a, c, e, rfl⟩, ⟨b, d, f, rfl⟩, ?_⟩
  intro server skipNext
  cases server <;>
    simp [kexDeriveKeys, Outcome.view, ctos, ha, hb, hc, hd, he, hf, bind, Except.bind]

/-! ## §4 Agreement -/

theorem chooseNewkeys_enc {cprop sprop : Proposal} {ctos : Bool} {k : Newkeys}
    (h : chooseNewkeys D bugs cprop sprop ctos = .ok k) :
    k.enc.keyLen = k.enc.cipher.keyLen ∧ k.enc.blockSize = k.enc.cipher.blockSize := by
  obtain ⟨enc, henc, h⟩ := except_bind_eq_ok h
  obtain ⟨mac, -, h⟩ := except_bind_eq_ok h
  obtain ⟨comp, -, h⟩ := except_bind_eq_ok h
  cases h
  simp only [chooseEnc] at henc
  split at henc
  · cases henc
  · split at henc <;> cases henc
    exact ⟨rfl, rfl⟩

/-- What both sides have chosen when their choices go together: one side's incoming key
set is the other's outgoing one, and the rest is the same. -/
structure Conf.Mirrors (server client : Conf) : Prop where
  ctos : server.modeIn = client.modeOut
  stoc : server.modeOut = client.modeIn
  name : server.name = client.name
  kexType : server.kexType = client.kexType
  evpMd : server.evpMd = client.evpMd
  hostkeyType : server.hostkeyType = client.hostkeyType
  weNeed : server.weNeed = client.weNeed

/-- A key set `k` made from the chosen `k₀`: the algorithms are the chosen ones, and there
is key material for the cipher's key length, its block size and the MAC's key length. -/
structure KeyedFrom (k₀ k : Newkeys) : Prop where
  algorithms : k = withMaterial k₀ k.enc.iv k.enc.key k.mac.key
  key : k.enc.cipher.keyLen ≤ k.enc.key.length
  iv : k.enc.cipher.blockSize ≤ k.enc.iv.length
  macKey : k.mac.keyLen ≤ k.mac.key.length

theorem Keyed.keyedFrom {k₀ : Newkeys} {iv key macKey : Bytes}
    (h : Keyed (withMaterial k₀ iv key macKey))
    (hlen : k₀.enc.keyLen = k₀.enc.cipher.keyLen ∧ k₀.enc.blockSize = k₀.enc.cipher.blockSize) :
    KeyedFrom k₀ (withMaterial k₀ iv key macKey) where
  algorithms := rfl
  key := hlen.1 ▸ h.key
  iv := hlen.2 ▸ h.iv
  macKey := h.macKey

/-- **Negotiation agreement.** For any two KEXINIT payloads, `kex_choose_conf` fails for
the server and for the client, or the two choices mirror each other. In the second case
`kex_derive_keys` succeeds on both sides for every exchange hash, session id and shared
secret, and each side's incoming keys are the outgoing keys of the other, as long as what
that direction needs. -/
theorem kexChooseConf_agreement (serverInit clientInit : Bytes) :
    ((∃ e, kexChooseConf D {} true serverInit clientInit = .error e) ∧
      ∃ e, kexChooseConf D {} false clientInit serverInit = .error e) ∨
    ∃ server client, kexChooseConf D {} true serverInit clientInit = .ok server ∧
      kexChooseConf D {} false clientInit serverInit = .ok client ∧
      server.Mirrors client ∧
      ∀ (sessionId hash : Bytes) (sharedSecret : Nat), ∃ sIn sOut cIn cOut,
        kexDeriveKeys D {} true server sessionId hash sharedSecret = .ok (sIn, sOut) ∧
        kexDeriveKeys D {} false client sessionId hash sharedSecret = .ok (cIn, cOut) ∧
        sIn = cOut ∧ sOut = cIn ∧
        KeyedFrom server.modeIn sIn ∧ KeyedFrom server.modeOut sOut := by
  cases hs : kexChooseConf D {} true serverInit clientInit with
  | error e =>
    left
    refine ⟨⟨e, rfl⟩, ?_⟩
    cases hc : kexChooseConf D {} false clientInit serverInit with
    | error e' => exact ⟨e', rfl⟩
    | ok client =>
      obtain ⟨-, -, o, -, skip', -, -, h⟩ := kexChooseConf_other D {} hc
      rw [Bool.not_false, hs] at h
      cases h
  | ok server =>
    right
    obtain ⟨cprop, sprop, o, skip, skip', ho, rfl, hc⟩ := kexChooseConf_other D {} hs
    refine ⟨_, _, rfl, hc, (⟨rfl, rfl, rfl, rfl, rfl, rfl, rfl⟩), ?_⟩
    intro sessionId hash sharedSecret
    obtain ⟨ck, sk, hck, hsk, ⟨iv, key, macKey, rfl⟩, ⟨iv', key', macKey', rfl⟩, hderive⟩ :=
      kexDeriveKeys_view D {} o sessionId hash sharedSecret
    exact ⟨_, _, _, _, hderive true skip, hderive false skip', rfl, rfl,
      hck.keyedFrom (chooseNewkeys_enc D {} ho.ctos),
      hsk.keyedFrom (chooseNewkeys_enc D {} ho.stoc)⟩

-- two sides that share one algorithm of each kind, in different order, do find it
example :
    let client : Proposal :=
      ⟨ascii "diffie-hellman-group14-sha1,x", ascii "ssh-rsa", ascii "aes128-ctr,3des-cbc",
        ascii "aes128-ctr", ascii "hmac-md5", ascii "hmac-md5,hmac-sha1", ascii "none",
        ascii "none", [], []⟩
    let server : Proposal :=
      ⟨ascii "y,diffie-hellman-group14-sha1", ascii "ssh-dss,ssh-rsa", ascii "3des-cbc",
        ascii "aes128-ctr", ascii "hmac-md5", ascii "hmac-sha1", ascii "zlib,none",
        ascii "none", [], []⟩
    (kexChooseConf .null {} true (kexProp2buf server) (kexProp2buf client)).map
        (fun c => (c.modeIn.enc.name, c.modeOut.enc.name, c.kexType, c.weNeed)) =
      .ok (ascii "3des-cbc", ascii "aes128-ctr", .dhGrp14Sha1, 24) := by
  decide +kernel

end Shiesh.Kex
