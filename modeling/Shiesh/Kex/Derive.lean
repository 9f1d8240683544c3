import Shiesh.Kex.Proposal

/-!
# Key Derivation

`derive_key` and `kex_derive_keys`. A key is `K1 || K2 || ...` with

- `K1 = HASH(K || H || id || session_id)`
- `Kn = HASH(K || H || K1 || ... || Kn-1)`

and is made as long as the longest thing any of the chosen algorithms needs.
-/

namespace Shiesh.Kex

open Shiesh.Transport

variable (D : Digests) (bugs : Bugs) (need : Nat)

/-! ## §1 One key -/

/-- `K || H`, what every digest starts with; `SSH_BUG_DERIVEKEY` leaves `K` out. -/
def keyPrefix (hash : Bytes) (sharedSecret : Nat) : Bytes :=
  (if bugs.derivekey then [] else putBignum2 sharedSecret) ++ hash

/-- The expansion loop; `have` is the length of `digest`. -/
def expandKey (md : EvpMd) (start : Bytes) (need : Nat) : Nat → Bytes → Bytes
  | 0, digest => digest
  | fuel + 1, digest =>
    if need > digest.length then
      expandKey md start need fuel (digest ++ D.hash md (start ++ digest))
    else
      digest

def deriveKey (evpMd : EvpMd) (sessionId : Bytes) (id : UInt8) (need : Nat) (hash : Bytes)
    (sharedSecret : Nat) : Except Halt Bytes :=
  let mdsz := D.size evpMd
  if mdsz = 0 then
    .error (.fatal "bad kex md size %d" [.num mdsz])
  else
    let start := keyPrefix bugs hash sharedSecret
    -- each turn adds at least one byte, so `need` turns are enough
    .ok (expandKey D evpMd start need need (D.hash evpMd (start ++ [id] ++ sessionId)))

/-! ## §2 The six keys -/

/-- The key material of one direction put into its key set. -/
def withMaterial (k : Newkeys) (iv key macKey : Bytes) : Newkeys :=
  { k with enc := { k.enc with iv := iv, key := key }, mac := { k.mac with key := macKey } }

/-- `kex_derive_keys`: `current_keys[MODE_IN]` and `current_keys[MODE_OUT]`. -/
def kexDeriveKeys (server : Bool) (conf : Conf) (sessionId hash : Bytes) (sharedSecret : Nat) :
    Except Halt (Newkeys × Newkeys) := do
  let key (id : UInt8) := deriveKey D bugs conf.evpMd sessionId id conf.weNeed hash sharedSecret
  let a ← key 0x41
  let b ← key 0x42
  let c ← key 0x43
  let d ← key 0x44
  let e ← key 0x45
  let f ← key 0x46
  let material (mode : Mode) (k : Newkeys) : Newkeys :=
    if ctos server mode then withMaterial k a c e else withMaterial k b d f
  .ok (material .modeIn conf.modeIn, material .modeOut conf.modeOut)

/-! ## §3 Lengths -/

/-- With fuel for every missing byte the loop ends because nothing is missing. -/
theorem expandKey_length (md : EvpMd) (start : Bytes) (need fuel : Nat) (digest : Bytes)
    (h : need ≤ digest.length + fuel) : need ≤ (expandKey D md start need fuel digest).length := by
  induction fuel generalizing digest with
  | zero => exact h
  | succ fuel ih =>
    unfold expandKey
    split
    · apply ih
      have hsize := D.size_pos md
      rw [List.length_append, D.hash_length]
      omega
    · omega

/-- A derived key has the length asked for. -/
theorem deriveKey_ok (evpMd : EvpMd) (sessionId : Bytes) (id : UInt8) (need : Nat)
    (hash : Bytes) (sharedSecret : Nat) :
    ∃ key, deriveKey D bugs evpMd sessionId id need hash sharedSecret = .ok key ∧
      need ≤ key.length := by
  have hsize : D.size evpMd ≠ 0 := (D.size_pos evpMd).ne'
  refine ⟨_, if_neg hsize, ?_⟩
  exact expandKey_length D evpMd _ need need _ (by omega)

/-- The lengths `kex->we_need` is the maximum of, for one direction. -/
structure NeedCovers (need : Nat) (k : Newkeys) : Prop where
  keyLen : k.enc.keyLen ≤ need
  blockSize : k.enc.blockSize ≤ need
  macKeyLen : k.mac.keyLen ≤ need

private theorem raise_eq_max (need len : Nat) :
    (if need < len then len else need) = max need len := by
  split <;> omega

theorem needFor_eq (k : Newkeys) :
    needFor need k = max (max (max need k.enc.keyLen) k.enc.blockSize) k.mac.keyLen := by
  simp only [needFor, raise_eq_max]

theorem needFor_covers (k : Newkeys) : NeedCovers (needFor need k) k := by
  rw [needFor_eq]
  constructor <;> omega

theorem le_needFor (k : Newkeys) : need ≤ needFor need k := by
  rw [needFor_eq]
  omega

theorem NeedCovers.mono {need need' : Nat} {k : Newkeys} (h : NeedCovers need k)
    (hle : need ≤ need') : NeedCovers need' k :=
  ⟨h.keyLen.trans hle, h.blockSize.trans hle, h.macKeyLen.trans hle⟩

/-- The two turns of the loop over `need` can be exchanged. -/
theorem needFor_comm (k l : Newkeys) :
    needFor (needFor need k) l = needFor (needFor need l) k := by
  simp only [needFor_eq]
  ac_rfl

/-- A key set with all the key material its algorithms use. -/
structure Keyed (k : Newkeys) : Prop where
  key : k.enc.keyLen ≤ k.enc.key.length
  iv : k.enc.blockSize ≤ k.enc.iv.length
  macKey : k.mac.keyLen ≤ k.mac.key.length

theorem NeedCovers.keyed {need : Nat} {k : Newkeys} (h : NeedCovers need k)
    {iv key macKey : Bytes} (hiv : need ≤ iv.length) (hkey : need ≤ key.length)
    (hmac : need ≤ macKey.length) : Keyed (withMaterial k iv key macKey) :=
  ⟨h.keyLen.trans hkey, h.blockSize.trans hiv, h.macKeyLen.trans hmac⟩

end Shiesh.Kex
