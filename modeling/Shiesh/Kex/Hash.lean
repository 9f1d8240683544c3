import Shiesh.Kex.Derive

/-!
# Diffie-Hellman Groups and the Exchange Hash

`dh.cpp`, `kex_dh_hash` and `kexgex_hash`. `BIGNUM`s are natural numbers.
-/

namespace Shiesh.Kex

open Shiesh.Transport

/-! ## dh.cpp -/

structure DhGroup where
  p : Nat
  g : Nat
  deriving DecidableEq, Repr

def dhGrpMin : Int := 1024

def dhGrpMax : Int := 8192

/-- A modulus from its hexadecimal text, which the source writes in words of 32 bits. -/
def hex2bn (words : List Nat) : Nat := words.foldl (fun n w => n * 2 ^ 32 + w) 0

def dhNewGroup1 : DhGroup where
  g := 2
  p := hex2bn [
    0xFFFFFFFF, 0xFFFFFFFF, 0xC90FDAA2, 0x2168C234, 0xC4C6628B, 0x80DC1CD1,
    0x29024E08, 0x8A67CC74, 0x020BBEA6, 0x3B139B22, 0x514A0879, 0x8E3404DD,
    0xEF9519B3, 0xCD3A431B, 0x302B0A6D, 0xF25F1437, 0x4FE1356D, 0x6D51C245,
    0xE485B576, 0x625E7EC6, 0xF44C42E9, 0xA637ED6B, 0x0BFF5CB6, 0xF406B7ED,
    0xEE386BFB, 0x5A899FA5, 0xAE9F2411, 0x7C4B1FE6, 0x49286651, 0xECE65381,
    0xFFFFFFFF, 0xFFFFFFFF]

def dhNewGroup14 : DhGroup where
  g := 2
  p := hex2bn [
    0xFFFFFFFF, 0xFFFFFFFF, 0xC90FDAA2, 0x2168C234, 0xC4C6628B, 0x80DC1CD1,
    0x29024E08, 0x8A67CC74, 0x020BBEA6, 0x3B139B22, 0x514A0879, 0x8E3404DD,
    0xEF9519B3, 0xCD3A431B, 0x302B0A6D, 0xF25F1437, 0x4FE1356D, 0x6D51C245,
    0xE485B576, 0x625E7EC6, 0xF44C42E9, 0xA637ED6B, 0x0BFF5CB6, 0xF406B7ED,
    0xEE386BFB, 0x5A899FA5, 0xAE9F2411, 0x7C4B1FE6, 0x49286651, 0xECE45B3D,
    0xC2007CB8, 0xA163BF05, 0x98DA4836, 0x1C55D39A, 0x69163FA8, 0xFD24CF5F,
    0x83655D23, 0xDCA3AD96, 0x1C62F356, 0x208552BB, 0x9ED52907, 0x7096966D,
    0x670C354E, 0x4ABC9804, 0xF1746C08, 0xCA18217C, 0x32905E46, 0x2E36CE3B,
    0xE39E772C, 0x180E8603, 0x9B2783A2, 0xEC07A28F, 0xB5C55DF0, 0x6F4C52C9,
    0xDE2BCBF6, 0x95581718, 0x3995497C, 0xEA956AE5, 0x15D22618, 0x98FA0510,
    0x15728E5A, 0x8AACAA68, 0xFFFFFFFF, 0xFFFFFFFF]

/-- `choose_dh`, which has no moduli file to read. -/
def chooseDh (_min _wantbits _max : Int) : Option DhGroup := some dhNewGroup14

/-- `BN_num_bits` -/
def bnNumBits (n : Nat) : Nat := if n = 0 then 0 else n.log2 + 1

/-- The `bits_set` of the loops over all bits of a number. -/
def bitsSet (n : Nat) : Nat :=
  ((List.range (bnNumBits n + 1)).filter n.testBit).length

/-- `dh_pub_is_valid`: `1 < pub < p - 1`, and more than one bit is set. -/
def dhPubIsValid (dh : DhGroup) (dhPub : Nat) : Bool :=
  1 < dhPub && dhPub + 1 < dh.p && 1 < bitsSet dhPub

/-! ## kexdh.cpp and kexgex.cpp -/

/-- What both hashes begin with. The KEXINIT payloads get the header that the packets
had: their length and type. -/
def hashHead (clientVersionString serverVersionString ckexinit skexinit
    serverhostkeyblob : Bytes) : Bytes :=
  putCstring clientVersionString ++ putCstring serverVersionString ++
    putU32 (UInt32.ofNat (ckexinit.length + 1)) ++ [Ssh2Msg.kexinit] ++ ckexinit ++
    putU32 (UInt32.ofNat (skexinit.length + 1)) ++ [Ssh2Msg.kexinit] ++ skexinit ++
    putString serverhostkeyblob

/-- What both hashes end with. -/
def hashTail (clientDhPub serverDhPub sharedSecret : Nat) : Bytes :=
  putBignum2 clientDhPub ++ putBignum2 serverDhPub ++ putBignum2 sharedSecret

variable (D : Digests)

def kexDhHash (clientVersionString serverVersionString ckexinit skexinit
    serverhostkeyblob : Bytes) (clientDhPub serverDhPub sharedSecret : Nat) : Bytes :=
  D.hash .sha1
    (hashHead clientVersionString serverVersionString ckexinit skexinit serverhostkeyblob ++
      hashTail clientDhPub serverDhPub sharedSecret)

/-- `buffer_put_int` of an `int` -/
def putInt (n : Int) : Bytes := putU32 (UInt32.ofInt n)

def kexgexHash (evpMd : EvpMd) (clientVersionString serverVersionString ckexinit skexinit
    serverhostkeyblob : Bytes) (min wantbits max : Int) (prime gen : Nat)
    (clientDhPub serverDhPub sharedSecret : Nat) : Bytes :=
  D.hash evpMd
    (hashHead clientVersionString serverVersionString ckexinit skexinit serverhostkeyblob ++
      (if min = -1 ∨ max = -1 then putInt wantbits
        else putInt min ++ putInt wantbits ++ putInt max) ++
      putBignum2 prime ++ putBignum2 gen ++
      hashTail clientDhPub serverDhPub sharedSecret)

end Shiesh.Kex
