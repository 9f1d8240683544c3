import Shiesh.Transport.State

/-!
# Algorithm Tables and Their Choice

`match_list`, the tables of `cipher.cpp` and `mac.cpp`, and the `choose_*` functions that
pick one algorithm from two name lists. A name list is a C string: what is behind its
first NUL does not count.
-/

namespace Shiesh.Kex

open Shiesh.Transport

/-! ## Digests -/

/-- `EVP_MD_size` and the digest functions of OpenSSL. -/
structure Digests where
  size : EvpMd → Nat
  size_pos : ∀ md, 0 < size md
  hash : EvpMd → Bytes → Bytes
  hash_length : ∀ md b, (hash md b).length = size md

private def digestSize : EvpMd → Nat
  | .sha1 => 20
  | .sha256 => 32
  | .md5 => 16
  | .ripemd160 => 20

/-- Digests to compute with: the right sizes, nothing else. -/
def Digests.null : Digests where
  size := digestSize
  size_pos md := by cases md <;> decide
  hash md _ := List.replicate (digestSize md) 0
  hash_length _ _ := List.length_replicate

/-- The bits of `datafellows ()` that the key exchange looks at. -/
structure Bugs where
  hmac : Bool := false
  derivekey : Bool := false
  firstkex : Bool := false
  deriving DecidableEq, Repr

/-! ## match.cpp -/

/-- The names that the loops over `strsep (&p, ",")` see: they stop at an empty one. -/
def nameList (list : Bytes) : List Bytes :=
  ((cstr list).splitOn 0x2c).takeWhile (· ≠ [])

def maxProp : Nat := 40

/-- The first name of `client` that is among the first `MAX_PROP` names of `server`. -/
def matchList (client server : Bytes) : Option Bytes :=
  (nameList client).find? fun p => ((nameList server).take maxProp).contains p

/-! ## cipher.cpp -/

/-- An entry of `ciphers[]` for SSH2. -/
def ssh2Cipher (name : String) (blockSize keyLen discardLen : Nat) : Cipher :=
  { name := ascii name, plaintext := false, blockSize := blockSize, keyLen := keyLen
    discardLen := discardLen }

def ciphers : List Cipher :=
  [{ ssh2Cipher "none" 8 0 0 with plaintext := true },
    ssh2Cipher "3des-cbc" 8 24 0,
    ssh2Cipher "blowfish-cbc" 8 16 0,
    ssh2Cipher "cast128-cbc" 8 16 0,
    ssh2Cipher "arcfour" 8 16 0,
    ssh2Cipher "arcfour128" 8 16 1536,
    ssh2Cipher "arcfour256" 8 32 1536,
    ssh2Cipher "aes128-cbc" 16 16 0,
    ssh2Cipher "aes192-cbc" 16 24 0,
    ssh2Cipher "aes256-cbc" 16 32 0,
    ssh2Cipher "rijndael-cbc@lysator.liu.se" 16 32 0,
    ssh2Cipher "aes128-ctr" 16 16 0,
    ssh2Cipher "aes192-ctr" 16 24 0,
    ssh2Cipher "aes256-ctr" 16 32 0]

def cipherByName (name : Bytes) : Option Cipher := ciphers.find? (·.name = name)

/-! ## mac.cpp -/

/-- The columns of `macs[]` that depend on the type: the digest of `SSH_EVP`, the two
lengths in bits of `SSH_UMAC`. -/
inductive MacFunc where
  | evp (mdfunc : EvpMd)
  | umac (keyLen len : Nat)
  deriving DecidableEq, Repr

structure MacEntry where
  name : Bytes
  func : MacFunc
  truncatebits : Nat
  deriving DecidableEq, Repr

def macs : List MacEntry :=
  [⟨ascii "hmac-sha1", .evp .sha1, 0⟩,
    ⟨ascii "hmac-sha1-96", .evp .sha1, 96⟩,
    ⟨ascii "hmac-md5", .evp .md5, 0⟩,
    ⟨ascii "hmac-md5-96", .evp .md5, 96⟩,
    ⟨ascii "hmac-ripemd160", .evp .ripemd160, 0⟩,
    ⟨ascii "hmac-ripemd160@openssh.com", .evp .ripemd160, 0⟩,
    ⟨ascii "umac-64@openssh.com", .umac 128 64, 0⟩]

variable (D : Digests)

/-- `mac_len` and `key_len` as `mac_setup_by_id` first sets them; `mac->name` is still
null in the message. -/
def macLengths (func : MacFunc) : Except Halt (Nat × Nat) :=
  match func with
  | .evp mdfunc =>
    let evpLen := D.size mdfunc
    if evpLen = 0 then .error (.fatal "mac %s len %d" [.str (ascii "(null)"), .num evpLen])
    else .ok (evpLen, evpLen)
  | .umac keyLen len => .ok (len / 8, keyLen / 8)

def MacFunc.type : MacFunc → MacType
  | .evp mdfunc => .evp (some mdfunc)
  | .umac _ _ => .umac

/-- `mac_setup_by_id`; the name and the key stay null. -/
def macSetupById (entry : MacEntry) : Except Halt Mac := do
  let (macLen, keyLen) ← macLengths D entry.func
  let macLen := if entry.truncatebits ≠ 0 then entry.truncatebits / 8 else macLen
  .ok { name := [], enabled := false, macLen := UInt32.ofNat macLen, keyLen := keyLen
        key := [], type := entry.func.type }

/-- `mac_setup`; `none` is the return value -1. -/
def macSetup (name : Bytes) : Except Halt (Option Mac) :=
  match macs.find? (·.name = name) with
  | none => .ok none
  | some entry => some <$> macSetupById D entry

/-! ## choose_* -/

def noMatching (msg : String) (client server : Bytes) : Halt :=
  .fatal msg [.str (cstr client), .str (cstr server)]

def chooseEnc (client server : Bytes) : Except Halt Enc :=
  match matchList client server with
  | none => .error (noMatching "no matching cipher found: client %s server %s" client server)
  | some name =>
    match cipherByName name with
    | none => .error (.fatal "matching cipher is not supported: %s" [.str name])
    | some cipher =>
      .ok { name := name, cipher := cipher, keyLen := cipher.keyLen
            blockSize := cipher.blockSize, key := [], iv := [] }

/-- `choose_mac`; `SSH_BUG_HMAC` truncates the key. -/
def chooseMac (bugs : Bugs) (client server : Bytes) : Except Halt Mac :=
  match matchList client server with
  | none => .error (noMatching "no matching mac found: client %s server %s" client server)
  | some name => do
    match ← macSetup D name with
    | none => .error (.fatal "unsupported mac %s" [.str name])
    | some mac =>
      .ok { mac with keyLen := if bugs.hmac then 16 else mac.keyLen, name := name }

def chooseComp (client server : Bytes) : Except Halt Comp :=
  match matchList client server with
  | none => .error (noMatching "no matching comp found: client %s server %s" client server)
  | some name =>
    if name = ascii "zlib@openssh.com" then
      .ok { type := .delayed, enabled := false, name := name }
    else if name = ascii "zlib" then
      .ok { type := .zlib, enabled := false, name := name }
    else if name = ascii "none" then
      .ok { type := .none, enabled := false, name := name }
    else
      .error (.fatal "unsupported comp %s" [.str name])

inductive KexType where
  | dhGrp1Sha1
  | dhGrp14Sha1
  | dhGexSha1
  | dhGexSha256
  deriving DecidableEq, Repr

/-- `choose_kex`: `kex->name`, `kex->kex_type` and `kex->evp_md`. -/
def chooseKex (client server : Bytes) : Except Halt (Bytes × KexType × EvpMd) :=
  match matchList client server with
  | none => .error (.fatal "Unable to negotiate a key exchange method" [])
  | some name =>
    if name = ascii "diffie-hellman-group1-sha1" then
      .ok (name, .dhGrp1Sha1, .sha1)
    else if name = ascii "diffie-hellman-group14-sha1" then
      .ok (name, .dhGrp14Sha1, .sha1)
    else if name = ascii "diffie-hellman-group-exchange-sha1" then
      .ok (name, .dhGexSha1, .sha1)
    else if name = ascii "diffie-hellman-group-exchange-sha256" then
      .ok (name, .dhGexSha256, .sha256)
    else
      .error (.fatal "bad kex alg %s" [.str name])

inductive KeyType where
  | rsa1
  | rsa
  | dsa
  | null
  deriving DecidableEq, Repr

/-- `key_type_from_name`; `none` is `KEY_UNSPEC`. -/
def keyTypeFromName (name : Bytes) : Option KeyType :=
  if name = ascii "rsa1" then some .rsa1
  else if name = ascii "rsa" then some .rsa
  else if name = ascii "dsa" then some .dsa
  else if name = ascii "ssh-rsa" then some .rsa
  else if name = ascii "ssh-dss" then some .dsa
  else if name = ascii "null" then some .null
  else none

def chooseHostkeyalg (client server : Bytes) : Except Halt KeyType :=
  match matchList client server with
  | none => .error (.fatal "no hostkey alg" [])
  | some hostkeyalg =>
    match keyTypeFromName hostkeyalg with
    | none => .error (.fatal "bad hostkey alg '%s'" [.str hostkeyalg])
    | some type => .ok type

end Shiesh.Kex
