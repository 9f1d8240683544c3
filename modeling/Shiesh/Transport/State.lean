import Shiesh.Wire

/-!
# The Packet Layer: Keys, Contexts, State

The data of `CoreConnection` that `packet_send2`, `packet_read_poll2` and `set_newkeys`
work on.

- Ciphers, MACs, compression and the random generator come from outside the repository.
  They are the fields of `Extern`, over an arbitrary type `Ctx` of cipher contexts and an
  arbitrary type `Z` of compression streams.
- `Buffer`s are byte lists here: `buffer_append` adds at the back, `buffer_consume` takes
  from the front. Their 10 MB limit is not part of this layer.
- What the source keeps in arrays indexed by `MODE_IN` and `MODE_OUT` is a `Direction`.
- `emitted` and `history` are not in the source. `emitted` records every packet that
  `packet_send2_wrapped` writes to `output`, together with the keys it was written under;
  `history` records what happens to the keys.
-/

namespace Shiesh.Transport

open Shiesh.Lib

/-! ## Key sets -/

/-- An entry of `ciphers[]`; `plaintext` tells whether its number is `SSH_CIPHER_NONE`. -/
structure Cipher where
  name : Bytes
  plaintext : Bool
  blockSize : Nat
  keyLen : Nat
  discardLen : Nat
  deriving DecidableEq, Repr

structure Enc where
  name : Bytes
  cipher : Cipher
  keyLen : Nat
  blockSize : Nat
  key : Bytes
  iv : Bytes
  deriving DecidableEq, Repr

/-- The message digests of OpenSSL that are used. -/
inductive EvpMd where
  | sha1
  | sha256
  | md5
  | ripemd160
  deriving DecidableEq, Repr

inductive MacType where
  -- HMAC, `none` for a null `evp_md`
  | evp (md : Option EvpMd)
  | umac
  deriving DecidableEq, Repr

structure Mac where
  name : Bytes
  enabled : Bool
  macLen : UInt32
  keyLen : Nat
  key : Bytes
  type : MacType
  deriving DecidableEq, Repr

inductive CompType where
  | none
  | zlib
  | delayed
  deriving DecidableEq, Repr

structure Comp where
  type : CompType
  enabled : Bool
  name : Bytes
  deriving DecidableEq, Repr

structure Newkeys where
  enc : Enc
  mac : Mac
  comp : Comp
  deriving DecidableEq, Repr

/-! ## Code from outside -/

/-- `EVP_MAX_MD_SIZE`, the size of `macbuf_storage`. -/
def evpMaxMdSize : Nat := 64

/-- OpenSSL, zlib and the random generator. -/
structure Extern (Ctx Z : Type) where
  -- `EVP_CipherInit` with cipher, key, IV and direction (`true` encrypts)
  evpInit : Cipher → Bytes → Bytes → Bool → Ctx
  evpCipher : Ctx → Bytes → Bytes × Ctx
  evpCipher_length : ∀ ctx b, (evpCipher ctx b).1.length = b.length
  -- the contents of `macbuf_storage` after `mac_compute`
  macCompute : Mac → UInt32 → Bytes → Bytes
  macCompute_length : ∀ mac seqnr b, (macCompute mac seqnr b).length = evpMaxMdSize
  -- the n-th call of `arc4random`
  arc4random : Nat → UInt32
  deflateInit : Nat → Z
  inflateInit : Z
  bufferCompress : Z → Bytes → Except Halt (Bytes × Z)
  bufferUncompress : Z → Bytes → Except Halt (Bytes × Z)

/-- An instance to compute with: no encryption, a MAC that only repeats the sequence
number, and no compression. -/
def Extern.null : Extern Unit Unit where
  evpInit _ _ _ _ := ()
  evpCipher _ b := (b, ())
  evpCipher_length _ _ := rfl
  macCompute _ seqnr _ := List.replicate evpMaxMdSize (UInt8.ofNat seqnr.toNat)
  macCompute_length _ _ _ := List.length_replicate
  arc4random _ := 0
  deflateInit _ := ()
  inflateInit := ()
  bufferCompress _ b := .ok (b, ())
  bufferUncompress _ b := .ok (b, ())

/-- `CipherContext`: the EVP context and the cipher it was set up for. -/
structure CipherContext (Ctx : Type) where
  plaintext : Bool
  blockSize : Nat
  evp : Ctx

/-! ## Connection state -/

/-- `struct packet_state` -/
structure Counters where
  seqnr : UInt32 := 0
  packets : UInt32 := 0
  blocks : UInt64 := 0
  bytes : UInt64 := 0
  deriving DecidableEq, Repr

/-- The state of one mode: `newkeys[mode]`, the key set in `current_keys[mode]` that is
not installed yet, the cipher context, `p_read` or `p_send`, and `max_blocks`. -/
structure Direction (Ctx : Type) where
  newkeys : Option Newkeys := none
  currentKeys : Option Newkeys := none
  context : CipherContext Ctx
  p : Counters := {}
  maxBlocks : UInt64 := 0

def Direction.blockSize {Ctx : Type} (d : Direction Ctx) : Nat :=
  match d.newkeys with
  | some k => k.enc.blockSize
  | none => 8

/-- The MAC when it is enabled. -/
def Direction.mac {Ctx : Type} (d : Direction Ctx) : Option Mac :=
  match d.newkeys with
  | some k => if k.mac.enabled then some k.mac else none
  | none => none

def Direction.maclen {Ctx : Type} (d : Direction Ctx) : UInt32 :=
  match d.mac with
  | some mac => mac.macLen
  | none => 0

def Direction.compEnabled {Ctx : Type} (d : Direction Ctx) : Bool :=
  match d.newkeys with
  | some k => k.comp.enabled
  | none => false

/-- A packet on the wire, as logged when it is written. -/
structure Emitted where
  type : UInt8
  payload : Bytes
  seqnr : UInt32
  keys : Option Newkeys
  deriving DecidableEq, Repr

inductive Mode where
  | modeIn
  | modeOut
  deriving DecidableEq, Repr

/-- An entry of the history of a connection. -/
inductive Action where
  -- `packet_send2_wrapped` has written a packet
  | sent (e : Emitted)
  -- `packet_read_poll2` has got a packet of this type
  | received (type : UInt8)
  -- `set_newkeys (mode)` has taken this key set from `current_keys[mode]`
  | setNewkeys (mode : Mode) (keys : Newkeys)
  -- `kex_input_kexinit` has appended this payload to `kex->peer`
  | kexinit (payload : Bytes)
  -- `kex_dh_hash` or `kexgex_hash` was called with these KEXINIT payloads
  | hashed (ckexinit skexinit hash : Bytes)
  -- `kex_derive_keys` has set `current_keys[]`
  | derived (modeIn modeOut : Newkeys)
  -- `kex_finish` returns
  | finished
  -- `do_authentication2` is entered with these `newkeys[]`
  | authenticating (modeIn modeOut : Option Newkeys)
  deriving DecidableEq, Repr

structure State (Ctx Z : Type) where
  recv : Direction Ctx
  send : Direction Ctx
  rekeyLimit : UInt32 := 0
  input : Bytes := []
  incomingPacket : Bytes := []
  poll2PacketLength : UInt32 := 0
  output : Bytes := []
  outgoingPacket : Bytes := []
  extraPad : UInt8 := 0
  -- the queue `outgoing`: type and contents of each packet
  outgoing : List (UInt8 × Bytes) := []
  send2Rekeying : Bool := false
  afterAuthentication : Bool := false
  incomingStream : Z
  outgoingStream : Z
  -- how often `arc4random` was called
  randomCalls : Nat := 0
  -- `SSH_BUG_NOREKEY` in `datafellows ()`
  bugNoRekey : Bool := false
  emitted : List Emitted := []
  history : List Action := []

def State.record {Ctx Z : Type} (a : Action) (s : State Ctx Z) : State Ctx Z :=
  { s with history := s.history ++ [a] }

/-- The state of a new connection, given the contexts that `packet_set_connection` makes
for the cipher "none". -/
def State.start {Ctx Z : Type} (receive send : Ctx) (inflate deflate : Z) : State Ctx Z where
  recv := { context := { plaintext := true, blockSize := 8, evp := receive } }
  send := { context := { plaintext := true, blockSize := 8, evp := send } }
  incomingStream := inflate
  outgoingStream := deflate

abbrev PacketM (Ctx Z : Type) := EStateM Halt (State Ctx Z)

/-- `server_side` is a constant of the class. -/
def serverSide : Bool := false

variable {Ctx Z : Type} (X : Extern Ctx Z)

/-! ## cipher.cpp and mac.cpp -/

def cipherInit (cipher : Cipher) (key : Bytes) (keyLen : Nat) (iv : Bytes) (ivLen : Nat)
    (encrypt : Bool) : Except Halt (CipherContext Ctx) :=
  if keyLen < cipher.keyLen then
    .error (.fatal "cipher_init: key length %d is insufficient for %s."
      [.num keyLen, .str cipher.name])
  else if ivLen < cipher.blockSize then
    .error (.fatal "cipher_init: iv length %d is insufficient for %s."
      [.num ivLen, .str cipher.name])
  else
    .ok
      { plaintext := cipher.plaintext
        blockSize := cipher.blockSize
        evp := X.evpInit cipher (key.take keyLen) (iv.take ivLen) encrypt }

def cipherCrypt (cc : CipherContext Ctx) (src : Bytes) : Except Halt (Bytes × CipherContext Ctx) :=
  if src.length % cc.blockSize ≠ 0 then
    .error (.fatal "cipher_encrypt: bad plaintext length %d" [.num src.length])
  else
    .ok ((X.evpCipher cc.evp src).1, { cc with evp := (X.evpCipher cc.evp src).2 })

/-- `mac_init`: whether it returns 0. -/
def macInit (mac : Mac) : Bool :=
  match mac.type with
  | .evp md => md.isSome
  | .umac => true

def macCompute (mac : Mac) (seqnr : UInt32) (data : Bytes) : Except Halt Bytes :=
  if mac.macLen.toNat > evpMaxMdSize then
    .error (.fatal "mac_compute: mac too long %u %lu"
      [.num mac.macLen.toNat, .num evpMaxMdSize])
  else
    .ok (X.macCompute mac seqnr data)

/-- The MAC bytes of a packet in this direction: `mac_len` bytes of `macbuf`, none without
a MAC. -/
def Direction.macBytes (d : Direction Ctx) (packet : Bytes) : Except Halt Bytes :=
  match d.mac with
  | some mac => do
    let macbuf ← macCompute X mac d.p.seqnr packet
    .ok (macbuf.take mac.macLen.toNat)
  | none => .ok []

/-! ## set_newkeys -/

/-- The first half of `set_newkeys`: counters to zero, the old keys freed. -/
def Direction.release (d : Direction Ctx) : Direction Ctx :=
  { d with newkeys := none, p := { d.p with packets := 0, blocks := 0 } }

/-- Whether installing `comp` starts a compression stream. -/
def startsCompression (comp : Comp) (afterAuthentication : Bool) : Bool :=
  (comp.type == .zlib || (comp.type == .delayed && afterAuthentication)) && !comp.enabled

/-- The key set as `set_newkeys` leaves it: MAC and compression are switched on. -/
def Newkeys.inUse (k : Newkeys) (afterAuthentication : Bool) : Newkeys :=
  { enc := k.enc
    mac := if macInit k.mac then { k.mac with enabled := true } else k.mac
    comp :=
      if startsCompression k.comp afterAuthentication then { k.comp with enabled := true }
      else k.comp }

def maxBlocksOf (blockSize : Nat) (rekeyLimit : UInt32) : UInt64 :=
  let maxBlocks : UInt64 :=
    if blockSize ≥ 16 then (1 : UInt64) <<< UInt64.ofNat (blockSize * 2)
    else ((1 : UInt64) <<< 30) / UInt64.ofNat blockSize
  if rekeyLimit ≠ 0 then min maxBlocks (rekeyLimit.toUInt64 / UInt64.ofNat blockSize)
  else maxBlocks

/-- The second half of `set_newkeys`: `kex_get_newkeys (mode)` takes the key set `k` out of
`current_keys[mode]`, and it is put to use. -/
def Direction.install (d : Direction Ctx) (k : Newkeys) (encrypt afterAuthentication : Bool)
    (rekeyLimit : UInt32) : Except Halt (Direction Ctx) := do
  let cc ← cipherInit X k.enc.cipher k.enc.key k.enc.keyLen k.enc.iv k.enc.blockSize encrypt
  .ok { d with
    newkeys := some (k.inUse afterAuthentication)
    currentKeys := none
    context := cc
    maxBlocks := maxBlocksOf k.enc.blockSize rekeyLimit }

/-- `set_newkeys (MODE_IN)` -/
def setNewkeysIn : PacketM Ctx Z Unit := do
  modify fun s => { s with recv := s.recv.release }
  let s ← get
  match s.recv.currentKeys with
  | none => throw (.fatal "newkeys: no keys for mode %d" [.num 0])
  | some k => do
    modify (State.record (.setNewkeys .modeIn k))
    let d ← liftE (s.recv.install X k false s.afterAuthentication s.rekeyLimit)
    if startsCompression k.comp s.afterAuthentication then
      modify fun s => { s with recv := d, incomingStream := X.inflateInit }
    else
      modify fun s => { s with recv := d }

/-- `set_newkeys (MODE_OUT)` -/
def setNewkeysOut : PacketM Ctx Z Unit := do
  modify fun s => { s with send := s.send.release }
  let s ← get
  match s.send.currentKeys with
  | none => throw (.fatal "newkeys: no keys for mode %d" [.num 1])
  | some k => do
    modify (State.record (.setNewkeys .modeOut k))
    let d ← liftE (s.send.install X k true s.afterAuthentication s.rekeyLimit)
    if startsCompression k.comp s.afterAuthentication then
      modify fun s => { s with send := d, outgoingStream := X.deflateInit 6 }
    else
      modify fun s => { s with send := d }

/-- Delayed compression in one direction: the new key set when a stream starts. -/
def startDelayed (k : Newkeys) : Option Newkeys :=
  if !k.comp.enabled && k.comp.type == .delayed then
    some { k with comp := { k.comp with enabled := true } }
  else
    none

def State.startDelayedIn (s : State Ctx Z) : State Ctx Z :=
  match s.recv.newkeys.bind startDelayed with
  | some k => { s with recv := { s.recv with newkeys := some k }, incomingStream := X.inflateInit }
  | none => s

def State.startDelayedOut (s : State Ctx Z) : State Ctx Z :=
  match s.send.newkeys.bind startDelayed with
  | some k =>
    { s with send := { s.send with newkeys := some k }, outgoingStream := X.deflateInit 6 }
  | none => s

def packetEnableDelayedCompress : PacketM Ctx Z Unit :=
  modify fun s => ({ s with afterAuthentication := true }.startDelayedIn X).startDelayedOut X

end Shiesh.Transport
