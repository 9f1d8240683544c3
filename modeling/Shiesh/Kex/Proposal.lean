import Shiesh.Kex.Algorithms

/-!
# Proposals

The KEXINIT payload as `kex_prop2buf` writes it and `kex_buf2prop` reads it, and
`kex_choose_conf`, which picks the algorithms from the payloads of the two sides.

`kex_choose_conf` ends with a blocking `packet_read` when the peer has announced a guess
that turns out wrong. That read is the caller's here: `skipNext` asks for it.
-/

namespace Shiesh.Kex

open Shiesh.Transport

/-! ## The payload -/

/-- `proposal[PROPOSAL_MAX]`, a name list for each index. -/
structure Proposal where
  kexAlgs : Bytes
  serverHostKeyAlgs : Bytes
  encAlgsCtos : Bytes
  encAlgsStoc : Bytes
  macAlgsCtos : Bytes
  macAlgsStoc : Bytes
  compAlgsCtos : Bytes
  compAlgsStoc : Bytes
  langCtos : Bytes
  langStoc : Bytes
  deriving DecidableEq, Repr

/-- The lists in the order of their indices. -/
def Proposal.lists (p : Proposal) : List Bytes :=
  [p.kexAlgs, p.serverHostKeyAlgs, p.encAlgsCtos, p.encAlgsStoc, p.macAlgsCtos,
    p.macAlgsStoc, p.compAlgsCtos, p.compAlgsStoc, p.langCtos, p.langStoc]

def kexCookieLen : Nat := 16

/-- `kex_prop2buf`: the cookie is overwritten each time a KEXINIT is sent. -/
def kexProp2buf (proposal : Proposal) : Bytes :=
  List.replicate kexCookieLen 0 ++ proposal.lists.flatMap putCstring ++ [0] ++ putU32 0

def skipCookie : Nat → Get Unit
  | 0 => pure ()
  | n + 1 => do
    let _ ← bufferGetChar
    skipCookie n

/-- `kex_buf2prop`, which reads a copy of the buffer: the lists and `first_kex_follows`. -/
def kexBuf2prop : Get (Proposal × Bool) := do
  skipCookie kexCookieLen
  let kexAlgs ← bufferGetString
  let serverHostKeyAlgs ← bufferGetString
  let encAlgsCtos ← bufferGetString
  let encAlgsStoc ← bufferGetString
  let macAlgsCtos ← bufferGetString
  let macAlgsStoc ← bufferGetString
  let compAlgsCtos ← bufferGetString
  let compAlgsStoc ← bufferGetString
  let langCtos ← bufferGetString
  let langStoc ← bufferGetString
  let firstKexFollows ← bufferGetChar
  let _ ← bufferGetInt
  pure ({ kexAlgs, serverHostKeyAlgs, encAlgsCtos, encAlgsStoc, macAlgsCtos, macAlgsStoc,
          compAlgsCtos, compAlgsStoc, langCtos, langStoc }, firstKexFollows ≠ 0)

/-- A reader on a buffer of its own. -/
def readCopy {α : Type} (m : Get α) (raw : Bytes) : Except Halt α :=
  match m raw with
  | .ok a _ => .ok a
  | .error e _ => .error e

/-! ## The choice -/

/-- Does this mode carry what the client sends? -/
def ctos (server : Bool) : Mode → Bool
  | .modeIn => server
  | .modeOut => !server

/-- What `kex_choose_conf` writes to the `Kex`. -/
structure Conf where
  modeIn : Newkeys
  modeOut : Newkeys
  name : Bytes
  kexType : KexType
  evpMd : EvpMd
  hostkeyType : KeyType
  weNeed : Nat
  -- is the next packet a wrong guess of the peer?
  skipNext : Bool
  deriving DecidableEq, Repr

variable (D : Digests) (bugs : Bugs)

/-- One turn of the negotiation loop. -/
def chooseNewkeys (cprop sprop : Proposal) (ctos : Bool) : Except Halt Newkeys := do
  let nenc := if ctos then Proposal.encAlgsCtos else Proposal.encAlgsStoc
  let nmac := if ctos then Proposal.macAlgsCtos else Proposal.macAlgsStoc
  let ncomp := if ctos then Proposal.compAlgsCtos else Proposal.compAlgsStoc
  let enc ← chooseEnc (nenc cprop) (nenc sprop)
  let mac ← chooseMac D bugs (nmac cprop) (nmac sprop)
  let comp ← chooseComp (ncomp cprop) (ncomp sprop)
  .ok { enc := enc, mac := mac, comp := comp }

/-- One turn of the loop over `need`. -/
def needFor (need : Nat) (k : Newkeys) : Nat :=
  let need := if need < k.enc.keyLen then k.enc.keyLen else need
  let need := if need < k.enc.blockSize then k.enc.blockSize else need
  if need < k.mac.keyLen then k.mac.keyLen else need

def firstName (list : Bytes) : Bytes := (cutAt 0x2c (cstr list)).1

/-- `proposals_match`: the same first choice in the two lists a guess depends on. -/
def proposalsMatch (my peer : Proposal) : Bool :=
  firstName my.kexAlgs == firstName peer.kexAlgs &&
    firstName my.serverHostKeyAlgs == firstName peer.serverHostKeyAlgs

def kexChooseConf (server : Bool) (my peer : Bytes) : Except Halt Conf := do
  let (my, _) ← readCopy kexBuf2prop my
  let (peer, firstKexFollows) ← readCopy kexBuf2prop peer
  let cprop := if server then peer else my
  let sprop := if server then my else peer
  let modeIn ← chooseNewkeys D bugs cprop sprop (ctos server .modeIn)
  let modeOut ← chooseNewkeys D bugs cprop sprop (ctos server .modeOut)
  let (name, kexType, evpMd) ← chooseKex cprop.kexAlgs sprop.kexAlgs
  let hostkeyType ← chooseHostkeyalg cprop.serverHostKeyAlgs sprop.serverHostKeyAlgs
  let weNeed := needFor (needFor 0 modeIn) modeOut
  let skipNext := firstKexFollows && !proposalsMatch my peer && !bugs.firstkex
  .ok { modeIn, modeOut, name, kexType, evpMd, hostkeyType, weNeed, skipNext }

end Shiesh.Kex
