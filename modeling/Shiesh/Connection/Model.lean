import Shiesh.Auth.Model
import Shiesh.Kex.Hash
import Shiesh.Transport.Read

/-!
# The Connection Thread

`CoreConnection::run` after the version strings: `do_ssh2_kex`, `do_authentication2` and
`server_loop`, with all the functions of the key exchange.

The thread works on what reaches it and blocks in the middle of a key exchange. What
reaches it is a schedule of `Event`s. A blocking read takes events from it until it has a
packet; `server_loop` takes them one at a time. At the end of the schedule the run is cut
off with `Stop.waiting`, and the history up to there can be looked at.

The channel layer is not in here. What it sends appears in the schedule, as arbitrary
messages of the connection protocol.
-/

namespace Shiesh.Connection

open Shiesh.Lib Shiesh.Transport Shiesh.Kex Shiesh.Auth

/-! ## What the thread runs with -/

/-- A message of the connection protocol. -/
structure ConnectionMsg where
  type : UInt8
  payload : Bytes
  isConnection : 80 ≤ type

inductive Event where
  -- bytes from the socket are appended to `input`
  | recv (bytes : Bytes)
  -- one call of `packet_read_poll2`
  | poll
  -- `server_loop` comes to the end of a round
  | roundEnd
  -- a channel sends a message
  | send (msg : ConnectionMsg)

inductive Stop where
  -- the thread ends
  | halt (h : Halt)
  -- the schedule ends
  | waiting
  deriving DecidableEq, Repr

/-- A private host key: `key_to_blob` and `key_sign`. -/
structure HostKey where
  blob : Bytes
  sign : Bytes → Bytes

structure Env (Ctx Z : Type) where
  crypto : Extern Ctx Z
  digests : Digests
  bugs : Bugs
  auth : AuthEnv
  clientVersionString : Bytes
  serverVersionString : Bytes
  -- `myproposal`, as `do_ssh2_kex` has filled it in
  myproposal : Proposal
  -- `SensitiveData::get_hostkey_by_type`
  hostKey : KeyType → Option HostKey
  -- private and public key from the n-th `DH_generate_key`, for an exponent of some bits
  dhGenerateKey : Nat → DhGroup → Nat → Nat × Nat
  -- `none` is a negative return value
  dhComputeKey : DhGroup → Nat → Nat → Option Nat

/-- The part of `struct Kex` that outlives a key exchange. -/
structure Kex where
  my : Bytes := []
  peer : Bytes := []
  done : Bool := false
  -- `KEX_INIT_SENT` in `flags`
  initSent : Bool := false
  sessionId : Option Bytes := none

structure Conn (Ctx Z : Type) where
  packet : State Ctx Z
  kex : Kex := {}
  auth : AuthState := {}
  schedule : List Event
  -- how often `DH_generate_key` was called
  dhCalls : Nat := 0

abbrev ConnM (Ctx Z : Type) := EStateM Stop (Conn Ctx Z)

variable {Ctx Z : Type} (env : Env Ctx Z)

/-! ## The packet layer from here -/

/-- Code of the packet layer. -/
def onPacket {α : Type} (m : PacketM Ctx Z α) : ConnM Ctx Z α :=
  zoomWith .halt Conn.packet (fun t s => { s with packet := t }) m

/-- Read from `incoming_packet`. -/
def reading {α : Type} (g : Get α) : ConnM Ctx Z α :=
  onPacket (zoom State.incomingPacket (fun b s => { s with incomingPacket := b }) g)

def halt {α : Type} (h : Halt) : ConnM Ctx Z α := throw (.halt h)

def record (a : Action) : ConnM Ctx Z Unit := onPacket (modify (State.record a))

def send (type : UInt8) (payload : Bytes) : ConnM Ctx Z Unit :=
  onPacket (packetSend env.crypto type payload)

def setKex (f : Kex → Kex) : ConnM Ctx Z Unit := modify fun s => { s with kex := f s.kex }

/-- One turn of the loop of `packet_read_poll_seqnr`: a packet for the caller. -/
def pollOnce : ConnM Ctx Z (Option (UInt8 × UInt32)) := do
  match ← onPacket (packetReadPoll2 env.crypto) with
  | none => pure none
  | some (type, seqnr) => do
    if ← reading (packetReadPoll type) then
      pure (some (type, seqnr))
    else
      pure none

/-- The loop of `packet_read_seqnr`. -/
def packetReadFrom : List Event → ConnM Ctx Z (UInt8 × UInt32)
  | [] => do
    modify fun s => { s with schedule := [] }
    throw .waiting
  | .recv bytes :: rest => do
    onPacket (modify (State.feed bytes))
    packetReadFrom rest
  | .poll :: rest => do
    match ← pollOnce env with
    | some r => do
      modify fun s => { s with schedule := rest }
      pure r
    | none => packetReadFrom rest
  -- the thread is not in `server_loop`
  | .roundEnd :: rest => packetReadFrom rest
  | .send _ :: rest => packetReadFrom rest

def packetReadSeqnr : ConnM Ctx Z (UInt8 × UInt32) := do
  packetReadFrom env (← get).schedule

def packetRead : ConnM Ctx Z UInt8 := do
  pure (← packetReadSeqnr env).1

def packetReadExpect (expectedType : UInt8) : ConnM Ctx Z Unit := do
  let type ← packetRead env
  if type ≠ expectedType then
    halt (.disconnect "Protocol error: expected packet type %d, got %d"
      [.num expectedType.toNat, .num type.toNat])
  else
    pure ()

/-! ## KEXINIT -/

/-- `kex_send_kexinit`: the cookie in `kex->my` is overwritten by four random words. -/
def kexSendKexinit : ConnM Ctx Z Unit := do
  let s ← get
  if s.kex.initSent then
    pure ()
  else do
    setKex fun k => { k with done := false }
    if s.kex.my.length < kexCookieLen then
      halt (.fatal "kex_send_kexinit: kex proposal too short" [])
    else do
      let cookie := randomPad env.crypto s.packet.randomCalls kexCookieLen
      let my := cookie ++ s.kex.my.drop kexCookieLen
      setKex fun k => { k with my := my }
      onPacket (modify fun s => { s with randomCalls := s.randomCalls + 4 })
      send env Ssh2Msg.kexinit my
      setKex fun k => { k with initSent := true }

/-- The discarding reads of `kex_input_kexinit`. -/
def discardKexinit : Get Unit := do
  let rec chars : Nat → Get Unit
    | 0 => pure ()
    | n + 1 => do
      let _ ← packetGetChar
      chars n
  let rec strings : Nat → Get Unit
    | 0 => pure ()
    | n + 1 => do
      let _ ← packetGetString
      strings n
  chars kexCookieLen
  strings 10
  let _ ← packetGetChar
  let _ ← packetGetInt
  packetCheckEom

/-! ## The exchange -/

/-- The loop of `dh_gen_key`; it gives up in its twelfth turn. -/
def dhGenKeyLoop (dh : DhGroup) (bits : Nat) : Nat → ConnM Ctx Z (Nat × Nat)
  | 0 => do
    modify fun s => { s with dhCalls := s.dhCalls + 1 }
    halt (.fatal "dh_gen_key: too many bad keys: giving up" [])
  | tries + 1 => do
    let calls := (← get).dhCalls
    modify fun s => { s with dhCalls := calls + 1 }
    let key := env.dhGenerateKey calls dh bits
    if dhPubIsValid dh key.2 then pure key else dhGenKeyLoop dh bits tries

def dhGenKey (dh : DhGroup) (need : Nat) : ConnM Ctx Z (Nat × Nat) :=
  if need > (2 ^ 31 - 1) / 2 ∨ 2 * need ≥ bnNumBits dh.p then
    halt (.fatal "dh_gen_key: group too small: %d (2*need %d)"
      [.num (bnNumBits dh.p), .num (2 * need)])
  else
    dhGenKeyLoop env dh (2 * need) 11

def KeyType.num : KeyType → Nat
  | .rsa1 => 0
  | .rsa => 1
  | .dsa => 2
  | .null => 3

def KexType.num : KexType → Nat
  | .dhGrp1Sha1 => 0
  | .dhGrp14Sha1 => 1
  | .dhGexSha1 => 2
  | .dhGexSha256 => 3

def loadHostKey (type : KeyType) : ConnM Ctx Z HostKey :=
  match env.hostKey type with
  | some key => pure key
  | none => halt (.fatal "Unsupported hostkey type %d" [.num (KeyType.num type)])

/-- The client's public value from the packet, and the shared secret. -/
def sharedSecret (dh : DhGroup) (privKey : Nat) : ConnM Ctx Z (Nat × Nat) := do
  let dhClientPub ← reading bufferGetBignum2
  reading packetCheckEom
  if !dhPubIsValid dh dhClientPub then
    halt (.disconnect "bad client public DH value" [])
  else
    match env.dhComputeKey dh privKey dhClientPub with
    | some secret => pure (dhClientPub, secret)
    | none => halt (.fatal "DH_compute_key: failed" [])

def kexFinish : ConnM Ctx Z Unit := do
  send env Ssh2Msg.newkeys []
  packetReadExpect env Ssh2Msg.newkeys
  reading packetCheckEom
  setKex fun k => { k with done := true, peer := [], initSent := false }
  record .finished

/-- `kex_derive_keys`, which sets `current_keys[]` -/
def deriveKeys (conf : Conf) (hash : Bytes) (secret : Nat) : ConnM Ctx Z Unit := do
  let s ← get
  let (modeIn, modeOut) ← onPacket (liftE (kexDeriveKeys env.digests env.bugs true conf
    (s.kex.sessionId.getD []) hash secret))
  onPacket (modify fun s => { s with
    recv := { s.recv with currentKeys := some modeIn }
    send := { s.send with currentKeys := some modeOut } })
  record (.derived modeIn modeOut)

/-- The common end of `kexdh_server` and `kexgex_server`, once `hash` has been computed. -/
def replyAndFinish (replyType : UInt8) (conf : Conf) (hostKey : HostKey) (pubKey : Nat)
    (secret : Nat) (hash : Bytes) : ConnM Ctx Z Unit := do
  -- save session id := H
  setKex fun k => { k with sessionId := some (k.sessionId.getD hash) }
  send env replyType
    (putString hostKey.blob ++ putBignum2 pubKey ++ putString (hostKey.sign hash))
  deriveKeys env conf hash secret
  kexFinish env

def kexdhServer (conf : Conf) : ConnM Ctx Z Unit := do
  let dh ← match conf.kexType with
    | .dhGrp1Sha1 => pure dhNewGroup1
    | .dhGrp14Sha1 => pure dhNewGroup14
    | type => halt (.fatal "%s: Unexpected KEX type %d"
        [.str (ascii "CoreConnection::kexdh_server"), .num (KexType.num type)])
  let (privKey, pubKey) ← dhGenKey env dh (conf.weNeed * 8)
  packetReadExpect env Ssh2Msg.kexdhInit
  let hostKey ← loadHostKey env conf.hostkeyType
  let (dhClientPub, secret) ← sharedSecret env dh privKey
  let s ← get
  let hash := kexDhHash env.digests env.clientVersionString env.serverVersionString
    s.kex.peer s.kex.my hostKey.blob dhClientPub pubKey secret
  record (.hashed s.kex.peer s.kex.my hash)
  replyAndFinish env Ssh2Msg.kexdhReply conf hostKey pubKey secret hash

/-- An `u_int` stored in an `int` -/
def asInt (v : UInt32) : Int := v.toInt32.toInt

/-- The request of a group: `min`, `nbits` and `max`. -/
def readGexRequest (type : UInt8) : Get (Int × Int × Int) := do
  if type = Ssh2Msg.kexDhGexRequest then do
    let least := asInt (← packetGetInt)
    let nbits := asInt (← packetGetInt)
    let most := asInt (← packetGetInt)
    pure (max dhGrpMin least, nbits, min dhGrpMax most)
  else if type = Ssh2Msg.kexDhGexRequestOld then do
    let nbits := asInt (← packetGetInt)
    pure (dhGrpMin, nbits, dhGrpMax)
  else
    throw (.fatal "protocol error during kex, no DH_GEX_REQUEST: %d" [.num type.toNat])

def kexgexServer (conf : Conf) : ConnM Ctx Z Unit := do
  let hostKey ← loadHostKey env conf.hostkeyType
  let type ← packetRead env
  let (min, nbits, max) ← reading (readGexRequest type)
  reading packetCheckEom
  if max < min ∨ nbits < min ∨ max < nbits then
    halt (.fatal "DH_GEX_REQUEST, bad parameters: %d !< %d !< %d"
      [.int min, .int nbits, .int max])
  else
    match chooseDh min nbits max with
    | none => halt (.disconnect "Protocol error: no matching DH grp found" [])
    | some dh => do
      send env Ssh2Msg.kexDhGexGroup (putBignum2 dh.p ++ putBignum2 dh.g)
      let (privKey, pubKey) ← dhGenKey env dh (conf.weNeed * 8)
      packetReadExpect env Ssh2Msg.kexDhGexInit
      let (dhClientPub, secret) ← sharedSecret env dh privKey
      let old := type = Ssh2Msg.kexDhGexRequestOld
      let s ← get
      let hash := kexgexHash env.digests conf.evpMd env.clientVersionString
        env.serverVersionString s.kex.peer s.kex.my hostKey.blob (if old then -1 else min)
        nbits (if old then -1 else max) dh.p dh.g dhClientPub pubKey secret
      record (.hashed s.kex.peer s.kex.my hash)
      replyAndFinish env Ssh2Msg.kexDhGexReply conf hostKey pubKey secret hash

/-- `kex_kexinit_finish`; the read at the end of `kex_choose_conf` is here. -/
def kexKexinitFinish : ConnM Ctx Z Unit := do
  kexSendKexinit env
  let s ← get
  let conf ← onPacket (liftE (kexChooseConf env.digests env.bugs true s.kex.my s.kex.peer))
  if conf.skipNext then
    let _ ← packetRead env
  match conf.kexType with
  | .dhGrp1Sha1 | .dhGrp14Sha1 => kexdhServer env conf
  | .dhGexSha1 | .dhGexSha256 => kexgexServer env conf

/-- `kex_input_kexinit`, and `kexinit_msg` of `KexDispatcher`, which is the same. -/
def kexInputKexinit : ConnM Ctx Z Unit := do
  let payload := (← get).packet.incomingPacket
  setKex fun k => { k with peer := k.peer ++ payload }
  record (.kexinit payload)
  reading discardKexinit
  kexKexinitFinish env

/-! ## The three phases -/

/-- `dispatch_run` in mode `DISPATCH_BLOCK`, for at most `turns` packets -/
def dispatchRun (handler : UInt8 → UInt32 → ConnM Ctx Z Unit) (done : Conn Ctx Z → Bool) :
    Nat → ConnM Ctx Z Unit
  | 0 => throw .waiting
  | turns + 1 => do
    let (type, seqnr) ← packetReadSeqnr env
    handler type seqnr
    if done (← get) then pure () else dispatchRun handler done turns

/-- `KexDispatcher`: other messages are only logged. -/
def kexDispatch (type : UInt8) (_seqnr : UInt32) : ConnM Ctx Z Unit :=
  if type = Ssh2Msg.kexinit then kexInputKexinit env else pure ()

/-- `do_ssh2_kex`, with `kex_setup` -/
def doSsh2Kex (turns : Nat) : ConnM Ctx Z Unit := do
  setKex fun _ => { my := kexProp2buf env.myproposal }
  kexSendKexinit env
  dispatchRun env (kexDispatch env) (fun s => s.kex.done) turns

def sendAll : List Packet → ConnM Ctx Z Unit
  | [] => pure ()
  | p :: rest => do
    send env p.type p.payload
    sendAll rest

/-- `AuthDispatcher`: the handlers of the authentication phase, whose packets go out also
when a handler ends the thread. -/
def authDispatch (type : UInt8) (seqnr : UInt32) : ConnM Ctx Z Unit := do
  let s ← get
  let auth := { s.auth with incomingPacket := s.packet.incomingPacket, sent := [] }
  match dispatchMsg env.auth type seqnr auth with
  | .ok _ auth => do
    set { s with auth := auth }
    sendAll env auth.sent
  | .error e auth => do
    set { s with auth := auth }
    sendAll env auth.sent
    halt e

def doAuthentication2 (turns : Nat) : ConnM Ctx Z Unit := do
  let s ← get
  record (.authenticating s.packet.recv.newkeys s.packet.send.newkeys)
  dispatchRun env (authDispatch env) (fun s => s.auth.success) turns

def maxPackets : UInt32 := 0x80000000

def packetNeedRekeying (s : State Ctx Z) : Bool :=
  !s.bugNoRekey &&
    (s.send.p.packets > maxPackets || s.recv.p.packets > maxPackets ||
      (s.send.maxBlocks ≠ 0 && s.send.p.blocks > s.send.maxBlocks) ||
      (s.recv.maxBlocks ≠ 0 && s.recv.p.blocks > s.recv.maxBlocks))

/-- The types in `dispatch[]` of `ServerMainDispatcher` that belong to the channel layer. -/
def isChannelMsg (type : UInt8) : Bool :=
  type ∈ ([80, 81, 82] : List UInt8) || (90 ≤ type && type ≤ 100)

/-- `ServerMainDispatcher`; what the channel layer does is in the schedule. -/
def serverDispatch (type : UInt8) (seqnr : UInt32) : ConnM Ctx Z Unit :=
  if type = Ssh2Msg.kexinit then
    kexInputKexinit env
  else if isChannelMsg type then
    pure ()
  else
    -- `protocol_error`
    send env Ssh2Msg.unimplemented (putU32 seqnr)

/-- The end of a round of `server_loop`: `rekeying` is `!xxx_kex->done`. -/
def checkRekeying : ConnM Ctx Z Unit := do
  let s ← get
  if s.kex.done && packetNeedRekeying s.packet then do
    setKex fun k => { k with done := false }
    kexSendKexinit env
  else
    pure ()

def serverEvent : Event → ConnM Ctx Z Unit
  | .recv bytes => onPacket (modify (State.feed bytes))
  | .poll => do
    match ← pollOnce env with
    | some (type, seqnr) => serverDispatch env type seqnr
    | none => pure ()
  | .roundEnd => checkRekeying env
  | .send msg => send env msg.type msg.payload

/-- `server_loop`, for at most `turns` events -/
def serverLoop : Nat → ConnM Ctx Z Unit
  | 0 => throw .waiting
  | turns + 1 => do
    match (← get).schedule with
    | [] => throw .waiting
    | event :: rest => do
      modify fun s => { s with schedule := rest }
      serverEvent env event
      serverLoop turns

/-- `CoreConnection::run`, for at most `turns` turns of each loop -/
def run (turns : Nat) : ConnM Ctx Z Unit := do
  doSsh2Kex env turns
  doAuthentication2 env turns
  serverLoop env turns

/-- A new connection, given the contexts and streams that its packet layer starts with. -/
def Conn.start (receive send : Ctx) (inflate deflate : Z) (schedule : List Event) :
    Conn Ctx Z where
  packet := State.start receive send inflate deflate
  schedule := schedule

end Shiesh.Connection
