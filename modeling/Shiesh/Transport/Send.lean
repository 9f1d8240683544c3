import Shiesh.Transport.State

/-!
# Sending Packets

`packet_start` .. `packet_send`, `packet_send2_wrapped` cut at its comments into
compression, padding, sealing (MAC and encryption) and counting, and `packet_send2` with
its queue for the time of a key exchange.
-/

namespace Shiesh.Transport

open Shiesh.Lib

variable {Ctx Z : Type} (X : Extern Ctx Z)

/-! ## Padding -/

/-- `padlen`, an `u_char`, for `len` bytes of length fields and payload: at least 4. -/
def padlenFor (blockSize len : Nat) : UInt8 :=
  let padlen := UInt8.ofNat (blockSize - len % blockSize)
  if padlen < 4 then padlen + UInt8.ofNat blockSize else padlen

/-- The additional padding of `packet_add_padding`. -/
def extraPadding (extraPad padlen : UInt8) (blockSize len : Nat) : UInt8 :=
  if extraPad ≠ 0 then
    let extra := UInt8.ofNat ((extraPad.toNat + blockSize - 1) / blockSize * blockSize)
    padlen + (extra - UInt8.ofNat ((len + padlen.toNat) % extra.toNat))
  else padlen

/-- `n` random bytes, four from each call of `arc4random`. -/
def randomPad (calls n : Nat) : Bytes :=
  (List.range n).map fun i =>
    UInt8.ofNat ((X.arc4random (calls + i / 4)).toNat / 256 ^ (i % 4))

/-- `put_u32 (cp, packet_length); cp[4] = padlen;` -/
def writeHeader (padlen : UInt8) (packet : Bytes) : Bytes :=
  putU32 (UInt32.ofNat (packet.length - 4)) ++ padlen :: packet.drop 5

/-! ## packet_send2_wrapped -/

/-- Compress the payload behind the five header bytes. -/
def compressOutgoing : PacketM Ctx Z Unit := do
  let s ← get
  if s.send.compEnabled then do
    let (payload, stream) ← liftE (X.bufferCompress s.outgoingStream (s.outgoingPacket.drop 5))
    set { s with
      outgoingPacket := List.replicate 5 0 ++ payload
      outgoingStream := stream }
  else
    pure ()

/-- Append the padding and fill in the header. -/
def padOutgoing : PacketM Ctx Z Unit := do
  let s ← get
  let len := s.outgoingPacket.length
  let padlen := extraPadding s.extraPad (padlenFor s.send.blockSize len) s.send.blockSize len
  let random := s.send.newkeys.isSome && !s.send.context.plaintext
  let pad := if random then randomPad X s.randomCalls padlen.toNat
    else List.replicate padlen.toNat 0
  set { s with
    outgoingPacket := writeHeader padlen (s.outgoingPacket ++ pad)
    extraPad := 0
    randomCalls := if random then s.randomCalls + (padlen.toNat + 3) / 4 else s.randomCalls }

/-- Compute the MAC over sequence number and packet, encrypt the packet to `output`, and
append the MAC unencrypted. -/
def sealOutgoing : PacketM Ctx Z Unit := do
  let s ← get
  let macbuf ← liftE (s.send.macBytes X s.outgoingPacket)
  let (ciphertext, context) ← liftE (cipherCrypt X s.send.context s.outgoingPacket)
  set { s with
    output := s.output ++ ciphertext ++ macbuf
    send := { s.send with context := context } }

/-- The counters of a direction after a packet of `packetLength`. -/
def Counters.next (p : Counters) (packetLength blockSize : Nat) : Counters :=
  { seqnr := p.seqnr + 1
    packets := p.packets + 1
    blocks := p.blocks + UInt64.ofNat ((packetLength + 4) / blockSize)
    bytes := p.bytes + UInt64.ofNat (packetLength + 4) }

/-- Count the packet; its number under one key set must not wrap. -/
def countOutgoing : PacketM Ctx Z Unit := do
  let s ← get
  if s.send.p.packets + 1 = 0 ∧ s.bugNoRekey = false then
    throw (.fatal "XXX too many packets with same key" [])
  else
    let p := s.send.p.next (s.outgoingPacket.length - 4) s.send.blockSize
    set { s with
      send := { s.send with p := p }
      outgoingPacket := [] }

/-- The entry of the log for the packet in `outgoing_packet`. -/
def State.entry (s : State Ctx Z) : Emitted :=
  { type := s.outgoingPacket.getD 5 0
    payload := s.outgoingPacket.drop 6
    seqnr := s.send.p.seqnr
    keys := s.send.newkeys }

def packetSend2Wrapped : PacketM Ctx Z Unit := do
  let entry := (← get).entry
  compressOutgoing X
  padOutgoing X
  sealOutgoing X
  modify fun s => { s.record (.sent entry) with emitted := s.emitted ++ [entry] }
  countOutgoing
  if entry.type = Ssh2Msg.newkeys then
    setNewkeysOut X
  else if entry.type = Ssh2Msg.userauthSuccess ∧ serverSide = true then
    packetEnableDelayedCompress X
  else
    pure ()

/-! ## packet_send2 -/

/-- The types that may be sent during a key exchange. -/
def isTransport (type : UInt8) : Bool :=
  Ssh2Msg.transportMin ≤ type && type ≤ Ssh2Msg.transportMax

/-- `TAILQ_REMOVE` of the first packet, whose buffer becomes `outgoing_packet`. -/
def State.dequeue (p : UInt8 × Bytes) (rest : List (UInt8 × Bytes)) (s : State Ctx Z) :
    State Ctx Z :=
  { s with outgoing := rest, outgoingPacket := p.2 }

/-- The loop after NEWKEYS: `packet_send2_wrapped` does not touch the queue, so its
packets are those that were in it when the loop was entered. -/
def flushOutgoing : List (UInt8 × Bytes) → PacketM Ctx Z Unit
  | [] => pure ()
  | p :: rest => do
    modify (State.dequeue p rest)
    packetSend2Wrapped X
    flushOutgoing rest

/-- Send the packet in `outgoing_packet`; after NEWKEYS the complete queue can follow. -/
def sendAndFlush (type : UInt8) : PacketM Ctx Z Unit := do
  packetSend2Wrapped X
  if type = Ssh2Msg.newkeys then do
    modify fun s => { s with send2Rekeying := false }
    flushOutgoing X (← get).outgoing
  else
    pure ()

def packetSend2 : PacketM Ctx Z Unit := do
  let s ← get
  let type := s.outgoingPacket.getD 5 0
  if s.send2Rekeying = true ∧ isTransport type = false then
    -- `memcpy` of the buffer into the queue, and a fresh `outgoing_packet`
    set { s with
      outgoing := s.outgoing ++ [(type, s.outgoingPacket)]
      outgoingPacket := [] }
  else do
    -- rekeying starts with sending KEXINIT
    set { s with
      send2Rekeying := if type = Ssh2Msg.kexinit then true else s.send2Rekeying }
    sendAndFlush X type

/-- `packet_start (type)` -/
def packetStart (type : UInt8) : Bytes := [0, 0, 0, 0, 0, type]

/-- `packet_start (type)`, the `packet_put_*` calls that write `payload`, `packet_send ()`. -/
def packetSend (type : UInt8) (payload : Bytes) : PacketM Ctx Z Unit := do
  modify fun s => { s with outgoingPacket := packetStart type ++ payload }
  packetSend2 X

end Shiesh.Transport
