import Shiesh.Transport.Send

/-!
# Reading Packets

`packet_read_poll2`, cut at its comments: the first block with the length field, the rest
of the packet, the MAC, the counters, the padding and the compression, the type.
-/

namespace Shiesh.Transport

open Shiesh.Lib

variable {Ctx Z : Type} (X : Extern Ctx Z)

/-- `packet_process_incoming` -/
def State.feed (b : Bytes) (s : State Ctx Z) : State Ctx Z :=
  { s with input := s.input ++ b }

/-- Decrypt the first block and extract the length of the packet; `false` when there is
not yet a block. -/
def readLength : PacketM Ctx Z Bool := do
  let s ← get
  let blockSize := s.recv.blockSize
  if s.poll2PacketLength ≠ 0 then
    pure true
  else if s.input.length < blockSize then
    pure false
  else do
    let (plain, context) ← liftE (cipherCrypt X s.recv.context (s.input.take blockSize))
    let length := getU32 (plain.take 4)
    if length < 1 + 4 ∨ length > 256 * 1024 then
      throw (.disconnect "Bad packet length %-10u" [.num length.toNat])
    else do
      set { s with
        incomingPacket := plain
        poll2PacketLength := length
        recv := { s.recv with context := context }
        input := s.input.drop blockSize }
      pure true

/-- `need`, an `u_int` -/
def State.need (s : State Ctx Z) : UInt32 :=
  4 + s.poll2PacketLength - UInt32.ofNat s.recv.blockSize

/-- Decrypt the rest of the packet; `false` when it has not arrived with its MAC. -/
def readRest : PacketM Ctx Z Bool := do
  let s ← get
  let need := s.need
  if need.toNat % s.recv.blockSize ≠ 0 then
    throw (.disconnect "Bad packet length %-10u" [.num s.poll2PacketLength.toNat])
  else if s.input.length < (need + s.recv.maclen).toNat then
    pure false
  else if need.toNat > s.input.length then
    -- only when `need + maclen` wraps: what `cipher_crypt` makes of the bytes behind the
    -- buffer is lost in `buffer_consume`
    throw (.fatal "buffer_consume: buffer error" [])
  else do
    let (plain, context) ← liftE (cipherCrypt X s.recv.context (s.input.take need.toNat))
    set { s with
      incomingPacket := s.incomingPacket ++ plain
      recv := { s.recv with context := context }
      input := s.input.drop need.toNat }
    pure true

/-- Compare the MAC and consume it. -/
def checkMac : PacketM Ctx Z Unit := do
  let s ← get
  match s.recv.mac with
  | none => pure ()
  | some mac => do
    let macbuf ← liftE (s.recv.macBytes X s.incomingPacket)
    if macbuf ≠ s.input.take mac.macLen.toNat then
      throw (.disconnect "Corrupted MAC on input." [])
    else
      set { s with input := s.input.drop mac.macLen.toNat }

def countIncoming : PacketM Ctx Z Unit := do
  let s ← get
  if s.recv.p.packets + 1 = 0 ∧ s.bugNoRekey = false then
    throw (.fatal "XXX too many packets with same key" [])
  else
    let p := s.recv.p.next s.poll2PacketLength.toNat s.recv.blockSize
    set { s with recv := { s.recv with p := p } }

/-- Skip packet size and padlen, discard the padding. -/
def stripPadding : PacketM Ctx Z Unit := do
  let s ← get
  let padlen := s.incomingPacket.getD 4 0
  if padlen < 4 then
    throw (.disconnect "Corrupted padlen %d on input." [.num padlen.toNat])
  else
    let rest := s.incomingPacket.drop 5
    if padlen.toNat > rest.length then
      throw (.fatal "buffer_consume_end: trying to get more bytes than in buffer" [])
    else
      set { s with incomingPacket := rest.take (rest.length - padlen.toNat) }

def uncompressIncoming : PacketM Ctx Z Unit := do
  let s ← get
  if s.recv.compEnabled then do
    let (payload, stream) ← liftE (X.bufferUncompress s.incomingStream s.incomingPacket)
    set { s with incomingPacket := payload, incomingStream := stream }
  else
    pure ()

/-- What some types do when they are read. -/
def onType (type : UInt8) : PacketM Ctx Z Unit :=
  if type = Ssh2Msg.newkeys then
    setNewkeysIn X
  else if type = Ssh2Msg.userauthSuccess ∧ serverSide = false then
    packetEnableDelayedCompress X
  else
    pure ()

/-- Take the type off the packet; the rest of `incoming_packet` is the payload. -/
def acceptPacket : PacketM Ctx Z UInt8 := do
  let s ← get
  match s.incomingPacket with
  | [] => throw (.fatal "buffer_get_char: buffer error" [])
  | type :: payload => do
    set { s with incomingPacket := payload }
    if type < 1 ∨ type ≥ Ssh2Msg.localMin then
      throw (.disconnect "Invalid ssh2 packet type: %d" [.num type.toNat])
    else do
      modify (State.record (.received type))
      onType X type
      modify fun s => { s with poll2PacketLength := 0 }
      pure type

/-- What follows the MAC check: the type and `*seqnr_p`. -/
def afterMac : PacketM Ctx Z (UInt8 × UInt32) := do
  let seqnr := (← get).recv.p.seqnr
  countIncoming
  stripPadding
  uncompressIncoming X
  let type ← acceptPacket X
  pure (type, seqnr)

def finishPacket : PacketM Ctx Z (UInt8 × UInt32) := do
  checkMac X
  afterMac X

/-- The packet behind its first block. -/
def readBody : PacketM Ctx Z (Option (UInt8 × UInt32)) := do
  if ← readRest X then do
    let r ← finishPacket X
    pure (some r)
  else
    pure none

/-- `none` is `SSH_MSG_NONE`. -/
def packetReadPoll2 : PacketM Ctx Z (Option (UInt8 × UInt32)) := do
  if ← readLength X then readBody X else pure none

end Shiesh.Transport
