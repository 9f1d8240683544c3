import Shiesh.Channels.Model

/-!
# SFTP Channels

A session becomes an `SFTPChannel` when the subsystem "sftp" is started on it. The class
overrides how data goes from and to the subsystem: whole messages only, without their length
fields on the way there, with them on the way back. All other functions are inherited.
-/

namespace Shiesh.Channels

open Shiesh.Lib

namespace SFTPChannel

/-- The length of the first message, as its length field has it -/
def msgLen (descending : Buffer) : UInt32 := getU32 (descending.contents.take 4)

def isCompletePacketInDescending (descending : Buffer) : Bool :=
  if descending.len < 5 then false
  else
    -- a message that is too long is only logged; the sum may wrap around
    !(UInt32.ofNat descending.len < msgLen descending + 4)

def subproc2ascending : SessionM Unit := do
  let _ ← zoom (fun s => (s.toChannel, s.base.ascending))
    (fun (q, b) s => { s with toChannel := q, base := { s.base with ascending := b } })
    (BusyThreadReadBuffer.get true)

/-- `fromChannel->put (.., .., &local_consumed)` -/
def putFromChannel (data : Bytes) : SessionM Unit :=
  zoom (fun s => (s.fromChannel, s.base.localConsumed))
    (fun (q, consumed) s =>
      { s with fromChannel := q, base := { s.base with localConsumed := consumed } })
    (BusyThreadWriteBuffer.put data)

/-- `len` bytes from `buffer_ptr`. Behind the end of the buffer there is other memory, but
the lengths that get there are refused by `buffer_append_space` before anything is read. -/
def bytesFrom (b : Buffer) (len : Nat) : Bytes :=
  b.contents.take len ++ List.replicate (len - b.len) 0

def descending2subproc : SessionM Unit := do
  if !isCompletePacketInDescending (← get).base.descending then
    -- get consumed only
    putFromChannel []
  else do
    let msgLen ← onBase (onDescending Buffer.getInt)
    putFromChannel (bytesFrom (← get).base.descending msgLen.toNat)
    -- for the length field
    onBase (modify fun c =>
      if c.localConsumed ≠ 0 then { c with localConsumed := c.localConsumed + 4 } else c)
    onBase (onDescending (Buffer.consume msgLen.toNat))

def channelPost : SessionM Unit := do
  if (← get).base.isOpened then
    subproc2ascending
    descending2subproc
    onBase Channel.channelCheckWindow
  SessionChannel.garbageCollect

/-- The machine of a session, with the functions of this class. -/
def stepEvent : SessionChannel.Event → SessionM Unit
  | .post => channelPost
  | event => SessionChannel.stepEvent event

def step (event : SessionChannel.Event) : SessionM Unit := do
  if (← get).deleted then pure () else stepEvent event

end SFTPChannel

end Shiesh.Channels
