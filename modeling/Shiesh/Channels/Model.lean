import Shiesh.Channels.Queue

/-!
# Channels

`Channel` and `SessionChannel`, and the handlers of `CoreConnection` for messages that are
addressed to a channel.

A handler gets the rest of the message behind the channel number; finding the channel is
not its business here. A message is built in `outgoing_packet` and recorded in `sent` by
`packet_send`, what the packet layer makes of it is in `Shiesh.Transport`.

Virtual functions that the base class calls are arguments of its functions.
-/

namespace Shiesh.Channels

open Shiesh.Lib

/-! ## The connection, as channels use it -/

structure Con where
  incomingPacket : Bytes := []
  outgoingPacket : Buffer := .init
  sent : List Packet := []

abbrev ConM := EStateM Halt Con

def onOutgoing (m : BufferM Unit) : ConM Unit :=
  zoom Con.outgoingPacket (fun b s => { s with outgoingPacket := b }) m

def packetStart (type : UInt8) : ConM Unit :=
  onOutgoing do
    modify Buffer.clear
    Buffer.append [0, 0, 0, 0, 0, type]

def packetPutChar (value : UInt8) : ConM Unit := onOutgoing (Buffer.append [value])

def packetPutInt (value : UInt32) : ConM Unit := onOutgoing (Buffer.putInt value)

def packetPutString (buf : Bytes) : ConM Unit := onOutgoing (Buffer.putString buf)

def packetPutCstring (str : String) : ConM Unit :=
  onOutgoing (Buffer.putString (cstr (ascii str)))

def packetSend : ConM Unit :=
  modify fun s =>
    let packet := s.outgoingPacket.contents
    { s with
      sent := s.sent ++ [{ type := packet.getD 5 0, payload := packet.drop 6 }]
      outgoingPacket := s.outgoingPacket.clear }

/-! ## Channel -/

/-- The states of either half of a channel. -/
inductive ChanState where
  | open
  | waitDrain
  | closed
  deriving DecidableEq, Repr

structure Channel where
  remoteId : UInt32
  remoteWindow : UInt32
  remoteMaxpacket : UInt32
  localWindow : UInt32
  localWindowMax : UInt32
  localConsumed : UInt32 := 0
  localMaxpacket : UInt32
  isOpened : Bool := false
  eofRcvd : Bool := false
  eofSent : Bool := false
  closeRcvd : Bool := false
  closeSent : Bool := false
  doClose : Bool := false
  currentInputState : ChanState := .open
  currentOutputState : ChanState := .open
  ascending : Buffer := .init
  descending : Buffer := .init
  con : Con := {}

abbrev ChannelM := EStateM Halt Channel

def onCon {α : Type} (m : ConM α) : ChannelM α :=
  zoom Channel.con (fun s c => { c with con := s }) m

def onAscending {α : Type} (m : BufferM α) : ChannelM α :=
  zoom Channel.ascending (fun b c => { c with ascending := b }) m

def onDescending {α : Type} (m : BufferM α) : ChannelM α :=
  zoom Channel.descending (fun b c => { c with descending := b }) m

/-- Read from `incoming_packet`. -/
def reading {α : Type} (g : Get α) : ChannelM α :=
  onCon (zoom Con.incomingPacket (fun b s => { s with incomingPacket := b }) g)

/-- A message to the peer: every one starts with `remote_id`. -/
def message (type : UInt8) (body : ConM Unit) : ChannelM Unit := do
  let c ← get
  onCon do
    packetStart type
    packetPutInt c.remoteId
    body
    packetSend

namespace Channel

/-- `Channel::open` -/
def openWindow (windowMax : UInt32) : ChannelM Unit := do
  modify fun c => { c with isOpened := true, localWindow := windowMax, localWindowMax := windowMax }
  message Ssh2Msg.channelWindowAdjust (packetPutInt windowMax)

def remoteWindowAdjust (adjust : UInt32) : ChannelM Unit :=
  modify fun c => { c with remoteWindow := c.remoteWindow + adjust }

def sendEOF : ChannelM Unit := do
  message Ssh2Msg.channelEof (pure ())
  modify fun c => { c with eofSent := true }

/-- How much of `ascending` may be sent now. -/
def sendable (c : Channel) : UInt32 :=
  let len := UInt32.ofNat c.ascending.len
  let len := if len > c.remoteWindow then c.remoteWindow else len
  if len > c.remoteMaxpacket then c.remoteMaxpacket else len

/-- The first half of `channel_output_poll` -/
def sendAscending : ChannelM Unit := do
  let c ← get
  if (c.currentInputState = .open ∨ c.currentInputState = .waitDrain) ∧ c.ascending.len > 0 then
    let len := c.sendable
    if len > 0 then do
      message Ssh2Msg.channelData (packetPutString (c.ascending.contents.take len.toNat))
      onAscending (Buffer.consume len.toNat)
      modify fun c => { c with remoteWindow := c.remoteWindow - len }
    else
      pure ()
  else
    pure ()

def channelOutputPoll (hasAscendingData : Channel → Bool) : ChannelM Unit := do
  if !(← get).isOpened then
    pure ()
  else do
    sendAscending
    let c ← get
    -- CHANNEL STATES <2>
    if c.currentInputState = .waitDrain ∧ !hasAscendingData c then do
      if !(c.eofSent || c.closeSent) then
        sendEOF
      modify fun c => { c with currentInputState := .closed }
    else
      pure ()

def channelCheckWindow : ChannelM Unit := do
  let c ← get
  if c.isOpened && !(c.closeSent || c.closeRcvd) &&
      (c.localWindowMax - c.localWindow > c.localMaxpacket * 3 ||
        c.localWindow < c.localWindowMax / 2) &&
      c.localConsumed > 0 then do
    message Ssh2Msg.channelWindowAdjust (packetPutInt c.localConsumed)
    modify fun c => { c with localWindow := c.localWindow + c.localConsumed, localConsumed := 0 }
  else
    pure ()

def putRawData (data : Bytes) : ChannelM Unit := onDescending (Buffer.append data)

def chanIsDead (doSend : Bool) : ChannelM Bool := do
  let c ← get
  -- CHANNEL STATES <5>
  if c.currentInputState ≠ .closed ∨ c.currentOutputState ≠ .closed then
    pure false
  else do
    if !c.closeSent && doSend then
      message Ssh2Msg.channelClose (pure ())
      modify fun c => { c with closeSent := true }
    -- the answer is the same when CLOSE has not been sent: "almost dead"
    pure c.closeRcvd

def checkAscendingChanRbuf : ChannelM Bool := onAscending (Buffer.checkAlloc (16 * 1024))

/-! ## Messages to a channel -/

def channelInputData : ChannelM Unit := do
  let c ← get
  if !c.isOpened then
    pure ()
  else do
    let data ← reading packetGetStringPtr
    let dataLen := UInt32.ofNat data.length
    if c.currentOutputState ≠ .open then
      -- "we must 'fake' consumption of the data"
      modify fun c =>
        { c with
          localWindow := c.localWindow - dataLen
          localConsumed := c.localConsumed + dataLen }
    else if dataLen > c.localWindow then
      pure ()
    else do
      modify fun c => { c with localWindow := c.localWindow - dataLen }
      putRawData data
      reading packetCheckEom

def channelInputOclose : ChannelM Unit := do
  reading packetCheckEom
  modify fun c => { c with closeRcvd := true }
  let c ← get
  if !c.isOpened then
    modify fun c => { c with currentOutputState := .closed, currentInputState := .closed }
  else do
    -- CHANNEL STATES <4>
    if c.currentOutputState = .open then
      modify fun c => { c with currentOutputState := .waitDrain }
    match c.currentInputState with
    | .open => modify fun c => { c with currentInputState := .closed }
    | .waitDrain => do
      sendEOF
      modify fun c => { c with currentInputState := .closed }
    | .closed => pure ()

def channelInputWindowAdjust : ChannelM Unit := do
  let adjust ← reading packetGetInt
  reading packetCheckEom
  remoteWindowAdjust adjust

end Channel

/-! ## SessionChannel -/

/-- How `create_subthread` and `start ()` end. -/
inductive Start where
  | started
  -- the constructor throws an `SException`
  | notCreated
  -- `start ()` throws one: the thread exists and will never run
  | notStarted
  -- the home directory is relative, and `userHomeDir`, which is 0, is asked for its name
  | crashed
  deriving DecidableEq

/-- `subsystem` is `some` after `create_subthread`. -/
structure SessionChannel where
  base : Channel
  fromChannel : BusyThreadWriteBuffer := {}
  toChannel : BusyThreadReadBuffer := {}
  subsystem : Option Worker := none
  -- has been given to `delete_object`
  deleted : Bool := false

abbrev SessionM := EStateM Halt SessionChannel

def onBase {α : Type} (m : ChannelM α) : SessionM α :=
  zoom SessionChannel.base (fun c s => { s with base := c }) m

namespace SessionChannel

def packetDefaultSize : UInt32 := 32 * 1024

def windowDefaultSize : UInt32 := 64 * packetDefaultSize

/-- `ChannelPars::create_derivation` for the type "session" -/
def create (remoteId rwindow rmaxpack : UInt32) : SessionChannel where
  base :=
    { remoteId := remoteId
      remoteWindow := rwindow
      remoteMaxpacket := rmaxpack
      localWindow := 0
      localWindowMax := 0
      localMaxpacket := packetDefaultSize }

def terminated (subsystem : Option Worker) : Bool :=
  match subsystem with
  | some w => w.pc = .terminated
  | none => false

def hasAscendingData (s : SessionChannel) (c : Channel) : Bool :=
  c.ascending.len ≠ 0 || s.toChannel.nMsgsInTheBuffer > 0 ||
    (s.subsystem.isSome && !terminated s.subsystem)

def channelOutputPoll : SessionM Unit := do
  let s ← get
  onBase (Channel.channelOutputPoll s.hasAscendingData)

def putEof : SessionM Unit :=
  zoom fromChannel (fun q s => { s with fromChannel := q }) BusyThreadWriteBuffer.putEof

/-- The end of the stream to the subsystem. -/
def drained : SessionM Unit := do
  putEof
  onBase (modify fun c => { c with currentOutputState := .closed, currentInputState := .waitDrain })

def rcvdIeof : SessionM Unit := do
  onBase (modify fun c => { c with eofRcvd := true })
  let s ← get
  -- CHANNEL STATES <3>
  if s.base.currentOutputState = .open then do
    onBase (modify fun c => { c with currentOutputState := .waitDrain })
    -- CHANNEL STATES <1b>
    if s.base.descending.len = 0 then
      drained
  else
    pure ()

def channelInputEof : SessionM Unit := do
  onBase (reading packetCheckEom)
  rcvdIeof

/-- A raw get: no length field goes to `ascending`. -/
def subproc2ascending : SessionM Unit := do
  let _ ← zoom (fun s => (s.toChannel, s.base.ascending))
    (fun (q, b) s => { s with toChannel := q, base := { s.base with ascending := b } })
    (BusyThreadReadBuffer.get false)

def descending2subproc : SessionM Unit := do
  let descending := (← get).base.descending
  zoom (fun s => (s.fromChannel, s.base.localConsumed))
    (fun (q, consumed) s =>
      { s with fromChannel := q, base := { s.base with localConsumed := consumed } })
    (BusyThreadWriteBuffer.put descending.contents)
  onBase (onDescending (Buffer.consume descending.len))

/-- `Subsystem::terminate` puts an EOF marker, also behind the one of `drained`; then the thread is
stopped and deleted. -/
def sessionCloseByChannel : SessionM Unit := do
  if (← get).subsystem.isSome then
    putEof
  modify fun s => { s with subsystem := none }

def garbageCollect : SessionM Unit := do
  let doClose := (← get).base.doClose
  if ← onBase (Channel.chanIsDead doClose) then do
    sessionCloseByChannel
    if ← onBase (Channel.chanIsDead true) then
      modify fun s => { s with deleted := true }
  else
    pure ()

def channelPost : SessionM Unit := do
  if (← get).base.isOpened then
    subproc2ascending
    descending2subproc
    onBase Channel.channelCheckWindow
  garbageCollect

/-- Does `server_loop` wait for data from the subsystem? -/
def waitsForData : SessionM Bool := do
  let c := (← get).base
  if c.currentInputState = .open ∧ c.remoteWindow > 0 ∧
      UInt32.ofNat c.ascending.len < c.remoteWindow then
    onBase Channel.checkAscendingChanRbuf
  else
    pure false

/-- The part of `fill_event_array` for one channel: is its event put in the array? -/
def fillEventArray : SessionM Bool := do
  let waits ← waitsForData
  let c := (← get).base
  -- CHANNEL STATES <1>
  if c.currentOutputState = .waitDrain ∧ c.descending.len = 0 then
    drained
  garbageCollect
  pure waits

def subprocTerminatedNotify : SessionM Unit := do
  onBase (message Ssh2Msg.channelRequest do
    packetPutCstring "exit-status"
    packetPutChar 0
    packetPutInt 0)
  -- CHANNEL STATES <6>
  onBase (modify fun c =>
    { c with
      doClose := true
      currentOutputState := .closed
      currentInputState := .waitDrain })

/-- The start of a subsystem. Whatever is thrown on the way is an `SException` and caught, as is
`fatal ("Subsystem already initialized")`. -/
def startSubsystem (start : Start) : SessionM Bool := do
  let s ← get
  if !s.base.isOpened && s.subsystem.isNone then
    match start with
    | .started =>
      tryCatch
        (do
          modify fun s => { s with subsystem := some {} }
          onBase (Channel.openWindow windowDefaultSize)
          pure true)
        fun _ => pure false
    | .notStarted => do
      modify fun s => { s with subsystem := some { pc := .ready } }
      pure false
    | .notCreated | .crashed => pure false
  else
    pure false

/-- `input_channel_req` for a request that starts a subsystem. What only "sftp" does is in
`ChannelObject.inputChannelReq`. -/
def inputChannelReq (reply : Bool) (start : Start) : SessionM Unit := do
  let processed ← startSubsystem start
  if reply then
    onBase (message (if processed then Ssh2Msg.channelSuccess else Ssh2Msg.channelFailure)
      (pure ()))

/-! ## The machine -/

/-- What can happen to a session channel: messages from the peer, what `server_loop` does
with its channels, and steps of the subsystem's thread. -/
inductive Event where
  | request (reply : Bool) (start : Start := .started)
  | data (body : Bytes)
  | eof (body : Bytes)
  | close (body : Bytes)
  | windowAdjust (body : Bytes)
  | outputPoll
  | fillEventArray
  | post
  -- `SendExitMsg`
  | exitMsg
  -- the subsystem calls `get`; a step of `get`; another event ends its wait
  | callGet
  | getStep
  | otherEvent
  | workerPut (data : Bytes)
  | workerExit

/-- A message arrives. -/
def received (body : Bytes) : SessionM Unit :=
  onBase (onCon (modify fun s => { s with incomingPacket := body }))

/-- A step of the subsystem, if there is one at `pc` -/
def workerAt (pc : Pc) (f : Worker → SessionM Unit) : SessionM Unit := do
  match (← get).subsystem with
  | some w => if w.pc = pc then f w else pure ()
  | none => pure ()

def setWorker (w : Worker) : SessionM Unit := modify fun s => { s with subsystem := some w }

def stepEvent : Event → SessionM Unit
  | .request reply start => inputChannelReq reply start
  | .data body => do
    received body
    onBase Channel.channelInputData
  | .eof body => do
    received body
    channelInputEof
  | .close body => do
    received body
    onBase Channel.channelInputOclose
  | .windowAdjust body => do
    received body
    onBase Channel.channelInputWindowAdjust
  | .outputPoll => channelOutputPoll
  | .fillEventArray => do
    let _ ← fillEventArray
  | .post => channelPost
  | .exitMsg => workerAt .terminated fun _ => subprocTerminatedNotify
  | .callGet => workerAt .outside fun w => setWorker { w with pc := .testRead }
  | .getStep => modify fun s =>
      match s.subsystem with
      | some w =>
        let (q, w') := Channels.getStep s.fromChannel w
        { s with fromChannel := q, subsystem := some w' }
      | none => s
  | .otherEvent => workerAt .wait fun w => setWorker { w with pc := .outside }
  | .workerPut data => workerAt .outside fun w =>
      -- `fatal` ends the worker only
      tryCatch (zoom toChannel (fun q s => { s with toChannel := q })
        (BusyThreadReadBuffer.put data)) fun _ => setWorker { w with pc := .terminated }
  | .workerExit => workerAt .outside fun w => setWorker { w with pc := .terminated }

/-- Nothing is called on a deleted channel. -/
def step (event : Event) : SessionM Unit := do
  if (← get).deleted then pure () else stepEvent event

end SessionChannel

end Shiesh.Channels
