import Shiesh.Channels.SftpChannel

/-!
# Channel Objects

What stands in the channel repository: a `SessionChannel`, the `SFTPChannel` that it becomes,
or a `TCPClientChannel`, with the virtual functions resolved by the class of the object.

The subsystem of a `TCPClientChannel` is the thread that connects. It is started with the
channel, and it touches the queues only after it has connected and opened the channel.
-/

namespace Shiesh.Channels

open Shiesh.Lib

/-- The `ctype` of CHANNEL_OPEN, as far as it is known. -/
inductive ChannelType where
  | session
  | directTcpip
  deriving DecidableEq, Repr

/-- The class of an object. -/
inductive ChannelClass where
  | session
  | sftp
  | tcpClient
  deriving DecidableEq, Repr

structure ChannelObject where
  cls : ChannelClass
  self : UInt32
  session : SessionChannel
  -- "true if no responce to MSG_CHANNEL_OPEN was sent yet"; other classes do not have it
  isConnecting : Bool := false

abbrev ObjectM := EStateM Halt ChannelObject

def onSession {α : Type} (m : SessionM α) : ObjectM α :=
  zoom ChannelObject.session (fun s o => { o with session := s }) m

namespace ChannelObject

/-- `ChannelPars::create_derivation`. The thread of a `TCPClientChannel` has been started. -/
def createDerivation (ctype : ChannelType) (self remoteId rwindow rmaxpack : UInt32) :
    ChannelObject :=
  let session := SessionChannel.create remoteId rwindow rmaxpack
  match ctype with
  | .session => { cls := .session, self := self, session := session }
  | .directTcpip =>
    { cls := .tcpClient
      self := self
      session :=
        { session with
          base :=
            { session.base with
              localWindow := SessionChannel.windowDefaultSize
              localWindowMax := SessionChannel.windowDefaultSize }
          subsystem := some {} }
      isConnecting := true }

/-- SSH2_MSG_CHANNEL_OPEN_CONFIRMATION -/
def openConfirmation : ObjectM Unit := do
  let o ← get
  onSession (onBase (message Ssh2Msg.channelOpenConfirmation do
    packetPutInt o.self
    packetPutInt o.session.base.localWindow
    packetPutInt o.session.base.localMaxpacket))

/-- The reply to CHANNEL_OPEN at the end of `server_input_channel_open`: "For forward channel
wait for remote socket connection". -/
def confirmOpen : ObjectM Unit := do
  if (← get).cls ≠ .tcpClient then openConfirmation

/-- The channel is replaced, and the thread for "sftp" created. A null pointer that is followed
there is no exception: nothing catches it. -/
def replaceBySftp (start : Start) : ObjectM Unit := do
  modify fun o => { o with cls := .sftp }
  if start = .crashed then throw (.exception "access violation")

/-- A request that starts a subsystem -/
def inputChannelReq (sftp reply : Bool) (start : Start) : ObjectM Unit := do
  let o ← get
  match o.cls with
  | .tcpClient => throw (.exception "Channel request for TCP channel")
  | .session | .sftp => do
    if sftp && !o.session.base.isOpened && o.session.subsystem.isNone then
      replaceBySftp start
    onSession (SessionChannel.inputChannelReq reply start)

/-- Any other request. Only "pty-req" is known, on a channel that is not opened; `created`
says whether `ptys->create_object` did not throw. -/
def otherChannelReq (created reply : Bool) : ObjectM Unit := do
  let o ← get
  match o.cls with
  | .tcpClient => throw (.exception "Channel request for TCP channel")
  | .session | .sftp => do
    let processed := created && !o.session.base.isOpened
    if reply then
      onSession (onBase (message
        (if processed then Ssh2Msg.channelSuccess else Ssh2Msg.channelFailure) (pure ())))

/-- `channel_post` -/
def channelPost : ObjectM Unit := do
  match (← get).cls with
  | .session => onSession SessionChannel.channelPost
  | .sftp => onSession SFTPChannel.channelPost
  | .tcpClient => do
    onSession SessionChannel.channelPost
    -- this is read also when `garbage_collect` has just deleted the object
    if (← get).isConnecting then do
      openConfirmation
      modify fun o => { o with isConnecting := false }

/-- In `TCPClient::run`: the socket is connected, `channel->open ()`. -/
def connected : ObjectM Unit :=
  modify fun o =>
    if o.cls = .tcpClient ∧ o.session.subsystem.isSome ∧
        SessionChannel.terminated o.session.subsystem = false then
      { o with session := { o.session with base := { o.session.base with isOpened := true } } }
    else o

/-! ## The machine -/

/-- What can happen to a channel object. -/
inductive Event where
  | startSubsystem (sftp reply : Bool) (start : Start := .started)
  | otherRequest (created reply : Bool)
  | connected
  | session (event : SessionChannel.Event)

/-- Before it has connected, the thread of a `TCPClientChannel` does nothing else. -/
def afterConnect (m : SessionM Unit) : ObjectM Unit := do
  let o ← get
  if o.cls = .tcpClient ∧ o.session.base.isOpened = false then pure () else onSession m

def stepEvent : Event → ObjectM Unit
  | .startSubsystem sftp reply start => inputChannelReq sftp reply start
  | .otherRequest created reply => otherChannelReq created reply
  | .connected => connected
  | .session event =>
    match event with
    | .request reply start => inputChannelReq false reply start
    | .post => channelPost
    | .callGet => afterConnect (SessionChannel.stepEvent .callGet)
    | .workerPut data => afterConnect (SessionChannel.stepEvent (.workerPut data))
    | event => onSession (SessionChannel.stepEvent event)

/-- Nothing is called on a deleted channel. -/
def step (event : Event) : ObjectM Unit := do
  if (← get).session.deleted then pure () else stepEvent event

end ChannelObject

end Shiesh.Channels
