import Shiesh.Repository
import Shiesh.Channels.Object

/-!
# The Channels of a Connection

`server_loop` with the channel repository of the connection and the event that is set by a
subsystem's thread when it ends. A step is one message from the peer, one phase of a round of
`server_loop`, or one step of a thread; threads may come between any two steps.

What is sent for a channel is recorded with the channel. Fields marked as history are read by no
function of the server.
-/

namespace Shiesh.Channels

open Shiesh.Lib

/-- A channel in the repository. -/
structure Entry where
  object : ChannelObject
  -- the thread has called `externalTerminated->set ()`
  signalled : Bool := false
  -- history: its number, how many channels were created before it, whether it had a thread
  number : Nat
  birth : Nat
  hadThread : Bool

/-- The entry after a function was called on its object. Deleting a thread waits for its end, and
a thread sets the event before it lets itself be waited for. -/
def Entry.after (e : Entry) (o : ChannelObject) : Entry :=
  { e with
    object := o
    signalled := e.signalled || (e.object.session.subsystem.isSome && o.session.subsystem.isNone)
    hadThread := e.hadThread || o.session.subsystem.isSome }

/-- Where a round of `server_loop` is. -/
inductive Phase where
  | dispatch
  | outputPoll
  | fillEventArray
  | wait
  | exitMsg
  | post
  deriving DecidableEq, Repr

structure Server where
  channels : Repository Entry := .empty
  -- the event `subprocTerminated`
  subprocTerminated : Bool := false
  -- `signalled[SubsystemTermEvt]`
  signalled : Bool := false
  rekeying : Bool := false
  phase : Phase := .dispatch
  -- for messages that are not for a channel
  con : Con := {}
  -- history: how many channels were created, and those that were removed
  created : Nat := 0
  removed : List Entry := []

abbrev ServerM := EStateM Halt Server

namespace Server

/-- Every channel that was ever created -/
def everyone (s : Server) : List Entry := s.channels.toList ++ s.removed

/-- Put the object back. One that was given to `delete_object` leaves the repository. -/
def update (s : Server) (id : Nat) (e : Entry) (o : ChannelObject) : Server :=
  let e' := e.after o
  let s := { s with subprocTerminated := s.subprocTerminated || (e'.signalled && !e.signalled) }
  if o.session.deleted then
    { s with channels := s.channels.assign id none, removed := s.removed ++ [e'] }
  else
    { s with channels := s.channels.assign id (some e') }

/-- Call a function of the channel with this id, if there is one. -/
def onObject (id : Nat) (m : ObjectM Unit) : ServerM Unit := do
  match (← get).channels.getObjectById id with
  | none => pure ()
  | some e => zoom (fun _ => e.object) (fun o s => s.update id e o) m

/-! ## Messages -/

/-- SSH2_MSG_CHANNEL_OPEN_FAILURE -/
def openFailure (rchan : UInt32) (openFailureBug : Bool) : ServerM Unit :=
  zoom Server.con (fun c s => { s with con := c }) do
    packetStart Ssh2Msg.channelOpenFailure
    packetPutInt rchan
    -- SSH2_OPEN_UNKNOWN_CHANNEL_TYPE
    packetPutInt 3
    if !openFailureBug then do
      packetPutCstring "open failed"
      packetPutCstring ""
    packetSend

/-- `server_input_channel_open`, with what has been read from the packet. A host name that does
not resolve is an exception in `create_derivation` that nobody catches. -/
def serverInputChannelOpen (ctype : Option ChannelType) (remoteId rwindow rmaxpack : UInt32)
    (resolves openFailureBug : Bool) : ServerM Unit := do
  match ctype with
  | none => openFailure remoteId openFailureBug
  | some ctype =>
    if ctype = .directTcpip ∧ resolves = false then
      throw (.exception "getaddrinfo")
    else do
      let s ← get
      let id := s.channels.firstUnusedObjectId
      let o := ChannelObject.createDerivation ctype (UInt32.ofNat id) remoteId rwindow rmaxpack
      set { s with
        channels := s.channels.createObject
          { object := o
            number := id
            birth := s.created
            hadThread := o.session.subsystem.isSome }
        created := s.created + 1 }
      onObject id ChannelObject.confirmOpen

/-- A message for a channel. -/
inductive Message where
  | startSubsystem (sftp reply : Bool) (start : Start := .started)
  | otherRequest (created reply : Bool)
  | data (body : Bytes)
  | eof (body : Bytes)
  | close (body : Bytes)
  | windowAdjust (body : Bytes)

def Message.event : Message → ChannelObject.Event
  | .startSubsystem sftp reply start => .startSubsystem sftp reply start
  | .otherRequest created reply => .otherRequest created reply
  | .data body => .session (.data body)
  | .eof body => .session (.eof body)
  | .close body => .session (.close body)
  | .windowAdjust body => .session (.windowAdjust body)

/-- What is done about a channel that does not exist. -/
def Message.unknown (id : UInt32) : Message → ServerM Unit
  | .startSubsystem .. | .otherRequest _ _ =>
    throw (.disconnect "server_input_channel_req: unknown channel %d" [.int id.toInt32.toInt])
  | .data _ => throw
      (.disconnect "Received data for nonexistent channel %d." [.int id.toInt32.toInt])
  | .eof _ => throw
      (.disconnect "Received ieof for nonexistent channel %d." [.int id.toInt32.toInt])
  | .close _ =>
    throw (.disconnect "Received oclose for nonexistent channel %d." [.int id.toInt32.toInt])
  -- only logged
  | .windowAdjust _ => pure ()

def dispatch (id : UInt32) (m : Message) : ServerM Unit := do
  if ((← get).channels.getObjectById id.toNat).isNone then m.unknown id
  else onObject id.toNat (ChannelObject.step m.event)

/-! ## Rounds -/

/-- `for_each` -/
def forEach (event : ChannelObject.Event) : List Nat → ServerM Unit
  | [] => pure ()
  | id :: ids => do
    onObject id (ChannelObject.step event)
    forEach event ids

/-- WSA_MAXIMUM_WAIT_EVENTS - FirstAscendingEvt -/
def eventsMaxSize : Nat := 64 - 3

/-- Is the event of the channel put in the array? -/
def waits (o : ChannelObject) : Bool :=
  match SessionChannel.waitsForData o.session with
  | .ok answer _ => answer
  | .error _ _ => false

/-- `fill_event_array`: the loop is left when the array is full. -/
def fillEventArray (mapSize : Nat) : List Nat → ServerM Unit
  | [] => pure ()
  | id :: ids => do
    match (← get).channels.getObjectById id with
    | none => fillEventArray mapSize ids
    | some e =>
      if mapSize ≥ eventsMaxSize then pure ()
      else do
        onObject id (ChannelObject.step (.session .fillEventArray))
        fillEventArray (mapSize + if waits e.object then 1 else 0) ids

/-- For all channels, unless keys are being exchanged -/
def unlessRekeying (m : List Nat → ServerM Unit) : ServerM Unit := do
  let s ← get
  if s.rekeying then pure () else m s.channels.ids

/-- The next phase of the round. `rekeying` is read at the end of `dispatch_run`. -/
def nextPhase (rekeying : Bool) : ServerM Unit := do
  match (← get).phase with
  | .dispatch => modify fun s => { s with rekeying := rekeying, phase := .outputPoll }
  | .outputPoll => do
    unlessRekeying (forEach (.session .outputPoll))
    modify fun s => { s with phase := .fillEventArray }
  | .fillEventArray => do
    unlessRekeying (fillEventArray 0)
    modify fun s => { s with phase := .wait }
  -- the event is reset before the threads are looked at
  | .wait => modify fun s =>
    { s with signalled := s.subprocTerminated, subprocTerminated := false, phase := .exitMsg }
  | .exitMsg => do
    let s ← get
    if s.signalled then
      forEach (.session .exitMsg) s.channels.ids
    modify fun s => { s with phase := .post }
  | .post => do
    unlessRekeying (forEach (.session .post))
    modify fun s => { s with phase := .dispatch }

/-! ## The machine -/

/-- A step of a thread. -/
inductive ThreadStep where
  | connected
  | callGet
  | getStep
  | otherEvent
  | put (data : Bytes)
  | exit

def ThreadStep.event : ThreadStep → ChannelObject.Event
  | .connected => .connected
  | .callGet => .session .callGet
  | .getStep => .session .getStep
  | .otherEvent => .session .otherEvent
  | .put data => .session (.workerPut data)
  | .exit => .session .workerExit

/-- `externalTerminated->set ()`, after the state of the thread has become "terminated" -/
def signal (id : Nat) : ServerM Unit :=
  modify fun s =>
    match s.channels.getObjectById id with
    | none => s
    | some e =>
      if SessionChannel.terminated e.object.session.subsystem && !e.signalled then
        { s with
          channels := s.channels.assign id (some { e with signalled := true })
          subprocTerminated := true }
      else s

inductive Event where
  | channelOpen (ctype : Option ChannelType) (remoteId rwindow rmaxpack : UInt32)
      (resolves openFailureBug : Bool)
  | message (id : UInt32) (m : Message)
  | round (rekeying : Bool)
  | thread (id : Nat) (t : ThreadStep)
  | signal (id : Nat)

/-- Messages are dispatched in their phase only. -/
def whenDispatching (m : ServerM Unit) : ServerM Unit := do
  if (← get).phase = .dispatch then m else pure ()

def step : Event → ServerM Unit
  | .channelOpen ctype remoteId rwindow rmaxpack resolves openFailureBug =>
    whenDispatching
      (serverInputChannelOpen ctype remoteId rwindow rmaxpack resolves openFailureBug)
  | .message id m => whenDispatching (dispatch id m)
  | .round rekeying => nextPhase rekeying
  | .thread id t => onObject id (ChannelObject.step t.event)
  | .signal id => signal id

end Server

end Shiesh.Channels
