import Shiesh.Channels.Queue

/-!
# The Shell

`Shell::run`: the thread between a channel and a child process (`cmd`). Messages from the channel
are written to the child's input, with a line feed behind every carriage return, and echoed; what
the child writes is read with an overlapped read of a pipe and put to the channel.

The thread waits in one place for three things: a message, the end of the read, and the end of the
child. Its loop is a machine of small steps, so that the child, the pipe and the connection thread
may come between any two of them. A message that has been taken is worked off in one step: that
touches only the child's input and the queue to the channel, which the child's output and its end
do not depend on.
-/

namespace Shiesh.Subsystems

open Shiesh.Lib Shiesh.Channels

/-! ## §1 The system -/

/-- The functions for the two pipes to the child -/
structure Child (ω : Type) where
  -- `WriteFile`: the number of bytes written, or `none` if it fails
  writeFile (data : Bytes) : ω → Option UInt32 × ω
  flushFileBuffers : ω → Bool × ω
  -- `ReadFile` and `GetLastError () != ERROR_IO_PENDING`: has the read begun?
  readFile : ω → Bool × ω

inductive ShellError where
  -- in `toChannel->put`
  | halt (h : Halt)
  | winCheck
  -- "Not all information is written."
  | notAllWritten
  -- "CompleteRead without StartRead"
  | noStartRead
  -- a failed `assert` in a build without `NDEBUG`
  | assertion
  -- an index that is not one of `buf`: there is no exception, but everything may happen
  | outOfBounds
  deriving DecidableEq, Repr

/-! ## §2 The state -/

/-- The overlapped read of the child's output -/
inductive Read where
  | idle
  | pending
  -- `readingIsAvailable` is set, and the bytes are in `ascendingBuf`
  | completed (data : Bytes)
  deriving DecidableEq, Repr

/-- Why `run` has returned -/
inductive Ending where
  | eof
  | exit
  deriving DecidableEq, Repr

/-- Where the thread is in `run` -/
inductive Place where
  | top
  -- in `fromChannel->get`
  | inGet
  | message (data : Bytes)
  -- `get` has returned NULL
  | null
  -- the child has not exited when it was looked at
  | reading
  | returned (ending : Ending)
  deriving DecidableEq, Repr

structure Shell (ω : Type) where
  world : ω
  fromChannel : BusyThreadWriteBuffer := {}
  toChannel : BusyThreadReadBuffer := {}
  place : Place := .top
  -- the thread's place in `get`, while it is there
  worker : Worker := {}
  processExits : Bool := false
  stdoutPipe : Read := .idle
  -- what the child has written and no read has taken
  pipe : Bytes := []
  exited : Bool := false
  -- all that the child has written
  written : Bytes := []
  -- what was put to the channel with `toChannel->put (ascendingBuf, nBytesRed)`
  forwarded : Bytes := []

abbrev ShellM (ω : Type) := EStateM ShellError (Shell ω)

variable {ω : Type}

def call {α : Type} (f : ω → α × ω) : ShellM ω α := do
  let s ← get
  let r := f s.world
  set { s with world := r.2 }
  pure r.1

def onToChannel {α : Type} (m : EStateM Halt BusyThreadReadBuffer α) : ShellM ω α :=
  zoomWith .halt Shell.toChannel (fun q s => { s with toChannel := q }) m

/-! ## §3 Input

`buf` is modelled by its first `pos` bytes. -/

def sizeofBuf : Nat := 80

/-- `buf[pos++] = c` -/
def store (c : UInt8) (buf : Bytes) : ShellM ω Bytes :=
  if buf.length < sizeofBuf then pure (buf ++ [c]) else throw .outOfBounds

section Input

variable (os : Child ω)

/-- `WriteFile (childInWr, buf, pos, &nBytesWritten, 0)` and the checks behind it -/
def writeBuf (buf : Bytes) : ShellM ω Unit := do
  match ← call (os.writeFile buf) with
  | none => throw .winCheck
  | some nBytesWritten => if nBytesWritten.toNat ≠ buf.length then throw .notAllWritten else pure ()

def flush : ShellM ω Unit := do
  if !(← call os.flushFileBuffers) then throw .winCheck else pure ()

/-- `if (pos >= sizeof (buf) - 1)` -/
def makeRoom (buf : Bytes) : ShellM ω Bytes :=
  if sizeofBuf - 1 ≤ buf.length then do
    writeBuf os buf
    pure []
  else
    pure buf

def addChar (c : UInt8) (buf : Bytes) : ShellM ω Bytes :=
  if c ≠ 13 then
    store c buf
  else do
    let buf ← store 13 buf
    let buf ← store 10 buf
    writeBuf os buf
    flush os
    pure []

/-- The loop over the bytes of the message -/
def translate : Bytes → Bytes → ShellM ω Bytes
  | [], buf => pure buf
  | c :: cs, buf => do
    let buf ← makeRoom os buf
    let buf ← addChar os c buf
    onToChannel (BusyThreadReadBuffer.put [c])
    translate cs buf

/-- A message for the child -/
def input (msg : Bytes) : ShellM ω Unit := do
  let buf ← translate os msg []
  writeBuf os buf

/-! ## §4 The steps of the loop -/

def goto (place : Place) : ShellM ω Unit := modify fun s => { s with place := place }

/-- `stdoutPipe->StartRead`, unless a read has been started -/
def startRead : ShellM ω Unit := do
  let s ← get
  if s.stdoutPipe = .idle then do
    set { s with stdoutPipe := .pending }
    if !(← call os.readFile) then throw .winCheck else pure ()
  else
    pure ()

/-- `stdoutPipe->CompleteRead`. `GetOverlappedResult` does not wait. -/
def completeRead : ShellM ω Bytes := do
  match (← get).stdoutPipe with
  | .idle => throw .noStartRead
  | .pending => throw .winCheck
  | .completed data => do
    modify fun s => { s with stdoutPipe := .idle }
    pure data

def nMsgsInTheBuffer (q : BusyThreadWriteBuffer) : Int := q.nWriteBufMsgs + q.nReadBufMsgs

/-- An empty message is the end of the input. -/
def inputEof (ndebug : Bool) : ShellM ω Unit := do
  let n := nMsgsInTheBuffer (← get).fromChannel
  if n ≠ 0 && !ndebug then throw .assertion
  else if n ≠ 0 then goto .top
  else goto (.returned .eof)

/-- `get` has returned without a message. -/
def withoutMessage : ShellM ω Unit := do
  let s ← get
  if s.processExits then
    goto (.returned .exit)
  else if s.exited then
    set { s with processExits := true, place := .top }
  else
    goto .reading

def putRead : ShellM ω Unit := do
  let data ← completeRead
  if data.length > 0 then do
    onToChannel (BusyThreadReadBuffer.put data)
    modify fun s => { s with forwarded := s.forwarded ++ data, place := .top }
  else
    goto .top

/-- A step inside of `get`. It has returned a message when the worker is outside again. -/
def getMessage : ShellM ω Unit := modify fun s =>
  let r := getStep s.fromChannel s.worker
  let s := { s with fromChannel := r.1, worker := r.2 }
  if r.2.pc = .outside then { s with place := .message (r.2.received.getLastD []) } else s

/-- The next step of `run` -/
def runStep (ndebug : Bool) : ShellM ω Unit := do
  match (← get).place with
  | .top => do
    startRead os
    modify fun s => { s with place := .inGet, worker := { s.worker with pc := .testRead } }
  | .inGet => getMessage
  | .message data =>
    if data = [] then inputEof ndebug
    else do
      input os data
      goto .top
  | .null => withoutMessage
  | .reading => putRead
  | .returned _ => pure ()

/-! ## §5 Everything else -/

inductive Event where
  | run
  -- the wait in `get` ends by another event
  | otherEvent
  -- the connection thread
  | put (data : Bytes)
  | putEof
  | childWrites (data : Bytes)
  | childExits
  -- a pending read gets at most this number of bytes
  | readCompletes (n : Nat)
  deriving DecidableEq, Repr

/-- The size of `ascendingBuf` -/
def sizeofAscendingBuf : Nat := 80

/-- `readingIsAvailable` or the handle of the child is signalled. -/
def Shell.signalled (s : Shell ω) : Bool :=
  s.exited || match s.stdoutPipe with
    | .completed _ => true
    | _ => false

/-- The read takes what is there, and is not completed by nothing. -/
def Shell.readCompletes (n : Nat) (s : Shell ω) : Shell ω :=
  if s.stdoutPipe = .pending ∧ s.pipe ≠ [] then
    let k := max 1 (min n sizeofAscendingBuf)
    { s with stdoutPipe := .completed (s.pipe.take k), pipe := s.pipe.drop k }
  else s

def step (ndebug : Bool) : Event → ShellM ω Unit
  | .run => runStep os ndebug
  -- `dataArrived` comes first in the array of events
  | .otherEvent => modify fun s =>
      if s.place = .inGet ∧ s.worker.pc = .wait ∧ s.fromChannel.dataArrived = false ∧
      s.signalled then
        { s with place := .null, worker := { s.worker with pc := .outside } }
      else s
  | .put data => zoomWith .halt (fun s => (s.fromChannel, (0 : UInt32)))
      (fun r s => { s with fromChannel := r.1 }) (BusyThreadWriteBuffer.put data)
  | .putEof => zoomWith .halt Shell.fromChannel (fun q s => { s with fromChannel := q })
      BusyThreadWriteBuffer.putEof
  | .childWrites data => modify fun s =>
      if s.exited then s else { s with pipe := s.pipe ++ data, written := s.written ++ data }
  | .childExits => modify fun s => { s with exited := true }
  | .readCompletes n => modify (Shell.readCompletes n)

end Input

end Shiesh.Subsystems
