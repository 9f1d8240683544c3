import Mathlib.Data.List.Sort
import Shiesh.Channels.Queue
import Shiesh.Sftp.Attrib

/-!
# The SFTP Server

`SFTP::process` of `sftp-server.cpp` with all its handlers, in a release build.

A request is read from `iqueue`, and a reply goes to the queue `toChannel`. Between them are
calls of the system. What a call does is not known: `Win32` is any system, with its own state,
that answers every call in some way and leaves some code for `GetLastError`, also when the call
was successful.

What is thrown here is caught by the `catch (...)` of some handlers; otherwise it leaves `process`
and ends the subsystem. Logging is left out, but the functions that are called for its arguments
are not: some of them throw.
-/

namespace Shiesh.Sftp

open Shiesh.Lib Shiesh.Channels

/-! ## §1 The system -/

/-- `HANDLE` -/
abbrev WinHandle := UInt64

def invalidHandleValue : WinHandle := 0xffffffffffffffff

namespace WinError

abbrev fileNotFound : UInt32 := 2
abbrev pathNotFound : UInt32 := 3
abbrev accessDenied : UInt32 := 5
abbrev invalidHandle : UInt32 := 6
abbrev invalidAccess : UInt32 := 12
abbrev invalidDrive : UInt32 := 15
abbrev writeProtect : UInt32 := 19
abbrev badLength : UInt32 := 24

end WinError

/-- What a call returns, and the code that `GetLastError` gives afterwards -/
structure Outcome (α : Type) where
  value : α
  lastError : UInt32

/-- A call, as a function of the state of the system -/
abbrev Api (ω α : Type) := ω → Outcome α × ω

/-- `FILE_BASIC_INFO` -/
structure BasicInfo where
  creationTime : FileTime
  lastAccessTime : FileTime
  lastWriteTime : FileTime
  changeTime : FileTime
  fileAttributes : UInt32

/-- The system. Functions that fill a record return `none` when they fail. -/
structure Win32 (ω : Type) where
  createFile (name : WString) (access disposition flags : UInt32) : Api ω WinHandle
  closeHandle (h : WinHandle) : Api ω Bool
  setFilePointer (h : WinHandle) (offset : UInt64) : Api ω Bool
  -- no more is read than was asked for
  readFile (h : WinHandle) (len : UInt32) : Api ω (Option { b : Bytes // b.length ≤ len.toNat })
  -- the number of bytes written
  writeFile (h : WinHandle) (data : Bytes) : Api ω (Option UInt32)
  setEndOfFile (h : WinHandle) : Api ω Bool
  getFileAttributesEx (name : WString) : Api ω (Option FileInfo)
  getFileInformationByHandle (h : WinHandle) : Api ω (Option FileInfo)
  setFileInformationByHandle (h : WinHandle) (info : BasicInfo) : Api ω Bool
  getFileAttributes (name : WString) : Api ω UInt32
  setFileAttributes (name : WString) (attributes : UInt32) : Api ω Bool
  findFirstFile (mask : WString) : Api ω WinHandle
  findNextFile (h : WinHandle) : Api ω (Option FindData)
  findClose (h : WinHandle) : Api ω Bool
  deleteFile (name : WString) : Api ω Bool
  createDirectory (name : WString) : Api ω Bool
  removeDirectory (name : WString) : Api ω Bool
  createHardLink (newName oldName : WString) : Api ω Bool
  moveFileEx (oldName newName : WString) : Api ω Bool
  -- `GetSystemTime` and `SystemTimeToFileTime`
  systemTime : Api ω FileTime
  -- `MultiByteToWideChar` and `WideCharToMultiByte` for `CP_UTF8`: a character takes at most
  -- three bytes
  toWide (b : Bytes) : WString
  ofWide (w : WString) : Bytes
  ofWide_length (w : WString) : (ofWide w).length ≤ 3 * w.length
  -- the time in `ls_file`: `FileTimeToSystemTime` and `wcsftime` into a `tbuf [33]`
  formatTime (t : FileTime) : WString
  formatTime_length (t : FileTime) : (formatTime t).length ≤ 32
  -- what stands in a local variable that has not been set
  uninitialized : ω → UInt32

/-! ## §2 The state -/

inductive HandleUse where
  | unused
  | dir
  | file
  deriving DecidableEq, Repr

/-- `SFTP::Handle` -/
structure FileHandle where
  use : HandleUse
  dirp : WinHandle
  fileHandle : WinHandle
  searchHandle : WinHandle := invalidHandleValue
  searchDone : Bool := false
  path : SFTPFilePath
  bytesRead : UInt64 := 0
  bytesWrite : UInt64 := 0

/-- `SFTP`, with the last error of its thread and the system. `version` is not set before
SSH2_FXP_INIT. `iqueue` never holds more than one message, so that its limits do not matter. -/
structure SFTP (ω : Type) where
  iqueue : Bytes := []
  version : Int32
  handles : List FileHandle := []
  -- a `std::set`, in ascending order
  unusedHandles : List Nat := []
  toChannel : BusyThreadReadBuffer := {}
  lastError : UInt32 := 0
  world : ω

/-- What can be thrown. -/
inductive SftpError where
  -- `XShuttingDown`
  | halt (h : Halt)
  | path (e : PathError)
  | noSuchHandle (handle : Int)
  -- a pointer that has not been set is given to `xfree`
  | wildFree
  deriving DecidableEq, Repr

variable {ω : Type}

abbrev SftpM (ω : Type) := EStateM SftpError (SFTP ω)

def onIqueue {α : Type} (g : Get α) : SftpM ω α :=
  zoomWith .halt SFTP.iqueue (fun b s => { s with iqueue := b }) g

def getInt : SftpM ω UInt32 := onIqueue bufferGetInt

def getInt64 : SftpM ω UInt64 := onIqueue bufferGetInt64

def getString : SftpM ω Bytes := onIqueue bufferGetString

def getAttrib : SftpM ω Attrib := onIqueue decodeAttrib

def liftPath {α : Type} : Except PathError α → SftpM ω α
  | .ok a => pure a
  | .error e => throw (.path e)

/-- `catch (...)` -/
def catching {α : Type} (failed : α) (m : SftpM ω α) : SftpM ω α :=
  tryCatch m fun _ => pure failed

def call {α : Type} (f : Api ω α) : SftpM ω α := do
  let s ← get
  let r := f s.world
  set { s with lastError := r.1.lastError, world := r.2 }
  pure r.1.value

def getLastError : SftpM ω UInt32 := do
  pure (← get).lastError

/-- The value of a variable that has not been set -/
def uninitialized (os : Win32 ω) : SftpM ω UInt32 := do
  pure (os.uninitialized (← get).world)

/-- `toUTF8`, through a C string -/
def toUTF8 (os : Win32 ω) (w : WString) : Bytes := cstr (os.ofWide w)

def fromUTF8 (os : Win32 ω) (b : Bytes) : WString := os.toWide (cstr b)

/-! ## §3 Handles -/

namespace SFTP

def handleIsOk (s : SFTP ω) (i : Int) (use : HandleUse) : Bool :=
  -- a negative number is a very large `size_type`
  0 ≤ i && s.handles[i.toNat]?.any (·.use = use)

/-- `handles[i]` for a handle that is in use -/
def handleAt (s : SFTP ω) (i : Int) : Option FileHandle := s.handles[i.toNat]?

end SFTP

def isSpace (c : UInt8) : Bool := (9 ≤ c && c ≤ 13) || c = 32

def isDigit (c : UInt8) : Bool := 48 ≤ c && c ≤ 57

/-- `strs >> val` for an `int`, when it succeeds -/
def extractInt (b : Bytes) : Option Int :=
  let b := b.dropWhile isSpace
  let (negative, b) := match b with
    | 45 :: rest => (true, rest)
    | 43 :: rest => (false, rest)
    | _ => (false, b)
  let digits := b.takeWhile isDigit
  let n : Int := digits.foldl (fun n d => 10 * n + (d - 48).toNat) 0
  let val := if negative then -n else n
  if digits = [] ∨ val < -2147483648 ∨ 2147483647 < val then none else some val

def modifyHandle (i : Int) (f : FileHandle → FileHandle) : SftpM ω Unit :=
  modify fun s => { s with handles := s.handles.modify i.toNat f }

def handleUnused (i : Int) : SftpM ω Unit := do
  modifyHandle i fun h => { h with use := .unused }
  modify fun s => { s with unusedHandles := s.unusedHandles.orderedInsert (· ≤ ·) i.toNat }

/-- `handle_new`; a negative result says that there are too many. -/
def handleNew (use : HandleUse) (path : SFTPFilePath) (fh dirp : WinHandle) : SftpM ω Int := do
  let s ← get
  if (UInt32.ofNat (s.handles.length + 1)).toInt32 < 0 then
    pure (-1)
  else
    let newHandle : FileHandle := { use := use, dirp := dirp, fileHandle := fh, path := path }
    match s.unusedHandles with
    | [] => do
      set { s with handles := s.handles ++ [newHandle] }
      pure s.handles.length
    | i :: rest => do
      set { s with handles := s.handles.set i newHandle, unusedHandles := rest }
      pure i

/-- `handle_to_string` of an `int`: the NUL at the end belongs to the string. -/
def handleToString (handle : Int) : Bytes :=
  let handle := (Int32.ofInt handle).toInt
  (if handle < 0 then ascii "-" else []) ++
    (Nat.toDigits 10 handle.natAbs).map (fun c => UInt8.ofNat c.toNat) ++ [0]

/-- `handle_from_string`. When no number can be read, `val` stays what it was. -/
def handleFromString (os : Win32 ω) (handle : Bytes) : SftpM ω Int := do
  if handle = [] then
    pure (-1)
  else do
    let val := (extractInt (cstr handle)).getD (← uninitialized os).toInt32.toInt
    let s ← get
    if s.handleIsOk val .file || s.handleIsOk val .dir then
      pure val
    else
      throw (.noSuchHandle val)

def handleToPath (handle : Int) : SftpM ω SFTPFilePath := do
  let s ← get
  match s.handleAt handle with
  | some h =>
    if s.handleIsOk handle .dir || s.handleIsOk handle .file then
      pure h.path
    else
      throw (.noSuchHandle handle)
  | none => throw (.noSuchHandle handle)

def handleToName (handle : Int) : SftpM ω WString := do
  let path ← handleToPath handle
  liftPath (path.toWString true)

/-- `handle_to_dir` and `handle_to_fh` -/
def handleTo (use : HandleUse) (field : FileHandle → WinHandle) (handle : Int) :
    SftpM ω WinHandle := do
  let s ← get
  match s.handleAt handle with
  | some h => if s.handleIsOk handle use then pure (field h) else throw (.noSuchHandle handle)
  | none => throw (.noSuchHandle handle)

def handleToDir (handle : Int) : SftpM ω WinHandle := handleTo .dir FileHandle.dirp handle

def handleToFh (handle : Int) : SftpM ω WinHandle := handleTo .file FileHandle.fileHandle handle

def handleUpdateRead (handle : Int) (bytes : Nat) : SftpM ω Unit := do
  if (← get).handleIsOk handle .file && 0 < bytes then
    modifyHandle handle fun h => { h with bytesRead := h.bytesRead + UInt64.ofNat bytes }

def handleUpdateWrite (handle : Int) (bytes : Nat) : SftpM ω Unit := do
  if (← get).handleIsOk handle .file && 0 < bytes then
    modifyHandle handle fun h => { h with bytesWrite := h.bytesWrite + UInt64.ofNat bytes }

/-- The system's handle is closed and the entry is free again. -/
def closeEntry (os : Win32 ω) (handle : Int) (h : WinHandle) : SftpM ω Bool := do
  let ret ← call (os.closeHandle h)
  handleUnused handle
  pure ret

def handleClose (os : Win32 ω) (handle : Int) : SftpM ω Bool := do
  let s ← get
  match s.handleAt handle with
  | some h =>
    if s.handleIsOk handle .file then
      closeEntry os handle h.fileHandle
    else if s.handleIsOk handle .dir then
      closeEntry os handle h.dirp
    else do
      modify fun s => { s with lastError := WinError.fileNotFound }
      pure false
  | none => do
    modify fun s => { s with lastError := WinError.fileNotFound }
    pure false

/-- `handle_log_close` asks for the name, whatever the handle is. -/
def handleLogClose (handle : Int) : SftpM ω Unit := do
  let _ ← handleToName handle

def getHandle (os : Win32 ω) : SftpM ω Int := do
  let handle ← getString
  if handle.length < 256 then handleFromString os handle else pure (-1)

/-! ## §4 Replies -/

namespace Fxp

abbrev init : UInt8 := 1
abbrev version : UInt8 := 2
abbrev open' : UInt8 := 3
abbrev close : UInt8 := 4
abbrev read : UInt8 := 5
abbrev write : UInt8 := 6
abbrev lstat : UInt8 := 7
abbrev fstat : UInt8 := 8
abbrev setstat : UInt8 := 9
abbrev fsetstat : UInt8 := 10
abbrev opendir : UInt8 := 11
abbrev readdir : UInt8 := 12
abbrev remove : UInt8 := 13
abbrev mkdir : UInt8 := 14
abbrev rmdir : UInt8 := 15
abbrev realpath : UInt8 := 16
abbrev stat : UInt8 := 17
abbrev rename : UInt8 := 18
abbrev readlink : UInt8 := 19
abbrev symlink : UInt8 := 20
abbrev status : UInt8 := 101
abbrev handle : UInt8 := 102
abbrev data : UInt8 := 103
abbrev name : UInt8 := 104
abbrev attrs : UInt8 := 105
abbrev extended : UInt8 := 200

end Fxp

namespace Fx

abbrev ok : UInt32 := 0
abbrev eof : UInt32 := 1
abbrev noSuchFile : UInt32 := 2
abbrev permissionDenied : UInt32 := 3
abbrev failure : UInt32 := 4
abbrev badMessage : UInt32 := 5
abbrev opUnsupported : UInt32 := 8
abbrev max : UInt32 := 8

end Fx

def errnoToPortable (err : UInt32) : UInt32 :=
  if err = 0 then Fx.ok
  else if err ∈ [WinError.fileNotFound, WinError.pathNotFound, WinError.invalidHandle,
      WinError.invalidDrive] then Fx.noSuchFile
  else if err ∈ [WinError.accessDenied, WinError.invalidAccess, WinError.writeProtect] then
    Fx.permissionDenied
  else if err = WinError.badLength then Fx.badMessage
  else Fx.failure

/-- The status of a call that has failed -/
def lastStatus : SftpM ω UInt32 := do
  pure (errnoToPortable (← getLastError))

/-- `(!res) ? errno_to_portable (GetLastError ()) : SSH2_FX_OK` -/
def statusOf (res : Bool) : SftpM ω UInt32 := if res then pure Fx.ok else lastStatus

/-- A message is made in a `Buffer` of its own, part by part. -/
def appendAll : List Bytes → BufferM Unit
  | [] => pure ()
  | part :: parts => do
    Buffer.append part
    appendAll parts

/-- `buffer_put_string` -/
def stringParts (b : Bytes) : List Bytes := [putU32 (UInt32.ofNat b.length), b]

/-- `buffer_put_cstring` -/
def cstringParts (b : Bytes) : List Bytes := stringParts (cstr b)

/-- The message is made, and then `send_msg` puts it into the queue as a whole. -/
def sendMsg (parts : List Bytes) : SftpM ω Unit :=
  match appendAll parts .init with
  | .error e _ => throw (.halt e)
  | .ok _ b => zoomWith .halt SFTP.toChannel (fun q s => { s with toChannel := q })
      (BusyThreadReadBuffer.put b.contents)

def statusMessages : List String :=
  ["Success", "End of file", "No such file", "Permission denied", "Failure", "Bad message",
    "No connection", "Connection lost", "Operation unsupported", "Unknown error"]

def statusToMessage (status : UInt32) : Bytes :=
  ascii (statusMessages.getD (min status Fx.max).toNat "")

def sendStatus (id status : UInt32) : SftpM ω Unit := do
  let version := (← get).version
  sendMsg ([[Fxp.status], putU32 id, putU32 status] ++
    (if version ≥ 3 then cstringParts (statusToMessage status) ++ cstringParts [] else []))

def sendDataOrHandle (type : UInt8) (id : UInt32) (data : Bytes) : SftpM ω Unit :=
  sendMsg ([[type], putU32 id] ++ stringParts data)

def sendData (id : UInt32) (data : Bytes) : SftpM ω Unit := sendDataOrHandle Fxp.data id data

def sendHandle (id : UInt32) (handle : Int) : SftpM ω Unit :=
  sendDataOrHandle Fxp.handle id (handleToString handle)

/-- `SFTP::Stat` -/
structure Stat where
  name : Bytes
  longName : Bytes
  attrib : Attrib

def Stat.parts (s : Stat) : List Bytes :=
  cstringParts s.name ++ cstringParts s.longName ++ [encodeAttrib s.attrib]

def sendNames (id : UInt32) (stats : List Stat) : SftpM ω Unit :=
  sendMsg ([[Fxp.name], putU32 id, putU32 (UInt32.ofNat stats.length)] ++
    stats.flatMap Stat.parts)

def sendAttrib (id : UInt32) (a : Attrib) : SftpM ω Unit :=
  sendMsg [[Fxp.attrs], putU32 id, encodeAttrib a]

/-! ## §5 Requests -/

def processInit : SftpM ω Unit := do
  let version ← getInt
  modify fun s => { s with version := version.toInt32 }
  sendMsg [[Fxp.version], putU32 3]

section Handlers

variable (os : Win32 ω) (home : SFTPFilePath)

/-- `pathFact.create_path` -/
def makePath (name : Bytes) : SftpM ω SFTPFilePath :=
  liftPath (createPath true home (fromUTF8 os name))

def forCall (path : SFTPFilePath) : SftpM ω WString := liftPath (path.getForCall true)

/-- Handlers that read and work inside of `try` and reply afterwards, unless that has been done
inside. When already `get_int` throws, `id` has not been set. -/
def guarded (body : UInt32 → SftpM ω UInt32) : SftpM ω Unit := do
  match ← catching none (do pure (some (← getInt))) with
  | none => do
    let id ← uninitialized os
    sendStatus id Fx.failure
  | some id => do
    let status ← catching Fx.failure (body id)
    if status ≠ Fx.ok then sendStatus id status

def genericRead : UInt32 := 0x80000000

def genericWrite : UInt32 := 0x40000000

def flagsFromPortable (pflags : UInt32) : UInt32 :=
  (if hasFlag pflags 0x1 then genericRead else 0) |||
    (if hasFlag pflags 0x2 then genericWrite else 0)

/-- CREATE_NEW, CREATE_ALWAYS, OPEN_ALWAYS or OPEN_EXISTING -/
def creationDisposition (pflags : UInt32) : UInt32 :=
  if hasFlag pflags 0x8 then
    if hasFlag pflags 0x20 then 1 else if hasFlag pflags 0x10 then 2 else 4
  else 3

def fileFlagBackupSemantics : UInt32 := 0x02000000

/-- The result of `CreateFileW` becomes a handle of the client. -/
def openHandle (id : UInt32) (fh : WinHandle) (new : SftpM ω Int) : SftpM ω UInt32 := do
  if fh = invalidHandleValue then
    lastStatus
  else do
    let handle ← new
    if handle < 0 then do
      let _ ← call (os.closeHandle fh)
      pure Fx.failure
    else do
      sendHandle id handle
      pure Fx.ok

def processOpen : SftpM ω Unit := guarded os fun id => do
  let name ← getString
  let pflags ← getInt
  let _ ← getAttrib
  let path ← makePath os home name
  let fh ← call (os.createFile (← forCall path) (flagsFromPortable pflags)
    (creationDisposition pflags) FileAttribute.normal)
  openHandle os id fh (handleNew .file path fh 0)

def processClose : SftpM ω Unit := do
  let id ← getInt
  let handle ← getHandle os
  handleLogClose handle
  let ret ← handleClose os handle
  let status ← statusOf ret
  sendStatus id status

/-- What is done with a system's handle, if it is one -/
def whenValid (fh : WinHandle) (m : SftpM ω UInt32) : SftpM ω UInt32 :=
  if fh ≠ invalidHandleValue then m else pure Fx.failure

/-- The part of `process_read` with a file that is open -/
def readAt (id : UInt32) (handle : Int) (fh : WinHandle) (off : UInt64) (len : UInt32) :
    SftpM ω UInt32 := do
  if !(← call (os.setFilePointer fh off)) then do
    if (← getLastError) = 0 then pure Fx.eof else lastStatus
  else
    match ← call (os.readFile fh len) with
    | none => lastStatus
    | some data =>
      if data.1.length = 0 then
        pure Fx.eof
      else do
        sendData id data
        handleUpdateRead handle data.1.length
        pure Fx.ok

def processRead : SftpM ω Unit := do
  let id ← getInt
  let handle ← getHandle os
  let off ← getInt64
  let len ← getInt
  let fh ← handleToFh handle
  let status ← whenValid fh (readAt os id handle fh off (min len (64 * 1024)))
  if status ≠ Fx.ok then sendStatus id status

def writeAt (handle : Int) (fh : WinHandle) (off : UInt64) (data : Bytes) : SftpM ω UInt32 := do
  if !(← call (os.setFilePointer fh off)) then
    lastStatus
  else
    match ← call (os.writeFile fh data) with
    | none => if (← getLastError) ≠ 0 then lastStatus else pure Fx.failure
    | some nBytesWritten =>
      if nBytesWritten.toNat = data.length then do
        handleUpdateWrite handle nBytesWritten.toNat
        pure Fx.ok
      else
        pure Fx.failure

def processWrite : SftpM ω Unit := do
  let id ← getInt
  let handle ← getHandle os
  let off ← getInt64
  let data ← getString
  let fh ← handleToFh handle
  let status ← whenValid fh (writeAt os handle fh off data)
  sendStatus id status

/-- The attributes that a call has found are sent. -/
def replyAttrib (id : UInt32) (found : Api ω (Option FileInfo)) : SftpM ω UInt32 := do
  match ← call found with
  | none => lastStatus
  | some st => do
    sendAttrib id (statToAttrib st)
    pure Fx.ok

def processDoStat : SftpM ω Unit := guarded os fun id => do
  let name ← getString
  let path ← makePath os home name
  replyAttrib id (os.getFileAttributesEx (← forCall path))

def processStat : SftpM ω Unit := processDoStat os home

def processLstat : SftpM ω Unit := processDoStat os home

def processFstat : SftpM ω Unit := do
  let id ← getInt
  let handle ← getHandle os
  -- for the log
  let _ ← handleToName handle
  let fh ← handleToFh handle
  let status ← whenValid fh (replyAttrib id (os.getFileInformationByHandle fh))
  if status ≠ Fx.ok then sendStatus id status

/-- The part of `process_setstat` behind the name. Only permissions can be set. -/
def setstatNamed (name : Bytes) : SftpM ω UInt32 := do
  let a ← getAttrib
  let path ← makePath os home name
  if hasFlag a.flags (Attr.size ||| Attr.acmodtime ||| Attr.uidgid) then
    pure Fx.opUnsupported
  else if hasFlag a.flags Attr.permissions then do
    let res ← call (os.setFileAttributes (← forCall path) (attribToStat a).dwFileAttributes)
    statusOf res
  else
    pure Fx.ok

/-- `process_setstat`. `utf8_name` is freed at the end, also when it has not been set. -/
def processSetstat : SftpM ω Unit := do
  match ← catching none (do pure (some (← getInt))) with
  | none => do
    let id ← uninitialized os
    sendStatus id Fx.failure
    throw .wildFree
  | some id =>
    match ← catching none (do pure (some (← getString))) with
    | none => do
      sendStatus id Fx.failure
      throw .wildFree
    | some name => do
      let status ← catching Fx.failure (setstatNamed os home name)
      sendStatus id status

/-- The basic information that `process_fsetstat` sets -/
def basicInfo (a : Attrib) (before : FileInfo) (now : FileTime) : BasicInfo :=
  let requested := attribToStat a
  { creationTime := before.ftCreationTime
    lastAccessTime :=
      if hasFlag a.flags Attr.acmodtime then requested.ftLastAccessTime
      else before.ftLastAccessTime
    lastWriteTime :=
      if hasFlag a.flags Attr.acmodtime then requested.ftLastWriteTime
      else before.ftLastWriteTime
    changeTime := now
    fileAttributes :=
      if hasFlag a.flags Attr.permissions then requested.dwFileAttributes
      else before.dwFileAttributes }

/-- The size is set also when the owner was to be set, and its status then counts if it fails. -/
def setSize (fh : WinHandle) (a : Attrib) (status : UInt32) : SftpM ω UInt32 := do
  if hasFlag a.flags Attr.size then do
    if !(← call (os.setFilePointer fh a.size)) then
      lastStatus
    else if !(← call (os.setEndOfFile fh)) then
      lastStatus
    else
      pure status
  else
    pure status

def setBasicInfo (fh : WinHandle) (a : Attrib) : SftpM ω UInt32 := do
  match ← call (os.getFileInformationByHandle fh) with
  | none => lastStatus
  | some before => do
    let now ← call os.systemTime
    let res ← call (os.setFileInformationByHandle fh (basicInfo a before now))
    statusOf res

/-- The part of `process_fsetstat` with a file that is open -/
def setAttrib (fh : WinHandle) (a : Attrib) : SftpM ω UInt32 := do
  let status ← setSize os fh a (if hasFlag a.flags Attr.uidgid then Fx.opUnsupported else Fx.ok)
  if status = Fx.ok then setBasicInfo os fh a else pure status

def processFsetstat : SftpM ω Unit := do
  let id ← getInt
  let handle ← getHandle os
  let a ← getAttrib
  let fh ← handleToFh handle
  let status ← whenValid fh (setAttrib os fh a)
  sendStatus id status

def processOpendir : SftpM ω Unit := guarded os fun id => do
  let name ← getString
  let path ← makePath os home name
  let fh ← call (os.createFile (← forCall path) (genericRead ||| genericWrite) 3
    fileFlagBackupSemantics)
  openHandle os id fh (handleNew .dir path 0 fh)

def statOf (st : FindData) : Stat where
  name := toUTF8 os st.cFileName
  longName := toUTF8 os (lsFile (os.formatTime st.ftLastWriteTime) st)
  attrib := statToAttrib st.toFileInfo

/-- The loop of `process_readdir`, with the number of entries that may still be taken. The flag
says that there are no more. -/
def findFiles (search : WinHandle) : Nat → SftpM ω (List Stat × Bool)
  | 0 => pure ([], false)
  | n + 1 => do
    match ← call (os.findNextFile search) with
    | none => pure ([], true)
    | some st => do
      let (stats, done) ← findFiles search n
      pure (statOf os st :: stats, done)

/-- A search begins with the first request. What `FindFirstFile` has found is not looked at. -/
def startSearch (handle : Int) (dirPath : SFTPFilePath) (search : WinHandle) (done : Bool) :
    SftpM ω WinHandle :=
  if !done && search = invalidHandleValue then do
    let mask ← liftPath (dirPath.getMaskForDirSearch true)
    let search ← call (os.findFirstFile mask)
    modifyHandle handle fun h => { h with searchHandle := search }
    pure search
  else
    pure search

def continueSearch (handle : Int) (search : WinHandle) (done : Bool) : SftpM ω (List Stat × Bool) :=
  if !done && search ≠ invalidHandleValue then do
    let found ← findFiles os search 100
    modifyHandle handle fun h => { h with searchDone := found.2 }
    pure found
  else
    pure ([], done)

def endSearch (handle : Int) (search : WinHandle) (done : Bool) : SftpM ω Unit :=
  if done && search ≠ invalidHandleValue then do
    let _ ← call (os.findClose search)
    modifyHandle handle fun h => { h with searchHandle := 0 }
  else
    pure ()

/-- The part of `process_readdir` with a directory that is open. `search` and `done` are the
members of the handle. -/
def readEntries (id : UInt32) (handle : Int) (dirPath : SFTPFilePath) (search : WinHandle)
    (done : Bool) : SftpM ω Unit := do
  let search ← startSearch os handle dirPath search done
  let found ← continueSearch os handle search done
  endSearch os handle search found.2
  if found.1 ≠ [] then
    sendNames id found.1
  else do
    modifyHandle handle fun h =>
      { h with searchHandle := invalidHandleValue, searchDone := false }
    sendStatus id Fx.eof

def processReaddir : SftpM ω Unit := do
  let id ← getInt
  let handle ← getHandle os
  -- for the log
  let _ ← handleToName handle
  let dh ← handleToDir handle
  let dirPath ← handleToPath handle
  let name ← liftPath (dirPath.toWString true)
  if dh = invalidHandleValue ∨ name.length = 0 then
    sendStatus id Fx.failure
  else
    match (← get).handleAt handle with
    | some h => readEntries os id handle dirPath h.searchHandle h.searchDone
    | none => throw (.noSuchHandle handle)

/-- `process_remove` and `process_rmdir` -/
def removeWith (delete : WString → Api ω Bool) : SftpM ω Unit := do
  let id ← getInt
  let name ← getString
  let path ← makePath os home name
  let res ← call (delete (← forCall path))
  let status ← statusOf res
  sendStatus id status

def processRemove : SftpM ω Unit := removeWith os home os.deleteFile

def processRmdir : SftpM ω Unit := removeWith os home os.removeDirectory

/-- The loop of `create_directory_path` over the numbers of directories -/
def createDirectories (path : SFTPFilePath) : List Nat → SftpM ω Bool
  | [] => pure true
  | k :: ks => do
    let p2 ← liftPath (path.nFirstDirs true k)
    match ← call (os.getFileAttributesEx (← forCall p2)) with
    | some _ => createDirectories path ks
    | none => do
      if !(← call (os.createDirectory (← forCall p2))) then
        pure false
      else
        createDirectories path ks

def createDirectoryPath (path : SFTPFilePath) : SftpM ω Bool :=
  createDirectories os path (List.range' (path.nUserHomePos + 1) (path.nDirs - path.nUserHomePos))

/-- `process_mkdir` looks at the last error whether the call has failed or not. -/
def processMkdir : SftpM ω Unit := do
  let id ← getInt
  let name ← getString
  let _ ← getAttrib
  let path ← makePath os home name
  let res ← call (os.createDirectory (← forCall path))
  let err ← getLastError
  if err = WinError.pathNotFound then do
    let res ← createDirectoryPath os path
    let status ← statusOf res
    sendStatus id status
  else
    sendStatus id (if res then Fx.ok else errnoToPortable err)

def processRealpath : SftpM ω Unit := guarded os fun id => do
  let name ← getString
  let path ← makePath os home name
  let text := toUTF8 os (← liftPath (path.unixForm true))
  sendNames id [{ name := text, longName := text, attrib := {} }]
  pure Fx.ok

def invalidFileAttributes : UInt32 := 0xffffffff

/-- The status of a renaming with `MoveFileExW` -/
def move (oldName newName : WString) : SftpM ω UInt32 := do
  let res ← call (os.moveFileEx oldName newName)
  statusOf res

/-- `move`, when there is no file with the new name -/
def moveToNew (oldName newName : WString) : SftpM ω UInt32 := do
  if (← call (os.getFileAttributes newName)) = invalidFileAttributes then
    move os oldName newName
  else
    pure Fx.failure

def renameStatus (oldName newName : WString) : SftpM ω UInt32 := do
  let oldFileAttrs ← call (os.getFileAttributes oldName)
  if oldFileAttrs = invalidFileAttributes then
    lastStatus
  else if hasFlag oldFileAttrs FileAttribute.normal then do
    -- "Race-free rename of regular files"
    if !(← call (os.createHardLink newName oldName)) then
      moveToNew os oldName newName
    else if !(← call (os.deleteFile oldName)) then do
      let status ← lastStatus
      let _ ← call (os.deleteFile newName)
      pure status
    else
      pure Fx.ok
  else
    moveToNew os oldName newName

def processRename : SftpM ω Unit := do
  let id ← getInt
  let oldName ← getString
  let newName ← getString
  let oldPath ← makePath os home oldName
  let newPath ← makePath os home newName
  let status ← renameStatus os (← forCall oldPath) (← forCall newPath)
  sendStatus id status

end Handlers

def processReadlink : SftpM ω Unit := do
  let id ← getInt
  let _ ← getString
  sendStatus id Fx.opUnsupported

def processSymlink : SftpM ω Unit := do
  let id ← getInt
  let _ ← getString
  let _ ← getString
  sendStatus id Fx.opUnsupported

def processExtended : SftpM ω Unit := do
  let id ← getInt
  let _ ← getString
  sendStatus id Fx.opUnsupported

/-! ## §6 process -/

variable (os : Win32 ω) (home : SFTPFilePath)

/-- The `switch`. An unknown message is only logged. -/
def dispatch (type : UInt8) : SftpM ω Unit :=
  if type = Fxp.init then processInit
  else if type = Fxp.open' then processOpen os home
  else if type = Fxp.close then processClose os
  else if type = Fxp.read then processRead os
  else if type = Fxp.write then processWrite os
  else if type = Fxp.lstat then processLstat os home
  else if type = Fxp.fstat then processFstat os
  else if type = Fxp.setstat then processSetstat os home
  else if type = Fxp.fsetstat then processFsetstat os
  else if type = Fxp.opendir then processOpendir os home
  else if type = Fxp.readdir then processReaddir os
  else if type = Fxp.remove then processRemove os home
  else if type = Fxp.mkdir then processMkdir os home
  else if type = Fxp.rmdir then processRmdir os home
  else if type = Fxp.realpath then processRealpath os home
  else if type = Fxp.stat then processStat os home
  else if type = Fxp.rename then processRename os home
  else if type = Fxp.readlink then processReadlink
  else if type = Fxp.symlink then processSymlink
  else if type = Fxp.extended then processExtended
  else pure ()

/-- "discard the remaining bytes from the current packet" -/
def discardRest (msgLen : UInt32) : SftpM ω Unit := do
  let left := UInt32.ofNat (← get).iqueue.length
  if msgLen < left then
    -- "iqueue grew unexpectedly"
    throw (.halt (.exit 255))
  else do
    let consumed := msgLen - left
    if msgLen < consumed then
      throw (.halt (.exit 255))
    else if msgLen > consumed then do
      let _ ← onIqueue (bufferGetOr "buffer_consume: buffer error" (msgLen - consumed).toNat)

def process : SftpM ω Unit := do
  let msgLen ← getInt
  let type ← onIqueue bufferGetChar
  dispatch os home type
  discardRest msgLen

/-! ## Systems to look at -/

/-- A call, when there is more in the world than it knows of -/
def through {ω σ α : Type} (f : Api ω α) : Api (ω × σ) α := fun w => ((f w.1).1, (f w.1).2, w.2)

/-- The same system, with something else beside it -/
def Win32.beside {ω : Type} (os : Win32 ω) (σ : Type) : Win32 (ω × σ) where
  createFile name access disposition flags := through (os.createFile name access disposition flags)
  closeHandle h := through (os.closeHandle h)
  setFilePointer h offset := through (os.setFilePointer h offset)
  readFile h len := through (os.readFile h len)
  writeFile h data := through (os.writeFile h data)
  setEndOfFile h := through (os.setEndOfFile h)
  getFileAttributesEx name := through (os.getFileAttributesEx name)
  getFileInformationByHandle h := through (os.getFileInformationByHandle h)
  setFileInformationByHandle h info := through (os.setFileInformationByHandle h info)
  getFileAttributes name := through (os.getFileAttributes name)
  setFileAttributes name attributes := through (os.setFileAttributes name attributes)
  findFirstFile mask := through (os.findFirstFile mask)
  findNextFile h := through (os.findNextFile h)
  findClose h := through (os.findClose h)
  deleteFile name := through (os.deleteFile name)
  createDirectory name := through (os.createDirectory name)
  removeDirectory name := through (os.removeDirectory name)
  createHardLink newName oldName := through (os.createHardLink newName oldName)
  moveFileEx oldName newName := through (os.moveFileEx oldName newName)
  systemTime := through os.systemTime
  toWide := os.toWide
  ofWide := os.ofWide
  ofWide_length := os.ofWide_length
  formatTime := os.formatTime
  formatTime_length := os.formatTime_length
  uninitialized w := os.uninitialized w.1

/-- A system in which every call fails with the same last error -/
def brokenSystem (err : UInt32) : Win32 Unit where
  createFile _ _ _ _ := fun w => (⟨invalidHandleValue, err⟩, w)
  closeHandle _ := fun w => (⟨false, err⟩, w)
  setFilePointer _ _ := fun w => (⟨false, err⟩, w)
  readFile _ _ := fun w => (⟨none, err⟩, w)
  writeFile _ _ := fun w => (⟨none, err⟩, w)
  setEndOfFile _ := fun w => (⟨false, err⟩, w)
  getFileAttributesEx _ := fun w => (⟨none, err⟩, w)
  getFileInformationByHandle _ := fun w => (⟨none, err⟩, w)
  setFileInformationByHandle _ _ := fun w => (⟨false, err⟩, w)
  getFileAttributes _ := fun w => (⟨invalidFileAttributes, err⟩, w)
  setFileAttributes _ _ := fun w => (⟨false, err⟩, w)
  findFirstFile _ := fun w => (⟨invalidHandleValue, err⟩, w)
  findNextFile _ := fun w => (⟨none, err⟩, w)
  findClose _ := fun w => (⟨false, err⟩, w)
  deleteFile _ := fun w => (⟨false, err⟩, w)
  createDirectory _ := fun w => (⟨false, err⟩, w)
  removeDirectory _ := fun w => (⟨false, err⟩, w)
  createHardLink _ _ := fun w => (⟨false, err⟩, w)
  moveFileEx _ _ := fun w => (⟨false, err⟩, w)
  systemTime := fun w => (⟨0, err⟩, w)
  toWide b := b.map fun c => UInt16.ofNat c.toNat
  ofWide w := w.map fun c => UInt8.ofNat c.toNat
  ofWide_length w := by
    rw [List.length_map]
    omega
  formatTime _ := []
  formatTime_length _ := Nat.zero_le _
  uninitialized _ := 0

/-- `C:\home` -/
def someHome : SFTPFilePath where
  path := [wstr ['h', 'o', 'm', 'e']]
  drive := L 'c'
  isRelative := false
  nUserHomePos := 1
  notRelative := rfl

end Shiesh.Sftp
