import Shiesh.Wire
import Shiesh.Sftp.Path

/-!
# File Attributes

`sftp-common.cpp`: attributes in SFTP messages, their conversion from and to what the Win32
functions use, and the long form of a directory entry.

The three Windows records with the data of a file (`BY_HANDLE_FILE_INFORMATION`,
`WIN32_FILE_ATTRIBUTE_DATA`, `WIN32_FIND_DATA`) are one type here: the overloads of
`stat_to_attrib` copy the same fields from one to the other. A number in two halves, such as a
`FILETIME`, is one 64-bit number.
-/

namespace Shiesh.Sftp

open Shiesh.Lib

/-! ## Constants -/

namespace Attr

abbrev size : UInt32 := 0x00000001
abbrev uidgid : UInt32 := 0x00000002
abbrev permissions : UInt32 := 0x00000004
abbrev acmodtime : UInt32 := 0x00000008
abbrev extended : UInt32 := 0x80000000

end Attr

namespace FileAttribute

abbrev readonly : UInt32 := 0x01
abbrev directory : UInt32 := 0x10
abbrev normal : UInt32 := 0x80

end FileAttribute

namespace Mode

abbrev ifmt : UInt32 := 0xf000
abbrev ifdir : UInt32 := 0x4000
abbrev ifchr : UInt32 := 0x2000
abbrev ifreg : UInt32 := 0x8000
abbrev ififo : UInt32 := 0x1000
abbrev iread : UInt32 := 0x0100
abbrev iwrite : UInt32 := 0x0080
abbrev iexec : UInt32 := 0x0040

end Mode

/-- Is one of the bits set? -/
def hasFlag (flags bits : UInt32) : Bool := flags &&& bits != 0

/-! ## Permissions and times -/

def toPOSIXFilePerm (wPerm : UInt32) : UInt32 :=
  0o444 ||| (if hasFlag wPerm FileAttribute.readonly then 0 else 0o222) |||
    (if hasFlag wPerm FileAttribute.directory then Mode.ifdir ||| 0o111 else Mode.ifreg)

def toWindowsFilePerm (pPerm : UInt32) : UInt32 :=
  let wPerm := (if hasFlag pPerm 0o222 then 0 else FileAttribute.readonly) |||
    (if hasFlag pPerm Mode.ifdir then FileAttribute.directory else 0)
  if wPerm = 0 then FileAttribute.normal else wPerm

/-- `FILETIME`: units of 100 ns since 1601 -/
abbrev FileTime := UInt64

/-- The start of 1970 -/
def timeAdjust : Int64 := 116444736000000000

def timetToFileTime (t : UInt32) : FileTime :=
  (t.toInt32.toInt64 * 10000000 + timeAdjust).toUInt64

def fileTimeToTimet (ft : FileTime) : UInt32 :=
  ((ft.toInt64 - timeAdjust) / 10000000).toUInt64.toUInt32

/-! ## Attributes -/

structure Attrib where
  flags : UInt32 := 0
  size : UInt64 := 0
  uid : UInt32 := 0
  gid : UInt32 := 0
  perm : UInt32 := 0
  atime : UInt32 := 0
  mtime : UInt32 := 0
  deriving DecidableEq, Repr

structure FileInfo where
  dwFileAttributes : UInt32 := 0
  ftCreationTime : FileTime := 0
  ftLastAccessTime : FileTime := 0
  ftLastWriteTime : FileTime := 0
  nFileSize : UInt64 := 0
  deriving DecidableEq, Repr

/-- `stat_to_attrib`. Both times are taken from the last access. -/
def statToAttrib (st : FileInfo) : Attrib :=
  let atime := fileTimeToTimet st.ftLastAccessTime
  let mtime := fileTimeToTimet st.ftLastAccessTime
  { flags := Attr.size ||| Attr.permissions |||
      (if atime ≠ 0 ∧ mtime ≠ 0 then Attr.acmodtime else 0)
    size := st.nFileSize
    perm := toPOSIXFilePerm st.dwFileAttributes
    atime := atime
    mtime := mtime }

/-- `attrib_to_stat`. The permissions are made from `flags`, not from `perm`. -/
def attribToStat (a : Attrib) : FileInfo where
  nFileSize := if hasFlag a.flags Attr.size then a.size else 0
  dwFileAttributes :=
    if hasFlag a.flags Attr.permissions then toWindowsFilePerm a.flags else 0
  ftLastAccessTime := if hasFlag a.flags Attr.acmodtime then timetToFileTime a.atime else 0
  ftLastWriteTime := if hasFlag a.flags Attr.acmodtime then timetToFileTime a.mtime else 0

/-! ## Attributes in messages -/

def putU64 (v : UInt64) : Bytes := beBytes 8 v.toNat

theorem putU64_length (v : UInt64) : (putU64 v).length = 8 := beBytes_length 8 _

def bufferGetInt64 : Get UInt64 := do
  pure (UInt64.ofNat (beNat (← bufferGetOr "buffer_get_int: buffer error" 8)))

/-- A part that is there only with its flag -/
def getIf {α : Type} (present : Bool) (default : α) (g : Get α) : Get α :=
  if present then g else pure default

/-- The vendor-specific extensions: pairs of strings -/
def getExtensions : Nat → Get Unit
  | 0 => pure ()
  | count + 1 => do
    let _ ← bufferGetString
    let _ ← bufferGetString
    getExtensions count

def decodeAttrib : Get Attrib := do
  let flags ← bufferGetInt
  let size ← getIf (hasFlag flags Attr.size) 0 bufferGetInt64
  let uid ← getIf (hasFlag flags Attr.uidgid) 0 bufferGetInt
  let gid ← getIf (hasFlag flags Attr.uidgid) 0 bufferGetInt
  let perm ← getIf (hasFlag flags Attr.permissions) 0 bufferGetInt
  let atime ← getIf (hasFlag flags Attr.acmodtime) 0 bufferGetInt
  let mtime ← getIf (hasFlag flags Attr.acmodtime) 0 bufferGetInt
  if hasFlag flags Attr.extended then do
    -- an `int`: a negative count makes no turns
    let count ← bufferGetInt
    getExtensions count.toInt32.toInt.toNat
  pure { flags, size, uid, gid, perm, atime, mtime }

/-- A part that is there only with its flag -/
def putIf (present : Bool) (b : Bytes) : Bytes := if present then b else []

theorem putIf_append (present : Bool) (b b' : Bytes) :
    putIf present (b ++ b') = putIf present b ++ putIf present b' := by
  cases present with
  | true => rfl
  | false => rfl

def encodeAttrib (a : Attrib) : Bytes :=
  putU32 a.flags ++ putIf (hasFlag a.flags Attr.size) (putU64 a.size) ++
    putIf (hasFlag a.flags Attr.uidgid) (putU32 a.uid ++ putU32 a.gid) ++
    putIf (hasFlag a.flags Attr.permissions) (putU32 a.perm) ++
    putIf (hasFlag a.flags Attr.acmodtime) (putU32 a.atime ++ putU32 a.mtime)

/-! ## Directory entries -/

/-- What `FindNextFileW` says of a file. `cFileName` is an array of `MAX_PATH` characters with a
NUL at the end. -/
structure FindData extends FileInfo where
  cFileName : WString
  short : cFileName.length < 260

/-- `strmode`: the same three letters for the user, the group and the others -/
def strmode (mode : UInt32) : WString :=
  let type :=
    if mode &&& Mode.ifmt = Mode.ifdir then 'd'
    else if mode &&& Mode.ifmt = Mode.ifchr then 'c'
    else if mode &&& Mode.ifmt = Mode.ifreg then '-'
    else if mode &&& Mode.ifmt = Mode.ififo then 'p'
    else '?'
  let rwx :=
    [if hasFlag mode (Mode.iread ||| Mode.iwrite) then 'r' else '-',
      if hasFlag mode Mode.iwrite then 'w' else '-',
      if hasFlag mode Mode.iexec then 'x' else '-']
  wstr (type :: rwx ++ rwx ++ rwx ++ [' '])

/-- A field of at least `width` characters -/
def padLeft (width : Nat) (s : WString) : WString :=
  List.replicate (width - s.length) (L ' ') ++ s

def padRight (width : Nat) (s : WString) : WString :=
  s ++ List.replicate (width - s.length) (L ' ')

/-- `ls_file`. `tbuf` is the time as `wcsftime` writes it, or nothing. -/
def lsFile (tbuf : WString) (st : FindData) : WString :=
  strmode (toPOSIXFilePerm st.dwFileAttributes) ++ [L ' '] ++
    padRight 8 (wstr ['u', 's', 'e', 'r']) ++ [L ' '] ++
    padRight 8 (wstr ['g', 'r', 'o', 'u', 'p']) ++ [L ' '] ++
    padLeft 8 (wstr (Nat.toDigits 10 st.nFileSize.toNat)) ++ [L ' '] ++ tbuf ++ [L ' '] ++
    st.cFileName

end Shiesh.Sftp
